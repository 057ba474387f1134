import ConsoleSound.Sequence.Conversion
import ConsoleSound.Proofs.Sequence.Steps
/-! # What a track executes

The instructions that a track executes up to its end or its failure, each with the tick
at which it comes (`executed`), say which tracks it opens (`opened_runFor`) and which
resolution it leaves behind (`resolution_runFor`).

The resolution is handed on from track to track, but no instruction looks at it: a track
that starts with another one executes the same, and differs in the resolution only
(`executed_withResolution`, `runFor_withResolution`). -/

namespace ConsoleSound

/-- An instruction and the tick at which it is executed. -/
structure Execution where
  tick : UInt32
  instruction : Instruction
  deriving DecidableEq, Repr

namespace Execution

/-- The track that an instruction opens, which starts at the tick of the instruction. -/
def opened? (execution : Execution) : Option PendingTrack :=
  match execution.instruction with
  | .openTrack player offset => some ⟨player, execution.tick, offset⟩
  | _ => none

/-- The resolution that an instruction sets; a timebase of zero sets none. -/
def resolution? (execution : Execution) : Option UInt16 :=
  match execution.instruction with
  | .set .timebase value => if value = 0 then none else some value.toUInt16
  | _ => none

end Execution

/-- The resolution after some instructions: the last one that they set, or the one before. -/
def resolutionAfter (resolution : UInt16) (executions : List Execution) : UInt16 :=
  (executions.filterMap Execution.resolution?).getLast?.getD resolution

theorem resolutionAfter_append (resolution : UInt16) (before after : List Execution) :
    resolutionAfter resolution (before ++ after)
      = resolutionAfter (resolutionAfter resolution before) after := by
  rw [resolutionAfter, resolutionAfter, resolutionAfter, List.filterMap_append,
    List.getLast?_append]
  cases (after.filterMap Execution.resolution?).getLast? <;> rfl

namespace Player

/-- The instruction that a track executes next, if one can be read, at its tick. -/
def execution? (player : Player) : Option Execution :=
  player.instruction?.map fun instruction => ⟨player.track.cursor, instruction⟩

/-- What a track executes in at most `steps` steps. -/
def executed : (steps : Nat) → Player → List Execution
  | 0, _ => []
  | steps + 1, player =>
    player.execution?.toList
      ++ match player.step with
        | .next player => executed steps player
        | _ => []

/-- A track with another resolution. -/
def withResolution (player : Player) (resolution : UInt16) : Player := { player with resolution }

/-- An instruction that cannot be read fails the track. -/
theorem step_of_instruction?_eq_none {player : Player} (h : player.instruction? = none) :
    ∃ register error, player.step = .failed { player with register } error := by
  rw [instruction?] at h
  rcases hread : Instruction.read player.code player.offset player.register with ⟨result, register⟩
  rw [hread] at h
  cases result with
  | error error => exact ⟨register, error, by rw [step, hread]⟩
  | ok read => exact absurd h (Option.some_ne_none _)

end Player

namespace StepResult

/-- The state that a step leads to, whether or not the track goes on. -/
def player : StepResult → Player
  | next player => player
  | done player => player
  | failed player _ => player

/-- What a step leads to, with another resolution. -/
def withResolution (resolution : UInt16) : StepResult → StepResult
  | next player => next (player.withResolution resolution)
  | done player => done (player.withResolution resolution)
  | failed player error => failed (player.withResolution resolution) error

end StepResult

namespace Player

/-! ## Opened tracks -/

/-- An instruction adds the track that it opens to the opened ones, and no other. -/
theorem opened_execute (player : Player) (origin : Nat) (instruction : Instruction) :
    (player.execute origin instruction).player.opened.toList
      = player.opened.toList
        ++ (Execution.opened? ⟨player.track.cursor, instruction⟩).toList := by
  cases instruction with
  | openTrack track offset => exact Array.toList_push
  | note key velocity duration =>
      cases hwait : player.noteWait <;>
        simp [execute, StepResult.player, playNote, write, hwait, Execution.opened?]
  | set control value =>
      cases control with
      | timebase =>
          by_cases hvalue : value = 0 <;>
            simp [execute, StepResult.player, setControl, hvalue, Execution.opened?]
      | _ => simp [execute, StepResult.player, setControl, write, Execution.opened?]
  | setWord control value =>
      cases control <;> simp [execute, StepResult.player, write, Execution.opened?]
  | loopEnd =>
      rw [execute, endLoop]
      split
      · simp [StepResult.player, Execution.opened?]
      · split <;> simp [StepResult.player, Execution.opened?]
  | jump target | call target | ret | loopStart count =>
      simp only [execute]
      split <;> simp [StepResult.player, Execution.opened?]
  | _ => simp [execute, StepResult.player, write, Execution.opened?]

theorem opened_step (player : Player) :
    player.step.player.opened.toList
      = player.opened.toList ++ player.execution?.toList.filterMap Execution.opened? := by
  cases hread : player.instruction? with
  | some instruction =>
      obtain ⟨offset, register, hstep⟩ := step_of_instruction? hread
      rw [hstep, opened_execute, execution?, hread, Option.map_some, Option.toList_some,
        List.filterMap_cons, List.filterMap_nil]
      cases Execution.opened? ⟨player.track.cursor, instruction⟩ <;> rfl
  | none =>
      obtain ⟨register, error, hstep⟩ := step_of_instruction?_eq_none hread
      rw [hstep, execution?, hread]
      exact (List.append_nil _).symm

/-- A run opens the tracks that the instructions it executes open. -/
theorem opened_runFor (steps : Nat) (player : Player) :
    (runFor steps player).1.opened.toList
      = player.opened.toList ++ (executed steps player).filterMap Execution.opened? := by
  induction steps generalizing player with
  | zero => exact (List.append_nil _).symm
  | succ steps ih =>
      have hopened := opened_step player
      rw [runFor, executed]
      cases hstep : player.step with
      | next next =>
          rw [hstep] at hopened
          rw [ih next, List.filterMap_append, ← List.append_assoc, ← hopened]
          rfl
      | done final | failed final error =>
          rw [hstep] at hopened
          rw [List.append_nil]
          exact hopened

/-! ## The resolution -/

/-- An instruction does the same with another resolution, and hands that one on unless it
sets one itself. -/
theorem execute_withResolution (player : Player) (resolution : UInt16) (origin : Nat)
    (instruction : Instruction) :
    (player.withResolution resolution).execute origin instruction
      = (player.execute origin instruction).withResolution
          ((Execution.resolution? ⟨player.track.cursor, instruction⟩).getD resolution) := by
  cases instruction with
  | note key velocity duration =>
      cases hwait : player.noteWait <;>
        simp [execute, StepResult.withResolution, withResolution, playNote, write, hwait,
          Execution.resolution?]
  | set control value =>
      cases control with
      | timebase =>
          by_cases hvalue : value = 0 <;>
            simp [execute, StepResult.withResolution, withResolution, setControl, hvalue,
              Execution.resolution?]
      | _ => rfl
  | setWord control value => cases control <;> rfl
  | loopEnd =>
      simp only [execute, endLoop, withResolution]
      split
      · rfl
      · split <;> rfl
  | ret =>
      simp only [execute, withResolution]
      split <;> rfl
  | jump target =>
      by_cases htaken : target ∈ player.jumps <;>
        simp [execute, StepResult.withResolution, withResolution, htaken, Execution.resolution?]
  | call target =>
      by_cases hdeep : nestingLimit ≤ player.calls.length <;>
        simp [execute, StepResult.withResolution, withResolution, hdeep, Execution.resolution?]
  | loopStart count =>
      by_cases hdeep : nestingLimit ≤ player.loops.length <;>
        simp [execute, StepResult.withResolution, withResolution, hdeep, Execution.resolution?]
  | _ => rfl

theorem execution?_withResolution (player : Player) (resolution : UInt16) :
    (player.withResolution resolution).execution? = player.execution? := rfl

theorem step_withResolution (player : Player) (resolution : UInt16) :
    (player.withResolution resolution).step
      = player.step.withResolution (resolutionAfter resolution player.execution?.toList) := by
  rcases hread : Instruction.read player.code player.offset player.register with ⟨result, register⟩
  have hread' : Instruction.read (player.withResolution resolution).code
      (player.withResolution resolution).offset (player.withResolution resolution).register
      = (result, register) := hread
  cases result with
  | error error =>
      have hnone : player.instruction? = none := by rw [instruction?, hread]
      rw [step, step, hread, hread', execution?, hnone]
      rfl
  | ok read =>
      obtain ⟨instruction, offset⟩ := read
      have hsome : player.instruction? = some instruction := by rw [instruction?, hread]
      have hexecute := execute_withResolution { player with register, offset } resolution
        player.offset instruction
      rw [step, step, hread, hread', execution?, hsome]
      refine hexecute.trans (congrArg (StepResult.withResolution · _) ?_)
      rw [resolutionAfter, Option.map_some, Option.toList_some, List.filterMap_cons,
        List.filterMap_nil]
      cases Execution.resolution? ⟨player.track.cursor, instruction⟩ <;> rfl

/-- What a track executes does not hang on the resolution that it starts with. -/
theorem executed_withResolution (steps : Nat) (player : Player) (resolution : UInt16) :
    executed steps (player.withResolution resolution) = executed steps player := by
  induction steps generalizing player resolution with
  | zero => rfl
  | succ steps ih =>
      rw [executed, executed, execution?_withResolution, step_withResolution]
      cases player.step with
      | next next => exact congrArg (player.execution?.toList ++ ·) (ih next _)
      | done final | failed final error => rfl

/-- A run that starts with another resolution does the same, and leaves that one behind
unless its instructions set one. -/
theorem runFor_withResolution (steps : Nat) (player : Player) (resolution : UInt16) :
    runFor steps (player.withResolution resolution)
      = ((runFor steps player).1.withResolution
          (resolutionAfter resolution (executed steps player)), (runFor steps player).2) := by
  induction steps generalizing player resolution with
  | zero => rfl
  | succ steps ih =>
      rw [runFor, runFor, executed, step_withResolution]
      cases player.step with
      | next next =>
          refine (ih next _).trans ?_
          rw [resolutionAfter_append]
      | done final | failed final error =>
          rw [List.append_nil]
          rfl

/-- The resolution after a run is the one that its instructions set last. -/
theorem resolution_runFor (steps : Nat) (player : Player) :
    (runFor steps player).1.resolution
      = resolutionAfter player.resolution (executed steps player) := by
  have hsame : player.withResolution player.resolution = player := rfl
  have hrun := runFor_withResolution steps player player.resolution
  rw [hsame] at hrun
  rw [hrun]
  rfl

end Player

end ConsoleSound

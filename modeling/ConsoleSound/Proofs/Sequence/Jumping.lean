import Mathlib.Data.List.Perm.Subperm
import ConsoleSound.Proofs.Sequence.Places
import ConsoleSound.Proofs.Sequence.Reading
/-! # Tracks without calls and loops

A track that calls nothing and opens no loop comes to an end without the step limit. Between
two jumps it reads forward, at most once for every byte of the code, and it takes no jump to
a target twice. The targets are stored in the code, behind the bytes 0x89 (`jumpOffsets`), so
there are no more of them than there are such bytes.

`Player.Lone` is what such a track keeps, and `Place.readsLeft` bounds how many instructions
it can still read: every instruction that goes on lowers the bound (`Lone.step`). -/

namespace ConsoleSound

/-- Whether an instruction calls or opens a loop. -/
def Instruction.nests : Instruction → Bool
  | call _ | loopStart _ => true
  | _ => false

/-- The offsets of a code at which a jump could stand. -/
def jumpOffsets (code : Bytes) : List Nat :=
  (List.range code.size).filter fun offset => code[offset]? = some 0x89

/-- Where a jump at an offset leads. -/
def jumpTarget (code : Bytes) (offset : Nat) : UInt32 :=
  match Bytecode.number code (offset + 1) 3 with
  | .ok (number, _) => UInt32.ofNat number
  | .error _ => 0

/-- A jump that is read stands at one of these offsets and leads to the target stored there. -/
theorem jumpTarget_of_read {code : Bytes} {offset next : Nat}
    {register register' : ArgumentRegister} {target : UInt32}
    (h : Instruction.read code offset register = (.ok (.jump target, next), register')) :
    target ∈ (jumpOffsets code).map (jumpTarget code) := by
  obtain ⟨hopcode, number, hnumber, htarget⟩ := Instruction.read_jump h
  have hlt := (Array.getElem?_eq_some_iff.mp hopcode).1
  refine List.mem_map.mpr ⟨offset, List.mem_filter.mpr ⟨List.mem_range.mpr hlt, ?_⟩, ?_⟩
  · exact decide_eq_true hopcode
  · rw [jumpTarget, hnumber, htarget]

/-- How many instructions a track can still read behind the next one, if it takes no jump to
a target twice and reads forward in between. -/
def Place.readsLeft (place : Place) : Nat :=
  ((jumpOffsets place.code).length - place.jumps.length) * (place.code.size + 1)
    + (place.code.size - place.offset)

namespace Player

/-- How a track can stop that calls nothing and opens no loop. -/
inductive Stops (player : Player) : Prop where
  | undecodable : player.instruction? = none → Stops player
  | fin : player.instruction? = some .fin → Stops player
  | ret : player.instruction? = some .ret → player.calls = [] → Stops player
  | repeatedJump {target : UInt32} : player.instruction? = some (.jump target) →
      target ∈ player.jumps → Stops player

/-- What a track without calls and loops keeps. -/
structure Lone (place : Place) : Prop where
  calls : place.calls = []
  loops : place.loops = []
  distinct : place.jumps.Nodup
  stored : place.jumps ⊆ (jumpOffsets place.code).map (jumpTarget place.code)

theorem Lone.length_jumps_le {place : Place} (h : Lone place) :
    place.jumps.length ≤ (jumpOffsets place.code).length := by
  have hle := (h.distinct.subperm h.stored).length_le
  rwa [List.length_map] at hle

/-- An instruction that goes on keeps a track without calls and loops so, and uses up one of
the reads that are left. -/
theorem Lone.step {player next : Player} (h : Lone player.place)
    (hnests : ∀ instruction, player.instruction? = some instruction → instruction.nests = false)
    (hstep : player.step = .next next) :
    Lone next.place ∧ next.place.readsLeft < player.place.readsLeft := by
  obtain ⟨instruction, behind, register, hread, hmoves, -⟩ := moves_step hstep
  have hinstruction : player.instruction? = some instruction := by rw [instruction?, hread]
  have hbounds := Instruction.read_bounds hread
  have hplain := hnests instruction hinstruction
  generalize next.place = after at hmoves ⊢
  cases hmoves with
  | straight _ =>
      refine ⟨⟨h.calls, h.loops, h.distinct, h.stored⟩, ?_⟩
      show _ + (player.code.size - behind) < _ + (player.code.size - player.offset)
      exact Nat.add_lt_add_left (by omega) _
  | @jump target hnew =>
      have hnew : target ∉ player.jumps := hnew
      have hlone : Lone { player.place with
          register, jumps := target :: player.jumps, offset := target.toNat } :=
        ⟨h.calls, h.loops, List.nodup_cons.mpr ⟨hnew, h.distinct⟩,
          List.cons_subset.mpr ⟨jumpTarget_of_read hread, h.stored⟩⟩
      refine ⟨hlone, ?_⟩
      -- a new target is paid for with a whole pass over the code
      have hle : player.jumps.length + 1 ≤ (jumpOffsets player.code).length :=
        hlone.length_jumps_le
      obtain ⟨rest, hrest⟩ := Nat.exists_eq_add_of_le hle
      show ((jumpOffsets player.code).length - (player.jumps.length + 1)) * (player.code.size + 1)
          + (player.code.size - target.toNat)
        < ((jumpOffsets player.code).length - player.jumps.length) * (player.code.size + 1)
          + (player.code.size - player.offset)
      rw [show (jumpOffsets player.code).length - (player.jumps.length + 1) = rest by omega,
        show (jumpOffsets player.code).length - player.jumps.length = rest + 1 by omega,
        Nat.succ_mul]
      omega
  | call _ => cases hplain
  | ret hcalls => cases h.calls.symm.trans hcalls
  | loopStart _ => cases hplain
  | again hloops _ => cases h.loops.symm.trans hloops
  | leave hloops => cases h.loops.symm.trans hloops
  | stray _ =>
      refine ⟨⟨h.calls, h.loops, h.distinct, h.stored⟩, ?_⟩
      show _ + (player.code.size - behind) < _ + (player.code.size - player.offset)
      exact Nat.add_lt_add_left (by omega) _

/-- An instruction that does not go on stops the track, and not for having played too long. -/
theorem Lone.stops {player : Player} (h : Lone player.place)
    (hnests : ∀ instruction, player.instruction? = some instruction → instruction.nests = false)
    (hstep : ∀ next, player.step ≠ .next next) :
    player.Stops ∧ ∃ final error?, error? ≠ some .tooManySteps
      ∧ ∀ steps, runFor (steps + 1) player = (final, error?) := by
  have hdone : ∀ final, player.step = .done final →
      ∃ final error?, error? ≠ some .tooManySteps
        ∧ ∀ steps, runFor (steps + 1) player = (final, error?) :=
    fun final hdone =>
      ⟨final, none, (Option.some_ne_none _).symm, fun steps => by rw [runFor, hdone]⟩
  rcases hread : Instruction.read player.code player.offset player.register with ⟨result, register⟩
  have hfst := Instruction.read_ne_tooManySteps player.code player.offset player.register
  rw [hread] at hfst
  cases result with
  | error error =>
      have hfailed : player.step = .failed { player with register } error := by
        rw [Player.step, hread]
      refine ⟨.undecodable (by rw [instruction?, hread]), _, some error, ?_,
        fun steps => by rw [runFor, hfailed]⟩
      intro herror
      exact hfst (congrArg Except.error (Option.some.inj herror))
  | ok read =>
      obtain ⟨instruction, behind⟩ := read
      have hinstruction : player.instruction? = some instruction := by rw [instruction?, hread]
      have hexecute := step_of_read hread
      cases instruction with
      | jump target =>
          by_cases htaken : target ∈ player.jumps
          · exact ⟨.repeatedJump hinstruction htaken, hdone _ (hexecute.trans (if_pos htaken))⟩
          · exact absurd (hexecute.trans (if_neg htaken)) (hstep _)
      | ret =>
          have hcalls : player.calls = [] := h.calls
          have hends : (player.withPlace (player.placeBehind behind register)).execute player.offset
              .ret = .done (player.withPlace (player.placeBehind behind register)) := by
            rw [execute, show (player.withPlace (player.placeBehind behind register)).calls = []
              from hcalls]
          exact ⟨.ret hinstruction hcalls, hdone _ (hexecute.trans hends)⟩
      | fin => exact ⟨.fin hinstruction, hdone _ hexecute⟩
      | call target => cases hnests _ hinstruction
      | loopStart count => cases hnests _ hinstruction
      | loopEnd => exact absurd hexecute (hstep _)
      | _ =>
          rw [execute_straight rfl] at hexecute
          exact absurd hexecute (hstep _)

/-- A track that calls nothing and opens no loop stops while it has reads left. -/
theorem Lone.runs {player : Player} (h : Lone player.place)
    (hnests : ∀ count state instruction, player.after count = some state →
      state.instruction? = some instruction → instruction.nests = false) :
    ∃ count last, count ≤ player.place.readsLeft ∧ player.after count = some last ∧ last.Stops
      ∧ ∃ final error?, error? ≠ some .tooManySteps
        ∧ ∀ steps, runFor (count + (steps + 1)) player = (final, error?) := by
  -- the reads that are left go down with every instruction
  induction hleft : player.place.readsLeft using Nat.strongRecOn generalizing player with
  | _ left ih =>
      have hfirst := fun instruction => hnests 0 player instruction rfl
      by_cases hnext : ∃ next, player.step = .next next
      · obtain ⟨next, hstep⟩ := hnext
        obtain ⟨hlone, hlt⟩ := h.step hfirst hstep
        obtain ⟨count, last, hle, hafter, hstops, final, error?, hlimit, hruns⟩ :=
          ih _ (hleft ▸ hlt) hlone
            (fun count state instruction hstate =>
              hnests (count + 1) state instruction (by rw [after_succ_of_next hstep, hstate])) rfl
        refine ⟨count + 1, last, by omega, by rw [after_succ_of_next hstep, hafter], hstops, final,
          error?, hlimit, fun steps => ?_⟩
        rw [Nat.add_right_comm, runFor, hstep]
        exact hruns steps
      · obtain ⟨hstops, final, error?, hlimit, hruns⟩ :=
          h.stops hfirst fun next hstep => hnext ⟨next, hstep⟩
        refine ⟨0, player, Nat.zero_le _, rfl, hstops, final, error?, hlimit, fun steps => ?_⟩
        rw [Nat.zero_add]
        exact hruns steps

/-- What is read on the way is executed. -/
theorem mem_executed {player state : Player} {count : Nat} (h : player.after count = some state)
    {execution : Execution} (hread : state.execution? = some execution) :
    execution ∈ player.executed (count + 1) := by
  induction count generalizing player with
  | zero =>
      rw [← Option.some.inj h] at hread
      rw [executed, hread]
      exact List.mem_append_left _ List.mem_cons_self
  | succ count ih =>
      obtain ⟨next, hstep, hnext⟩ := exists_next_of_after h
      rw [executed, hstep]
      exact List.mem_append_right _ (ih hnext)

/-- **The jumps alone end a track** that calls nothing and opens no loop: however many
instructions it may execute, it stops with one of the first `(J + 1) * (size + 1)`, where `J`
offsets of the code hold the byte of a jump. So the step limit is out of its reach if it is
above that. -/
theorem stops_withoutNesting (code : Bytes) (mode : NoteMode) (resolution : UInt16)
    (pending : PendingTrack)
    (halone : ∀ steps, ∀ execution ∈ (start code mode resolution pending).executed steps,
      execution.instruction.nests = false) :
    (∃ count last final error?,
        count + 1 ≤ ((jumpOffsets code).length + 1) * (code.size + 1)
          ∧ (start code mode resolution pending).after count = some last ∧ last.Stops
          ∧ error? ≠ some .tooManySteps
          ∧ ∀ steps, count < steps →
              runFor steps (start code mode resolution pending) = (final, error?))
      ∧ (((jumpOffsets code).length + 1) * (code.size + 1) < stepLimit →
          (start code mode resolution pending).run.2 ≠ some .tooManySteps) := by
  have hlone : Lone (start code mode resolution pending).place :=
    ⟨rfl, rfl, List.nodup_nil, List.nil_subset _⟩
  have hleft : (start code mode resolution pending).place.readsLeft + 1
      ≤ ((jumpOffsets code).length + 1) * (code.size + 1) := by
    show ((jumpOffsets code).length - 0) * (code.size + 1) + (code.size - pending.offset.toNat) + 1
      ≤ _
    rw [Nat.sub_zero, Nat.succ_mul]
    omega
  obtain ⟨count, last, hle, hafter, hstops, final, error?, hlimit, hruns⟩ :=
    hlone.runs fun count state instruction hstate hread =>
      halone (count + 1) _ (mem_executed hstate
        (show state.execution? = some ⟨state.track.cursor, instruction⟩ by
          rw [execution?, hread]
          rfl))
  have hruns' : ∀ steps, count < steps →
      runFor steps (start code mode resolution pending) = (final, error?) := by
    intro steps hlt
    obtain ⟨more, rfl⟩ := Nat.exists_eq_add_of_lt hlt
    exact hruns more
  refine ⟨⟨count, last, final, error?, by omega, hafter, hstops, hlimit, hruns'⟩, ?_⟩
  intro hbelow
  rw [run, hruns' stepLimit (by omega)]
  exact hlimit

/-! ## Instructions that overlap -/

/-- A jump into its own target bytes, which read as a note there, and a jump back. -/
def overlapping : Bytes := #[0x89, 0x00, 0x00, 0x02, 0x10, 0x89, 0x00, 0x00, 0x00]

/-- When a track is over, nothing more is executed. -/
theorem mem_executed_of_done {player last final : Player} {count : Nat}
    (h : player.after count = some last) (hdone : last.step = .done final) (steps : Nat)
    {execution : Execution} (hmem : execution ∈ player.executed steps) :
    execution ∈ player.executed (count + 1) := by
  induction count generalizing player steps with
  | zero =>
      obtain rfl := Option.some.inj h
      cases steps with
      | zero => cases hmem
      | succ steps =>
          rw [executed, hdone] at hmem ⊢
          exact hmem
  | succ count ih =>
      cases steps with
      | zero => cases hmem
      | succ steps =>
          obtain ⟨next, hstep, hnext⟩ := exists_next_of_after h
          rw [executed, hstep] at hmem ⊢
          rcases List.mem_append.mp hmem with hfirst | hrest
          · exact List.mem_append_left _ hfirst
          · exact List.mem_append_right _ (ih hnext steps hrest)

/-- The track takes both jumps, the second back to the first, and stops at that one. -/
theorem stops_withoutNesting_overlapping :
    (∀ steps, ∀ execution ∈ (start overlapping .retrigger 48 ⟨0, 0, 0⟩).executed steps,
        execution.instruction.nests = false)
      ∧ (∃ count last final error?, count + 1 ≤ (2 + 1) * (9 + 1)
          ∧ (start overlapping .retrigger 48 ⟨0, 0, 0⟩).after count = some last ∧ last.Stops
          ∧ error? ≠ some .tooManySteps
          ∧ ∀ steps, count < steps →
              runFor steps (start overlapping .retrigger 48 ⟨0, 0, 0⟩) = (final, error?))
      ∧ (start overlapping .retrigger 48 ⟨0, 0, 0⟩).run.2 ≠ some .tooManySteps := by
  have hbehind : ∃ last final,
      (start overlapping .retrigger 48 ⟨0, 0, 0⟩).after 3 = some last ∧ last.step = .done final :=
    ⟨{ start overlapping .retrigger 48 ⟨0, 0, 0⟩ with
        jumps := [0, 2], track := Midi.Track.empty.addNote 0 0 2 16 }, _,
      by decide +kernel, rfl⟩
  obtain ⟨last, final, hafter, hdone⟩ := hbehind
  have hfour : ∀ execution ∈ (start overlapping .retrigger 48 ⟨0, 0, 0⟩).executed 4,
      execution.instruction.nests = false := by decide +kernel
  have halone : ∀ steps, ∀ execution ∈ (start overlapping .retrigger 48 ⟨0, 0, 0⟩).executed steps,
      execution.instruction.nests = false :=
    fun steps execution hmem => hfour execution (mem_executed_of_done hafter hdone steps hmem)
  have hjumps : (jumpOffsets overlapping).length = 2 := by decide +kernel
  obtain ⟨hstops, hlimit⟩ := stops_withoutNesting overlapping .retrigger 48 ⟨0, 0, 0⟩ halone
  rw [hjumps] at hstops hlimit
  exact ⟨halone, hstops, hlimit (by decide)⟩

end Player

end ConsoleSound

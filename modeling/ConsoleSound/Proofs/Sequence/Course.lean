import ConsoleSound.Proofs.Sequence.Steps
/-! # The course of a track

Which instructions a track executes depends on the code and on where it starts, and on
nothing else: not on the tick, the channel, the note mode or the resolution, and not on
what has been written. `SameCourse` relates two tracks that read at the same place with
the same open calls and loops, and every step preserves it. -/

namespace ConsoleSound

namespace Player

/-- The places at which the tracks opened so far start. -/
def openedOffsets (player : Player) : List UInt32 :=
  player.opened.toList.map PendingTrack.offset

/-- Two tracks at the same place of the same course. -/
structure SameCourse (left right : Player) : Prop where
  code : left.code = right.code
  offset : left.offset = right.offset
  register : left.register = right.register
  calls : left.calls = right.calls
  loops : left.loops = right.loops
  jumps : left.jumps = right.jumps
  opened : left.openedOffsets = right.openedOffsets

theorem SameCourse.refl (player : Player) : SameCourse player player :=
  ⟨rfl, rfl, rfl, rfl, rfl, rfl, rfl⟩

theorem SameCourse.symm {left right : Player} (h : SameCourse left right) :
    SameCourse right left :=
  ⟨h.code.symm, h.offset.symm, h.register.symm, h.calls.symm, h.loops.symm, h.jumps.symm,
    h.opened.symm⟩

theorem SameCourse.trans {first second third : Player} (h : SameCourse first second)
    (h' : SameCourse second third) : SameCourse first third :=
  ⟨h.code.trans h'.code, h.offset.trans h'.offset, h.register.trans h'.register,
    h.calls.trans h'.calls, h.loops.trans h'.loops, h.jumps.trans h'.jumps,
    h.opened.trans h'.opened⟩

/-! ## What does not change the course -/

/-- Writing into the track leaves the course alone. -/
theorem sameCourse_write (player : Player) (add : Midi.Track → Midi.Track) :
    SameCourse player (player.write add) := ⟨rfl, rfl, rfl, rfl, rfl, rfl, rfl⟩

theorem sameCourse_playNote (player : Player) (key velocity : UInt8) (duration : UInt32) :
    SameCourse player (player.playNote key velocity duration) := by
  cases hwait : player.noteWait with
  | true =>
      simp only [playNote, write, hwait, if_true]
      exact ⟨rfl, rfl, rfl, rfl, rfl, rfl, rfl⟩
  | false =>
      simp only [playNote, write, hwait, Bool.false_eq_true, if_false]
      exact ⟨rfl, rfl, rfl, rfl, rfl, rfl, rfl⟩

theorem sameCourse_setControl (player : Player) (control : Control) (value : UInt8) :
    SameCourse player (player.setControl control value) := by
  cases control with
  | timebase =>
      show SameCourse player
        (if value = 0 then player else { player with resolution := value.toUInt16 })
      split
      · exact .refl player
      · exact ⟨rfl, rfl, rfl, rfl, rfl, rfl, rfl⟩
  | _ => exact ⟨rfl, rfl, rfl, rfl, rfl, rfl, rfl⟩

/-- Two tracks that have each left their course alone are still on the same one. -/
theorem SameCourse.aside {left right left' right' : Player} (h : SameCourse left right)
    (hl : SameCourse left left') (hr : SameCourse right right') : SameCourse left' right' :=
  (hl.symm.trans h).trans hr

/-! ## Steps and runs -/

/-- Two steps that lead to the same place of a course, or end it alike. -/
inductive SameOutcome : StepResult → StepResult → Prop where
  | next {left right : Player} : SameCourse left right → SameOutcome (.next left) (.next right)
  | done {left right : Player} : SameCourse left right → SameOutcome (.done left) (.done right)
  | failed {left right : Player} (error : SequenceError) :
      SameCourse left right → SameOutcome (.failed left error) (.failed right error)

theorem SameCourse.endLoop {left right : Player} (h : SameCourse left right) :
    SameCourse left.endLoop right.endLoop := by
  rw [Player.endLoop, Player.endLoop, h.loops]
  split
  · exact h
  · split
    · exact ⟨h.code, rfl, h.register, h.calls, rfl, h.jumps, h.opened⟩
    · exact ⟨h.code, h.offset, h.register, h.calls, rfl, h.jumps, h.opened⟩

/-- One instruction leads two tracks on the same course to the same place. -/
theorem SameCourse.execute {left right : Player} (h : SameCourse left right)
    {origin origin' : Nat} (horigin : origin = origin') (instruction : Instruction) :
    SameOutcome (left.execute origin instruction) (right.execute origin' instruction) := by
  subst horigin
  cases instruction with
  | note key velocity duration =>
      exact .next (h.aside (sameCourse_playNote left key velocity duration)
        (sameCourse_playNote right key velocity duration))
  | wait ticks => exact .next (h.aside (sameCourse_write left _) (sameCourse_write right _))
  | program number => exact .next (h.aside (sameCourse_write left _) (sameCourse_write right _))
  | openTrack track offset =>
      -- the ticks at which the new tracks start may differ, their places do not
      refine .next ⟨h.code, h.offset, h.register, h.calls, h.loops, h.jumps, ?_⟩
      have hopened := h.opened
      simp only [openedOffsets, Array.toList_push, List.map_append, List.map_cons, List.map_nil]
        at hopened ⊢
      rw [hopened]
  | jump target =>
      simp only [Player.execute, h.jumps]
      split
      · exact .done h
      · exact .next ⟨h.code, rfl, h.register, h.calls, h.loops, rfl, h.opened⟩
  | call target =>
      simp only [Player.execute, h.calls, h.offset]
      split
      · exact .failed _ h
      · exact .next ⟨h.code, rfl, h.register, rfl, h.loops, h.jumps, h.opened⟩
  | ret =>
      simp only [Player.execute, h.calls]
      split
      · exact .done h
      · exact .next ⟨h.code, rfl, h.register, rfl, h.loops, h.jumps, h.opened⟩
  | fin => exact .done h
  | loopStart count =>
      simp only [Player.execute, h.loops, h.offset]
      split
      · exact .failed _ h
      · exact .next ⟨h.code, rfl, h.register, h.calls, rfl, h.jumps, h.opened⟩
  | loopEnd => exact .next h.endLoop
  | set control value =>
      exact .next (h.aside (sameCourse_setControl left control value)
        (sameCourse_setControl right control value))
  | setWord control value =>
      cases control with
      | tempo => exact .next (h.aside (sameCourse_write left _) (sameCourse_write right _))
      | modDelay => exact .next h
      | sweepPitch => exact .next h
  | random => exact .next h
  | fromVariable => exact .next h
  | ifHeld => exact .next h
  | extended sub operand => exact .next h
  | envReset => exact .next h
  | allocTrack mask => exact .next h

/-- Two tracks on the same course read the same instruction and stay on it. -/
theorem SameCourse.step {left right : Player} (h : SameCourse left right) :
    SameOutcome left.step right.step := by
  have hsame : Instruction.read left.code left.offset left.register
      = Instruction.read right.code right.offset right.register := by
    rw [h.code, h.offset, h.register]
  rw [Player.step, Player.step, hsame]
  rcases Instruction.read right.code right.offset right.register with ⟨result, register⟩
  cases result with
  | error error =>
      exact .failed error ⟨h.code, h.offset, rfl, h.calls, h.loops, h.jumps, h.opened⟩
  | ok read =>
      obtain ⟨instruction, offset⟩ := read
      have hread : SameCourse { left with register, offset } { right with register, offset } :=
        ⟨h.code, rfl, rfl, h.calls, h.loops, h.jumps, h.opened⟩
      exact hread.execute h.offset instruction

/-- Runs on the same course end at the same place and in the same way. -/
theorem SameCourse.runFor {left right : Player} (h : SameCourse left right) (steps : Nat) :
    SameCourse (runFor steps left).1 (runFor steps right).1
      ∧ (runFor steps left).2 = (runFor steps right).2 := by
  induction steps generalizing left right with
  | zero => exact ⟨h, rfl⟩
  | succ steps ih =>
      have hstep := h.step
      rw [Player.runFor, Player.runFor]
      cases hl : left.step with
      | next next =>
          rw [hl] at hstep
          cases hr : right.step <;> rw [hr] at hstep <;> cases hstep
          exact ih ‹_›
      | done final =>
          rw [hl] at hstep
          cases hr : right.step <;> rw [hr] at hstep <;> cases hstep
          exact ⟨‹_›, rfl⟩
      | failed final error =>
          rw [hl] at hstep
          cases hr : right.step <;> rw [hr] at hstep <;> cases hstep
          exact ⟨‹_›, rfl⟩

/-! ## Opened tracks stay opened -/

/-- A track that has been opened waits from then on. -/
theorem openedOffsets_step {player next : Player} (h : player.step = .next next)
    {offset : UInt32} (hopened : offset ∈ player.openedOffsets) :
    offset ∈ next.openedOffsets := by
  obtain ⟨instruction, place, register, -, hexecute⟩ := step_next h
  have hread : offset ∈ openedOffsets { player with register, offset := place } := hopened
  generalize { player with register, offset := place } = reading at hread hexecute
  -- only one instruction touches the list, and it adds to it
  cases instruction with
  | openTrack track target =>
      rw [← StepResult.next.inj hexecute]
      simp only [openedOffsets, Array.toList_push, List.map_append] at hread ⊢
      exact List.mem_append_left _ hread
  | note key velocity duration =>
      rw [← StepResult.next.inj hexecute, ← (sameCourse_playNote reading _ _ _).opened]
      exact hread
  | set control value =>
      rw [← StepResult.next.inj hexecute, ← (sameCourse_setControl reading _ _).opened]
      exact hread
  | loopEnd =>
      rw [← StepResult.next.inj hexecute]
      simp only [Player.endLoop]
      split
      · exact hread
      · split <;> exact hread
  | jump target =>
      simp only [execute] at hexecute
      split at hexecute <;> cases hexecute
      exact hread
  | call target =>
      simp only [execute] at hexecute
      split at hexecute <;> cases hexecute
      exact hread
  | ret =>
      simp only [execute] at hexecute
      split at hexecute <;> cases hexecute
      exact hread
  | loopStart count =>
      simp only [execute] at hexecute
      split at hexecute <;> cases hexecute
      exact hread
  | fin => cases hexecute
  | setWord control value => cases control <;> cases hexecute <;> exact hread
  | _ => cases hexecute; exact hread

/-- A track that has been opened still waits when the run ends. -/
theorem openedOffsets_runFor {player : Player} {offset : UInt32}
    (hopened : offset ∈ player.openedOffsets) (steps : Nat) :
    offset ∈ (runFor steps player).1.openedOffsets := by
  obtain ⟨count, last, -, hafter, hends⟩ := runFor_last steps player
  obtain ⟨register, place, hfinal⟩ := hends.eq_last
  have hlast : offset ∈ last.openedOffsets :=
    after_induction (motive := fun player => offset ∈ player.openedOffsets) hopened
      (fun _ _ hbefore hstep => openedOffsets_step hstep hbefore) hafter
  rw [hfinal]
  exact hlast

end Player

end ConsoleSound

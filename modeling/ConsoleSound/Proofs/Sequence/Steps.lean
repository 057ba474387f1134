import ConsoleSound.Sequence.Player
/-! # The steps of a track

`Player.runFor` hides the states that a track passes through. `Player.after` names
them: the state after a number of instructions, as long as the track still plays.
What every instruction preserves then holds at every such state, and a run ends in
the last of them (`runFor_last`), so facts about steps become facts about runs. -/

namespace ConsoleSound

namespace Player

/-- The instruction that a track executes next, if one can be read. -/
def instruction? (player : Player) : Option Instruction :=
  match (Instruction.read player.code player.offset player.register).1 with
  | .ok (instruction, _) => some instruction
  | .error _ => none

/-- The state after `count` instructions, if the track still plays then. -/
def after : (count : Nat) → Player → Option Player
  | 0, player => some player
  | count + 1, player =>
    match player.step with
    | .next player => after count player
    | _ => none

/-- A step reads an instruction and executes it. -/
theorem step_of_instruction? {player : Player} {instruction : Instruction}
    (h : player.instruction? = some instruction) :
    ∃ offset register,
      player.step = { player with register, offset }.execute player.offset instruction := by
  rw [instruction?] at h
  rcases hread : Instruction.read player.code player.offset player.register with ⟨result, register⟩
  rw [hread] at h
  cases result with
  | error error => exact nomatch h
  | ok read =>
      obtain ⟨instruction', offset⟩ := read
      obtain rfl := Option.some.inj h
      exact ⟨offset, register, by rw [step, hread]⟩

/-- An instruction that does not end its track was read and executed. -/
theorem step_next {player next : Player} (h : player.step = .next next) :
    ∃ instruction offset register,
      player.instruction? = some instruction
      ∧ { player with register, offset }.execute player.offset instruction = .next next := by
  cases hinstruction : player.instruction? with
  | some instruction =>
      obtain ⟨offset, register, hstep⟩ := step_of_instruction? hinstruction
      exact ⟨instruction, offset, register, rfl, hstep.symm.trans h⟩
  | none =>
      -- an instruction that cannot be read ends the track
      exfalso
      rw [instruction?] at hinstruction
      rcases hread : Instruction.read player.code player.offset player.register
        with ⟨result, register⟩
      rw [hread] at hinstruction
      cases result with
      | error error => rw [step, hread] at h; exact nomatch h
      | ok read => exact nomatch hinstruction

/-- An instruction that ends its track changes nothing. -/
theorem execute_ends {player final : Player} {origin : Nat} {instruction : Instruction}
    (h : player.execute origin instruction = .done final
      ∨ ∃ error, player.execute origin instruction = .failed final error) :
    final = player := by
  cases instruction with
  | jump target =>
      simp only [execute] at h
      split at h <;> simp_all
  | call target =>
      simp only [execute] at h
      split at h <;> simp_all
  | ret =>
      simp only [execute] at h
      split at h <;> simp_all
  | loopStart count =>
      simp only [execute] at h
      split at h <;> simp_all
  | fin => simpa [execute, eq_comm] using h
  | setWord control value => cases control <;> simp [execute] at h
  | _ => simp [execute] at h

/-- A step that ends its track moves only the place of reading. -/
theorem step_ends {player final : Player}
    (h : player.step = .done final ∨ ∃ error, player.step = .failed final error) :
    ∃ register offset, final = { player with register, offset } := by
  rw [step] at h
  rcases hread : Instruction.read player.code player.offset player.register with ⟨result, register⟩
  rw [hread] at h
  cases result with
  | error error =>
      rcases h with h | ⟨other, h⟩
      · exact nomatch h
      · exact ⟨register, player.offset, (StepResult.failed.inj h).1.symm⟩
  | ok read =>
      obtain ⟨instruction, offset⟩ := read
      exact ⟨register, offset, execute_ends h⟩

/-! ## States on the way -/

@[simp] theorem after_zero (player : Player) : after 0 player = some player := rfl

theorem after_succ_of_next {player next : Player} (h : player.step = .next next) (count : Nat) :
    after (count + 1) player = after count next := by
  rw [after, h]

/-- The first instruction on the way to a state. -/
theorem exists_next_of_after {player last : Player} {count : Nat}
    (h : after (count + 1) player = some last) :
    ∃ next, player.step = .next next ∧ after count next = some last := by
  rw [after] at h
  cases hstep : player.step with
  | next next =>
      rw [hstep] at h
      exact ⟨next, rfl, h⟩
  | done _ => rw [hstep] at h; cases h
  | failed _ _ => rw [hstep] at h; cases h

/-- The last instruction before a state. -/
theorem after_succ {player last : Player} {count : Nat} :
    after (count + 1) player = some last
      ↔ ∃ before, after count player = some before ∧ before.step = .next last := by
  -- the states are counted from the first instruction, so the induction is on the rest
  induction count generalizing player with
  | zero =>
      constructor
      · intro h
        obtain ⟨next, hstep, hnext⟩ := exists_next_of_after h
        exact ⟨player, rfl, by rw [← Option.some.inj hnext, hstep]⟩
      · rintro ⟨before, hb, hstep⟩
        rw [← Option.some.inj hb] at hstep
        rw [after_succ_of_next hstep, after_zero]
  | succ count ih =>
      cases hstep : player.step with
      | next next =>
          rw [after_succ_of_next hstep, after_succ_of_next hstep]
          exact ih
      | done _ => simp [after, hstep]
      | failed _ _ => simp [after, hstep]

/-- A track that has come so far has come through every state before. -/
theorem after_le {player last : Player} {count earlier : Nat}
    (h : after count player = some last) (hle : earlier ≤ count) :
    ∃ before, after earlier player = some before := by
  induction count generalizing last with
  | zero => exact ⟨player, by rw [Nat.le_zero.mp hle, after_zero]⟩
  | succ count ih =>
      obtain ⟨before, hb, -⟩ := after_succ.mp h
      -- either it is the last state itself, or it comes before the last instruction
      rcases Nat.lt_or_ge count earlier with hlt | hge
      · exact ⟨last, by rw [show earlier = count + 1 by omega]; exact h⟩
      · exact ih hb hge

/-- Two stretches of a track make one. -/
theorem after_add {player middle last : Player} {count more : Nat}
    (h : after count player = some middle) (h' : after more middle = some last) :
    after (count + more) player = some last := by
  induction more generalizing last with
  | zero => rw [← h', Nat.add_zero, after_zero, h]
  | succ more ih =>
      obtain ⟨before, hbefore, hstep⟩ := after_succ.mp h'
      exact after_succ.mpr ⟨before, ih hbefore, hstep⟩

/-- What holds at the start and is preserved by every instruction holds on the way. -/
theorem after_induction {motive : Player → Prop} {player : Player} (start : motive player)
    (step : ∀ before next, motive before → before.step = .next next → motive next) :
    ∀ {count : Nat} {last : Player}, after count player = some last → motive last := by
  intro count
  induction count with
  | zero =>
      intro last h
      rw [← Option.some.inj h]
      exact start
  | succ count ih =>
      intro last h
      obtain ⟨before, hb, hstep⟩ := after_succ.mp h
      exact step before last (ih hb) hstep

/-! ## Where a run ends -/

/-- How a run ends in a state that it reaches after some instructions: at the step
limit, or with an instruction that ends the track. -/
inductive Ends (steps count : Nat) (last : Player) : Player → Prop where
  | limit : count = steps → Ends steps count last last
  | stopped {final : Player} :
      (last.step = .done final ∨ ∃ error, last.step = .failed final error) →
      Ends steps count last final

/-- The end of a run differs from the last state on its way in the place of reading only. -/
theorem Ends.eq_last {steps count : Nat} {last final : Player}
    (h : Ends steps count last final) :
    ∃ register offset, final = { last with register, offset } := by
  cases h with
  | limit _ => exact ⟨last.register, last.offset, rfl⟩
  | stopped h => exact step_ends h

/-- No state on the way comes later than the last one. -/
theorem Ends.le_of_after {steps count later : Nat} {player last final between : Player}
    (h : Ends steps count last final) (hlast : player.after count = some last)
    (hbetween : player.after later = some between) (hle : later ≤ steps) : later ≤ count := by
  rcases Nat.lt_or_ge count later with hlt | hge
  · exfalso
    cases h with
    | limit heq => omega
    | stopped hstop =>
        -- the last state would have to go on
        obtain ⟨next, hnext⟩ := after_le hbetween (Nat.succ_le_of_lt hlt)
        obtain ⟨before, hbefore, hstep⟩ := after_succ.mp hnext
        rw [hlast] at hbefore
        rw [← Option.some.inj hbefore] at hstep
        rw [hstep] at hstop
        simp at hstop
  · exact hge

/-- A run goes on from any state that it comes through. -/
theorem runFor_of_after {player middle : Player} {count : Nat}
    (h : after count player = some middle) (steps : Nat) :
    runFor (count + steps) player = runFor steps middle := by
  induction count generalizing player with
  | zero => rw [Option.some.inj h, Nat.zero_add]
  | succ count ih =>
      obtain ⟨next, hstep, hnext⟩ := exists_next_of_after h
      rw [Nat.add_right_comm, runFor, hstep]
      exact ih hnext

/-- A run passes through states up to a last one, in which it ends. -/
theorem runFor_last (steps : Nat) (player : Player) :
    ∃ count last, count ≤ steps ∧ player.after count = some last
      ∧ Ends steps count last (runFor steps player).1 := by
  induction steps generalizing player with
  | zero => exact ⟨0, player, Nat.le_refl 0, rfl, .limit rfl⟩
  | succ steps ih =>
      cases hstep : player.step with
      | next next =>
          obtain ⟨count, last, hle, hafter, hends⟩ := ih next
          have hrun : runFor (steps + 1) player = runFor steps next := by rw [runFor, hstep]
          refine ⟨count + 1, last, by omega, by rw [after_succ_of_next hstep]; exact hafter, ?_⟩
          rw [hrun]
          cases hends with
          | limit heq => exact .limit (by rw [heq])
          | stopped h => exact .stopped h
      | done final =>
          refine ⟨0, player, Nat.zero_le _, rfl, ?_⟩
          rw [runFor, hstep]
          exact .stopped (.inl hstep)
      | failed final error =>
          refine ⟨0, player, Nat.zero_le _, rfl, ?_⟩
          rw [runFor, hstep]
          exact .stopped (.inr ⟨error, hstep⟩)

end Player

end ConsoleSound

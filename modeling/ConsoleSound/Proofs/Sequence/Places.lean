import ConsoleSound.Proofs.Sequence.Executing
/-! # Where a track is in its code

The state of a track has two halves that hardly touch. One is its place: the code, the offset
and the register that it reads with, the open calls and loops, and the jumps taken. The other
is all that has to do with music. Six instructions move the place and leave the music alone;
all others are straight (`Instruction.isStraight`): they do the same wherever they stand, and
leave the place alone (`Player.execute_straight`).

What an instruction does to the place is told by `Moves`. -/

namespace ConsoleSound

/-- Whether an instruction goes on behind itself, without opening or closing anything. -/
def Instruction.isStraight : Instruction → Bool
  | jump _ | call _ | ret | fin | loopStart _ | loopEnd => false
  | _ => true

/-- Where a track reads, and what decides where it goes from there. -/
structure Place where
  code : Bytes
  offset : Nat
  register : ArgumentRegister
  calls : List Nat
  loops : List LoopFrame
  jumps : List UInt32

namespace Player

/-- The place of a track. -/
def place (player : Player) : Place where
  code := player.code
  offset := player.offset
  register := player.register
  calls := player.calls
  loops := player.loops
  jumps := player.jumps

/-- The same track at another place. -/
def withPlace (player : Player) (place : Place) : Player :=
  { player with
    code := place.code
    offset := place.offset
    register := place.register
    calls := place.calls
    loops := place.loops
    jumps := place.jumps }

@[simp] theorem place_withPlace (player : Player) (place : Place) :
    (player.withPlace place).place = place := rfl

@[simp] theorem withPlace_place (player : Player) : player.withPlace player.place = player := rfl

@[simp] theorem withPlace_withPlace (player : Player) (place place' : Place) :
    (player.withPlace place).withPlace place' = player.withPlace place' := rfl

/-! ## Straight instructions -/

/-- The track after an instruction, wherever that stands. -/
def perform (player : Player) (instruction : Instruction) : Player :=
  (player.execute 0 instruction).player

theorem playNote_withPlace (player : Player) (place : Place) (key velocity : UInt8)
    (duration : UInt32) :
    (player.withPlace place).playNote key velocity duration
      = (player.playNote key velocity duration).withPlace place := by
  cases hwait : player.noteWait <;> simp [playNote, write, withPlace, hwait]

theorem setControl_withPlace (player : Player) (place : Place) (control : Control)
    (value : UInt8) :
    (player.withPlace place).setControl control value
      = (player.setControl control value).withPlace place := by
  cases control with
  | timebase =>
      by_cases hvalue : value = 0 <;> simp [setControl, withPlace, hvalue]
  | _ => rfl

/-- A straight instruction does the same at every place, and leaves the place alone. -/
theorem execute_straight {instruction : Instruction} (h : instruction.isStraight = true)
    (player : Player) (place : Place) (origin : Nat) :
    (player.withPlace place).execute origin instruction
      = .next ((player.perform instruction).withPlace place) := by
  cases instruction with
  | jump | call | ret | fin | loopStart | loopEnd => exact nomatch h
  | note key velocity duration =>
      exact congrArg StepResult.next (playNote_withPlace player place key velocity duration)
  | set control value =>
      exact congrArg StepResult.next (setControl_withPlace player place control value)
  | setWord control value => cases control <;> rfl
  | _ => rfl

/-- What any other instruction does is decided by the place, and the music is left alone. -/
theorem execute_turning {instruction : Instruction} (h : instruction.isStraight = false)
    (place : Place) (origin : Nat) :
    (∃ place', ∀ player : Player,
        (player.withPlace place).execute origin instruction = .next (player.withPlace place'))
      ∨ (∀ player : Player,
        (player.withPlace place).execute origin instruction = .done (player.withPlace place))
      ∨ ∃ error, ∀ player : Player,
        (player.withPlace place).execute origin instruction
          = .failed (player.withPlace place) error := by
  obtain ⟨code, offset, register, calls, loops, jumps⟩ := place
  cases instruction with
  | jump target =>
      by_cases htaken : target ∈ jumps
      · exact .inr (.inl fun player => if_pos htaken)
      · exact .inl ⟨⟨code, target.toNat, register, calls, loops, target :: jumps⟩,
          fun player => if_neg htaken⟩
  | call target =>
      by_cases hdeep : nestingLimit ≤ calls.length
      · exact .inr (.inr ⟨_, fun player => if_pos hdeep⟩)
      · exact .inl ⟨⟨code, target.toNat, register, offset :: calls, loops, jumps⟩,
          fun player => if_neg hdeep⟩
  | ret =>
      cases calls with
      | nil => exact .inr (.inl fun player => rfl)
      | cons back calls => exact .inl ⟨⟨_, _, _, _, _, _⟩, fun player => rfl⟩
  | loopStart count =>
      by_cases hdeep : nestingLimit ≤ loops.length
      · exact .inr (.inr ⟨_, fun player => if_pos hdeep⟩)
      · exact .inl ⟨⟨code, offset, register, calls, ⟨offset, max count 1⟩ :: loops, jumps⟩,
          fun player => if_neg hdeep⟩
  | loopEnd =>
      cases loops with
      | nil => exact .inl ⟨⟨_, _, _, _, _, _⟩, fun player => rfl⟩
      | cons frame outer =>
          by_cases hmore : 1 < frame.remaining
          · exact .inl ⟨⟨_, _, _, _, _, _⟩, fun player => congrArg StepResult.next (if_pos hmore)⟩
          · exact .inl ⟨⟨_, _, _, _, _, _⟩, fun player => congrArg StepResult.next (if_neg hmore)⟩
  | fin => exact .inr (.inl fun player => rfl)
  | _ => exact nomatch h

end Player

/-! ## Moves -/

/-- A loop is played once at least. -/
theorem one_le_max_one (count : UInt8) : 1 ≤ max count 1 := by
  show 1 ≤ if count ≤ 1 then 1 else count
  split
  · exact UInt8.le_refl 1
  · next hmore => exact UInt8.le_of_lt (UInt8.not_le.mp hmore)

/-- What an instruction that goes on does to the place, whose offset is behind it already. -/
inductive Moves (place : Place) : Instruction → Place → Prop where
  | straight {instruction : Instruction} :
      instruction.isStraight = true → Moves place instruction place
  | jump {target : UInt32} : target ∉ place.jumps →
      Moves place (.jump target)
        { place with jumps := target :: place.jumps, offset := target.toNat }
  | call {target : UInt32} : place.calls.length < nestingLimit →
      Moves place (.call target)
        { place with calls := place.offset :: place.calls, offset := target.toNat }
  | ret {offset : Nat} {calls : List Nat} : place.calls = offset :: calls →
      Moves place .ret { place with calls, offset }
  | loopStart {count : UInt8} : place.loops.length < nestingLimit →
      Moves place (.loopStart count)
        { place with loops := ⟨place.offset, max count 1⟩ :: place.loops }
  | again {frame : LoopFrame} {outer : List LoopFrame} : place.loops = frame :: outer →
      1 < frame.remaining → Moves place .loopEnd
        { place with
          loops := { frame with remaining := frame.remaining - 1 } :: outer
          offset := frame.start }
  | leave {frame : LoopFrame} {outer : List LoopFrame} : place.loops = frame :: outer →
      Moves place .loopEnd { place with loops := outer }
  | stray : place.loops = [] → Moves place .loopEnd place

namespace Player

/-- An instruction that goes on moves the place or is straight; in the first case it leaves the
music alone. -/
theorem moves_execute {player next : Player} {origin : Nat} {instruction : Instruction}
    (h : player.execute origin instruction = .next next) :
    Moves player.place instruction next.place
      ∧ (instruction.isStraight = false → next = player.withPlace next.place) := by
  cases hstraight : instruction.isStraight with
  | true =>
      have hexecute := execute_straight hstraight player player.place origin
      rw [withPlace_place, h] at hexecute
      rw [StepResult.next.inj hexecute]
      exact ⟨.straight hstraight, fun hturns => by cases hturns⟩
  | false =>
      cases instruction with
      | jump target =>
          simp only [execute] at h
          split at h <;> cases h
          exact ⟨.jump ‹_›, fun _ => rfl⟩
      | call target =>
          simp only [execute] at h
          split at h <;> cases h
          exact ⟨.call (Nat.lt_of_not_le ‹_›), fun _ => rfl⟩
      | ret =>
          simp only [execute] at h
          split at h <;> cases h
          exact ⟨.ret ‹_›, fun _ => rfl⟩
      | loopStart count =>
          simp only [execute] at h
          split at h <;> cases h
          exact ⟨.loopStart (Nat.lt_of_not_le ‹_›), fun _ => rfl⟩
      | loopEnd =>
          simp only [execute, endLoop] at h
          split at h
          · cases h
            exact ⟨.stray ‹_›, fun _ => rfl⟩
          · split at h <;> cases h
            · exact ⟨.again ‹_› ‹_›, fun _ => rfl⟩
            · exact ⟨.leave ‹_›, fun _ => rfl⟩
      | fin => cases h
      | _ => cases hstraight

/-- The place after an instruction has been read. -/
def placeBehind (player : Player) (offset : Nat) (register : ArgumentRegister) : Place :=
  { player.place with offset, register }

/-- A track executes what it reads, from behind it. -/
theorem step_of_read {player : Player} {instruction : Instruction} {behind : Nat}
    {register : ArgumentRegister}
    (h : Instruction.read player.code player.offset player.register
      = (.ok (instruction, behind), register)) :
    player.step
      = (player.withPlace (player.placeBehind behind register)).execute player.offset
          instruction := by
  rw [step, h]
  rfl

/-- A step that goes on reads an instruction, and moves from behind it. -/
theorem moves_step {player next : Player} (h : player.step = .next next) :
    ∃ instruction behind register,
      Instruction.read player.code player.offset player.register
          = (.ok (instruction, behind), register)
        ∧ Moves (player.placeBehind behind register) instruction next.place
        ∧ (instruction.isStraight = false → next = player.withPlace next.place) := by
  rcases hread : Instruction.read player.code player.offset player.register with ⟨result, register⟩
  cases result with
  | error error => rw [step, hread] at h; cases h
  | ok read =>
      obtain ⟨instruction, behind⟩ := read
      rw [step_of_read hread] at h
      obtain ⟨hmoves, hsame⟩ := moves_execute h
      exact ⟨instruction, behind, register, rfl, hmoves, hsame⟩

end Player

end ConsoleSound

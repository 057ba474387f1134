import ConsoleSound.Proofs.Sequence.Extents
/-! # Prefixes

A prefix gives an encoding to the argument of the instruction right behind it. The register that
carries the encoding there is only looked at and cleared by instructions with an argument and by
extended ones. The others leave it as it is, so a prefix in front of one of these is still in the
register later on, when a jump may lead back behind the prefix.

It does no harm there, because it counts at one offset only, and there stands the instruction that
did not look at it. `Gives` says of a register that it is as good as one that knows nothing but the
read before: every read leaves such a register (`gives_of_read`), whatever was in it. So in a
sequence of reads, at whatever offsets, an argument has the encoding of the prefix that was read
just before and just in front of it, or else its usual one (`Reads.prefix_actsOnce`). -/

namespace ConsoleSound

namespace Instruction

open Bytecode

/-- The encoding that an instruction gives to the one right behind it, if it is a prefix. -/
def overriding? : Instruction → Option Encoding
  | random => some .range
  | fromVariable => some .variableLength
  | _ => none

/-- Whether the instruction between two offsets has its argument in an encoding, or in its usual
one if none is given. -/
inductive HasArgumentIn (code : Bytes) (offset : Nat) (encoding? : Option Encoding) :
    Instruction → Nat → Prop where
  | note {key velocity : UInt8} {duration : Int32} {next : Nat} :
      code[offset]? = some key → key < 0x80 → code[offset + 1]? = some velocity →
      argument code (encoding?.getD .variableLength) (offset + 2) = .ok (duration, next) →
      HasArgumentIn code offset encoding? (note key velocity duration.toUInt32) next
  | other {opcode : UInt8} {usual : Encoding} {value : Int32} {instruction : Instruction}
      {next : Nat} :
      code[offset]? = some opcode → ¬opcode < 0x80 → usualEncoding? opcode = some usual →
      argument code (encoding?.getD usual) (offset + 1) = .ok (value, next) →
      ofArgument? opcode value = some instruction →
      HasArgumentIn code offset encoding? instruction next

/-- Whether an opcode stands at an offset that never takes an argument in some encoding. -/
def TakesNone (code : Bytes) (offset : Nat) : Prop :=
  ∃ opcode, code[offset]? = some opcode ∧ ¬opcode < 0x80 ∧ usualEncoding? opcode = none

variable {code : Bytes} {offset next : Nat} {register register' : ArgumentRegister}
  {instruction : Instruction}

theorem overriding?_eq (instruction : Instruction) :
    instruction.overriding? = instruction.leaves?.join := by
  cases instruction <;> rfl

/-- What takes no argument is read the same in every encoding. -/
theorem readIn_of_takesNone (h : TakesNone code offset) (encoding? other? : Option Encoding) :
    readIn encoding? code offset = readIn other? code offset := by
  obtain ⟨opcode, hopcode, hnote, husual⟩ := h
  rw [readIn, readIn, byte_eq_ok_iff.mpr hopcode]
  show readBehind opcode encoding? code (offset + 1) = readBehind opcode other? code (offset + 1)
  simp only [readBehind, if_neg hnote, husual]

theorem hasArgumentIn_of_readIn {encoding? : Option Encoding}
    (h : readIn encoding? code offset = .ok (instruction, next))
    (htakes : instruction.takesArgument = true) :
    HasArgumentIn code offset encoding? instruction next := by
  obtain ⟨opcode, hbyte, hbehind⟩ := Checked.bind_eq_ok_iff.mp h
  have hopcode := byte_eq_ok_iff.mp hbyte
  unfold readBehind at hbehind
  split at hbehind
  · next hnote =>
      obtain ⟨velocity, hvelocity, hread⟩ := Checked.bind_eq_ok_iff.mp hbehind
      obtain ⟨⟨duration, after⟩, hargument, hmade⟩ := Checked.bind_eq_ok_iff.mp hread
      cases hmade
      exact .note hopcode hnote (byte_eq_ok_iff.mp hvelocity) hargument
  · next hnote =>
      split at hbehind
      · next usual husual =>
          obtain ⟨value, hargument, hinstruction⟩ := readWithArgument_eq_ok_iff.mp hbehind
          exact .other hopcode hnote husual hargument hinstruction
      · -- what is left takes no argument
        split at hbehind
        · cases hbehind; exact nomatch htakes
        · split at hbehind
          · cases hbehind; exact nomatch htakes
          · split at hbehind
            · obtain ⟨sub, operand, rfl⟩ := exists_of_readExtended hbehind
              exact nomatch htakes
            · have hleaves := (of_readPlain hbehind).1
              rw [leaves?_of_takesArgument htakes] at hleaves
              exact nomatch hleaves

end Instruction

/-! ## Sequences of reads -/

/-- One read of a sequence: the instruction between two offsets. -/
structure ReadStep where
  offset : Nat
  instruction : Instruction
  next : Nat
  deriving DecidableEq, Repr

/-- Reads that succeed one after the other, at whatever offsets, each on the register that the one
before leaves. -/
inductive Reads (code : Bytes) : ArgumentRegister → List ReadStep → ArgumentRegister → Prop where
  | done (register : ArgumentRegister) : Reads code register [] register
  | step {offset next : Nat} {register after last : ArgumentRegister} {instruction : Instruction}
      {steps : List ReadStep} :
      Instruction.read code offset register = (.ok (instruction, next), after) →
      Reads code after steps last →
      Reads code register (⟨offset, instruction, next⟩ :: steps) last

/-- The read before the one of an index. -/
def previous? (steps : List ReadStep) : (index : Nat) → Option ReadStep
  | 0 => none
  | index + 1 => steps[index]?

/-- The encoding that the read before gives to an instruction at an offset: that of a prefix, if
one stands right in front of the instruction. -/
def encodingBehind? (before? : Option ReadStep) (offset : Nat) : Option Encoding :=
  match before? with
  | some before => if before.offset + 1 = offset then before.instruction.overriding? else none
  | none => none

/-- Whether a register gives every instruction of some code the encoding that the read before gives
it. Where no argument is taken, no encoding is looked at. -/
def Gives (code : Bytes) (register : ArgumentRegister) (before? : Option ReadStep) : Prop :=
  ∀ offset, (register.check offset).map Override.encoding = encodingBehind? before? offset
    ∨ Instruction.TakesNone code offset

open Instruction Bytecode

variable {code : Bytes} {offset next : Nat} {register register' : ArgumentRegister}
  {instruction : Instruction} {before? : Option ReadStep}

theorem gives_empty (code : Bytes) : Gives code none none := fun _ => .inl rfl

theorem encodingBehind?_of_overriding?_eq_none {step : ReadStep}
    (h : step.instruction.overriding? = none) (offset : Nat) :
    encodingBehind? (some step) offset = none := by
  rw [encodingBehind?, h, ite_self]

/-- An override counts at its own offset. -/
theorem check_override (encoding : Encoding) (place offset : Nat) :
    (ArgumentRegister.check (some ⟨encoding, place⟩) offset).map Override.encoding
      = if place = offset then some encoding else none := by
  by_cases hplace : place = offset <;> simp [ArgumentRegister.check, hplace]

/-- Whatever was in the register, a read leaves nothing in it that counts but its own prefix. -/
theorem gives_of_read (h : read code offset register = (.ok (instruction, next), register')) :
    Gives code register' (some ⟨offset, instruction, next⟩) := by
  intro place
  cases decoded_of_read h with
  | argument htakes =>
      have hnone : instruction.overriding? = none := by
        rw [overriding?_eq, leaves?_of_takesArgument htakes]
        rfl
      exact .inl (encodingBehind?_of_overriding?_eq_none hnone place).symm
  | random => exact .inl (check_override .range (offset + 1) place)
  | fromVariable => exact .inl (check_override .variableLength (offset + 1) place)
  | extended => exact .inl (encodingBehind?_of_overriding?_eq_none rfl place).symm
  | plain hopcode hplain =>
      obtain ⟨hleaves, htakes, -⟩ := of_readPlain hplain
      have hnone : instruction.overriding? = none := by
        rw [overriding?_eq, hleaves]
        rfl
      by_cases hplace : place = offset
      · -- an override for this very offset is left, but this instruction will not take it
        rw [hplace]
        exact .inr ⟨_, hopcode, htakes⟩
      · refine .inl ?_
        rw [encodingBehind?_of_overriding?_eq_none hnone]
        cases register with
        | none => rfl
        | some override =>
            by_cases hoverride : override.offset = offset
            · simp [ArgumentRegister.check, hoverride, Ne.symm hplace]
            · simp [ArgumentRegister.check, hoverride]

/-- A read depends on what its register gives. -/
theorem readIn_of_gives (hgives : Gives code register before?)
    (h : read code offset register = (.ok (instruction, next), register')) :
    readIn (encodingBehind? before? offset) code offset = .ok (instruction, next) := by
  rw [← readIn_of_read h]
  rcases hgives offset with hencoding | hnone
  · rw [hencoding]
  · exact readIn_of_takesNone hnone _ _

theorem exists_read_of_gives {other : ArgumentRegister} (hgives : Gives code other before?)
    (h : readIn (encodingBehind? before? offset) code offset = .ok (instruction, next)) :
    ∃ after, read code offset other = (.ok (instruction, next), after) := by
  refine ⟨_, read_of_readIn ?_⟩
  rw [← h]
  rcases hgives offset with hencoding | hnone
  · rw [hencoding]
  · exact readIn_of_takesNone hnone _ _

namespace Reads

variable {steps : List ReadStep} {last : ArgumentRegister}

/-- Registers that give the same encodings can stand for one another. -/
theorem exists_of_gives (h : Reads code register steps last) {other : ArgumentRegister}
    (hgives : Gives code register before?) (hother : Gives code other before?) :
    ∃ last', Reads code other steps last' := by
  induction h generalizing other before? with
  | done register => exact ⟨other, .done other⟩
  | step hread _ ih =>
      obtain ⟨after, hread'⟩ := exists_read_of_gives hother (readIn_of_gives hgives hread)
      obtain ⟨last', hsteps⟩ := ih (gives_of_read hread) (gives_of_read hread')
      exact ⟨last', .step hread' hsteps⟩

/-- A sequence of reads at one of them. -/
theorem exists_read (h : Reads code register steps last) {index : Nat} {step : ReadStep}
    (hstep : steps[index]? = some step) :
    ∃ before after, read code step.offset before = (.ok (step.instruction, step.next), after)
      ∧ (index = 0 → before = register) ∧ Reads code after (steps.drop (index + 1)) last := by
  induction h generalizing index with
  | done register => exact nomatch hstep
  | @step offset next register after last instruction steps hread hsteps ih =>
      cases index with
      | zero =>
          obtain rfl := Option.some.inj hstep
          exact ⟨register, after, hread, fun _ => rfl, hsteps⟩
      | succ index =>
          obtain ⟨before, after', hread', -, hsteps'⟩ := ih hstep
          exact ⟨before, after', hread', nofun, hsteps'⟩

/-- Every read finds a register that gives what the read before it gives. -/
theorem exists_gives (h : Reads code none steps last) {index : Nat} {step : ReadStep}
    (hstep : steps[index]? = some step) :
    ∃ before after, read code step.offset before = (.ok (step.instruction, step.next), after)
      ∧ Gives code before (previous? steps index) := by
  cases index with
  | zero =>
      obtain ⟨before, after, hread, hbefore, -⟩ := h.exists_read hstep
      rw [hbefore rfl] at hread
      exact ⟨none, after, hread, gives_empty code⟩
  | succ index =>
      have hlt : index < steps.length :=
        Nat.lt_of_succ_lt (List.getElem?_eq_some_iff.mp hstep).1
      have hprevious := List.getElem?_eq_getElem hlt
      obtain ⟨earlier, middle, hread, -, hsteps⟩ := h.exists_read hprevious
      have hhead : (steps.drop (index + 1))[0]? = some step := by
        rw [List.getElem?_drop, Nat.add_zero]
        exact hstep
      obtain ⟨before, after, hread', hbefore, -⟩ := hsteps.exists_read hhead
      rw [hbefore rfl] at hread'
      refine ⟨middle, after, hread', ?_⟩
      rw [previous?, hprevious]
      exact gives_of_read hread

/-- A prefix acts on the read right after it, if that is right behind it, and on no other: every
argument has the encoding of such a prefix or its usual one, and behind an instruction that is no
prefix the reads go on as on an empty register. -/
theorem prefix_actsOnce (h : Reads code none steps last) :
    (∀ index step, steps[index]? = some step → step.instruction.takesArgument = true →
      HasArgumentIn code step.offset (encodingBehind? (previous? steps index) step.offset)
        step.instruction step.next)
    ∧ ∀ index step, steps[index]? = some step → step.instruction.overriding? = none →
      ∃ last', Reads code none (steps.drop (index + 1)) last' := by
  refine ⟨fun index step hstep htakes => ?_, fun index step hstep hnone => ?_⟩
  · obtain ⟨before, after, hread, hgives⟩ := h.exists_gives hstep
    exact hasArgumentIn_of_readIn (readIn_of_gives hgives hread) htakes
  · obtain ⟨before, after, hread, -, hsteps⟩ := h.exists_read hstep
    have hempty : Gives code after none := by
      intro offset
      have hgives := gives_of_read hread offset
      rwa [encodingBehind?_of_overriding?_eq_none hnone] at hgives
    exact hsteps.exists_of_gives hempty (gives_empty code)

/-- A prefix in front of an instruction without an argument, which is read twice, is lost; a wait
behind a prefix is read in its encoding, but not when it is read again. -/
theorem prefix_actsOnce_rereadWait :
    ∃ last, Reads #[0xa1, 0xa2, 0xa0, 0x80, 0x00, 0x0a, 0x00, 0x14] none
        [⟨0, fromVariable, 1⟩, ⟨1, ifHeld, 2⟩, ⟨1, ifHeld, 2⟩, ⟨2, random, 3⟩, ⟨3, wait 15, 8⟩,
          ⟨3, wait 0, 5⟩] last
      ∧ HasArgumentIn #[0xa1, 0xa2, 0xa0, 0x80, 0x00, 0x0a, 0x00, 0x14] 3 (some .range) (wait 15) 8
      ∧ HasArgumentIn #[0xa1, 0xa2, 0xa0, 0x80, 0x00, 0x0a, 0x00, 0x14] 3 none (wait 0) 5 := by
  have hreads : Reads #[0xa1, 0xa2, 0xa0, 0x80, 0x00, 0x0a, 0x00, 0x14] none
      [⟨0, fromVariable, 1⟩, ⟨1, ifHeld, 2⟩, ⟨1, ifHeld, 2⟩, ⟨2, random, 3⟩, ⟨3, wait 15, 8⟩,
        ⟨3, wait 0, 5⟩] none := by
    refine .step (show _ = (_, some ⟨.variableLength, 1⟩) by decide) ?_
    refine .step (show _ = (_, some ⟨.variableLength, 1⟩) by decide) ?_
    refine .step (show _ = (_, some ⟨.variableLength, 1⟩) by decide) ?_
    refine .step (show _ = (_, some ⟨.range, 3⟩) by decide) ?_
    refine .step (show _ = (_, none) by decide) ?_
    exact .step (show _ = (_, none) by decide) (.done none)
  exact ⟨none, hreads, hreads.prefix_actsOnce.1 4 _ rfl rfl, hreads.prefix_actsOnce.1 5 _ rfl rfl⟩

end Reads

end ConsoleSound

import Mathlib.Algebra.Group.Nat.Defs
import ConsoleSound.Proofs.Sequence.Extents
/-! # Ticks of notes and waits

The duration of a note and the ticks of a wait are arguments of the same kind: stored in the same
bytes and the same encoding, they are the same number with a sign (`ticksAtStart?_noteCode`,
`ticksAtStart?_waitCode`). They part where this number becomes a count of ticks, which has no sign.
A wait of a negative number takes no time; a note of a negative number lasts for at least half of
all the ticks there are. So the two agree on the arguments that are not negative, and on no others
(`ticksAtStart?_eq_iff`). -/

namespace ConsoleSound

namespace Instruction

open Bytecode

/-! ## Counts of ticks -/

theorem countOf_of_nonneg {argument : Int32} (h : 0 ≤ argument.toInt) :
    countOf argument = argument.toUInt32 := by
  show (if argument ≤ 0 then 0 else argument).toUInt32 = argument.toUInt32
  split
  · next hle =>
      have hzero : argument.toInt ≤ 0 := Int32.le_iff_toInt_le.mp hle
      have heq : argument = 0 := Int32.toInt_inj.mp (Int.le_antisymm hzero h)
      rw [heq]
  · rfl

theorem countOf_of_neg {argument : Int32} (h : argument.toInt < 0) : countOf argument = 0 := by
  have hle : argument ≤ 0 := Int32.le_iff_toInt_le.mpr (Int.le_of_lt h)
  show (if argument ≤ 0 then 0 else argument).toUInt32 = 0
  rw [if_pos hle]
  rfl

/-- A negative number without its sign is a large one. -/
theorem le_toNat_of_neg {argument : Int32} (h : argument.toInt < 0) :
    2 ^ 31 ≤ argument.toUInt32.toNat := by
  have hbits : argument.toBitVec.toInt < 0 := h
  show 2 ^ 31 ≤ argument.toBitVec.toNat
  rw [BitVec.toInt_eq_toNat_cond] at hbits
  split at hbits <;> omega

/-! ## The same argument in a note and in a wait -/

/-- A note with the bytes of its argument. -/
def noteCode (key velocity : UInt8) (argument : Bytes) : Bytes := #[key, velocity] ++ argument

/-- A wait with the bytes of its argument. -/
def waitCode (argument : Bytes) : Bytes := #[0x80] ++ argument

/-- How long an instruction lasts, if it is one that tells. -/
def ticks? : Instruction → Option UInt32
  | note _ _ duration => some duration
  | wait ticks => some ticks
  | _ => none

/-- How long the instruction at the start of some code lasts, under an override if there is one. -/
def ticksAtStart? (code : Bytes) (encoding? : Option Encoding) : Option UInt32 := do
  let (instruction, _) ← (read code 0 (.at encoding? 0)).1.toOption
  instruction.ticks?

/-- The number at the start of some bytes, in an encoding or in the usual one of ticks. -/
def numberAtStart? (bytes : Bytes) (encoding? : Option Encoding) : Option Int32 :=
  (argument bytes (encoding?.getD .variableLength) 0).toOption.map Prod.fst

/-- What stands behind some bytes agrees with itself alone. -/
theorem agree_append (front bytes : Bytes) (next : Nat) :
    Agree bytes 0 next (front ++ bytes) front.size := by
  intro index _
  rw [Array.getElem?_append_right (Nat.le_add_right _ _), Nat.add_sub_cancel_left, Nat.zero_add]

theorem agree_append_symm (front bytes : Bytes) (next : Nat) :
    Agree (front ++ bytes) front.size next bytes 0 := by
  intro index _
  rw [Array.getElem?_append_right (Nat.le_add_right _ _), Nat.add_sub_cancel_left, Nat.zero_add]

/-- An argument is the same wherever its bytes stand, and is missing with them. -/
theorem numberAtStart?_eq (front bytes : Bytes) (encoding? : Option Encoding) :
    numberAtStart? bytes encoding?
      = (argument (front ++ bytes) (encoding?.getD .variableLength) front.size).toOption.map
          Prod.fst := by
  rw [numberAtStart?]
  generalize encoding?.getD .variableLength = encoding
  cases hbytes : argument bytes encoding 0 with
  | ok read =>
      obtain ⟨-, -, hmoved⟩ := (isReader_argument encoding).isLocal hbytes
      have hcode : argument (front ++ bytes) encoding front.size = .ok (read.1, _) :=
        hmoved _ front.size (agree_append front bytes read.2)
      rw [hcode]
      rfl
  | error error =>
      cases hcode : argument (front ++ bytes) encoding front.size with
      | error other => rfl
      | ok read =>
          obtain ⟨-, -, hmoved⟩ := (isReader_argument encoding).isLocal hcode
          have hread : argument bytes encoding 0 = .ok (read.1, _) :=
            hmoved bytes 0 (agree_append_symm front bytes read.2)
          rw [hread] at hbytes
          exact nomatch hbytes

theorem readIn_noteCode (encoding? : Option Encoding) (bytes : Bytes) {key : UInt8}
    (hkey : key < 0x80) (velocity : UInt8) :
    readIn encoding? (noteCode key velocity bytes) 0
      = readNote (noteCode key velocity bytes) 2 key velocity
          (encoding?.getD .variableLength) := by
  have hopcode : byte (noteCode key velocity bytes) 0 = .ok key :=
    byte_eq_ok_iff.mpr (Array.getElem?_append_left Nat.two_pos)
  have hvelocity : byte (noteCode key velocity bytes) 1 = .ok velocity :=
    byte_eq_ok_iff.mpr (Array.getElem?_append_left Nat.one_lt_two)
  rw [readIn, hopcode]
  show readBehind key encoding? (noteCode key velocity bytes) 1 = _
  rw [readBehind, if_pos hkey, hvelocity]
  rfl

theorem readIn_waitCode (encoding? : Option Encoding) (bytes : Bytes) :
    readIn encoding? (waitCode bytes) 0
      = readWithArgument (waitCode bytes) 0 1 0x80 (encoding?.getD .variableLength) := by
  have hopcode : byte (waitCode bytes) 0 = .ok 0x80 :=
    byte_eq_ok_iff.mpr (Array.getElem?_append_left Nat.one_pos)
  rw [readIn, hopcode]
  rfl

/-- A note lasts for its argument without the sign. -/
theorem ticksAtStart?_noteCode (encoding? : Option Encoding) (bytes : Bytes) {key : UInt8}
    (hkey : key < 0x80) (velocity : UInt8) :
    ticksAtStart? (noteCode key velocity bytes) encoding?
      = (numberAtStart? bytes encoding?).map Int32.toUInt32 := by
  rw [ticksAtStart?, fst_read, check_at, map_encoding_at,
    readIn_noteCode encoding? bytes hkey, numberAtStart?_eq #[key, velocity], readNote]
  show _ = Option.map _ (Option.map _ (argument (noteCode key velocity bytes) _ 2).toOption)
  cases argument (noteCode key velocity bytes) (encoding?.getD .variableLength) 2 <;> rfl

/-- A wait takes as many ticks as its argument says, none if it is negative. -/
theorem ticksAtStart?_waitCode (encoding? : Option Encoding) (bytes : Bytes) :
    ticksAtStart? (waitCode bytes) encoding? = (numberAtStart? bytes encoding?).map countOf := by
  rw [ticksAtStart?, fst_read, check_at, map_encoding_at, readIn_waitCode,
    numberAtStart?_eq #[0x80], readWithArgument]
  show _ = Option.map _ (Option.map _ (argument (waitCode bytes) _ 1).toOption)
  cases argument (waitCode bytes) (encoding?.getD .variableLength) 1 <;> rfl

/-- A note and a wait with the same bytes of argument, in the same encoding, last equally long
exactly if the argument is not negative. If it is, the wait takes no time, but the note takes half
of all ticks at least. -/
theorem ticksAtStart?_eq_iff (encoding? : Option Encoding) (bytes : Bytes) {key : UInt8}
    (hkey : key < 0x80) (velocity : UInt8) :
    (ticksAtStart? (noteCode key velocity bytes) encoding?
        = ticksAtStart? (waitCode bytes) encoding?
      ↔ ∀ argument, numberAtStart? bytes encoding? = some argument → 0 ≤ argument.toInt)
    ∧ ∀ argument, numberAtStart? bytes encoding? = some argument → argument.toInt < 0 →
        ticksAtStart? (waitCode bytes) encoding? = some 0
        ∧ ∃ duration, ticksAtStart? (noteCode key velocity bytes) encoding? = some duration
          ∧ 2 ^ 31 ≤ duration.toNat := by
  rw [ticksAtStart?_noteCode encoding? bytes hkey velocity, ticksAtStart?_waitCode]
  cases numberAtStart? bytes encoding? with
  | none => exact ⟨⟨fun _ _ hnumber => (nomatch hnumber), fun _ => rfl⟩, nofun⟩
  | some argument =>
      refine ⟨⟨?_, ?_⟩, ?_⟩
      · rintro heq argument' hargument
        obtain rfl := Option.some.inj hargument
        have hcounts : argument.toUInt32 = countOf argument := Option.some.inj heq
        refine Int.not_lt.mp fun hneg => ?_
        have hlarge := le_toNat_of_neg hneg
        rw [hcounts, countOf_of_neg hneg] at hlarge
        exact absurd hlarge (by decide)
      · intro hnonneg
        rw [Option.map_some, Option.map_some, countOf_of_nonneg (hnonneg argument rfl)]
      · rintro argument' hargument hneg
        obtain rfl := Option.some.inj hargument
        exact ⟨congrArg some (countOf_of_neg hneg), _, rfl, le_toNat_of_neg hneg⟩

/-- A note and a wait of a range from ten to twenty ticks last for fifteen. -/
theorem ticksAtStart?_eq_positiveRange :
    (0x3c : UInt8) < 0x80
      ∧ ticksAtStart? (noteCode 0x3c 0x64 #[0x00, 0x0a, 0x00, 0x14]) (some .range)
        = ticksAtStart? (waitCode #[0x00, 0x0a, 0x00, 0x14]) (some .range) := by
  have hnumber : numberAtStart? #[0x00, 0x0a, 0x00, 0x14] (some .range) = some 15 := by decide
  refine ⟨by decide, ((ticksAtStart?_eq_iff _ _ (by decide) _).1).mpr ?_⟩
  intro argument hargument
  rw [← Option.some.inj (hnumber.symm.trans hargument)]
  decide

/-- A range of nothing but minus two makes a wait of no ticks, but a note that ends at the last tick
but one. -/
theorem ticksAtStart?_ne_negativeRange :
    ticksAtStart? (noteCode 0x3c 0x64 #[0xff, 0xfe, 0xff, 0xfe]) (some .range)
        ≠ ticksAtStart? (waitCode #[0xff, 0xfe, 0xff, 0xfe]) (some .range)
      ∧ ticksAtStart? (noteCode 0x3c 0x64 #[0xff, 0xfe, 0xff, 0xfe]) (some .range)
        = some 4294967294
      ∧ ticksAtStart? (waitCode #[0xff, 0xfe, 0xff, 0xfe]) (some .range) = some 0 := by
  decide

end Instruction

end ConsoleSound

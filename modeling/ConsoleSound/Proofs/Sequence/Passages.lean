import ConsoleSound.ByteOrder.Spelling
import ConsoleSound.Proofs.Container.Holding
import ConsoleSound.Proofs.Sequence.Places
import ConsoleSound.Proofs.Sequence.Reading
/-! # Passages

A passage is a structured piece of a sequence. It is made of phrases, which are single
instructions, each behind the modifier of its argument if it has one; of loops around
passages; and of calls of subroutines, each of which is a passage somewhere in the code.

The bytes of a passage (`Passage.bytes`) are what a sequence holds, apart from the
subroutines, which have to stand where the calls lead (`Passage.IsLinked`). Its phrases
(`Passage.phrases`) are what is played: the body of a loop as often as the loop says, and the
body of a subroutine in the place of the call. -/

namespace ConsoleSound

/-- Whether some bytes stand at an offset of some code. -/
def Bytecode.Holds (code : Bytes) (offset : Nat) (part : List UInt8) : Prop :=
  (View.mk code .big).Holds offset part

/-! ## Phrases -/

/-- What says how the argument of the next instruction is stored. -/
inductive Modifier where
  | random
  | fromVariable
  deriving DecidableEq, Repr

namespace Modifier

def opcode : Modifier → UInt8
  | random => 0xa0
  | fromVariable => 0xa1

def instruction : Modifier → Instruction
  | random => .random
  | fromVariable => .fromVariable

/-- How the argument is stored. -/
def encoding : Modifier → Encoding
  | random => .range
  | fromVariable => .variableLength

end Modifier

/-- The bytes of an instruction, behind a modifier if its argument has one. -/
structure Phrase where
  modifier? : Option Modifier
  /-- The bytes of the instruction itself. -/
  stored : List UInt8
  instruction : Instruction
  /-- The bytes are those of the instruction, which spends the modifier. -/
  reads : Instruction.read stored.toArray 0 (.at (modifier?.map Modifier.encoding) 0)
    = (.ok (instruction, stored.length), none)

/-- The bytes of a phrase. -/
def Phrase.bytes (phrase : Phrase) : List UInt8 :=
  (phrase.modifier?.map Modifier.opcode).toList ++ phrase.stored

/-- A phrase that goes on behind itself. -/
structure StraightPhrase extends Phrase where
  straight : instruction.isStraight = true

/-- A phrase that opens a loop. -/
structure LoopOpening extends Phrase where
  count : UInt8
  opens : instruction = .loopStart count

/-- How often the body of a loop is played; a loop with the count zero is played once. -/
def LoopOpening.times (opening : LoopOpening) : Nat := (max opening.count 1).toNat

/-! ## Passages -/

/-- A structured piece of a sequence, from its start on. -/
inductive Passage where
  | done
  | play (phrase : StraightPhrase) (rest : Passage)
  | loop (opening : LoopOpening) (body rest : Passage)
  /-- A call of a subroutine that stands at an offset and consists of a passage. -/
  | call (target : Nat) (body rest : Passage)

namespace Passage

/-- The bytes of a passage, without those of the subroutines that it calls. -/
def bytes : Passage → List UInt8
  | done => []
  | play phrase rest => phrase.bytes ++ rest.bytes
  | loop opening body rest => opening.bytes ++ (body.bytes ++ 0xfc :: rest.bytes)
  | call target _ rest => 0x8a :: (ByteOrder.big.spell 3 target ++ rest.bytes)

/-- Whether the subroutines of a passage stand in the code where its calls lead, each with a
return at its end. -/
def IsLinked (code : Bytes) : Passage → Prop
  | done => True
  | play _ rest => rest.IsLinked code
  | loop _ body rest => body.IsLinked code ∧ rest.IsLinked code
  | call target body rest =>
    target < 256 ^ 3 ∧ Bytecode.Holds code target (body.bytes ++ [0xfd])
      ∧ body.IsLinked code ∧ rest.IsLinked code

/-- The most loops that are open at once while a passage is played. -/
def loopDepth : Passage → Nat
  | done => 0
  | play _ rest => rest.loopDepth
  | loop _ body rest => max (body.loopDepth + 1) rest.loopDepth
  | call _ body rest => max body.loopDepth rest.loopDepth

/-- The most calls that are open at once while a passage is played. -/
def callDepth : Passage → Nat
  | done => 0
  | play _ rest => rest.callDepth
  | loop _ body rest => max body.callDepth rest.callDepth
  | call _ body rest => max (body.callDepth + 1) rest.callDepth

/-- What is played of a passage: loops are played out, and subroutines stand for their calls. -/
def phrases : Passage → List StraightPhrase
  | done => []
  | play phrase rest => phrase :: rest.phrases
  | loop opening body rest =>
    (List.replicate opening.times body.phrases).flatten ++ rest.phrases
  | call _ body rest => body.phrases ++ rest.phrases

/-- A passage without loops and calls. -/
def ofPhrases (phrases : List StraightPhrase) : Passage := phrases.foldr play done

/-- The code of what is played of a passage, up to the end of its track. -/
def unrolled (passage : Passage) : Bytes :=
  (passage.phrases.flatMap (fun phrase : StraightPhrase => phrase.bytes) ++ [0xff]).toArray

end Passage

/-! ## Reading passages -/

theorem Modifier.read_instruction (modifier : Modifier) :
    Instruction.read #[modifier.opcode] 0 none
      = (.ok (modifier.instruction, 1), .at (some modifier.encoding) 1) := by
  cases modifier with
  | random => rfl
  | fromVariable => rfl

namespace Bytecode

variable {code : Bytes} {offset : Nat}

theorem holds_append {first second : List UInt8} :
    Holds code offset (first ++ second)
      ↔ Holds code offset first ∧ Holds code (offset + first.length) second :=
  View.holds_append

/-- What stands at an offset agrees with what is read from there. -/
theorem Holds.agree {part : List UInt8} (h : Holds code offset part) :
    Agree part.toArray 0 part.length code offset := by
  obtain ⟨before, behind, hdata, rfl⟩ := h
  intro index hindex
  have hdata : code.toList = before ++ part ++ behind := hdata
  rw [Nat.zero_add] at hindex ⊢
  rw [← Array.getElem?_toList, hdata, List.getElem?_append_left (by rw [List.length_append]; omega),
    List.getElem?_append_right (Nat.le_add_right _ _), Nat.add_sub_cancel_left]
  exact List.getElem?_toArray.symm

/-- What some bytes alone are read as is read wherever they stand. -/
theorem Holds.read {part : List UInt8} (h : Holds code offset part)
    (encoding? encoding?' : Option Encoding) {instruction : Instruction}
    (hread : Instruction.read part.toArray 0 (.at encoding? 0)
      = (.ok (instruction, part.length), .at encoding?' part.length)) :
    Instruction.read code offset (.at encoding? offset)
      = (.ok (instruction, offset + part.length), .at encoding?' (offset + part.length)) := by
  have hmoved := Instruction.read_moved hread h.agree
  rwa [Nat.sub_zero] at hmoved

theorem Holds.read_plain {part : List UInt8} {instruction : Instruction}
    (h : Holds code offset part)
    (hread : Instruction.read part.toArray 0 none = (.ok (instruction, part.length), none)) :
    Instruction.read code offset none = (.ok (instruction, offset + part.length), none) :=
  h.read none none hread

end Bytecode

namespace Instruction

theorem read_fin : read #[0xff] 0 none = (.ok (fin, 1), none) := rfl

theorem read_ret : read #[0xfd] 0 none = (.ok (ret, 1), none) := rfl

theorem read_loopEnd : read #[0xfc] 0 none = (.ok (loopEnd, 1), none) := rfl

theorem read_call {target : Nat} (h : target < 256 ^ 3) :
    read (0x8a :: ByteOrder.big.spell 3 target).toArray 0 none
      = (.ok (call (UInt32.ofNat target), 4), none) := by
  have hvalue : ByteOrder.bigValue (ByteOrder.big.spell 3 target) = target :=
    (ByteOrder.value_spell .big 3 target).trans (Nat.mod_eq_of_lt h)
  obtain ⟨high, middle, low, hbytes⟩ :=
    List.length_eq_three.mp (ByteOrder.spell_length .big 3 target)
  rw [hbytes] at hvalue ⊢
  have hread : read #[0x8a, high, middle, low] 0 none
      = (.ok (call (UInt32.ofNat (ByteOrder.bigValue [high, middle, low])), 4), none) := rfl
  rw [hread, hvalue]

end Instruction

end ConsoleSound

import ConsoleSound.Sequence.Error
import ConsoleSound.View
/-! # Instruction arguments

The argument of an instruction has a usual encoding, which the instruction before it
can override once. `ArgumentRegister` holds such an override together with the only
offset at which it counts. -/

namespace ConsoleSound

/-- How the argument of an instruction is stored. -/
inductive Encoding where
  /-- Seven bits a byte, at most five bytes. -/
  | variableLength
  | byte
  | word
  /-- Two words, of which the middle counts. -/
  | range
  deriving DecidableEq, Repr

/-- An override for the instruction at an offset. -/
structure Override where
  encoding : Encoding
  offset : Nat
  deriving DecidableEq, Repr

/-- The override in force, if any. -/
abbrev ArgumentRegister := Option Override

namespace ArgumentRegister

/-- Drops an override that is not for the instruction at `offset`. -/
def check (register : ArgumentRegister) (offset : Nat) : ArgumentRegister :=
  register.filter fun override => override.offset = offset

/-- The encoding of an argument that is usually stored in `usual`. -/
def encoding (register : ArgumentRegister) (usual : Encoding) : Encoding :=
  match register with
  | some override => override.encoding
  | none => usual

end ArgumentRegister

namespace Bytecode

/-- The byte at `pos`. -/
def byte (code : Bytes) (pos : Nat) : Except SequenceError UInt8 :=
  match code[pos]? with
  | some byte => .ok byte
  | none => .error (.truncated pos)

/-- The number of `width` bytes at `pos`, and the position after it. -/
def number (code : Bytes) (pos width : Nat) : Except SequenceError (Nat × Nat) :=
  if pos + width ≤ code.size then
    .ok (ByteOrder.bigValue (code.extract pos (pos + width)).toList, pos + width)
  else .error (.truncated pos)

/-- The signed word at `pos`, and the position after it. -/
def word (code : Bytes) (pos : Nat) : Except SequenceError (Int16 × Nat) := do
  let (value, next) ← number code pos 2
  return ((UInt16.ofNat value).toInt16, next)

/-- The rest of a variable-length quantity of which `value` has been read and at most
`groups` bytes follow, and the position after it. Bits above the lowest 32 are lost. -/
def quantityFrom (code : Bytes) :
    (groups : Nat) → (value : UInt32) → (pos : Nat) → Except SequenceError (UInt32 × Nat)
  | 0, value, pos => .ok (value, pos)
  | groups + 1, value, pos => do
    let group ← byte code pos
    let value := UInt32.ofNat (value.toNat * 128 + group.toNat % 128)
    if group < 0x80 then return (value, pos + 1)
    else quantityFrom code groups value (pos + 1)

/-- The variable-length quantity at `pos`, and the position after it. -/
def quantity (code : Bytes) (pos : Nat) : Except SequenceError (UInt32 × Nat) :=
  quantityFrom code 5 0 pos

/-- The argument at `pos`, and the position after it. -/
def argument (code : Bytes) (encoding : Encoding) (pos : Nat) :
    Except SequenceError (Int32 × Nat) := do
  match encoding with
  | .variableLength =>
    let (value, next) ← quantity code pos
    return (value.toInt32, next)
  | .byte =>
    let value ← byte code pos
    return (Int32.ofNat value.toNat, pos + 1)
  | .word =>
    let (value, next) ← word code pos
    return (value.toInt32, next)
  | .range =>
    let (low, next) ← word code pos
    let (high, next) ← word code next
    return ((low.toInt32 + high.toInt32) / 2, next)

end Bytecode

end ConsoleSound

import ConsoleSound.Error
import ConsoleSound.Text.Quoted
/-! # Why a sequence cannot be played

A track stops at the first instruction that cannot be decoded or that nests too
deeply, and after too many instructions. -/

namespace ConsoleSound

/-- The instructions that one track may execute. -/
def stepLimit : Nat := 0x100000

/-- Why a sequence cannot be played. -/
inductive SequenceError where
  | unknownInstruction (opcode : UInt8) (offset : Nat)
  | unknownExtended (sub : UInt8) (offset : Nat)
  | truncated (offset : Nat)
  | deepNesting (offset : Nat)
  | tooManySteps
  | unknownLabel (name : String)
  | container (error : Error)
  deriving DecidableEq, Repr

/-- The wording of an error. -/
def SequenceError.message : SequenceError → String
  | unknownInstruction opcode offset =>
    s!"unknown instruction 0x{Text.hexPadded 2 opcode.toNat} at 0x{Text.hexPadded 6 offset}"
  | unknownExtended sub offset =>
    s!"unknown extended instruction 0x{Text.hexPadded 2 sub.toNat} at 0x{Text.hexPadded 6 offset}"
  | truncated offset =>
    s!"instruction at 0x{Text.hexPadded 6 offset} runs past the end of the sequence"
  | deepNesting offset => s!"call or loop nesting too deep at 0x{Text.hexPadded 6 offset}"
  | tooManySteps => s!"track did not finish within {stepLimit} instructions"
  | unknownLabel name => s!"no label named {Text.quoted name}"
  | container error => error.message

end ConsoleSound

import ConsoleSound.Sequence.Argument
/-! # Instructions

The bytecode of a sequence is a row of instructions of one to seven bytes. `read`
decodes the instruction at an offset; it looks at the bytes of that instruction only
and at the override that the instruction before it may have left. -/

namespace ConsoleSound

/-- What an instruction with one byte of argument sets. -/
inductive Control where
  | timebase
  | envHold
  | monophonic
  | velocityRange
  | biquadType
  | biquadValue
  | pan
  | volume
  | mainVolume
  | transpose
  | pitchBend
  | bendRange
  | priority
  | noteWait
  | tie
  | porta
  | modDepth
  | modSpeed
  | modType
  | modRange
  | portaSwitch
  | portaTime
  | attack
  | decay
  | sustain
  | release
  | volume2
  | printVar
  | surroundPan
  | lpfCutoff
  | fxSendA
  | fxSendB
  | mainSend
  | initPan
  | mute
  | fxSendC
  | damper
  deriving DecidableEq, Repr

/-- What an instruction with a word of argument sets. -/
inductive WordControl where
  | modDelay
  | tempo
  | sweepPitch
  deriving DecidableEq, Repr

/-- An instruction. -/
inductive Instruction where
  /-- Plays a key for some ticks. -/
  | note (key velocity : UInt8) (duration : UInt32)
  | wait (ticks : UInt32)
  | program (number : UInt32)
  /-- Starts another track of the player beside this one. -/
  | openTrack (track : UInt8) (offset : UInt32)
  | jump (target : UInt32)
  | call (target : UInt32)
  /-- The next argument is a range. -/
  | random
  /-- The next argument is a variable. -/
  | fromVariable
  /-- The next instruction counts only if the last comparison held. -/
  | ifHeld
  | set (control : Control) (value : UInt8)
  | setWord (control : WordControl) (value : Int16)
  /-- Repeats up to the matching end, for ever if the count is zero. -/
  | loopStart (count : UInt8)
  /-- Arithmetic, comparisons and user procedures. -/
  | extended (sub : UInt8) (operand : UInt32)
  | envReset
  | loopEnd
  /-- Returns from a call, or ends the track outside of one. -/
  | ret
  /-- Reserves the tracks of a mask. -/
  | allocTrack (mask : UInt16)
  /-- Ends the track. -/
  | fin
  deriving DecidableEq, Repr

/-! ## The text of an instruction -/

/-- The name of what a control sets. -/
def Control.name : Control → String
  | timebase => "Timebase"
  | envHold => "EnvHold"
  | monophonic => "Monophonic"
  | velocityRange => "VelocityRange"
  | biquadType => "BiquadType"
  | biquadValue => "BiquadValue"
  | pan => "Pan"
  | volume => "Volume"
  | mainVolume => "MainVolume"
  | transpose => "Transpose"
  | pitchBend => "PitchBend"
  | bendRange => "BendRange"
  | priority => "Priority"
  | noteWait => "NoteWait"
  | tie => "Tie"
  | porta => "Porta"
  | modDepth => "ModDepth"
  | modSpeed => "ModSpeed"
  | modType => "ModType"
  | modRange => "ModRange"
  | portaSwitch => "PortaSwitch"
  | portaTime => "PortaTime"
  | attack => "Attack"
  | decay => "Decay"
  | sustain => "Sustain"
  | release => "Release"
  | volume2 => "Volume2"
  | printVar => "PrintVar"
  | surroundPan => "SurroundPan"
  | lpfCutoff => "LpfCutoff"
  | fxSendA => "FxSendA"
  | fxSendB => "FxSendB"
  | mainSend => "MainSend"
  | initPan => "InitPan"
  | mute => "Mute"
  | fxSendC => "FxSendC"
  | damper => "Damper"

/-- The text of a control's value: a switch, a signed number or a number. -/
def Control.valueText (control : Control) (value : UInt8) : String :=
  match control with
  | monophonic | noteWait | tie | portaSwitch | damper => if value = 0 then "false" else "true"
  | transpose | pitchBend => toString value.toInt8.toInt
  | _ => toString value.toNat

/-- The name of what a word control sets. -/
def WordControl.name : WordControl → String
  | modDelay => "ModDelay"
  | tempo => "Tempo"
  | sweepPitch => "SweepPitch"

namespace Instruction

/-- A name with one value in parentheses. -/
def withValue (name value : String) : String := name ++ "(" ++ value ++ ")"

/-- A name with named values in braces. -/
def withFields (name : String) (fields : List (String × Nat)) : String :=
  let shown := fields.map fun (field, value) => field ++ ": " ++ toString value
  name ++ " \x7b " ++ ", ".intercalate shown ++ " \x7d"

/-- The text of an instruction. -/
def text : Instruction → String
  | note key velocity duration => withFields "Note"
    [("key", key.toNat), ("velocity", velocity.toNat), ("duration", duration.toNat)]
  | wait ticks => withValue "Wait" (toString ticks.toNat)
  | program number => withValue "Program" (toString number.toNat)
  | openTrack track offset =>
    withFields "OpenTrack" [("track", track.toNat), ("offset", offset.toNat)]
  | jump target => withValue "Jump" (toString target.toNat)
  | call target => withValue "Call" (toString target.toNat)
  | random => "Random"
  | fromVariable => "Variable"
  | ifHeld => "If"
  | set control value => withValue control.name (control.valueText value)
  | setWord control value => withValue control.name (toString value.toInt)
  | loopStart count => withValue "LoopStart" (toString count.toNat)
  | extended sub operand =>
    withFields "Extended" [("sub", sub.toNat), ("operand", operand.toNat)]
  | envReset => "EnvReset"
  | loopEnd => "LoopEnd"
  | ret => "Ret"
  | allocTrack mask => withValue "AllocTrack" (toString mask.toNat)
  | fin => "Fin"

/-- Whether an instruction ends its track wherever it stands. -/
def isEnd (instruction : Instruction) : Bool := instruction = fin

/-! ## Decoding -/

/-- The control that an opcode from 0xb0 to 0xdf sets. -/
def controlOf? (opcode : UInt8) : Option Control :=
  match opcode with
  | 0xb0 => some .timebase
  | 0xb1 => some .envHold
  | 0xb2 => some .monophonic
  | 0xb3 => some .velocityRange
  | 0xb4 => some .biquadType
  | 0xb5 => some .biquadValue
  | 0xc0 => some .pan
  | 0xc1 => some .volume
  | 0xc2 => some .mainVolume
  | 0xc3 => some .transpose
  | 0xc4 => some .pitchBend
  | 0xc5 => some .bendRange
  | 0xc6 => some .priority
  | 0xc7 => some .noteWait
  | 0xc8 => some .tie
  | 0xc9 => some .porta
  | 0xca => some .modDepth
  | 0xcb => some .modSpeed
  | 0xcc => some .modType
  | 0xcd => some .modRange
  | 0xce => some .portaSwitch
  | 0xcf => some .portaTime
  | 0xd0 => some .attack
  | 0xd1 => some .decay
  | 0xd2 => some .sustain
  | 0xd3 => some .release
  | 0xd5 => some .volume2
  | 0xd6 => some .printVar
  | 0xd7 => some .surroundPan
  | 0xd8 => some .lpfCutoff
  | 0xd9 => some .fxSendA
  | 0xda => some .fxSendB
  | 0xdb => some .mainSend
  | 0xdc => some .initPan
  | 0xdd => some .mute
  | 0xde => some .fxSendC
  | 0xdf => some .damper
  | _ => none

/-- A number of ticks or a program, for which negative arguments count as zero. -/
def countOf (argument : Int32) : UInt32 := (max argument 0).toUInt32

/-- The instruction of one byte of argument that an opcode stands for. -/
def byteInstruction? (opcode value : UInt8) : Option Instruction :=
  if opcode = 0xd4 then some (loopStart value)
  else (controlOf? opcode).map fun control => set control value

/-- The usual encoding of the argument of an opcode, if it takes one right after itself. -/
def usualEncoding? (opcode : UInt8) : Option Encoding :=
  if opcode = 0x80 ∨ opcode = 0x81 then some .variableLength
  else if 0xb0 ≤ opcode ∧ opcode ≤ 0xdf then some .byte
  else if opcode = 0xe0 ∨ opcode = 0xe1 ∨ opcode = 0xe3 then some .word
  else none

/-- The instruction that an opcode and its argument make. -/
def ofArgument? (opcode : UInt8) (argument : Int32) : Option Instruction :=
  match opcode with
  | 0x80 => some (wait (countOf argument))
  | 0x81 => some (program (countOf argument))
  | 0xe0 => some (setWord .modDelay argument.toInt16)
  | 0xe1 => some (setWord .tempo argument.toInt16)
  | 0xe3 => some (setWord .sweepPitch argument.toInt16)
  | _ => byteInstruction? opcode argument.toUInt32.toUInt8

/-- An extended instruction, whose second opcode at `pos` gives the width of its operand. -/
def readExtended (code : Bytes) (offset pos : Nat) :
    Except SequenceError (Instruction × Nat) := do
  let sub ← Bytecode.byte code pos
  let width ← match sub.toNat / 16 with
    | 0xe => pure 2
    | 0x8 | 0x9 => pure 3
    | _ => .error (.unknownExtended sub offset)
  let (operand, next) ← Bytecode.number code (pos + 1) width
  return (extended sub (UInt32.ofNat operand), next)

/-- An instruction that neither takes an argument nor touches the override. -/
def readPlain (code : Bytes) (offset pos : Nat) (opcode : UInt8) :
    Except SequenceError (Instruction × Nat) := do
  match opcode with
  | 0x88 =>
    let track ← Bytecode.byte code pos
    let (target, next) ← Bytecode.number code (pos + 1) 3
    return (openTrack track (UInt32.ofNat target), next)
  | 0x89 =>
    let (target, next) ← Bytecode.number code pos 3
    return (jump (UInt32.ofNat target), next)
  | 0x8a =>
    let (target, next) ← Bytecode.number code pos 3
    return (call (UInt32.ofNat target), next)
  | 0xa2 => return (ifHeld, pos)
  | 0xfb => return (envReset, pos)
  | 0xfc => return (loopEnd, pos)
  | 0xfd => return (ret, pos)
  | 0xfe =>
    let (mask, next) ← Bytecode.number code pos 2
    return (allocTrack (UInt16.ofNat mask), next)
  | 0xff => return (fin, pos)
  | _ => .error (.unknownInstruction opcode offset)

/-- An instruction with an argument of some encoding at `pos`. -/
def readWithArgument (code : Bytes) (offset pos : Nat) (opcode : UInt8) (encoding : Encoding) :
    Except SequenceError (Instruction × Nat) := do
  let (argument, next) ← Bytecode.argument code encoding pos
  match ofArgument? opcode argument with
  | some instruction => return (instruction, next)
  | none => .error (.unknownInstruction opcode offset)

/-- A note, whose velocity has been read and whose duration is at `pos`. -/
def readNote (code : Bytes) (pos : Nat) (key velocity : UInt8) (encoding : Encoding) :
    Except SequenceError (Instruction × Nat) := do
  let (duration, next) ← Bytecode.argument code encoding pos
  return (note key velocity duration.toUInt32, next)

/-- The instruction at an offset with the offset after it, and the override that it
leaves. An override is spent as soon as an argument is looked for. -/
def read (code : Bytes) (offset : Nat) (register : ArgumentRegister) :
    Except SequenceError (Instruction × Nat) × ArgumentRegister :=
  let register := register.check offset
  let pos := offset + 1
  match Bytecode.byte code offset with
  | .error error => (.error error, register)
  | .ok opcode =>
    if opcode < 0x80 then
      match Bytecode.byte code pos with
      | .error error => (.error error, register)
      | .ok velocity =>
        (readNote code (pos + 1) opcode velocity (register.encoding .variableLength), none)
    else match usualEncoding? opcode with
      | some usual => (readWithArgument code offset pos opcode (register.encoding usual), none)
      | none =>
        if opcode = 0xa0 then (.ok (random, pos), some ⟨.range, pos⟩)
        else if opcode = 0xa1 then (.ok (fromVariable, pos), some ⟨.variableLength, pos⟩)
        else if opcode = 0xf0 then (readExtended code offset pos, none)
        else (readPlain code offset pos opcode, register)

/-! ## Listings -/

/-- One line of a listing. -/
structure Line where
  offset : Nat
  instruction : Instruction
  /-- The override that the instruction leaves. -/
  register : ArgumentRegister
  deriving DecidableEq, Repr

/-- At most `count` instructions from an offset on, and the error that ends them. -/
def listFrom (code : Bytes) :
    (count offset : Nat) → ArgumentRegister → List Line × Option SequenceError
  | 0, _, _ => ([], none)
  | count + 1, offset, register =>
    if code.size ≤ offset then ([], none)
    else match read code offset register with
      | (.error error, _) => ([], some error)
      | (.ok (instruction, next), register) =>
        let (lines, error?) := listFrom code count next register
        ({ offset, instruction, register } :: lines, error?)

/-- The instructions from an offset up to the end of the code, and the error that
ends them before. -/
def list (code : Bytes) (offset : Nat) : List Line × Option SequenceError :=
  listFrom code code.size offset none

end Instruction

end ConsoleSound

import ConsoleSound.View
/-! # Instrument parameters

Banks and wave sounds store the same record for what a note plays: a wave, its
envelope, its key, and how it is mixed. -/

namespace ConsoleSound

/-- What a note plays. -/
structure InstrumentParams where
  waveIndex : Int32
  attack : UInt8
  decay : UInt8
  sustain : UInt8
  release : UInt8
  hold : UInt8
  waveLocation : UInt8
  noteOffType : UInt8
  alternateAssign : UInt8
  originalKey : UInt8
  volume : UInt8
  pan : UInt8
  surroundPan : UInt8
  /-- The pitch factor, as the bits of a single-precision number. -/
  pitch : UInt32
  deriving DecidableEq, Repr, Inhabited

/-- The parameters stored at `pos`. -/
def InstrumentParams.read (view : View) (pos : Nat) : Except Error InstrumentParams := do
  let _ ← view.bytes (pos + 4) 12
  let waveIndex ← view.i32 pos
  let attack ← view.u8 (pos + 4)
  let decay ← view.u8 (pos + 5)
  let sustain ← view.u8 (pos + 6)
  let release ← view.u8 (pos + 7)
  let hold ← view.u8 (pos + 8)
  let waveLocation ← view.u8 (pos + 9)
  let noteOffType ← view.u8 (pos + 10)
  let alternateAssign ← view.u8 (pos + 11)
  let originalKey ← view.u8 (pos + 12)
  let volume ← view.u8 (pos + 13)
  let pan ← view.u8 (pos + 14)
  let surroundPan ← view.u8 (pos + 15)
  let pitch ← view.u32 (pos + 16)
  return {
    waveIndex, attack, decay, sustain, release, hold, waveLocation, noteOffType,
    alternateAssign, originalKey, volume, pan, surroundPan, pitch }

end ConsoleSound

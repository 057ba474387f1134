import ConsoleSound.View
/-! # Sample formats

Samples are stored as signed bytes, as 16-bit words, or as 4-bit ADPCM in frames
of fourteen samples that take eight bytes. -/

namespace ConsoleSound

/-- How samples are stored. -/
inductive SampleFormat where
  | pcm8
  | pcm16
  | adpcm
  deriving DecidableEq, Repr

namespace SampleFormat

/-- The format that a stored code stands for. -/
def ofCode (code : UInt8) : Except Error SampleFormat :=
  match code with
  | 0 => .ok pcm8
  | 1 => .ok pcm16
  | 2 => .ok adpcm
  | _ => .error (.unsupported (.sampleFormat code))

/-- The name of a format. -/
def name : SampleFormat → String
  | pcm8 => "PCM8"
  | pcm16 => "PCM16"
  | adpcm => "ADPCM"

end SampleFormat

/-! ## ADPCM frames and addresses -/

namespace Adpcm

/-- The bytes that `count` samples take: eight for a frame of fourteen, the first of
which is its header. A frame cut short keeps its header. -/
def byteCount (count : Nat) : Nat :=
  let rest := count % 14
  count / 14 * 8 + if 0 < rest then 1 + (rest + 1) / 2 else 0

end Adpcm

/-- The sample at a nibble address: each frame of sixteen nibbles starts with two
that hold its header. -/
def nibbleToSamples (address : UInt32) : UInt32 :=
  UInt32.ofNat (address.toNat / 16 * 14 + address.toNat % 16 - 2)

/-- The sample at a byte address: eight bytes of lead-in come first, and the bytes
of all channels are counted together. -/
def bytesToSamples (address : UInt32) (channels : UInt8) : UInt32 :=
  UInt32.ofNat (14 * (address.toNat - 8) / 8 / max channels.toNat 1)

/-- What the positions stored in a wave header count. -/
inductive Addressing where
  | nibble
  | byte
  deriving DecidableEq, Repr

/-- The sample at a stored ADPCM position. -/
def Addressing.toSamples (addressing : Addressing) (address : UInt32) (channels : UInt8) : UInt32 :=
  match addressing with
  | nibble => nibbleToSamples address
  | byte => bytesToSamples address channels

end ConsoleSound

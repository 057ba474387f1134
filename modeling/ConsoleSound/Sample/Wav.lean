import ConsoleSound.Riff
import ConsoleSound.Sample.Audio
/-! # WAV files

A WAV file is a RIFF file of a format and interleaved samples. More than two channels
take the extensible format, which says where each channel is heard. -/

namespace ConsoleSound

namespace Wav

open Riff (word long)

/-- The number of bytes of one sample. -/
def sampleSize : Nat := 2

/-- The format of plain samples. -/
def plainTag : Nat := 1

/-- The format that an extension describes. -/
def extensibleTag : Nat := 0xfffe

/-- The most speakers that have a place of their own. -/
def maxSpeakers : Nat := 18

/-- The identifier of plain samples in an extension. -/
def plainIdentifier : List UInt8 :=
  [0x01, 0x00, 0x00, 0x00, 0x00, 0x00, 0x10, 0x00, 0x80, 0x00, 0x00, 0xaa, 0x00, 0x38, 0x9b, 0x71]

/-- What every format says: its tag, the channels, the frames and the bytes of a
second, the bytes of a frame and the bits of a sample. -/
def formatFields (tag channels rate : Nat) : List UInt8 :=
  let frameSize := channels * sampleSize
  word tag ++ word channels ++ long rate ++ long (rate * frameSize) ++ word frameSize
    ++ word (sampleSize * 8)

/-- What an extension says: its size, the bits of a sample, a bit for each speaker in
use and the identifier of the samples. -/
def extensionFields (channels : Nat) : List UInt8 :=
  let speakers := (1 <<< min channels maxSpeakers) - 1
  word 22 ++ word (sampleSize * 8) ++ long speakers ++ plainIdentifier

/-- The format of some channels. -/
def format (channels rate : Nat) : List UInt8 :=
  if channels ≤ 2 then formatFields plainTag channels rate
  else formatFields extensibleTag channels rate ++ extensionFields channels

end Wav

/-- The WAV file of some audio. Audio without channels is written as one channel. -/
def Audio.wav (audio : Audio) : Riff.Chunk :=
  .riff (.ofChars 'W' 'A' 'V' 'E') [
    .data (.ofChars 'f' 'm' 't' ' ') (Wav.format audio.stride audio.rate.toNat).toArray,
    .data (.ofChars 'd' 'a' 't' 'a') (audio.samples.flatMap fun sample =>
      (ByteOrder.little.spell Wav.sampleSize sample.toUInt16.toNat).toArray)]

end ConsoleSound

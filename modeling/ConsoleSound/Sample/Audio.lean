import ConsoleSound.Sample.Codec
/-! # Decoded audio

Decoded waves are interleaved 16-bit samples with their playback data. Channels
are put together by `interleave` and taken apart by `Audio.channel`. -/

namespace ConsoleSound

/-- Interleaved samples and how to play them. -/
structure Audio where
  rate : UInt32
  channels : UInt16
  looped : Bool
  loopStart : UInt32
  loopEnd : UInt32
  samples : Array Int16
  deriving DecidableEq, Repr

/-- The first `frames` samples of every channel, one frame after the other. -/
def interleave (channels : Array (Array Int16)) (frames : Nat) : Array Int16 :=
  Array.ofFn fun (place : Fin (frames * channels.size)) =>
    (channels.getD (place.val % channels.size) #[]).getD (place.val / channels.size) 0

namespace Audio

/-- The distance between two samples of one channel. -/
def stride (audio : Audio) : Nat := max audio.channels.toNat 1

/-- The number of samples per channel. -/
def frames (audio : Audio) : Nat := audio.samples.size / audio.stride

/-- The samples of one channel: every one at distance `stride` from sample `index` on. -/
def channel (audio : Audio) (index : Nat) : Array Int16 :=
  Array.ofFn fun (frame : Fin ((audio.samples.size - index + audio.stride - 1) / audio.stride)) =>
    audio.samples.getD (index + frame.val * audio.stride) 0

end Audio

end ConsoleSound

import ConsoleSound.Sample.Adpcm
/-! # Decoding blocks of samples

A codec turns the front of some bytes into samples. `decodeSamples` gives the
samples of one channel by themselves; `decodeBlock` places them along a lane of
a buffer that several channels share. -/

namespace ConsoleSound

/-- How to decode a block: the format with what it needs besides the bytes. -/
inductive Codec where
  | pcm8
  | pcm16 (order : ByteOrder)
  | adpcm (predictors : Adpcm.Predictors) (history : Adpcm.History)
  deriving DecidableEq, Repr

namespace Codec

/-- The bytes that `count` samples take. -/
def byteCount (codec : Codec) (count : Nat) : Nat :=
  match codec with
  | pcm8 => count
  | pcm16 _ => count * 2
  | adpcm .. => Adpcm.byteCount count

/-- The history before the first sample; only ADPCM has any. -/
def history : Codec → Adpcm.History
  | adpcm _ history => history
  | _ => .silent

/-- Sample `index` of bytes that hold PCM samples. -/
def pcmSample? (raw : Bytes) (index : Nat) : (order? : Option ByteOrder) → Option Int16
  | none => (raw[index]?).map fun byte => byte.toInt8.toInt16
  | some order => do
    let first ← raw[2 * index]?
    let second ← raw[2 * index + 1]?
    return (UInt16.ofNat (order.value [first, second])).toInt16

/-- `count` PCM samples from sample `index` on, appended to those decoded before. -/
def pcmFrom? (raw : Bytes) (order? : Option ByteOrder) :
    (count index : Nat) → Array Int16 → Option (Array Int16)
  | 0, _, decoded => some decoded
  | count + 1, index, decoded =>
    match pcmSample? raw index order? with
    | some sample => pcmFrom? raw order? count (index + 1) (decoded.push sample)
    | none => none

/-- The first `count` samples of some bytes and the history after them, if the
bytes hold so many. -/
def decode? (codec : Codec) (raw : Bytes) (count : Nat) : Option (Array Int16 × Adpcm.History) :=
  match codec with
  | pcm8 => (pcmFrom? raw none count 0 #[]).map fun samples => (samples, .silent)
  | pcm16 order => (pcmFrom? raw (some order) count 0 #[]).map fun samples => (samples, .silent)
  | adpcm predictors history => Adpcm.decode? predictors history raw count

end Codec

/-- The first `count` samples of some bytes and the history after them. -/
def decodeSamples (raw : Bytes) (count : Nat) (codec : Codec) :
    Except Error (Array Int16 × Adpcm.History) :=
  match codec.decode? raw count with
  | some decoded => .ok decoded
  | none => malformed raw.size (.shortSamples (codec.byteCount count))

/-! ## Lanes -/

/-- The places of one channel in a buffer: every `stride`-th from `start` on. -/
structure Lane where
  start : Nat
  stride : Nat
  deriving DecidableEq, Repr

namespace Lane

/-- The lane of a buffer that holds one channel. -/
def mono : Lane := ⟨0, 1⟩

/-- The lane of channel `index` among `channels` interleaved ones. -/
def channel (index channels : Nat) : Lane := ⟨index, max channels 1⟩

/-- The place of sample `index`. -/
def place (lane : Lane) (index : Nat) : Nat := lane.start + index * lane.stride

/-- The places of a lane but the first `count`. -/
def drop (lane : Lane) (count : Nat) : Lane := ⟨lane.place count, lane.stride⟩

/-- Whether a buffer of `size` samples has places for `count` samples, one at least. -/
def fits (lane : Lane) (count size : Nat) : Bool := lane.place (count - 1) < size

/-- A buffer with samples put along a lane, the first of them in place `index`. -/
def writeFrom (lane : Lane) (buffer : Array Int16) : (index : Nat) → List Int16 → Array Int16
  | _, [] => buffer
  | index, sample :: samples =>
    lane.writeFrom (buffer.setIfInBounds (lane.place index) sample) (index + 1) samples

/-- A buffer with samples put along a lane. -/
def write (lane : Lane) (buffer : Array Int16) (samples : Array Int16) : Array Int16 :=
  lane.writeFrom buffer 0 samples.toList

end Lane

/-- A buffer with `count` decoded samples put along a lane, and the history after
them. Nothing is asked of the lane or of the bytes when there are no samples. -/
def decodeBlock (raw : Bytes) (count : Nat) (codec : Codec) (buffer : Array Int16) (lane : Lane) :
    Except Error (Array Int16 × Adpcm.History) :=
  if count = 0 then
    .ok (buffer, codec.history)
  else if lane.fits count buffer.size then
    (decodeSamples raw count codec).map fun (samples, history) =>
      (lane.write buffer samples, history)
  else
    malformed lane.start (.outputFull count)

end ConsoleSound

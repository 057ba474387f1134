import ConsoleSound.Wave.Info
import ConsoleSound.Reference
/-! # Stream records

A stream stores its channels in blocks: every block holds the same number of
samples of each channel in turn, except the last, which is shorter and padded.
`StreamInfo.checkGeometry` makes sure that the blocks hold the samples that they
claim and lie inside the sample data. -/

namespace ConsoleSound

/-- Format, loop and block layout of a stream. -/
structure StreamInfo where
  format : SampleFormat
  looped : Bool
  channelCount : UInt8
  rate : UInt32
  blockHeaderOffset : UInt16
  loopStart : UInt32
  loopEnd : UInt32
  dataOffset : UInt32
  blockCount : UInt32
  blockSize : UInt32
  blockSamples : UInt32
  finalBlockSize : UInt32
  finalBlockSamples : UInt32
  finalBlockPaddedSize : UInt32
  adpcmInterval : UInt32
  adpcmDataSize : UInt32
  deriving DecidableEq, Repr

namespace StreamInfo

/-- The stream record at `pos`. -/
def read (view : View) (pos : Nat) : Except Error StreamInfo := do
  let format ← SampleFormat.ofCode (← view.u8 pos)
  let looped ← view.u8 (pos + 1)
  let channelCount ← view.u8 (pos + 2)
  let rate ← WaveInfo.readRate view (pos + 3)
  let blockHeaderOffset ← view.u16 (pos + 6)
  let loopStart ← view.u32 (pos + 0x08)
  let loopEnd ← view.u32 (pos + 0x0c)
  let dataOffset ← view.u32 (pos + 0x10)
  let blockCount ← view.u32 (pos + 0x14)
  let blockSize ← view.u32 (pos + 0x18)
  let blockSamples ← view.u32 (pos + 0x1c)
  let finalBlockSize ← view.u32 (pos + 0x20)
  let finalBlockSamples ← view.u32 (pos + 0x24)
  let finalBlockPaddedSize ← view.u32 (pos + 0x28)
  let adpcmInterval ← view.u32 (pos + 0x2c)
  let adpcmDataSize ← view.u32 (pos + 0x30)
  return {
    format, looped := looped ≠ 0, channelCount, rate, blockHeaderOffset, loopStart, loopEnd,
    dataOffset, blockCount, blockSize, blockSamples, finalBlockSize, finalBlockSamples,
    finalBlockPaddedSize, adpcmInterval, adpcmDataSize }

/-- The bytes that `count` samples of a channel take. -/
def byteCount (info : StreamInfo) (count : Nat) : Nat :=
  match info.format with
  | .pcm8 => count
  | .pcm16 => count * 2
  | .adpcm => Adpcm.byteCount count

/-- Whether a block is the last one. -/
def isFinal (info : StreamInfo) (block : Nat) : Bool := block + 1 = info.blockCount.toNat

/-- The number of samples that each channel has in a block. -/
def samplesIn (info : StreamInfo) (block : Nat) : Nat :=
  if info.isFinal block then info.finalBlockSamples.toNat else info.blockSamples.toNat

/-- The number of bytes that each channel has in a block. -/
def bytesIn (info : StreamInfo) (block : Nat) : Nat :=
  if info.isFinal block then info.finalBlockSize.toNat else info.blockSize.toNat

/-- How far into the sample data a channel's part of a block starts: blocks before
it are whole, and the parts of the last block are padded. -/
def partOffset (info : StreamInfo) (block channel : Nat) : Nat :=
  let whole := block * info.channelCount.toNat * info.blockSize.toNat
  if info.isFinal block then whole + channel * info.finalBlockPaddedSize.toNat
  else whole + channel * info.blockSize.toNat

/-- The bytes from the first part of the first block to the end of the last part
of the last block. -/
def span (info : StreamInfo) : Nat :=
  (info.blockCount.toNat - 1) * info.channelCount.toNat * info.blockSize.toNat
    + (info.channelCount.toNat - 1) * info.finalBlockPaddedSize.toNat
    + info.finalBlockSize.toNat

/-- Refuses blocks that hold fewer bytes than their samples take, and blocks that
overrun the `available` bytes of sample data. -/
def checkGeometry (info : StreamInfo) (available pos : Nat) : Except Error Unit :=
  if info.blockCount = 0 then .ok ()
  else if info.blockSize.toNat < info.byteCount info.blockSamples.toNat
      ∨ info.finalBlockSize.toNat < info.byteCount info.finalBlockSamples.toNat then
    malformed pos .crowdedBlock
  else if available < info.span then
    malformed pos (.streamOverrun available)
  else .ok ()

/-- The number of samples per channel. -/
def sampleCount (info : StreamInfo) : Except Error UInt32 :=
  let count := match info.blockCount.toNat with
    | 0 => 0
    | blocks + 1 => blocks * info.blockSamples.toNat + info.finalBlockSamples.toNat
  if count < UInt32.size then .ok (UInt32.ofNat count) else malformed 0 .sampleCountOverflow

end StreamInfo

/-! ## Tracks -/

/-- The channels that are played together. -/
structure StreamTrack where
  /-- Volume and pan, if the track table stores them. -/
  mix? : Option (UInt8 × UInt8)
  channels : List UInt8
  deriving DecidableEq, Repr

namespace StreamTrack

/-- The track record at `pos`, with or without a mix in front of its channels. -/
def read (view : View) (pos : Nat) (mixed : Bool) : Except Error StreamTrack := do
  let mix? ← if mixed then do
      let volume ← view.u8 pos
      let pan ← view.u8 (pos + 1)
      pure (some (volume, pan))
    else pure none
  let list := if mixed then pos + 8 else pos
  let count ← view.u8 list
  let channels ← view.bytes (list + 1) count.toNat
  return { mix?, channels := channels.toList }

/-- The track table at `pos`. -/
def readTable (view : View) (pos base : Nat) : Except Error (List StreamTrack) := do
  let count ← view.u8 pos
  let mixed ← match ← view.u8 (pos + 1) with
    | 0 => pure false
    | 1 => pure true
    | code => .error (.unsupported (.trackInfo code))
  (List.range count.toNat).mapM fun index => do
    read view (← view.follow (pos + 4 + index * Reference.size) base "track info") mixed

end StreamTrack

end ConsoleSound

import ConsoleSound.Stream.Info
import ConsoleSound.Container.Block
import ConsoleSound.Container.Kind
/-! # Streams

A stream file holds a stream record, tables of tracks and channels, for ADPCM the
history at every block, and the blocks themselves. -/

namespace ConsoleSound

/-- A streamed audio file. -/
structure Stream where
  header : Container.Header
  info : StreamInfo
  tracks : List StreamTrack
  /-- The ADPCM parameters of every channel. -/
  channels : List (Option Adpcm.Params)
  /-- The block of ADPCM histories, if there is one. -/
  histories? : Option Container.Block
  data : Container.Block
  view : View
  deriving DecidableEq, Repr

namespace Stream

/-- The ADPCM parameters that the channel table at `pos` stores for every channel. -/
def readChannels (view : View) (pos base : Nat) (format : SampleFormat) :
    Except Error (List (Option Adpcm.Params)) := do
  let count ← view.u8 pos
  (List.range count.toNat).mapM fun index => do
    let channel ← view.follow (pos + 4 + index * Reference.size) base "channel info"
    match format, ← view.follow? channel base with
    | .adpcm, some params => some <$> Adpcm.Params.read view params
    | _, _ => return none

/-- Refuses tracks that play a channel which the stream does not have. -/
def checkTracks (info : StreamInfo) (tracks : List StreamTrack) (pos : Nat) : Except Error Unit :=
  match tracks.findSome? fun track => track.channels.find? (info.channelCount ≤ ·) with
  | some channel => malformed pos (.unknownTrackChannel channel info.channelCount)
  | none => .ok ()

/-- The stream that a file holds. -/
def read (file : Bytes) : Except Error Stream := do
  let (header, view) ← Container.openAs file Container.Kind.stream.magic
  let head ← Container.Block.locate view 0x10 (.ofChars 'H' 'E' 'A' 'D')
  let histories? ← match ← view.offset 0x18 with
    | 0 => pure none
    | _ => some <$> Container.Block.locate view 0x18 (.ofChars 'A' 'D' 'P' 'C')
  let data ← Container.Block.locate view 0x20 (.ofChars 'D' 'A' 'T' 'A')
  let base := head.base
  let infoPos ← view.follow base base "stream info"
  let tracksPos ← view.follow (base + 8) base "track table"
  let channelsPos ← view.follow (base + 16) base "channel table"
  let info ← StreamInfo.read view infoPos
  let tracks ← StreamTrack.readTable view tracksPos base
  let channels ← readChannels view channelsPos base info.format
  let samplesStart := data.base + (← view.offset data.base)
  info.checkGeometry (data.stop - samplesStart) infoPos
  checkTracks info tracks tracksPos
  return { header, info, tracks, channels, histories?, data, view }

/-- The number of tracks. -/
def trackCount (stream : Stream) : Nat := stream.tracks.length

/-- The bytes of a channel's part of a block. -/
def part (stream : Stream) (block channel : Nat) : Except Error Bytes := do
  let base := stream.data.base
  let start := base + (← stream.view.offset base)
  stream.view.bytes (start + stream.info.partOffset block channel) (stream.info.bytesIn block)

/-- The ADPCM history stored for a channel at a block, if the file stores any. -/
def history? (stream : Stream) (block channel : Nat) : Except Error (Option Adpcm.History) :=
  match stream.histories? with
  | some histories => do
    let entry := block * stream.info.channelCount.toNat + channel
    some <$> Adpcm.History.read stream.view (histories.base + entry * 4)
  | none => .ok none

/-- How a channel's part of a block is coded, given the history after the block before. -/
def codec (stream : Stream) (block : Nat) (channel : UInt8) (history : Adpcm.History) :
    Except Error Codec :=
  match stream.info.format with
  | .pcm8 => .ok .pcm8
  | .pcm16 => .ok (.pcm16 stream.view.order)
  | .adpcm =>
    match (stream.channels[channel.toNat]?).join with
    | some params => do
      let stored ← stream.history? block channel.toNat
      return .adpcm params.predictors (stored.getD history)
    | none => malformed 0 (.missingAdpcm channel)

/-- A buffer with the samples of a channel in `count` blocks from `block` on put along a lane.
Every block goes behind the samples of the blocks before it. -/
def decodeBlocks (stream : Stream) (channel : UInt8) (lane : Lane) :
    (count block : Nat) → Adpcm.History → Array Int16 → Except Error (Array Int16)
  | 0, _, _, buffer => .ok buffer
  | count + 1, block, history, buffer => do
    let raw ← stream.part block channel.toNat
    let codec ← stream.codec block channel history
    let rest := lane.drop (block * stream.info.blockSamples.toNat)
    let (buffer, history) ← decodeBlock raw (stream.info.samplesIn block) codec buffer rest
    decodeBlocks stream channel lane count (block + 1) history buffer

/-- The history of a channel before its first block. -/
def initialHistory (stream : Stream) (channel : UInt8) : Adpcm.History :=
  match (stream.channels[channel.toNat]?).join with
  | some params => params.history
  | none => .silent

/-- A buffer with the samples of a channel put along a lane. -/
def decodeInto (stream : Stream) (buffer : Array Int16) (channel : UInt8) (lane : Lane) :
    Except Error (Array Int16) :=
  stream.decodeBlocks channel lane stream.info.blockCount.toNat 0 (stream.initialHistory channel)
    buffer

/-- The samples of a channel that the stream has. -/
def decodeChannel (stream : Stream) (channel : UInt8) : Except Error (Array Int16) := do
  if stream.info.channelCount ≤ channel then
    notFound (.channel channel)
  else
    let frames ← stream.info.sampleCount
    stream.decodeInto (Array.replicate frames.toNat 0) channel .mono

/-- The samples of some channels, each along a lane of one buffer. -/
def decodeChannels (stream : Stream) (channels : List UInt8) (frames : Nat) :
    Except Error (Array Int16) :=
  let place := fun buffer (channel, index) =>
    stream.decodeInto buffer channel (.channel index channels.length)
  channels.zipIdx.foldlM place (Array.replicate (frames * channels.length) 0)

/-- The channels of a track, interleaved in track order. -/
def decodeTrack (stream : Stream) (index : Nat) : Except Error Audio := do
  let track ← match stream.tracks[index]? with
    | some track => pure track
    | none => notFound (.track index)
  let frames ← stream.info.sampleCount
  let samples ← stream.decodeChannels track.channels frames.toNat
  return {
    rate := stream.info.rate
    channels := UInt16.ofNat track.channels.length
    looped := stream.info.looped
    loopStart := stream.info.loopStart
    loopEnd := stream.info.loopEnd
    samples }

end Stream

end ConsoleSound

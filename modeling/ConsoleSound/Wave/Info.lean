import ConsoleSound.Sample.Audio
/-! # Wave records

A wave record gives the format, the loop and the channels of one wave. Waves of
their own and the wave tables of banks and wave sounds share it. -/

namespace ConsoleSound

/-- Where the samples of a wave lie. -/
inductive DataLocation where
  /-- At a distance within the wave data. -/
  | offset
  /-- At an address in the memory of the console. -/
  | address
  deriving DecidableEq, Repr

/-- One channel of a wave. -/
structure ChannelInfo where
  dataOffset : UInt32
  adpcm? : Option Adpcm.Params
  volumes : Vector UInt32 4
  deriving DecidableEq, Repr

/-- The channel record at `pos`; its ADPCM parameters are measured from `base`. -/
def ChannelInfo.read (view : View) (pos base : Nat) (format : SampleFormat) :
    Except Error ChannelInfo := do
  let adpcmOffset ← view.offset (pos + 4)
  let adpcm? ← match format with
    | .adpcm => some <$> Adpcm.Params.read view (base + adpcmOffset)
    | _ => pure none
  let dataOffset ← view.u32 pos
  let volumes ← Vector.ofFnM fun index => view.u32 (pos + 8 + index.val * 4)
  return { dataOffset, adpcm?, volumes }

/-- The format, loop and channels of one wave. -/
structure WaveInfo where
  format : SampleFormat
  looped : Bool
  rate : UInt32
  location : DataLocation
  loopStart : UInt32
  loopEnd : UInt32
  dataOffset : UInt32
  channels : List ChannelInfo
  deriving DecidableEq, Repr

namespace WaveInfo

/-- The three bytes of a sample rate at `pos`. -/
def readRate (view : View) (pos : Nat) : Except Error UInt32 := do
  let high ← view.u8 pos
  let low ← view.u16 (pos + 1)
  return UInt32.ofNat (high.toNat * 65536 + low.toNat)

/-- Where the code at `pos` says that the samples lie. -/
def readLocation (view : View) (pos : Nat) : Except Error DataLocation := do
  match ← view.u8 pos with
  | 0 => return .offset
  | 1 => return .address
  | code => .error (.unsupported (.dataLocation code))

/-- The wave record at `pos`. Channel records are measured from its start. -/
def read (view : View) (pos : Nat) : Except Error WaveInfo := do
  let format ← SampleFormat.ofCode (← view.u8 pos)
  let channelCount ← view.u8 (pos + 2)
  let rate ← readRate view (pos + 3)
  let location ← readLocation view (pos + 6)
  let table := pos + (← view.offset (pos + 0x10))
  let channels ← (List.range channelCount.toNat).mapM fun index => do
    let channel := pos + (← view.offset (table + index * 4))
    ChannelInfo.read view channel pos format
  let looped ← view.u8 (pos + 1)
  let loopStart ← view.u32 (pos + 8)
  let loopEnd ← view.u32 (pos + 0x0c)
  let dataOffset ← view.u32 (pos + 0x14)
  return { format, looped := looped ≠ 0, rate, location, loopStart, loopEnd, dataOffset, channels }

/-- The number of channels. -/
def channelCount (info : WaveInfo) : UInt8 := UInt8.ofNat info.channels.length

/-- The sample at a stored position: only those of ADPCM waves have to be converted. -/
def position (info : WaveInfo) (addressing : Addressing) (stored : UInt32) : UInt32 :=
  match info.format with
  | .adpcm => addressing.toSamples stored info.channelCount
  | _ => stored

/-- The start and the end of the loop, in samples. -/
def loopPoints (info : WaveInfo) (addressing : Addressing) : UInt32 × UInt32 :=
  (info.position addressing info.loopStart, info.position addressing info.loopEnd)

/-- How a channel is coded. -/
def codec (info : WaveInfo) (order : ByteOrder) (channel : ChannelInfo) : Codec :=
  match info.format, channel.adpcm? with
  | .adpcm, some params => .adpcm params.predictors params.history
  | .pcm16, _ => .pcm16 order
  | _, _ => .pcm8

/-- The bytes of channel `index`, which start `dataOffset` bytes past `base`. -/
def channelData (waveData : Bytes) (base index : Nat) (channel : ChannelInfo) :
    Except Error Bytes :=
  let start := base + channel.dataOffset.toNat
  if start ≤ waveData.size then .ok (waveData.extract start waveData.size)
  else malformed start (.channelPastEnd index)

/-- The samples of channel `index`. -/
def decodeChannel (info : WaveInfo) (order : ByteOrder) (waveData : Bytes) (base frames : Nat)
    (index : Nat) (channel : ChannelInfo) : Except Error (Array Int16) := do
  let raw ← channelData waveData base index channel
  let (samples, _) ← decodeSamples raw frames (info.codec order channel)
  return samples

/-- The first `frames` samples of every channel, interleaved. -/
def decode (info : WaveInfo) (order : ByteOrder) (waveData : Bytes) (base frames : Nat)
    (addressing : Addressing) : Except Error Audio := do
  if info.location = .address then
    throw (.unsupported .absoluteData)
  let channels ← info.channels.zipIdx.mapM fun (channel, index) =>
    info.decodeChannel order waveData base frames index channel
  let (loopStart, loopEnd) := info.loopPoints addressing
  return {
    rate := info.rate
    channels := UInt16.ofNat channels.length
    looped := info.looped
    loopStart
    loopEnd
    samples := interleave channels.toArray frames }

end WaveInfo

end ConsoleSound

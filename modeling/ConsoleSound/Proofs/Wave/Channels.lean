import ConsoleSound.Wave.Info
import ConsoleSound.Proofs.Sample.Interleaving
/-! # Channels of a wave

A wave is decoded one channel after the other, each along its lane of one buffer
(`WaveInfo.decodeInPlace`), and that is the same as decoding every channel by itself and
interleaving them (`WaveInfo.decode_eq`). So a wave is decoded exactly if each of its channels is
(`WaveInfo.exists_decode_iff`), for which only the start of the channel and the number of bytes from
there on matter, and what a channel holds then has nothing to do with the others
(`WaveInfo.channel_audio`), wherever their bytes lie.

That every channel of an ADPCM wave has predictors is known from reading the wave record
(`WaveInfo.codes_of_read`). -/

namespace ConsoleSound

open Checked

/-- How a channel of a wave is coded: PCM as its format says, ADPCM with the predictors and the
history of the channel. -/
inductive SampleFormat.Codes (order : ByteOrder) (channel : ChannelInfo) :
    SampleFormat → Codec → Prop where
  | pcm8 : Codes order channel .pcm8 .pcm8
  | pcm16 : Codes order channel .pcm16 (.pcm16 order)
  | adpcm {params : Adpcm.Params} (h : channel.adpcm? = some params) :
    Codes order channel .adpcm (.adpcm params.predictors params.history)

namespace WaveInfo

/-! ## Records that were read -/

theorem adpcm?_of_read {view : View} {pos base : Nat} {channel : ChannelInfo}
    (h : ChannelInfo.read view pos base .adpcm = .ok channel) :
    ∃ params, channel.adpcm? = some params := by
  obtain ⟨adpcmOffset, -, h⟩ := bind_eq_ok_iff.mp h
  obtain ⟨adpcm?, hadpcm, h⟩ := bind_eq_ok_iff.mp h
  obtain ⟨dataOffset, -, h⟩ := bind_eq_ok_iff.mp h
  obtain ⟨volumes, -, h⟩ := bind_eq_ok_iff.mp h
  obtain ⟨params, -, hparams⟩ := map_eq_ok_iff.mp hadpcm
  rw [← Except.ok.inj h]
  exact ⟨params, hparams.symm⟩

theorem channels_of_read {view : View} {pos : Nat} {info : WaveInfo}
    (h : read view pos = .ok info) :
    info.channels.length < UInt8.size
      ∧ ∀ channel ∈ info.channels, ∃ place,
        ChannelInfo.read view place pos info.format = .ok channel := by
  obtain ⟨code, -, h⟩ := bind_eq_ok_iff.mp h
  obtain ⟨format, -, h⟩ := bind_eq_ok_iff.mp h
  obtain ⟨count, -, h⟩ := bind_eq_ok_iff.mp h
  obtain ⟨rate, -, h⟩ := bind_eq_ok_iff.mp h
  obtain ⟨location, -, h⟩ := bind_eq_ok_iff.mp h
  obtain ⟨table, -, h⟩ := bind_eq_ok_iff.mp h
  obtain ⟨channels, hchannels, h⟩ := bind_eq_ok_iff.mp h
  obtain ⟨looped, -, h⟩ := bind_eq_ok_iff.mp h
  obtain ⟨loopStart, -, h⟩ := bind_eq_ok_iff.mp h
  obtain ⟨loopEnd, -, h⟩ := bind_eq_ok_iff.mp h
  obtain ⟨dataOffset, -, h⟩ := bind_eq_ok_iff.mp h
  obtain rfl := Except.ok.inj h
  constructor
  · show channels.length < UInt8.size
    rw [length_of_mapM hchannels, List.length_range]
    exact count.toNat_lt_size
  · intro channel hmem
    obtain ⟨index, -, hchannel⟩ := exists_of_mapM hchannels hmem
    obtain ⟨offset, -, hchannel⟩ := bind_eq_ok_iff.mp hchannel
    exact ⟨pos + offset, hchannel⟩

/-- No channel of a wave that was read is coded otherwise than its format says. -/
theorem codes_of_read {view : View} {pos : Nat} {info : WaveInfo} (h : read view pos = .ok info)
    (order : ByteOrder) {channel : ChannelInfo} (hchannel : channel ∈ info.channels) :
    info.format.Codes order channel (info.codec order channel) := by
  obtain ⟨place, hplace⟩ := (channels_of_read h).2 channel hchannel
  rw [codec]
  cases hformat : info.format with
  | pcm8 => exact .pcm8
  | pcm16 => exact .pcm16
  | adpcm =>
      rw [hformat] at hplace
      obtain ⟨params, hparams⟩ := adpcm?_of_read hplace
      rw [hparams]
      exact .adpcm hparams

theorem byteCount_codec_of_read {view : View} {pos : Nat} {info : WaveInfo}
    (h : read view pos = .ok info) (hformat : info.format = .adpcm) (order : ByteOrder)
    {channel : ChannelInfo} (hchannel : channel ∈ info.channels) (frames : Nat) :
    (info.codec order channel).byteCount frames = Adpcm.byteCount frames := by
  have hcodes := codes_of_read h order hchannel
  rw [hformat] at hcodes
  cases hcodec : info.codec order channel <;> rw [hcodec] at hcodes <;> cases hcodes
  rfl

/-! ## One buffer for all channels -/

variable (info : WaveInfo) (order : ByteOrder) (waveData : Bytes) (base frames : Nat)

/-- The samples of all channels, each decoded by itself. -/
def decodeApart : Except Error (List (Array Int16)) :=
  info.channels.zipIdx.mapM fun (channel, index) =>
    info.decodeChannel order waveData base frames index channel

/-- A buffer with the samples of a channel put along its lane. -/
def decodeAlong (buffer : Array Int16) (channel : ChannelInfo) (index : Nat) :
    Except Error (Array Int16) := do
  let raw ← channelData waveData base index channel
  let (buffer, _) ← decodeBlock raw frames (info.codec order channel) buffer
    (.channel index info.channels.length)
  return buffer

/-- The samples of all channels, one after the other put along the lanes of one buffer. -/
def decodeInPlace : Except Error (Array Int16) :=
  info.channels.zipIdx.foldlM
    (fun buffer (channel, index) =>
      info.decodeAlong order waveData base frames buffer channel index)
    (Array.replicate (frames * info.channels.length) 0)

/-- What the samples of a wave sound like. -/
def audio (addressing : Addressing) (samples : Array Int16) : Audio where
  rate := info.rate
  channels := UInt16.ofNat info.channels.length
  looped := info.looped
  loopStart := info.position addressing info.loopStart
  loopEnd := info.position addressing info.loopEnd
  samples

variable {info} {order} {waveData} {base frames}

theorem size_of_decodeChannel {index : Nat} {channel : ChannelInfo} {samples : Array Int16}
    (h : info.decodeChannel order waveData base frames index channel = .ok samples) :
    samples.size = frames := by
  obtain ⟨raw, -, h⟩ := bind_eq_ok_iff.mp h
  obtain ⟨⟨decoded, history⟩, hdecoded, h⟩ := bind_eq_ok_iff.mp h
  obtain rfl := Except.ok.inj h
  exact size_of_decodeSamples hdecoded

/-- Along its lane a channel is decoded as it is by itself. -/
theorem decodeAlong_eq {buffer : Array Int16} {index : Nat} (channel : ChannelInfo)
    (hroom : (Lane.channel index info.channels.length).HasRoom frames buffer.size) :
    info.decodeAlong order waveData base frames buffer channel index
      = (Lane.channel index info.channels.length).write buffer
        <$> info.decodeChannel order waveData base frames index channel := by
  rw [decodeAlong, decodeChannel]
  cases channelData waveData base index channel with
  | error error => rfl
  | ok raw =>
      show (decodeBlock raw frames _ buffer _ >>= _) = _ <$> (decodeSamples raw frames _ >>= _)
      rw [decodeBlock_eq raw _ hroom]
      cases decodeSamples raw frames (info.codec order channel) with
      | error error => rfl
      | ok decoded => rfl

theorem decodeInPlace_eq : info.decodeInPlace order waveData base frames
    = (fun samples => interleave samples.toArray frames)
      <$> info.decodeApart order waveData base frames :=
  foldlM_lanes_eq_interleave (info.decodeAlong order waveData base frames)
    (fun channel index => info.decodeChannel order waveData base frames index channel)
    (fun _ channel _ hroom => decodeAlong_eq channel hroom)
    (fun _ _ _ h => size_of_decodeChannel h)

theorem length_of_decodeApart {samples : List (Array Int16)}
    (h : info.decodeApart order waveData base frames = .ok samples) :
    samples.length = info.channels.length :=
  (length_of_mapM h).trans List.length_zipIdx

/-- What is decoded are the channels, interleaved. -/
theorem decode_eq (hlocation : info.location = .offset) (addressing : Addressing) :
    info.decode order waveData base frames addressing
      = (fun samples => info.audio addressing (interleave samples.toArray frames))
        <$> info.decodeApart order waveData base frames := by
  have hfound : info.location ≠ .address := by
    rw [hlocation]
    decide
  rw [decode, if_neg hfound]
  show (info.decodeApart order waveData base frames >>= _) = _
  cases hsamples : info.decodeApart order waveData base frames with
  | error error => rfl
  | ok samples =>
      show Except.ok _ = Except.ok (info.audio addressing (interleave samples.toArray frames))
      rw [audio, ← length_of_decodeApart hsamples]

/-- Decoding channels by themselves and interleaving them is decoding them in one buffer. -/
theorem decode_eq_decodeInPlace (hlocation : info.location = .offset) (addressing : Addressing) :
    info.decode order waveData base frames addressing
      = info.audio addressing <$> info.decodeInPlace order waveData base frames := by
  rw [decode_eq hlocation, decodeInPlace_eq]
  cases info.decodeApart order waveData base frames with
  | error error => rfl
  | ok samples => rfl

theorem exists_of_decode {audio : Audio} {addressing : Addressing}
    (h : info.decode order waveData base frames addressing = .ok audio) :
    info.location = .offset ∧ ∃ samples,
      info.decodeApart order waveData base frames = .ok samples
      ∧ audio = info.audio addressing (interleave samples.toArray frames) := by
  have hlocation : info.location = .offset := by
    cases hlocation : info.location with
    | offset => rfl
    | address =>
        rw [decode, if_pos hlocation] at h
        exact nomatch h
  rw [decode_eq hlocation] at h
  obtain ⟨samples, hsamples, rfl⟩ := map_eq_ok_iff.mp h
  exact ⟨hlocation, samples, hsamples, rfl⟩

theorem size_of_decodeApart {samples : List (Array Int16)}
    (h : info.decodeApart order waveData base frames = .ok samples) :
    (interleave samples.toArray frames).size = frames * info.channels.length := by
  rw [size_interleave, List.size_toArray, length_of_decodeApart h]

theorem frames_audio {samples : Array Int16} (addressing : Addressing)
    (hchannels : 0 < info.channels.length) (hfew : info.channels.length < UInt16.size)
    (hsize : samples.size = frames * info.channels.length) :
    (info.audio addressing samples).frames = frames := by
  have hstride : (info.audio addressing samples).stride = info.channels.length := by
    show max (UInt16.ofNat info.channels.length).toNat 1 = _
    rw [UInt16.toNat_ofNat_of_lt' hfew]
    exact Nat.max_eq_left hchannels
  show samples.size / (info.audio addressing samples).stride = frames
  rw [hstride, hsize, Nat.mul_div_cancel _ hchannels]

/-! ## Channels by themselves -/

theorem decodeSamples_of_decodeChannel {index : Nat} {channel : ChannelInfo}
    {samples : Array Int16}
    (h : info.decodeChannel order waveData base frames index channel = .ok samples) :
    ∃ history, decodeSamples (waveData.extract (base + channel.dataOffset.toNat) waveData.size)
      frames (info.codec order channel) = .ok (samples, history) := by
  obtain ⟨raw, hraw, h⟩ := bind_eq_ok_iff.mp h
  obtain ⟨⟨decoded, history⟩, hdecoded, h⟩ := bind_eq_ok_iff.mp h
  obtain rfl := Except.ok.inj h
  rw [channelData] at hraw
  split at hraw
  · rw [Except.ok.inj hraw]
    exact ⟨history, hdecoded⟩
  · exact nomatch hraw

/-- A channel is decoded exactly if it starts within the wave data and there are bytes enough from
there on. -/
theorem exists_decodeChannel_iff {index : Nat} {channel : ChannelInfo} :
    (∃ samples, info.decodeChannel order waveData base frames index channel = .ok samples)
      ↔ base + channel.dataOffset.toNat ≤ waveData.size
        ∧ (info.codec order channel).byteCount frames
          ≤ waveData.size - (base + channel.dataOffset.toNat) := by
  by_cases hstart : base + channel.dataOffset.toNat ≤ waveData.size
  · have hraw : channelData waveData base index channel
        = .ok (waveData.extract (base + channel.dataOffset.toNat) waveData.size) := if_pos hstart
    have hsize : (waveData.extract (base + channel.dataOffset.toNat) waveData.size).size
        = waveData.size - (base + channel.dataOffset.toNat) := by simp
    rw [← hsize, ← exists_decodeSamples_iff, and_iff_right hstart]
    constructor
    · rintro ⟨samples, h⟩
      obtain ⟨history, hdecoded⟩ := decodeSamples_of_decodeChannel h
      exact ⟨(samples, history), hdecoded⟩
    · rintro ⟨decoded, hdecoded⟩
      exact ⟨decoded.1,
        bind_eq_ok_iff.mpr ⟨_, hraw, bind_eq_ok_iff.mpr ⟨decoded, hdecoded, rfl⟩⟩⟩
  · have hraw : channelData waveData base index channel
        = malformed (base + channel.dataOffset.toNat) (.channelPastEnd index) := if_neg hstart
    rw [decodeChannel, hraw]
    exact ⟨fun ⟨_, h⟩ => (nomatch h), fun h => absurd h.1 hstart⟩

theorem exists_decode_iff (hlocation : info.location = .offset) {addressing : Addressing} :
    (∃ audio, info.decode order waveData base frames addressing = .ok audio)
      ↔ ∀ channel ∈ info.channels, base + channel.dataOffset.toNat ≤ waveData.size
        ∧ (info.codec order channel).byteCount frames
          ≤ waveData.size - (base + channel.dataOffset.toNat) := by
  have hapart : (∃ audio, info.decode order waveData base frames addressing = .ok audio)
      ↔ ∃ samples, info.decodeApart order waveData base frames = .ok samples := by
    simp only [decode_eq hlocation, map_eq_ok_iff]
    exact ⟨fun ⟨_, samples, h, _⟩ => ⟨samples, h⟩, fun ⟨samples, h⟩ => ⟨_, samples, h, rfl⟩⟩
  rw [hapart, decodeApart, exists_mapM_iff]
  constructor
  · intro h channel hchannel
    obtain ⟨index, hindex⟩ := List.mem_iff_getElem?.mp hchannel
    have hmem : (channel, index) ∈ info.channels.zipIdx :=
      List.mk_mem_zipIdx_iff_getElem?.mpr hindex
    exact exists_decodeChannel_iff.mp (h _ hmem)
  · intro h ⟨channel, index⟩ hmem
    exact exists_decodeChannel_iff.mpr
      (h channel (List.mem_of_getElem? (List.mk_mem_zipIdx_iff_getElem?.mp hmem)))

section

variable {view : View} {pos : Nat} {samples : List (Array Int16)}

/-- A channel that is taken out of a decoded wave is the one that went into it. -/
theorem channel_audio (hread : read view pos = .ok info) (addressing : Addressing)
    (hsamples : info.decodeApart order waveData base frames = .ok samples)
    {index : Nat} {one : Array Int16} (hone : samples[index]? = some one) :
    (info.audio addressing (interleave samples.toArray frames)).channel index = one := by
  refine channel_of_interleave rfl ?_ (fun other hother => ?_) hone
  · have hsmall := (channels_of_read hread).1
    rw [length_of_decodeApart hsamples]
    exact UInt16.toNat_ofNat_of_lt' (Nat.lt_trans hsmall (by decide))
  · obtain ⟨entry, -, hentry⟩ := exists_of_mapM hsamples hother
    exact size_of_decodeChannel hentry

theorem map_channel_audio (hread : read view pos = .ok info) (addressing : Addressing)
    (hsamples : info.decodeApart order waveData base frames = .ok samples) :
    (List.range info.channels.length).map
        (info.audio addressing (interleave samples.toArray frames)).channel = samples := by
  apply List.ext_getElem
  · rw [List.length_map, List.length_range, length_of_decodeApart hsamples]
  · intro index _ hindex
    rw [List.getElem_map, List.getElem_range]
    exact channel_audio hread addressing hsamples (List.getElem?_eq_getElem hindex)

end

/-- **The channels of a wave are decoded apart from one another.** Decoding them one after the other
into one buffer is decoding each by itself. It succeeds exactly if every channel starts within the
wave data and has bytes enough for its samples from there on. Every channel of the audio then is
what its own bytes, predictors and history give in a buffer of their own, and nothing but these
channels is in the audio. -/
theorem decode_channelsApart {view : View} {pos : Nat} {info : WaveInfo}
    (hread : read view pos = .ok info) (hlocation : info.location = .offset) (order : ByteOrder)
    (waveData : Bytes) (base frames : Nat) (addressing : Addressing) :
    info.decode order waveData base frames addressing
        = info.audio addressing <$> info.decodeInPlace order waveData base frames
    ∧ (∀ channel ∈ info.channels, info.format.Codes order channel (info.codec order channel))
    ∧ ((∃ audio, info.decode order waveData base frames addressing = .ok audio)
      ↔ ∀ channel ∈ info.channels, base + channel.dataOffset.toNat ≤ waveData.size
        ∧ (0 < frames → (info.codec order channel).byteCount frames
          ≤ waveData.size - (base + channel.dataOffset.toNat)))
    ∧ ∀ audio, info.decode order waveData base frames addressing = .ok audio →
      audio.samples.size = frames * info.channels.length
      ∧ (∀ index channel, info.channels[index]? = some channel → ∃ history,
        decodeBlock (waveData.extract (base + channel.dataOffset.toNat) waveData.size) frames
          (info.codec order channel) (Array.replicate frames 0) .mono
            = .ok (audio.channel index, history))
      ∧ interleave ((List.range info.channels.length).map audio.channel).toArray frames
        = audio.samples := by
  refine ⟨decode_eq_decodeInPlace hlocation addressing,
    fun channel hchannel => codes_of_read hread order hchannel, ?_, fun audio haudio => ?_⟩
  · have hnone (codec : Codec) : codec.byteCount 0 = 0 := by cases codec <;> rfl
    rw [exists_decode_iff hlocation]
    refine forall₂_congr fun channel _ => and_congr_right fun _ => ?_
    rcases Nat.eq_zero_or_pos frames with rfl | hframes
    · rw [hnone]
      exact ⟨fun _ h => absurd h (Nat.lt_irrefl 0), fun _ => Nat.zero_le _⟩
    · exact ⟨fun h _ => h, fun h => h hframes⟩
  · obtain ⟨-, samples, hsamples, rfl⟩ := exists_of_decode haudio
    refine ⟨size_of_decodeApart hsamples, fun index channel hchannel => ?_, ?_⟩
    · have hentry : info.channels.zipIdx[index]? = some (channel, index) := by
        rw [List.getElem?_zipIdx, hchannel, Nat.zero_add]
        rfl
      obtain ⟨one, hone, hindex⟩ := getElem?_of_mapM hsamples hentry
      rw [decodeBlock_mono, channel_audio hread addressing hsamples hindex]
      exact decodeSamples_of_decodeChannel hone
    · rw [map_channel_audio hread addressing hsamples]
      rfl

/-- The record of a wave with two channels, the second of which starts a byte behind the first. -/
def twoChannels : Bytes :=
  #[0x00, 0x00, 0x02, 0x00, 0x7d, 0x00, 0x00, 0x00, 0x00, 0x00, 0x00, 0x00, 0x00, 0x00, 0x00, 0x02,
    0x00, 0x00, 0x00, 0x1c, 0x00, 0x00, 0x00, 0x00, 0x00, 0x00, 0x00, 0x00, 0x00, 0x00, 0x00, 0x24,
    0x00, 0x00, 0x00, 0x3c, 0x00, 0x00, 0x00, 0x00, 0x00, 0x00, 0x00, 0x00, 0x00, 0x00, 0x00, 0x00,
    0x00, 0x00, 0x00, 0x00, 0x00, 0x00, 0x00, 0x00, 0x00, 0x00, 0x00, 0x00, 0x00, 0x00, 0x00, 0x01,
    0x00, 0x00, 0x00, 0x00, 0x00, 0x00, 0x00, 0x00, 0x00, 0x00, 0x00, 0x00, 0x00, 0x00, 0x00, 0x00,
    0x00, 0x00, 0x00, 0x00]

theorem decode_channelsApart_twoChannels :
    ∃ info audio, read ⟨twoChannels, .big⟩ 0 = .ok info
      ∧ info.location = .offset
      ∧ info.decode .big #[1, 2, 3] 0 2 .byte = .ok audio
      ∧ audio.samples.size = 4
      ∧ ∃ history, decodeBlock #[2, 3] 2 .pcm8 #[0, 0] .mono = .ok (audio.channel 1, history) := by
  have hevaluated : (do
      let info ← read ⟨twoChannels, .big⟩ 0
      return (info.location, info.format, info.channels))
      = .ok (.offset, .pcm8, [⟨0, none, .replicate 4 0⟩, ⟨1, none, .replicate 4 0⟩]) := by
    decide +kernel
  obtain ⟨info, hread, h⟩ := bind_eq_ok_iff.mp hevaluated
  obtain ⟨hlocation, hformat, hchannels⟩ : _ ∧ _ ∧ _ := by
    simpa only [Prod.mk.injEq] using Except.ok.inj h
  have hcodec (channel : ChannelInfo) : info.codec .big channel = .pcm8 := by
    rw [codec, hformat]
  obtain ⟨-, -, hdecodes, hchannel⟩ :=
    decode_channelsApart hread hlocation .big #[1, 2, 3] 0 2 .byte
  obtain ⟨audio, haudio⟩ := hdecodes.mpr (by
    rw [hchannels]
    simp only [hcodec]
    decide)
  obtain ⟨hsize, hapart, -⟩ := hchannel audio haudio
  rw [hchannels] at hsize
  have hsecond := hapart 1 ⟨1, none, .replicate 4 0⟩ (by rw [hchannels]; rfl)
  rw [hcodec] at hsecond
  exact ⟨info, audio, hread, hlocation, haudio, hsize, hsecond⟩

end WaveInfo

end ConsoleSound

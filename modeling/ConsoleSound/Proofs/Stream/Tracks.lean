import ConsoleSound.Proofs.Stream.Channels
import ConsoleSound.Proofs.Stream.Reading
/-! # Tracks of a stream

Channels of PCM samples are always decoded, to the samples that the file stores where the
layout puts them; and of every format, a track is decoded exactly if its channels are, and
its own channels are these (`Stream.decodes_of_read`). -/

namespace ConsoleSound

namespace StreamInfo

/-- How far into the sample data a channel's part of a block lies: block after block, and
in each block channel after channel. The parts of the last block have a size of their own. -/
def layoutOffset (info : StreamInfo) (block channel : Nat) : Nat :=
  if block + 1 = info.blockCount.toNat ∧ 0 < channel then
    block * info.channelCount.toNat * info.blockSize.toNat
      + channel * info.finalBlockPaddedSize.toNat
  else (block * info.channelCount.toNat + channel) * info.blockSize.toNat

theorem partOffset_eq_layoutOffset (info : StreamInfo) (block channel : Nat) :
    info.partOffset block channel = info.layoutOffset block channel := by
  rw [partOffset, layoutOffset, isFinal, Nat.add_mul]
  by_cases hfinal : block + 1 = info.blockCount.toNat
  · rcases Nat.eq_zero_or_pos channel with rfl | hchannel
    · simp [hfinal]
    · simp [hfinal, hchannel]
  · simp [hfinal]

end StreamInfo

namespace Stream

/-- Sample `index` of the PCM samples that the file stores from a position on. -/
def storedSample? (stream : Stream) (pos index : Nat) : Option Int16 :=
  match stream.info.format with
  | .pcm8 => (stream.view.data[pos + index]?).map fun byte => byte.toInt8.toInt16
  | .pcm16 => do
    let first ← stream.view.data[pos + 2 * index]?
    let second ← stream.view.data[pos + 2 * index + 1]?
    return (UInt16.ofNat (stream.view.order.value [first, second])).toInt16
  | .adpcm => none

/-- The PCM samples that the file stores for a channel, one block after the other, if the
sample data starts at a position. -/
def storedSamples (stream : Stream) (start : Nat) (channel : UInt8) : List (Option Int16) :=
  (List.range stream.info.blockCount.toNat).flatMap fun block =>
    (List.range (stream.info.samplesIn block)).map fun index =>
      stream.storedSample? (start + stream.info.layoutOffset block channel.toNat) index

/-! ## PCM samples -/

/-- The order of the bytes of a sample, if it has two. -/
def sampleOrder? (stream : Stream) : Option ByteOrder :=
  match stream.info.format with
  | .pcm16 => some stream.view.order
  | _ => none

theorem codec_of_ne_adpcm {stream : Stream} (h : stream.info.format ≠ .adpcm) (block : Nat)
    (channel : UInt8) (history : Adpcm.History) :
    stream.codec block channel history = .ok (.pcm stream.sampleOrder?) := by
  rw [codec, sampleOrder?]
  cases hformat : stream.info.format with
  | pcm8 => rfl
  | pcm16 => rfl
  | adpcm => exact absurd hformat h

theorem byteCount_of_ne_adpcm {stream : Stream} (h : stream.info.format ≠ .adpcm) (count : Nat) :
    (Codec.pcm stream.sampleOrder?).byteCount count = stream.info.byteCount count := by
  rw [StreamInfo.byteCount, sampleOrder?]
  cases hformat : stream.info.format with
  | pcm8 => rfl
  | pcm16 => rfl
  | adpcm => exact absurd hformat h

/-- A part that holds its samples holds those that the file stores there. -/
theorem pcmSample?_of_part {stream : Stream} (hformat : stream.info.format ≠ .adpcm) {raw : Bytes}
    {pos count : Nat}
    (hraw : ∀ index, index < raw.size → raw[index]? = stream.view.data[pos + index]?)
    (hcount : stream.info.byteCount count ≤ raw.size) {index : Nat} (hindex : index < count) :
    Codec.pcmSample? raw index stream.sampleOrder? = stream.storedSample? pos index := by
  rw [StreamInfo.byteCount] at hcount
  rw [sampleOrder?, storedSample?]
  cases hcase : stream.info.format with
  | pcm8 =>
      rw [hcase] at hcount
      have hbyte : index < raw.size := Nat.lt_of_lt_of_le hindex hcount
      rw [Codec.pcmSample?, hraw index hbyte]
  | pcm16 =>
      rw [hcase] at hcount
      have hbytes : count * 2 ≤ raw.size := hcount
      simp only [Codec.pcmSample?]
      rw [hraw (2 * index) (by omega), hraw (2 * index + 1) (by omega), Nat.add_assoc]
  | adpcm => exact absurd hcase hformat

/-- Blocks of PCM samples are decoded to what the file stores. -/
theorem samplesFrom_of_stored {stream : Stream} {file : Bytes} (haccepted : stream.Accepted file)
    {offset : Nat} (hoffset : stream.view.offset stream.data.base = .ok offset)
    (hinside : stream.data.base + offset ≤ file.size) (hformat : stream.info.format ≠ .adpcm)
    {channel : UInt8} (hchannel : channel < stream.info.channelCount) {count block : Nat}
    (hblocks : block + count = stream.info.blockCount.toNat) (history : Adpcm.History) :
    ∃ samples, stream.samplesFrom channel count block history = .ok samples
      ∧ samples.toList.map some = (List.range' block count).flatMap fun block =>
        (List.range (stream.info.samplesIn block)).map fun index => stream.storedSample?
          (stream.data.base + offset + stream.info.layoutOffset block channel.toNat) index := by
  induction count generalizing block history with
  | zero => exact ⟨#[], rfl, rfl⟩
  | succ count ih =>
      have hblock : block < stream.info.blockCount.toNat := by omega
      obtain ⟨raw, hpart, -, hbytes, hraw⟩ := haccepted.part_eq hoffset hinside hblock
        (UInt8.lt_iff_toNat_lt.mp hchannel)
      rw [← haccepted.data] at hraw
      have hcount : (Codec.pcm stream.sampleOrder?).byteCount (stream.info.samplesIn block)
          ≤ raw.size := by
        rwa [byteCount_of_ne_adpcm hformat]
      obtain ⟨first, hfirst, hstored⟩ := decodeSamples_pcm hcount
      have hrest : block + 1 + count = stream.info.blockCount.toNat := by omega
      obtain ⟨later, hlater, hlaterStored⟩ := ih hrest .silent
      refine ⟨first ++ later, ?_, ?_⟩
      · rw [samplesFrom, hpart, codec_of_ne_adpcm hformat]
        show (decodeSamples raw _ _ >>= fun decoded => do
          return decoded.1 ++ (← stream.samplesFrom channel count (block + 1) decoded.2)) = _
        rw [hfirst]
        show (do return first ++ (← stream.samplesFrom channel count (block + 1) .silent)) = _
        rw [hlater]
        rfl
      · rw [List.range'_succ, List.flatMap_cons, ← hlaterStored, Array.toList_append,
          List.map_append, hstored]
        congr 1
        apply List.map_congr_left
        intro index hindex
        rw [pcmSample?_of_part hformat hraw hbytes (List.mem_range.mp hindex),
          StreamInfo.partOffset_eq_layoutOffset]

theorem channelSamples_of_stored {stream : Stream} {file : Bytes} (haccepted : stream.Accepted file)
    {offset : Nat} (hoffset : stream.view.offset stream.data.base = .ok offset)
    (hinside : stream.data.base + offset ≤ file.size) (hformat : stream.info.format ≠ .adpcm)
    {channel : UInt8} (hchannel : channel < stream.info.channelCount) :
    ∃ samples, stream.channelSamples channel = .ok samples
      ∧ samples.toList.map some = stream.storedSamples (stream.data.base + offset) channel := by
  obtain ⟨samples, hsamples, hstored⟩ := samplesFrom_of_stored haccepted hoffset hinside hformat
    hchannel (Nat.zero_add _) (stream.initialHistory channel)
  exact ⟨samples, hsamples, by rw [hstored, storedSamples, List.range_eq_range']⟩

/-! ## Tracks -/

theorem decodeTrack_eq {stream : Stream} {frames : UInt32}
    (hframes : stream.info.sampleCount = .ok frames) {index : Nat} {track : StreamTrack}
    (htrack : stream.tracks[index]? = some track) :
    stream.decodeTrack index = (fun samples => {
        rate := stream.info.rate
        channels := UInt16.ofNat track.channels.length
        looped := stream.info.looped
        loopStart := stream.info.loopStart
        loopEnd := stream.info.loopEnd
        samples := interleave samples.toArray frames.toNat })
      <$> track.channels.mapM stream.channelSamples := by
  rw [decodeTrack, htrack, hframes]
  show (stream.decodeChannels track.channels frames.toNat >>= _) = _
  rw [decodeChannels_eq hframes]
  cases track.channels.mapM stream.channelSamples with
  | error error => rfl
  | ok samples => rfl

/-- A track is decoded exactly if each of its channels is. -/
theorem exists_decodeTrack_iff {stream : Stream} {frames : UInt32}
    (hframes : stream.info.sampleCount = .ok frames) {index : Nat} {track : StreamTrack}
    (htrack : stream.tracks[index]? = some track) :
    (∃ audio, stream.decodeTrack index = .ok audio)
      ↔ ∀ channel ∈ track.channels, ∃ samples, stream.channelSamples channel = .ok samples := by
  rw [← Checked.exists_mapM_iff, decodeTrack_eq hframes htrack]
  constructor
  · rintro ⟨audio, h⟩
    obtain ⟨samples, hsamples, -⟩ := Checked.map_eq_ok_iff.mp h
    exact ⟨samples, hsamples⟩
  · rintro ⟨samples, hsamples⟩
    exact ⟨_, Checked.map_eq_ok_iff.mpr ⟨samples, hsamples, rfl⟩⟩

/-- The channels of a decoded track are those of the stream, in track order. -/
theorem channelSamples_of_decodeTrack {stream : Stream} {frames : UInt32}
    (hframes : stream.info.sampleCount = .ok frames) {index : Nat} {track : StreamTrack}
    (htrack : stream.tracks[index]? = some track) (hlength : track.channels.length < UInt8.size)
    {audio : Audio} (h : stream.decodeTrack index = .ok audio) {place : Nat} {channel : UInt8}
    (hchannel : track.channels[place]? = some channel) :
    stream.channelSamples channel = .ok (audio.channel place) := by
  rw [decodeTrack_eq hframes htrack] at h
  obtain ⟨samples, hsamples, haudio⟩ := Checked.map_eq_ok_iff.mp h
  obtain ⟨one, hone, hplace⟩ := Checked.getElem?_of_mapM hsamples hchannel
  have hsizes : ∀ one ∈ samples, one.size = frames.toNat := by
    intro one hmem
    obtain ⟨channel, -, hchannel⟩ := Checked.exists_of_mapM hsamples hmem
    rw [size_of_channelSamples hchannel, StreamInfo.toNat_of_sampleCount hframes]
  have hcount : audio.channels.toNat = samples.length := by
    rw [← haudio, Checked.length_of_mapM hsamples]
    exact UInt16.toNat_ofNat_of_lt' (Nat.lt_trans hlength (by decide))
  have hinterleaved : audio.samples = interleave samples.toArray frames.toNat := by
    rw [← haudio]
  rw [hone, channel_of_interleave hinterleaved hcount hsizes hplace]

/-- **Streams that are read can be decoded, and their tracks are interleaved channels.** If
the samples can be counted and start inside the file, then PCM channels are decoded to what
the file stores for them, and PCM tracks are decoded; and of every format, a track is decoded
exactly if each of its channels is, and its channels are these. -/
theorem decodes_of_read {file : Bytes} {stream : Stream} {frames : UInt32} {offset : Nat}
    (hread : Stream.read file = .ok stream) (hframes : stream.info.sampleCount = .ok frames)
    (hoffset : stream.view.offset stream.data.base = .ok offset)
    (hinside : stream.data.base + offset ≤ file.size) :
    (stream.info.format ≠ .adpcm →
      (∀ channel, channel < stream.info.channelCount →
        ∃ samples, stream.decodeChannel channel = .ok samples
          ∧ samples.toList.map some = stream.storedSamples (stream.data.base + offset) channel)
      ∧ ∀ index, index < stream.trackCount → ∃ audio, stream.decodeTrack index = .ok audio)
    ∧ ∀ index track, stream.tracks[index]? = some track →
      ((∃ audio, stream.decodeTrack index = .ok audio)
        ↔ ∀ channel ∈ track.channels, ∃ samples, stream.decodeChannel channel = .ok samples)
      ∧ ∀ audio, stream.decodeTrack index = .ok audio →
        ∀ place channel, track.channels[place]? = some channel →
          stream.decodeChannel channel = .ok (audio.channel place) := by
  have haccepted := accepted_of_read hread
  have hknown : ∀ track ∈ stream.tracks, ∀ channel ∈ track.channels,
      stream.decodeChannel channel = stream.channelSamples channel :=
    fun track htrack channel hchannel =>
      decodeChannel_eq (haccepted.channels track htrack channel hchannel) hframes
  constructor
  · intro hformat
    have hstored : ∀ channel, channel < stream.info.channelCount →
        ∃ samples, stream.channelSamples channel = .ok samples
          ∧ samples.toList.map some = stream.storedSamples (stream.data.base + offset) channel :=
      fun channel hchannel =>
        channelSamples_of_stored haccepted hoffset hinside hformat hchannel
    constructor
    · intro channel hchannel
      rw [decodeChannel_eq hchannel hframes]
      exact hstored channel hchannel
    · intro index hindex
      have htrack : stream.tracks[index]? = some stream.tracks[index] :=
        List.getElem?_eq_getElem hindex
      refine (exists_decodeTrack_iff hframes htrack).mpr ?_
      intro channel hchannel
      obtain ⟨samples, hsamples, -⟩ := hstored channel
        (haccepted.channels _ (List.getElem_mem hindex) channel hchannel)
      exact ⟨samples, hsamples⟩
  · intro index track htrack
    have hmem : track ∈ stream.tracks := List.mem_of_getElem? htrack
    constructor
    · rw [exists_decodeTrack_iff hframes htrack]
      refine forall₂_congr fun channel hchannel => ?_
      rw [hknown track hmem channel hchannel]
    · intro audio haudio place channel hchannel
      rw [hknown track hmem channel (List.mem_of_getElem? hchannel)]
      exact channelSamples_of_decodeTrack hframes htrack (haccepted.lengths track hmem) haudio
        hchannel

/-- A stream of two channels in two blocks, with one track, which plays the second channel
before the first. -/
def twoBlocks : Bytes :=
  #[0x52, 0x53, 0x54, 0x4d, 0xfe, 0xff, 0x01, 0x00, 0x00, 0x00, 0x00, 0xc2, 0x00, 0x28, 0x00, 0x02,
    0x00, 0x00, 0x00, 0x28, 0x00, 0x00, 0x00, 0x80, 0x00, 0x00, 0x00, 0x00, 0x00, 0x00, 0x00, 0x00,
    0x00, 0x00, 0x00, 0xa8, 0x00, 0x00, 0x00, 0x1a, 0x48, 0x45, 0x41, 0x44, 0x00, 0x00, 0x00, 0x80,
    0x01, 0x00, 0x00, 0x00, 0x00, 0x00, 0x00, 0x18, 0x01, 0x00, 0x00, 0x00, 0x00, 0x00, 0x00, 0x4c,
    0x01, 0x00, 0x00, 0x00, 0x00, 0x00, 0x00, 0x58, 0x01, 0x00, 0x02, 0x00, 0x7d, 0x00, 0x00, 0x00,
    0x00, 0x00, 0x00, 0x00, 0x00, 0x00, 0x00, 0x00, 0x00, 0x00, 0x00, 0x00, 0x00, 0x00, 0x00, 0x02,
    0x00, 0x00, 0x00, 0x04, 0x00, 0x00, 0x00, 0x02, 0x00, 0x00, 0x00, 0x02, 0x00, 0x00, 0x00, 0x01,
    0x00, 0x00, 0x00, 0x04, 0x00, 0x00, 0x00, 0x00, 0x00, 0x00, 0x00, 0x00, 0x01, 0x00, 0x00, 0x00,
    0x01, 0x00, 0x00, 0x00, 0x00, 0x00, 0x00, 0x6c, 0x02, 0x00, 0x00, 0x00, 0x01, 0x00, 0x00, 0x00,
    0x00, 0x00, 0x00, 0x70, 0x01, 0x00, 0x00, 0x00, 0x00, 0x00, 0x00, 0x70, 0x02, 0x01, 0x00, 0x00,
    0x00, 0x00, 0x00, 0x00, 0x00, 0x00, 0x00, 0x00, 0x44, 0x41, 0x54, 0x41, 0x00, 0x00, 0x00, 0x1a,
    0x00, 0x00, 0x00, 0x04, 0x00, 0x01, 0x00, 0x02, 0xff, 0xff, 0xff, 0xfe, 0x00, 0x03, 0x00, 0x00,
    0xff, 0xfd]

theorem decodes_of_read_twoBlocks :
    ∃ stream frames offset, Stream.read twoBlocks = .ok stream
      ∧ stream.info.sampleCount = .ok frames
      ∧ stream.view.offset stream.data.base = .ok offset
      ∧ stream.data.base + offset ≤ twoBlocks.size
      ∧ stream.info.format ≠ .adpcm
      ∧ ∃ audio, stream.decodeTrack 0 = .ok audio
        ∧ stream.decodeChannel 1 = .ok (audio.channel 0)
        ∧ stream.decodeChannel 0 = .ok (audio.channel 1) := by
  have hevaluated : (do
      let stream ← Stream.read twoBlocks
      let frames ← stream.info.sampleCount
      let offset ← stream.view.offset stream.data.base
      return (stream.info.format, stream.tracks, frames, stream.data.base + offset))
      = .ok (.pcm16, [⟨none, [1, 0]⟩], 3, 180) := by
    decide +kernel
  obtain ⟨stream, hread, h⟩ := Checked.bind_eq_ok_iff.mp hevaluated
  obtain ⟨frames, hframes, h⟩ := Checked.bind_eq_ok_iff.mp h
  obtain ⟨offset, hoffset, h⟩ := Checked.bind_eq_ok_iff.mp h
  obtain ⟨hpcm, htracks, -, hstart⟩ : _ ∧ _ ∧ _ ∧ _ := by
    simpa only [Prod.mk.injEq] using Except.ok.inj h
  have hinside : stream.data.base + offset ≤ twoBlocks.size := by
    rw [hstart]
    decide +kernel
  have hformat : stream.info.format ≠ .adpcm := by
    rw [hpcm]
    decide
  have htrack : stream.tracks[0]? = some ⟨none, [1, 0]⟩ := by rw [htracks]; rfl
  have hcount : 0 < stream.trackCount := by
    rw [trackCount, htracks]
    decide
  obtain ⟨hstored, htracksDecoded⟩ := decodes_of_read hread hframes hoffset hinside
  obtain ⟨audio, haudio⟩ := (hstored hformat).2 0 hcount
  have hchannels := (htracksDecoded 0 _ htrack).2 audio haudio
  exact ⟨stream, frames, offset, hread, hframes, hoffset, hinside, hformat, audio, haudio,
    hchannels 0 1 rfl, hchannels 1 0 rfl⟩

end Stream

end ConsoleSound

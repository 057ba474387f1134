import ConsoleSound.Stream.File
import ConsoleSound.Proofs.Sample.Interleaving
/-! # Channels of a stream

A channel is decoded block by block into a buffer that it may share with other channels.
The blocks are consecutive pieces of its lane, so decoding it there is decoding it by itself
(`channelSamples`) and putting it along the lane (`decodeInto_eq`): the lane has nothing to
do with whether that succeeds.

A track is then decoded exactly if each of its channels is, and what it holds are these
channels, interleaved (`decodeChannels_eq`). -/

namespace ConsoleSound

namespace StreamInfo

/-- The number of samples that each channel has in the last `count` blocks. -/
def framesIn (info : StreamInfo) : (count : Nat) → Nat
  | 0 => 0
  | count + 1 => count * info.blockSamples.toNat + info.finalBlockSamples.toNat

theorem sampleCount_eq (info : StreamInfo) :
    info.sampleCount = if info.framesIn info.blockCount.toNat < UInt32.size
      then .ok (UInt32.ofNat (info.framesIn info.blockCount.toNat))
      else malformed 0 .sampleCountOverflow := by
  rw [sampleCount]
  cases info.blockCount.toNat <;> rfl

theorem toNat_of_sampleCount {info : StreamInfo} {frames : UInt32}
    (h : info.sampleCount = .ok frames) : frames.toNat = info.framesIn info.blockCount.toNat := by
  rw [sampleCount_eq] at h
  by_cases hsmall : info.framesIn info.blockCount.toNat < UInt32.size
  · rw [if_pos hsmall] at h
    rw [← Except.ok.inj h, UInt32.toNat_ofNat_of_lt' hsmall]
  · rw [if_neg hsmall] at h
    exact nomatch h

theorem samplesIn_last {info : StreamInfo} {block : Nat} (h : block + 1 = info.blockCount.toNat) :
    info.samplesIn block = info.finalBlockSamples.toNat := by
  simp [samplesIn, isFinal, h]

theorem samplesIn_of_lt {info : StreamInfo} {block : Nat} (h : block + 1 < info.blockCount.toNat) :
    info.samplesIn block = info.blockSamples.toNat := by
  simp [samplesIn, isFinal, Nat.ne_of_lt h]

theorem framesIn_succ {info : StreamInfo} {block count : Nat}
    (h : block + (count + 1) = info.blockCount.toNat) :
    info.framesIn (count + 1) = info.samplesIn block + info.framesIn count := by
  cases count with
  | zero =>
      rw [samplesIn_last h]
      simp [framesIn]
  | succ count =>
      rw [samplesIn_of_lt (by omega)]
      simp only [framesIn, Nat.succ_mul]
      omega

end StreamInfo

namespace Stream

/-! ## One channel -/

/-- The samples of a channel in `count` blocks from `block` on, by themselves. -/
def samplesFrom (stream : Stream) (channel : UInt8) :
    (count block : Nat) → Adpcm.History → Except Error (Array Int16)
  | 0, _, _ => .ok #[]
  | count + 1, block, history => do
    let raw ← stream.part block channel.toNat
    let codec ← stream.codec block channel history
    let (samples, history) ← decodeSamples raw (stream.info.samplesIn block) codec
    let later ← samplesFrom stream channel count (block + 1) history
    return samples ++ later

/-- The samples of a channel, by themselves. -/
def channelSamples (stream : Stream) (channel : UInt8) : Except Error (Array Int16) :=
  stream.samplesFrom channel stream.info.blockCount.toNat 0 (stream.initialHistory channel)

theorem size_of_samplesFrom {stream : Stream} {channel : UInt8} {count block : Nat}
    {history : Adpcm.History} {samples : Array Int16}
    (hblocks : block + count = stream.info.blockCount.toNat)
    (h : stream.samplesFrom channel count block history = .ok samples) :
    samples.size = stream.info.framesIn count := by
  induction count generalizing block history samples with
  | zero =>
      rw [← Except.ok.inj h]
      rfl
  | succ count ih =>
      obtain ⟨raw, -, h⟩ := Checked.bind_eq_ok_iff.mp h
      obtain ⟨codec, -, h⟩ := Checked.bind_eq_ok_iff.mp h
      obtain ⟨⟨first, next⟩, hfirst, h⟩ := Checked.bind_eq_ok_iff.mp h
      obtain ⟨later, hlater, h⟩ := Checked.bind_eq_ok_iff.mp h
      rw [← Except.ok.inj h, Array.size_append, size_of_decodeSamples hfirst,
        ih (by omega) hlater, StreamInfo.framesIn_succ hblocks]

theorem size_of_channelSamples {stream : Stream} {channel : UInt8} {samples : Array Int16}
    (h : stream.channelSamples channel = .ok samples) :
    samples.size = stream.info.framesIn stream.info.blockCount.toNat :=
  size_of_samplesFrom (Nat.zero_add _) h

/-- Blocks that are decoded along a lane are those of the channel by itself. -/
theorem decodeBlocks_eq {stream : Stream} {channel : UInt8} {lane : Lane} {count block : Nat}
    (hblocks : block + count = stream.info.blockCount.toNat) {buffer : Array Int16}
    (hroom : (lane.drop (block * stream.info.blockSamples.toNat)).HasRoom
      (stream.info.framesIn count) buffer.size) (history : Adpcm.History) :
    stream.decodeBlocks channel lane count block history buffer
      = (lane.drop (block * stream.info.blockSamples.toNat)).write buffer
        <$> stream.samplesFrom channel count block history := by
  induction count generalizing block history buffer with
  | zero => rfl
  | succ count ih =>
      rw [decodeBlocks, samplesFrom]
      cases hraw : stream.part block channel.toNat with
      | error error => rfl
      | ok raw =>
      cases hcodec : stream.codec block channel history with
      | error error => rfl
      | ok codec =>
      have hframes := StreamInfo.framesIn_succ hblocks
      have hfirst : (lane.drop (block * stream.info.blockSamples.toNat)).HasRoom
          (stream.info.samplesIn block) buffer.size := hroom.mono (by omega)
      show (decodeBlock raw _ codec buffer _ >>= fun decoded =>
          stream.decodeBlocks channel lane count (block + 1) decoded.2 decoded.1)
        = _ <$> (decodeSamples raw _ codec >>= fun decoded => do
          return decoded.1 ++ (← stream.samplesFrom channel count (block + 1) decoded.2))
      rw [decodeBlock_eq raw codec hfirst]
      cases hdecoded : decodeSamples raw (stream.info.samplesIn block) codec with
      | error error => rfl
      | ok decoded =>
      obtain ⟨samples, next⟩ := decoded
      have hsize := size_of_decodeSamples hdecoded
      show stream.decodeBlocks channel lane count (block + 1) next _ = _
      cases count with
      | zero =>
          show Except.ok _ = Except.ok _
          rw [Array.append_empty]
      | succ count =>
          -- a block that is not the last one is whole, so the next one starts behind it
          rw [StreamInfo.samplesIn_of_lt (by omega)] at hsize
          have hdrop : (lane.drop (block * stream.info.blockSamples.toNat)).drop samples.size
              = lane.drop ((block + 1) * stream.info.blockSamples.toNat) := by
            rw [Lane.drop_drop, hsize, Nat.succ_mul]
          have hlater : (lane.drop ((block + 1) * stream.info.blockSamples.toNat)).HasRoom
              (stream.info.framesIn (count + 1)) ((lane.drop
                (block * stream.info.blockSamples.toNat)).write buffer samples).size := by
            have hwhole : stream.info.framesIn (count + 1 + 1)
                = samples.size + stream.info.framesIn (count + 1) := by
              rw [hframes, StreamInfo.samplesIn_of_lt (by omega), hsize]
            rw [hwhole] at hroom
            rw [Lane.size_write, ← hdrop]
            exact hroom.drop
          show _ = _ <$> (do return samples ++ (← stream.samplesFrom channel (count + 1) _ next))
          rw [ih (by omega) hlater]
          cases stream.samplesFrom channel (count + 1) (block + 1) next with
          | error error => rfl
          | ok later =>
              show Except.ok _ = Except.ok _
              rw [Lane.write_append, hdrop]

/-- A channel that is decoded along a lane is the channel by itself. -/
theorem decodeInto_eq {stream : Stream} {buffer : Array Int16} (channel : UInt8) {lane : Lane}
    (hroom : lane.HasRoom (stream.info.framesIn stream.info.blockCount.toNat) buffer.size) :
    stream.decodeInto buffer channel lane
      = lane.write buffer <$> stream.channelSamples channel := by
  have hdrop : lane.drop (0 * stream.info.blockSamples.toNat) = lane := by
    rw [Nat.zero_mul, Lane.drop_zero]
  rw [← hdrop] at hroom
  refine (decodeBlocks_eq (Nat.zero_add _) hroom (stream.initialHistory channel)).trans ?_
  rw [hdrop, channelSamples]

theorem decodeChannel_eq {stream : Stream} {channel : UInt8} {frames : UInt32}
    (hchannel : channel < stream.info.channelCount)
    (hframes : stream.info.sampleCount = .ok frames) :
    stream.decodeChannel channel = stream.channelSamples channel := by
  have hsize : (Array.replicate frames.toNat (0 : Int16)).size
      = stream.info.framesIn stream.info.blockCount.toNat := by
    rw [Array.size_replicate, StreamInfo.toNat_of_sampleCount hframes]
  rw [decodeChannel, if_neg (UInt8.not_le.mpr hchannel), hframes]
  show stream.decodeInto (Array.replicate frames.toNat 0) channel .mono = _
  rw [decodeInto_eq channel (Lane.hasRoom_mono (Nat.le_of_eq hsize.symm))]
  cases hsamples : stream.channelSamples channel with
  | error error => rfl
  | ok samples =>
      show Except.ok _ = Except.ok _
      rw [Lane.write_mono ((size_of_channelSamples hsamples).trans hsize.symm)]

/-! ## The channels of a track -/

/-- The channels of a track are decoded by themselves and interleaved. -/
theorem decodeChannels_eq {stream : Stream} {frames : UInt32}
    (hframes : stream.info.sampleCount = .ok frames) (channels : List UInt8) :
    stream.decodeChannels channels frames.toNat
      = (fun samples => interleave samples.toArray frames.toNat)
        <$> channels.mapM stream.channelSamples := by
  have hcount := StreamInfo.toNat_of_sampleCount hframes
  have hsingle : (channels.zipIdx.mapM fun entry => stream.channelSamples entry.1)
      = channels.mapM stream.channelSamples := by
    rw [← List.zipIdx_map_fst 0 channels, List.mapM_map, List.zipIdx_map_fst]
    rfl
  rw [decodeChannels, ← hsingle]
  refine foldlM_lanes_eq_interleave
    (fun buffer channel index => stream.decodeInto buffer channel (.channel index channels.length))
    (fun channel _ => stream.channelSamples channel)
    (fun buffer channel index hroom => ?_) (fun channel index samples hsamples => ?_)
  · exact decodeInto_eq channel (by rwa [← hcount])
  · rw [size_of_channelSamples hsamples, hcount]

end Stream

end ConsoleSound

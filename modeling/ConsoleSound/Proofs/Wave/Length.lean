import Mathlib.Order.Monotone.Basic
import ConsoleSound.Wave.File
import ConsoleSound.Proofs.Container.Blocks
import ConsoleSound.Proofs.Wave.Channels
/-! # The length of an ADPCM wave

An ADPCM wave does not store how long it is: fourteen samples are counted for eight bytes of its
data block. A frame cut short is counted in proportion too, although its first byte is a header and
holds no samples. So the samples that are counted take the bytes that are there, or one byte more
if the bytes end in the first half of a frame (`Adpcm.byteCount_counted`). Then the last sample is
missing, and the wave is not decoded (`Wave.decodesWhole_iff`).

A wave of two gigabytes and more can be an exception: there the count no longer fits its 32 bits,
and what is left of it is less than the wave holds. -/

namespace ConsoleSound

open Checked

/-! ## Counted samples -/

namespace Adpcm

/-- The bytes end in the first half of a frame: its header is there and at most three bytes of
corrections. -/
def EndsEarly (size : Nat) : Prop := 0 < size % 8 ∧ size % 8 ≤ 4

instance (size : Nat) : Decidable (EndsEarly size) := inferInstanceAs (Decidable (_ ∧ _))

theorem byteCount_frames_add (frames count : Nat) :
    byteCount (frames * 14 + count) = frames * 8 + byteCount count := by
  simp only [byteCount]
  split <;> split <;> omega

/-- Only the last frame matters, which has fewer than eight bytes. -/
theorem byteCount_counted (size : Nat) :
    byteCount (14 * size / 8) = if EndsEarly size then size + 1 else size := by
  have hframes : 14 * size / 8 = size / 8 * 14 + 14 * (size % 8) / 8 := by omega
  have hlast : ∀ rest < 8, byteCount (14 * rest / 8) = if EndsEarly rest then rest + 1 else rest :=
    by decide
  have hearly : EndsEarly (size % 8) ↔ EndsEarly size := by
    rw [EndsEarly, EndsEarly, Nat.mod_mod]
  rw [hframes, byteCount_frames_add, hlast _ (Nat.mod_lt _ (by decide))]
  simp only [hearly]
  split <;> omega

theorem byteCount_mono : Monotone byteCount := monotone_nat_of_le_succ byteCount_le_succ

/-- All samples that are counted but the last are there. -/
theorem byteCount_counted_pred_le (size : Nat) : byteCount (14 * size / 8 - 1) ≤ size := by
  by_cases hearly : EndsEarly size
  · have hframes : 14 * size / 8 - 1 = size / 8 * 14 + (14 * (size % 8) / 8 - 1) := by
      rw [EndsEarly] at hearly
      omega
    have hlast : ∀ rest < 8, byteCount (14 * rest / 8 - 1) ≤ rest := by decide
    have hrest := hlast (size % 8) (Nat.mod_lt _ (by decide))
    rw [hframes, byteCount_frames_add]
    omega
  · have hcount := byteCount_counted size
    rw [if_neg hearly] at hcount
    exact Nat.le_trans (byteCount_mono (Nat.pred_le _)) (Nat.le_of_eq hcount)

/-- What is left of a count that has run over its 32 bits is less than the bytes hold. -/
theorem byteCount_counted_mod_le {size : Nat} (hover : UInt32.size ≤ 14 * size / 8)
    (h : size + 8 < UInt32.size) : byteCount (14 * size / 8 % UInt32.size) ≤ size := by
  have hrest : 14 * size / 8 % UInt32.size = 14 * size / 8 - UInt32.size := by
    rw [Nat.mod_eq_sub_mod hover, Nat.mod_eq_of_lt (by omega)]
  rw [hrest]
  simp only [byteCount, UInt32.size]
  split <;> omega

end Adpcm

theorem toNat_bytesToSamples_mono {size : Nat} (h : size + 8 < UInt32.size) :
    (bytesToSamples (UInt32.ofNat (size + 8)) 1).toNat = 14 * size / 8 % UInt32.size := by
  have hlength : (UInt32.ofNat (size + 8)).toNat = size + 8 := UInt32.toNat_ofNat_of_lt' h
  have hone : max (1 : UInt8).toNat 1 = 1 := rfl
  rw [bytesToSamples, hlength, hone, Nat.add_sub_cancel, Nat.div_one]
  exact UInt32.toNat_ofNat

/-- The bytes are enough for the samples that are counted, unless they end in the first half of a
frame and the count of the samples has not run over. -/
theorem Adpcm.byteCount_bytesToSamples_le_iff {size : Nat} (h : size + 8 < UInt32.size) :
    byteCount (bytesToSamples (UInt32.ofNat (size + 8)) 1).toNat ≤ size
      ↔ EndsEarly size → UInt32.size ≤ 14 * size / 8 := by
  rw [toNat_bytesToSamples_mono h]
  rcases Nat.lt_or_ge (14 * size / 8) UInt32.size with hfits | hover
  · rw [Nat.mod_eq_of_lt hfits, byteCount_counted]
    split
    · next hearly =>
        exact ⟨fun h => absurd h (Nat.not_succ_le_self _),
          fun h => absurd hfits (Nat.not_lt.mpr (h hearly))⟩
    · next hearly => exact ⟨fun _ h => absurd h hearly, fun _ => Nat.le_refl _⟩
  · exact ⟨fun _ _ => hover, fun _ => byteCount_counted_mod_le hover h⟩

theorem Adpcm.byteCount_bytesToSamples_pred_le {size : Nat} (h : size + 8 < UInt32.size) :
    byteCount ((bytesToSamples (UInt32.ofNat (size + 8)) 1).toNat - 1) ≤ size := by
  rw [toNat_bytesToSamples_mono h]
  rcases Nat.lt_or_ge (14 * size / 8) UInt32.size with hfits | hover
  · rw [Nat.mod_eq_of_lt hfits]
    exact byteCount_counted_pred_le size
  · exact Nat.le_trans (byteCount_mono (Nat.pred_le _)) (byteCount_counted_mod_le hover h)

/-! ## Waves -/

namespace Wave

/-- A wave is decoded, and to as many samples per channel as it counts. -/
def DecodesWhole (wave : Wave) : Prop :=
  ∃ audio, wave.decode = .ok audio ∧ audio.frames = wave.sampleCount.toNat

/-- What is known of a wave that was read from a file. -/
theorem inside_of_read {file : Bytes} {wave : Wave} (h : read file = .ok wave) :
    wave.data.Inside wave.view ∧ ∃ pos, WaveInfo.read wave.view pos = .ok wave.info := by
  obtain ⟨⟨header, view⟩, -, h⟩ := bind_eq_ok_iff.mp h
  obtain ⟨infoBlock, -, h⟩ := bind_eq_ok_iff.mp h
  obtain ⟨data, hdata, h⟩ := bind_eq_ok_iff.mp h
  obtain ⟨info, hinfo, h⟩ := bind_eq_ok_iff.mp h
  obtain rfl := Except.ok.inj h
  exact ⟨Container.Block.inside_of_locate hdata, infoBlock.base, hinfo⟩

/-- A wave with channels is decoded whole exactly if its samples lie within its data block and each
of its channels has bytes enough there. -/
theorem decodesWhole_iff_bytes {wave : Wave} (hdata : wave.data.Inside wave.view)
    (hchannels : 0 < wave.info.channels.length)
    (hfew : wave.info.channels.length < UInt16.size) :
    wave.DecodesWhole ↔ wave.info.location = .offset
      ∧ ∀ channel ∈ wave.info.channels, channel.dataOffset.toNat ≤ wave.data.length - 8
        ∧ (wave.info.codec wave.view.order channel).byteCount wave.sampleCount.toNat
          ≤ wave.data.length - 8 - channel.dataOffset.toNat := by
  obtain ⟨body, hbody, hsize⟩ := hdata.exists_body
  have hdecode : wave.decode = wave.info.decode wave.view.order body 0 wave.sampleCount.toNat
      wave.addressing := by
    rw [decode, hbody]
    rfl
  have hfits (hlocation : wave.info.location = .offset) :
      (∃ audio, wave.info.decode wave.view.order body 0 wave.sampleCount.toNat wave.addressing
        = .ok audio)
        ↔ ∀ channel ∈ wave.info.channels, channel.dataOffset.toNat ≤ body.size
          ∧ (wave.info.codec wave.view.order channel).byteCount wave.sampleCount.toNat
            ≤ body.size - channel.dataOffset.toNat := by
    rw [WaveInfo.exists_decode_iff hlocation]
    simp only [Nat.zero_add]
  rw [hsize] at hfits
  rw [DecodesWhole, hdecode]
  constructor
  · rintro ⟨audio, haudio, -⟩
    have hlocation := (WaveInfo.exists_of_decode haudio).1
    exact ⟨hlocation, (hfits hlocation).mp ⟨audio, haudio⟩⟩
  · rintro ⟨hlocation, hbytes⟩
    obtain ⟨audio, haudio⟩ := (hfits hlocation).mpr hbytes
    obtain ⟨-, samples, hsamples, rfl⟩ := WaveInfo.exists_of_decode haudio
    exact ⟨_, haudio, WaveInfo.frames_audio _ hchannels hfew
      (WaveInfo.size_of_decodeApart hsamples)⟩

theorem sampleCount_mono {wave : Wave} (hformat : wave.info.format = .adpcm)
    {channel : ChannelInfo} (hmono : wave.info.channels = [channel]) :
    wave.sampleCount = bytesToSamples (UInt32.ofNat wave.data.length) 1 := by
  rw [sampleCount, hformat, WaveInfo.channelCount, hmono]
  rfl

/-- **A mono ADPCM wave holds the samples that it counts, unless its bytes end early in a frame.**
It is decoded whole exactly if its samples lie within its data block and these bytes do not end in
the first half of a frame or the count of the samples has run over its 32 bits. That is what the
number of samples and the number of bytes that they take come to for every size of the block, and
never is more than the last of these samples missing. -/
theorem decodesWhole_iff {file : Bytes} {wave : Wave} {channel : ChannelInfo}
    (hread : read file = .ok wave) (hformat : wave.info.format = .adpcm)
    (hmono : wave.info.channels = [channel]) (hstart : channel.dataOffset = 0) :
    (wave.DecodesWhole ↔ wave.info.location = .offset
      ∧ (Adpcm.EndsEarly (wave.data.length - 8)
        → UInt32.size ≤ 14 * (wave.data.length - 8) / 8))
    ∧ ∀ size, size + 8 < UInt32.size →
      (Adpcm.byteCount (bytesToSamples (UInt32.ofNat (size + 8)) 1).toNat ≤ size
        ↔ Adpcm.EndsEarly size → UInt32.size ≤ 14 * size / 8)
      ∧ Adpcm.byteCount ((bytesToSamples (UInt32.ofNat (size + 8)) 1).toNat - 1) ≤ size := by
  refine ⟨?_, fun size h =>
    ⟨Adpcm.byteCount_bytesToSamples_le_iff h, Adpcm.byteCount_bytesToSamples_pred_le h⟩⟩
  obtain ⟨hdata, pos, hinfo⟩ := inside_of_read hread
  have hcount : wave.info.channels.length = 1 := by rw [hmono, List.length_singleton]
  have hlength : wave.data.length - 8 + 8 = wave.data.length := Nat.sub_add_cancel hdata.header
  have hchannel : channel ∈ wave.info.channels := by
    rw [hmono]
    exact List.mem_singleton_self channel
  have hcodec : (wave.info.codec wave.view.order channel).byteCount wave.sampleCount.toNat
      = Adpcm.byteCount (bytesToSamples (UInt32.ofNat (wave.data.length - 8 + 8)) 1).toNat := by
    rw [WaveInfo.byteCount_codec_of_read hinfo hformat _ hchannel, sampleCount_mono hformat hmono,
      hlength]
  have hsmall : wave.data.length - 8 + 8 < UInt32.size := by
    rw [hlength]
    exact hdata.small
  rw [decodesWhole_iff_bytes hdata (by rw [hcount]; decide) (by rw [hcount]; decide), hmono]
  simp only [List.forall_mem_singleton]
  rw [hcodec, hstart]
  show _ ∧ (0 ≤ wave.data.length - 8 ∧ _ ≤ wave.data.length - 8) ↔ _
  rw [and_iff_right (Nat.zero_le _), Adpcm.byteCount_bytesToSamples_le_iff hsmall]

/-- A mono ADPCM wave whose data are so many bytes of silence. -/
def silence (size : UInt8) : Bytes :=
  #[0x52, 0x57, 0x41, 0x56, 0xfe, 0xff, 0x01, 0x02, 0x00, 0x00, 0x00, 152 + size,
    0x00, 0x20, 0x00, 0x02, 0x00, 0x00, 0x00, 0x20, 0x00, 0x00, 0x00, 0x70,
    0x00, 0x00, 0x00, 0x90, 0x00, 0x00, 0x00, 8 + size,
    0x49, 0x4e, 0x46, 0x4f, 0x00, 0x00, 0x00, 0x70,
    0x02, 0x00, 0x01, 0x00, 0x7d, 0x00, 0x00, 0x00, 0x00, 0x00, 0x00, 0x00, 0x00, 0x00, 0x00, 0x02,
    0x00, 0x00, 0x00, 0x1c, 0x00, 0x00, 0x00, 0x00, 0x00, 0x00, 0x00, 0x00, 0x00, 0x00, 0x00, 0x20,
    0x00, 0x00, 0x00, 0x00, 0x00, 0x00, 0x00, 0x38]
  ++ Array.replicate 64 0
  ++ #[0x44, 0x41, 0x54, 0x41, 0x00, 0x00, 0x00, 8 + size] ++ Array.replicate size.toNat 0

/-- The second of two frames ends with four bytes of corrections: the wave holds the twenty-two
samples that it counts. -/
theorem decodesWhole_silence :
    ∃ wave channel, read (silence 13) = .ok wave ∧ wave.info.format = .adpcm
      ∧ wave.info.channels = [channel] ∧ channel.dataOffset = 0
      ∧ wave.sampleCount = 22 ∧ wave.DecodesWhole := by
  have hevaluated : (do
      let wave ← read (silence 13)
      return (wave.info.format, wave.info.location, wave.info.channels.map ChannelInfo.dataOffset,
        wave.data.length, wave.sampleCount)) = .ok (.adpcm, .offset, [0], 21, 22) := by
    decide +kernel
  obtain ⟨wave, hread, h⟩ := bind_eq_ok_iff.mp hevaluated
  obtain ⟨hformat, hlocation, hoffsets, hlength, hcount⟩ : _ ∧ _ ∧ _ ∧ _ ∧ _ := by
    simpa only [Prod.mk.injEq] using Except.ok.inj h
  obtain ⟨channel, hmono, hstart⟩ := List.map_eq_singleton_iff.mp hoffsets
  refine ⟨wave, channel, hread, hformat, hmono, hstart, hcount, ?_⟩
  refine (decodesWhole_iff hread hformat hmono hstart).1.mpr ⟨hlocation, ?_⟩
  rw [hlength]
  exact fun hearly => absurd hearly (by decide)

/-- Behind the header of a frame there are three bytes of corrections, six samples, and the wave
counts seven. -/
theorem not_decodesWhole_silence :
    (∃ wave channel, read (silence 4) = .ok wave ∧ wave.info.format = .adpcm
      ∧ wave.info.location = .offset ∧ wave.info.channels = [channel] ∧ channel.dataOffset = 0
      ∧ wave.sampleCount = 7 ∧ ¬wave.DecodesWhole)
    ∧ ¬Adpcm.byteCount (bytesToSamples (UInt32.ofNat (4 + 8)) 1).toNat ≤ 4 := by
  refine ⟨?_, by decide⟩
  have hevaluated : (do
      let wave ← read (silence 4)
      return (wave.info.format, wave.info.location, wave.info.channels.map ChannelInfo.dataOffset,
        wave.sampleCount, wave.decode))
      = .ok (.adpcm, .offset, [0], 7, malformed 4 (.shortSamples 5)) := by
    decide +kernel
  obtain ⟨wave, hread, h⟩ := bind_eq_ok_iff.mp hevaluated
  obtain ⟨hformat, hlocation, hoffsets, hcount, hdecode⟩ : _ ∧ _ ∧ _ ∧ _ ∧ _ := by
    simpa only [Prod.mk.injEq] using Except.ok.inj h
  obtain ⟨channel, hmono, hstart⟩ := List.map_eq_singleton_iff.mp hoffsets
  refine ⟨wave, channel, hread, hformat, hlocation, hmono, hstart, hcount, ?_⟩
  rintro ⟨audio, haudio, -⟩
  rw [hdecode] at haudio
  exact nomatch haudio

end Wave

end ConsoleSound

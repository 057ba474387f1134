import ConsoleSound.Instrument.Bank
import ConsoleSound.Proofs.Wave.Length
/-! # Nibble addresses

A nibble address counts the halves of bytes, those of headers included. Every sample has one
(`nibbleAddress`), and every address that does not lie in a header is the one of a sample
(`eq_nibbleAddress_iff`), so behind headers a later address is the one of a later sample
(`nibbleToSamples_lt_nibbleToSamples`).

The samples before an address take no more than the bytes up to it
(`Adpcm.byteCount_nibbleToSamples_le`): whole frames take eight bytes each, and the last frame has
no samples before its third nibble and one for every nibble from there on. A wave that lies beside
its record ends at such an address, so its channels are decoded if their bytes reach so far
(`nibbleToSamples_fits`). -/

namespace ConsoleSound

/-! ## Addresses and samples -/

/-- The nibble at which a sample lies: before it stand whole frames, and of its own frame the header
and the earlier samples. -/
def nibbleAddress (sample : Nat) : Nat := sample / 14 * 16 + sample % 14 + 2

theorem nibbleAddress_strictMono : StrictMono nibbleAddress := by
  refine strictMono_nat_of_lt_succ fun sample => ?_
  simp only [nibbleAddress]
  omega

theorem toNat_nibbleToSamples (address : UInt32) :
    (nibbleToSamples address).toNat = address.toNat / 16 * 14 + address.toNat % 16 - 2 := by
  have hlt := address.toNat_lt
  exact UInt32.toNat_ofNat_of_lt' (show _ < 2 ^ 32 by omega)

/-- An address is the one of a sample exactly if it lies behind a header and is converted to that
sample. -/
theorem eq_nibbleAddress_iff {address : UInt32} {sample : Nat} :
    address.toNat = nibbleAddress sample
      ↔ 2 ≤ address.toNat % 16 ∧ (nibbleToSamples address).toNat = sample := by
  rw [toNat_nibbleToSamples, nibbleAddress]
  omega

/-- Behind headers, addresses are in the order of their samples. -/
theorem nibbleToSamples_lt_nibbleToSamples {address other : UInt32}
    (haddress : 2 ≤ address.toNat % 16) (hother : 2 ≤ other.toNat % 16) (h : address < other) :
    nibbleToSamples address < nibbleToSamples other := by
  have hsample := eq_nibbleAddress_iff.mpr ⟨haddress, rfl⟩
  have hothersample := eq_nibbleAddress_iff.mpr ⟨hother, rfl⟩
  rw [UInt32.lt_iff_toNat_lt, hsample, hothersample] at h
  exact UInt32.lt_iff_toNat_lt.mpr (nibbleAddress_strictMono.lt_iff_lt.mp h)

/-! ## Addresses and bytes -/

namespace Adpcm

/-- The samples before an address take no more than the bytes up to it. -/
theorem byteCount_nibbleToSamples_le (address : UInt32) :
    byteCount (nibbleToSamples address).toNat ≤ (address.toNat + 1) / 2 := by
  -- an address in the header of a frame has the samples of the frames before it at most
  have hsamples : (nibbleToSamples address).toNat
      ≤ address.toNat / 16 * 14 + (address.toNat % 16 - 2) := by
    rw [toNat_nibbleToSamples]
    omega
  have hlast : ∀ rest < 16, byteCount (rest - 2) ≤ (rest + 1) / 2 := by decide
  calc byteCount (nibbleToSamples address).toNat
      ≤ byteCount (address.toNat / 16 * 14 + (address.toNat % 16 - 2)) := byteCount_mono hsamples
    _ = address.toNat / 16 * 8 + byteCount (address.toNat % 16 - 2) := byteCount_frames_add _ _
    _ ≤ address.toNat / 16 * 8 + (address.toNat % 16 + 1) / 2 :=
        Nat.add_le_add_left (hlast _ (Nat.mod_lt _ (by decide))) _
    _ = (address.toNat + 1) / 2 := by omega

end Adpcm

/-! ## Waves beside their records -/

namespace WaveInfo

variable {view : View} {pos : Nat} {info : WaveInfo}

/-- The samples of a channel are there if its bytes reach to the end of the loop. -/
theorem byteCount_codec_le_of_read (hread : read view pos = .ok info)
    (hformat : info.format = .adpcm) (order : ByteOrder) {channel : ChannelInfo}
    (hchannel : channel ∈ info.channels) :
    (info.codec order channel).byteCount (nibbleToSamples info.loopEnd).toNat
      ≤ (info.loopEnd.toNat + 1) / 2 := by
  rw [byteCount_codec_of_read hread hformat order hchannel]
  exact Adpcm.byteCount_nibbleToSamples_le info.loopEnd

/-- The end of the loop of an ADPCM wave is where its samples end. -/
theorem decodeEmbedded_eq (hformat : info.format = .adpcm) (order : ByteOrder) (waveData : Bytes) :
    info.decodeEmbedded order waveData
      = info.decode order waveData info.dataOffset.toNat (nibbleToSamples info.loopEnd).toNat
          .nibble := by
  rw [decodeEmbedded, position, hformat]
  rfl

theorem exists_decodeBlock_of_read (hread : read view pos = .ok info)
    (hformat : info.format = .adpcm) (order : ByteOrder) {channel : ChannelInfo}
    (hchannel : channel ∈ info.channels) {raw : Bytes}
    (hraw : (info.loopEnd.toNat + 1) / 2 ≤ raw.size) {buffer : Array Int16} {lane : Lane}
    (hroom : lane.HasRoom (nibbleToSamples info.loopEnd).toNat buffer.size) :
    ∃ decoded, decodeBlock raw (nibbleToSamples info.loopEnd).toNat (info.codec order channel)
      buffer lane = .ok decoded := by
  obtain ⟨decoded, hdecoded⟩ := exists_decodeSamples_iff.mpr
    (Nat.le_trans (byteCount_codec_le_of_read hread hformat order hchannel) hraw)
  rw [decodeBlock_eq raw _ hroom, hdecoded]
  exact ⟨_, rfl⟩

theorem exists_decodeEmbedded_of_read (hread : read view pos = .ok info)
    (hformat : info.format = .adpcm) (hlocation : info.location = .offset) (order : ByteOrder)
    {waveData : Bytes}
    (hdata : ∀ channel ∈ info.channels,
      info.dataOffset.toNat + channel.dataOffset.toNat + (info.loopEnd.toNat + 1) / 2
        ≤ waveData.size) :
    ∃ audio, info.decodeEmbedded order waveData = .ok audio
      ∧ audio.samples.size = (nibbleToSamples info.loopEnd).toNat * info.channels.length := by
  have hfits : ∀ channel ∈ info.channels,
      info.dataOffset.toNat + channel.dataOffset.toNat ≤ waveData.size
        ∧ (info.codec order channel).byteCount (nibbleToSamples info.loopEnd).toNat
          ≤ waveData.size - (info.dataOffset.toNat + channel.dataOffset.toNat) := by
    intro channel hchannel
    have hbytes := byteCount_codec_le_of_read hread hformat order hchannel
    have hend := hdata channel hchannel
    constructor <;> omega
  rw [decodeEmbedded_eq hformat]
  obtain ⟨audio, haudio⟩ := (exists_decode_iff hlocation).mpr hfits
  obtain ⟨-, samples, hsamples, rfl⟩ := exists_of_decode haudio
  exact ⟨_, haudio, size_of_decodeApart hsamples⟩

end WaveInfo

/-- **Nibble addresses agree with the bytes that samples take.** The samples before an address never
take more than the bytes up to it. So a block of a channel of an ADPCM wave is decoded up to the end
of the loop if it has the bytes up to there and there is room for the samples, and a wave that lies
beside its record is decoded if each of its channels has them. The address of a sample, and no other
address behind a header, is converted to that sample, and behind headers later addresses are
converted to later samples. -/
theorem nibbleToSamples_fits :
    (∀ address : UInt32,
      Adpcm.byteCount (nibbleToSamples address).toNat ≤ (address.toNat + 1) / 2)
    ∧ (∀ (view : View) (pos : Nat) (info : WaveInfo), WaveInfo.read view pos = .ok info →
      info.format = .adpcm → ∀ order : ByteOrder,
      (∀ channel ∈ info.channels, ∀ raw : Bytes, (info.loopEnd.toNat + 1) / 2 ≤ raw.size →
        ∀ (buffer : Array Int16) (lane : Lane),
        lane.HasRoom (nibbleToSamples info.loopEnd).toNat buffer.size →
        ∃ decoded, decodeBlock raw (nibbleToSamples info.loopEnd).toNat
          (info.codec order channel) buffer lane = .ok decoded)
      ∧ (info.location = .offset → ∀ waveData : Bytes,
        (∀ channel ∈ info.channels,
          info.dataOffset.toNat + channel.dataOffset.toNat + (info.loopEnd.toNat + 1) / 2
            ≤ waveData.size) →
        ∃ audio, info.decodeEmbedded order waveData = .ok audio
          ∧ audio.samples.size = (nibbleToSamples info.loopEnd).toNat * info.channels.length))
    ∧ (∀ (address : UInt32) (sample : Nat), address.toNat = nibbleAddress sample
      ↔ 2 ≤ address.toNat % 16 ∧ (nibbleToSamples address).toNat = sample)
    ∧ ∀ address other : UInt32, 2 ≤ address.toNat % 16 → 2 ≤ other.toNat % 16 →
      address < other → nibbleToSamples address < nibbleToSamples other := by
  refine ⟨Adpcm.byteCount_nibbleToSamples_le, fun view pos info hread hformat order => ⟨?_, ?_⟩,
    fun address sample => eq_nibbleAddress_iff, fun address other haddress hother h =>
      nibbleToSamples_lt_nibbleToSamples haddress hother h⟩
  · intro channel hchannel raw hraw buffer lane hroom
    exact WaveInfo.exists_decodeBlock_of_read hread hformat order hchannel hraw hroom
  · intro hlocation waveData hdata
    exact WaveInfo.exists_decodeEmbedded_of_read hread hformat hlocation order hdata

/-- The record of an ADPCM wave that ends in the middle of a byte, with two channels, the second of
which starts a byte behind the first. -/
def overlappingChannels : Bytes :=
  #[0x02, 0x00, 0x02, 0x00, 0x7d, 0x00, 0x00, 0x00, 0x00, 0x00, 0x00, 0x02, 0x00, 0x00, 0x00, 0x13,
    0x00, 0x00, 0x00, 0x1c, 0x00, 0x00, 0x00, 0x02, 0x00, 0x00, 0x00, 0x00, 0x00, 0x00, 0x00, 0x24,
    0x00, 0x00, 0x00, 0x3c, 0x00, 0x00, 0x00, 0x00, 0x00, 0x00, 0x00, 0x54, 0x00, 0x00, 0x00, 0x00,
    0x00, 0x00, 0x00, 0x00, 0x00, 0x00, 0x00, 0x00, 0x00, 0x00, 0x00, 0x00, 0x00, 0x00, 0x00, 0x01,
    0x00, 0x00, 0x00, 0x54] ++ Array.replicate 62 0

/-- The fifteenth and last sample of the second channel is the first half of the last byte that
there is. -/
theorem nibbleToSamples_fits_overlappingChannels :
    (∃ info audio, WaveInfo.read ⟨overlappingChannels, .big⟩ 0 = .ok info
      ∧ info.format = .adpcm ∧ info.location = .offset
      ∧ (∀ channel ∈ info.channels, ∃ decoded, decodeBlock (Array.replicate 10 0) 15
        (info.codec .big channel) (Array.replicate 15 7) .mono = .ok decoded)
      ∧ (∀ channel ∈ info.channels,
        info.dataOffset.toNat + channel.dataOffset.toNat + (info.loopEnd.toNat + 1) / 2 ≤ 13)
      ∧ info.decodeEmbedded .big (Array.replicate 13 0) = .ok audio
      ∧ audio.samples.size = 15 * 2)
    ∧ nibbleToSamples 0x0f < nibbleToSamples 0x12 := by
  obtain ⟨-, hwave, -, horder⟩ := nibbleToSamples_fits
  refine ⟨?_, horder 0x0f 0x12 (by decide) (by decide) (by decide)⟩
  have hevaluated : (do
      let info ← WaveInfo.read ⟨overlappingChannels, .big⟩ 0
      return (info.format, info.location, info.dataOffset, info.loopEnd,
        info.channels.map ChannelInfo.dataOffset))
      = .ok (.adpcm, .offset, 2, 0x13, [0, 1]) := by
    decide +kernel
  obtain ⟨info, hread, h⟩ := Checked.bind_eq_ok_iff.mp hevaluated
  obtain ⟨hformat, hlocation, hstart, hend, hoffsets⟩ : _ ∧ _ ∧ _ ∧ _ ∧ _ := by
    simpa only [Prod.mk.injEq] using Except.ok.inj h
  have hbytes : ∀ offset ∈ info.channels.map ChannelInfo.dataOffset,
      (2 : UInt32).toNat + offset.toNat + ((0x13 : UInt32).toNat + 1) / 2 ≤ 13 := by
    rw [hoffsets, List.forall_mem_cons, List.forall_mem_singleton]
    exact ⟨by decide, by decide⟩
  have hdata : ∀ channel ∈ info.channels,
      info.dataOffset.toNat + channel.dataOffset.toNat + (info.loopEnd.toNat + 1) / 2 ≤ 13 := by
    intro channel hchannel
    rw [hstart, hend]
    exact hbytes _ (List.mem_map_of_mem hchannel)
  have hcount : info.channels.length = 2 := by simpa using congrArg List.length hoffsets
  obtain ⟨hblocks, hall⟩ := hwave _ 0 info hread hformat .big
  obtain ⟨audio, haudio, hsize⟩ := hall hlocation (Array.replicate 13 0) (by simpa using hdata)
  rw [hend, hcount] at hsize
  refine ⟨info, audio, hread, hformat, hlocation, fun channel hchannel => ?_, hdata, haudio, hsize⟩
  have hblock := hblocks channel hchannel (Array.replicate 10 0) (by rw [hend]; decide)
    (Array.replicate 15 7) .mono (Lane.hasRoom_mono (by rw [hend]; decide))
  rwa [hend] at hblock

end ConsoleSound

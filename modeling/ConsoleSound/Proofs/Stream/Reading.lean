import ConsoleSound.Stream.File
import ConsoleSound.Proofs.Container.Blocks
/-! # What a stream that was read is known to hold

Reading a stream checks its layout once: blocks hold as many bytes as their samples take,
and all of them lie inside the data block, which lies inside the file. So every channel has
its part of every block (`Stream.Accepted.part_eq`), unless the file says that its samples
start behind its end.

Reading checks too that tracks play channels which the stream has. -/

namespace ConsoleSound

open Checked

/-! ## The layout of blocks -/

namespace StreamInfo

/-- The blocks of a stream hold their samples and take no more bytes than there are. -/
structure Fits (info : StreamInfo) (available : Nat) : Prop where
  block : info.byteCount info.blockSamples.toNat ≤ info.blockSize.toNat
  finalBlock : info.byteCount info.finalBlockSamples.toNat ≤ info.finalBlockSize.toNat
  span : info.span ≤ available

theorem fits_of_checkGeometry {info : StreamInfo} {available pos : Nat}
    (h : info.checkGeometry available pos = .ok ()) (hblocks : info.blockCount ≠ 0) :
    info.Fits available := by
  rw [checkGeometry, if_neg hblocks] at h
  split at h
  · exact nomatch h
  · next hcrowded =>
      split at h
      · exact nomatch h
      · next hoverrun =>
          rw [not_or, Nat.not_lt, Nat.not_lt] at hcrowded
          exact ⟨hcrowded.1, hcrowded.2, Nat.not_lt.mp hoverrun⟩

theorem Fits.byteCount_samplesIn_le {info : StreamInfo} {available : Nat} (h : info.Fits available)
    (block : Nat) : info.byteCount (info.samplesIn block) ≤ info.bytesIn block := by
  rw [samplesIn, bytesIn]
  split
  · exact h.finalBlock
  · exact h.block

/-- The parts of all channels in all blocks lie in the span of the blocks. -/
theorem partOffset_add_le_span {info : StreamInfo} {block channel : Nat}
    (hblock : block < info.blockCount.toNat) (hchannel : channel < info.channelCount.toNat) :
    info.partOffset block channel + info.bytesIn block ≤ info.span := by
  rw [partOffset, bytesIn, isFinal, span]
  by_cases hfinal : block + 1 = info.blockCount.toNat
  · simp only [hfinal, decide_true, if_true, ← Nat.eq_sub_of_add_eq hfinal]
    have hpadded : channel * info.finalBlockPaddedSize.toNat
        ≤ (info.channelCount.toNat - 1) * info.finalBlockPaddedSize.toNat :=
      Nat.mul_le_mul_right _ (by omega)
    omega
  · simp only [hfinal, decide_false, Bool.false_eq_true, if_false]
    calc block * info.channelCount.toNat * info.blockSize.toNat
          + channel * info.blockSize.toNat + info.blockSize.toNat
        = (block * info.channelCount.toNat + (channel + 1)) * info.blockSize.toNat := by
          rw [Nat.add_mul, Nat.succ_mul, Nat.add_assoc]
      _ ≤ (block + 1) * info.channelCount.toNat * info.blockSize.toNat := by
          rw [Nat.succ_mul]
          exact Nat.mul_le_mul_right _ (Nat.add_le_add_left hchannel _)
      _ ≤ (info.blockCount.toNat - 1) * info.channelCount.toNat * info.blockSize.toNat :=
          Nat.mul_le_mul_right _ (Nat.mul_le_mul_right _ (by omega))
      _ ≤ _ := by omega

end StreamInfo

/-! ## Streams -/

theorem StreamTrack.length_of_read {view : View} {pos : Nat} {mixed : Bool} {track : StreamTrack}
    (h : read view pos mixed = .ok track) : track.channels.length < UInt8.size := by
  unfold read at h
  extract_lets list next at h
  have hnext : ∃ mix?, next mix? = .ok track := by
    cases mixed with
    | true =>
        obtain ⟨volume, -, h⟩ := bind_eq_ok_iff.mp h
        obtain ⟨pan, -, h⟩ := bind_eq_ok_iff.mp h
        exact ⟨_, h⟩
    | false => exact ⟨_, h⟩
  obtain ⟨mix?, h⟩ := hnext
  obtain ⟨count, -, h⟩ := bind_eq_ok_iff.mp h
  obtain ⟨channels, hchannels, h⟩ := bind_eq_ok_iff.mp h
  rw [← Except.ok.inj h, Array.length_toList, View.size_of_bytes hchannels]
  exact count.toNat_lt_size

theorem StreamTrack.length_of_readTable {view : View} {pos base : Nat} {tracks : List StreamTrack}
    (h : readTable view pos base = .ok tracks) :
    ∀ track ∈ tracks, track.channels.length < UInt8.size := by
  obtain ⟨count, -, h⟩ := bind_eq_ok_iff.mp h
  obtain ⟨code, -, h⟩ := bind_eq_ok_iff.mp h
  extract_lets next at h
  have hnext : ∃ mixed, next mixed = .ok tracks := by
    split at h
    · exact ⟨_, h⟩
    · exact ⟨_, h⟩
    · exact nomatch h
  obtain ⟨mixed, h⟩ := hnext
  intro track hmem
  obtain ⟨index, -, hread⟩ := exists_of_mapM h hmem
  obtain ⟨place, -, hread⟩ := bind_eq_ok_iff.mp hread
  exact StreamTrack.length_of_read hread

namespace Stream

/-- What reading a stream makes sure of. -/
structure Accepted (stream : Stream) (file : Bytes) : Prop where
  data : stream.view.data = file
  stop : stream.data.stop ≤ file.size
  geometry : ∃ offset pos, stream.view.offset stream.data.base = .ok offset
    ∧ stream.info.checkGeometry (stream.data.stop - (stream.data.base + offset)) pos = .ok ()
  channels : ∀ track ∈ stream.tracks, ∀ channel ∈ track.channels,
    channel < stream.info.channelCount
  lengths : ∀ track ∈ stream.tracks, track.channels.length < UInt8.size

theorem lt_of_checkTracks {info : StreamInfo} {tracks : List StreamTrack} {pos : Nat}
    (h : checkTracks info tracks pos = .ok ()) :
    ∀ track ∈ tracks, ∀ channel ∈ track.channels, channel < info.channelCount := by
  rw [checkTracks] at h
  split at h
  · exact nomatch h
  · next hnone =>
      intro track htrack channel hchannel
      have hfind := List.find?_eq_none.mp (List.findSome?_eq_none_iff.mp hnone track htrack)
      have hknown := hfind channel hchannel
      rw [decide_eq_true_iff] at hknown
      exact UInt8.not_le.mp hknown

theorem accepted_of_read {file : Bytes} {stream : Stream} (h : read file = .ok stream) :
    stream.Accepted file := by
  obtain ⟨⟨header, view⟩, hview, h⟩ := bind_eq_ok_iff.mp h
  obtain rfl := Container.view_of_openAs hview
  obtain ⟨head, -, h⟩ := bind_eq_ok_iff.mp h
  obtain ⟨historiesOffset, -, h⟩ := bind_eq_ok_iff.mp h
  extract_lets base next at h
  have hnext : ∃ histories?, next histories? = .ok stream := by
    split at h
    · exact ⟨_, h⟩
    · obtain ⟨histories?, -, h⟩ := bind_eq_ok_iff.mp h
      exact ⟨histories?, h⟩
  obtain ⟨histories?, h⟩ := hnext
  obtain ⟨data, hdata, h⟩ := bind_eq_ok_iff.mp h
  obtain ⟨infoPos, -, h⟩ := bind_eq_ok_iff.mp h
  obtain ⟨tracksPos, -, h⟩ := bind_eq_ok_iff.mp h
  obtain ⟨channelsPos, -, h⟩ := bind_eq_ok_iff.mp h
  obtain ⟨info, -, h⟩ := bind_eq_ok_iff.mp h
  obtain ⟨tracks, htracks, h⟩ := bind_eq_ok_iff.mp h
  obtain ⟨channels, -, h⟩ := bind_eq_ok_iff.mp h
  obtain ⟨offset, hoffset, h⟩ := bind_eq_ok_iff.mp h
  obtain ⟨⟨⟩, hgeometry, h⟩ := bind_eq_ok_iff.mp h
  obtain ⟨⟨⟩, hchannels, h⟩ := bind_eq_ok_iff.mp h
  obtain rfl := Except.ok.inj h
  exact {
    data := rfl
    stop := (Container.Block.inside_of_locate hdata).stop
    geometry := ⟨offset, infoPos, hoffset, hgeometry⟩
    channels := lt_of_checkTracks hchannels
    lengths := StreamTrack.length_of_readTable htracks }

/-- The file holds every channel's part of every block. -/
theorem Accepted.part_eq {stream : Stream} {file : Bytes} (h : stream.Accepted file) {offset : Nat}
    (hoffset : stream.view.offset stream.data.base = .ok offset)
    (hinside : stream.data.base + offset ≤ file.size) {block channel : Nat}
    (hblock : block < stream.info.blockCount.toNat)
    (hchannel : channel < stream.info.channelCount.toNat) :
    ∃ raw, stream.part block channel = .ok raw
      ∧ raw.size = stream.info.bytesIn block
      ∧ stream.info.byteCount (stream.info.samplesIn block) ≤ raw.size
      ∧ ∀ index, index < raw.size → raw[index]?
        = file[stream.data.base + offset + stream.info.partOffset block channel + index]? := by
  have hblocks : stream.info.blockCount ≠ 0 := by
    intro hzero
    rw [hzero] at hblock
    exact nomatch hblock
  obtain ⟨other, pos, hother, hgeometry⟩ := h.geometry
  obtain rfl : offset = other := Except.ok.inj (hoffset.symm.trans hother)
  have hfits := StreamInfo.fits_of_checkGeometry hgeometry hblocks
  have hspan := StreamInfo.partOffset_add_le_span hblock hchannel
  have hlast : stream.data.base + offset + stream.info.partOffset block channel
      + stream.info.bytesIn block ≤ stream.view.data.size := by
    have hspanned := hfits.span
    have hstop := h.stop
    rw [h.data]
    omega
  have hpart : stream.part block channel = stream.view.bytes
      (stream.data.base + offset + stream.info.partOffset block channel)
      (stream.info.bytesIn block) := by
    rw [part, hoffset]
    rfl
  rw [hpart, View.bytes_of_le hlast]
  have hsize := View.size_of_bytes (View.bytes_of_le hlast)
  refine ⟨_, rfl, hsize, ?_, ?_⟩
  · rw [hsize]
    exact hfits.byteCount_samplesIn_le block
  · intro index hindex
    rw [← h.data]
    simp only [Array.getElem?_extract]
    rw [if_pos (by omega)]

end Stream

end ConsoleSound

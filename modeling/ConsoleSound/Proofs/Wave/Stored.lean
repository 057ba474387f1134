import ConsoleSound.Wave.File
import ConsoleSound.Proofs.Container.Stored
import ConsoleSound.Proofs.Sample.Blocks
/-! # Stored waves

`MonoWave.stored` lays out a wave file for one channel of 16-bit samples in either byte
order: a block with the wave record, then a block with the samples. The file is read back
as it was stored (`MonoWave.read_stored`) and decodes to the samples and the rate that went
into it (`MonoWave.decode_opened`). -/

namespace ConsoleSound

open Checked Container

/-- A wave of one channel with 16-bit samples, whose rate has to fit three bytes. -/
structure MonoWave where
  version : UInt16
  rate : UInt32
  samples : List Int16
  rate_lt : rate.toNat < 2 ^ 24

namespace MonoWave

variable (wave : MonoWave) (order : ByteOrder)

/-- The samples, two bytes each. -/
def sampleBytes : List UInt8 :=
  wave.samples.flatMap fun sample => order.spell 2 sample.toUInt16.toNat

/-- The wave record, with a table of one channel and the channel's own record behind it. -/
def record : List UInt8 :=
  -- the format, no loop, one channel, and the rate
  [1, 0, 1, UInt8.ofNat (wave.rate.toNat / 65536)] ++ order.spell 2 (wave.rate.toNat % 65536)
    -- samples at a distance, then the loop
    ++ [0, 0] ++ order.spell 4 0 ++ order.spell 4 wave.samples.length
    -- the distances of the channel table and of the samples, and a field that is not read
    ++ order.spell 4 0x1c ++ order.spell 4 0 ++ order.spell 4 0
    -- the distance of the channel record, and the record
    ++ order.spell 4 0x20 ++ order.spell 4 0 ++ order.spell 4 0 ++ List.replicate 16 0

/-- The contents of a wave file. -/
def contents : Contents where
  code := Kind.wave.magic
  version := wave.version
  firstCode := .ofChars 'I' 'N' 'F' 'O'
  first := wave.record order
  secondCode := .ofChars 'D' 'A' 'T' 'A'
  second := wave.sampleBytes order

/-- The bytes of a wave file. -/
def stored : List UInt8 := (wave.contents order).stored order

/-- What the wave record says. -/
def info : WaveInfo where
  format := .pcm16
  looped := false
  rate := wave.rate
  location := .offset
  loopStart := 0
  loopEnd := UInt32.ofNat wave.samples.length
  dataOffset := 0
  channels := [⟨0, none, .ofFn fun _ => 0⟩]

/-- What a wave sounds like. -/
def audio : Audio where
  rate := wave.rate
  channels := 1
  looped := false
  loopStart := 0
  loopEnd := UInt32.ofNat wave.samples.length
  samples := wave.samples.toArray

@[simp] theorem length_sampleBytes : (wave.sampleBytes order).length = wave.samples.length * 2 := by
  simp [sampleBytes, List.length_flatMap]

@[simp] theorem length_record : (wave.record order).length = 56 := by
  simp only [record, List.length_append, List.length_cons, List.length_nil, ByteOrder.spell_length,
    List.length_replicate]

/-! ## The wave record -/

variable {wave} {order}

theorem readRate_of_holds {view : View} {pos : Nat} {rate : UInt32} (hrate : rate.toNat < 2 ^ 24)
    (hhigh : view.Holds pos [UInt8.ofNat (rate.toNat / 65536)])
    (hlow : view.Holds (pos + 1) (view.order.spell 2 (rate.toNat % 65536))) :
    WaveInfo.readRate view pos = .ok rate := by
  have hword : (UInt16.ofNat (rate.toNat % 65536)).toNat = rate.toNat % 65536 :=
    UInt16.toNat_ofNat_of_lt' (Nat.mod_lt _ (by decide))
  have hbyte : (UInt8.ofNat (rate.toNat / 65536)).toNat = rate.toNat / 65536 :=
    UInt8.toNat_ofNat_of_lt' (Nat.div_lt_of_lt_mul hrate)
  rw [← hword] at hlow
  refine bind_eq_ok_iff.mpr ⟨_, View.u8_eq_ok_iff.mpr hhigh,
    bind_eq_ok_iff.mpr ⟨_, View.u16_eq_ok_iff.mpr hlow, ?_⟩⟩
  rw [hbyte, hword, Nat.div_add_mod', UInt32.ofNat_toNat]
  rfl

/-- The volumes of a channel take four words, all of them zero. -/
theorem readVolumes_of_holds {view : View} {pos : Nat} (h : view.Holds pos (List.replicate 16 0)) :
    (Vector.ofFnM fun (index : Fin 4) => view.u32 (pos + index.val * 4))
      = .ok (.ofFn fun _ => 0) := by
  have hzeros : List.replicate 16 0 = view.order.spell 4 0 ++ view.order.spell 4 0
      ++ view.order.spell 4 0 ++ view.order.spell 4 0 := by
    cases view.order <;> rfl
  rw [hzeros] at h
  simp only [View.holds_append, List.length_append, ByteOrder.spell_length, Nat.reduceAdd] at h
  obtain ⟨⟨⟨hfirst, hsecond⟩, hthird⟩, hfourth⟩ := h
  refine ofFnM_eq_ok fun index => View.u32_eq_ok_iff.mpr ?_
  match index with
  | 0 => exact hfirst
  | 1 => exact hsecond
  | 2 => exact hthird
  | 3 => exact hfourth

theorem read_info_of_holds {view : View} {pos : Nat} (h : view.Holds pos (wave.record view.order))
    (hsamples : wave.samples.length < UInt32.size) : WaveInfo.read view pos = .ok wave.info := by
  simp only [record, View.holds_append, View.holds_cons_cons, List.length_append, List.length_cons,
    List.length_nil, ByteOrder.spell_length, Nat.reduceAdd] at h
  obtain ⟨⟨⟨⟨h, hchannel⟩, hstart⟩, hadpcm⟩, hvolumes⟩ := h
  obtain ⟨⟨⟨⟨⟨h, hloopStart⟩, hloopEnd⟩, htable⟩, hdata⟩, -⟩ := h
  obtain ⟨⟨⟨hformat, hlooped, hcount, hhigh⟩, hlow⟩, hlocation, -⟩ := h
  have hchannels : ((List.range (1 : UInt8).toNat).mapM fun index => do
      let channel := pos + (← view.offset (pos + 0x1c + index * 4))
      ChannelInfo.read view channel pos .pcm16) = .ok [⟨0, none, .ofFn fun _ => 0⟩] := by
    refine mapM_range_eq_ok_iff.mpr ⟨rfl, ?_⟩
    rintro (_ | index) channel hindex
    · obtain rfl := Option.some.inj hindex
      refine bind_eq_ok_iff.mpr ⟨0x20, View.offset_eq_ok_iff.mpr ⟨by decide, hchannel⟩, ?_⟩
      exact bind_eq_ok_iff.mpr ⟨0, View.offset_eq_ok_iff.mpr ⟨by decide, hadpcm⟩,
        bind_eq_ok_iff.mpr ⟨none, rfl, bind_eq_ok_iff.mpr ⟨0, View.u32_eq_ok_iff.mpr hstart,
          bind_eq_ok_iff.mpr ⟨_, readVolumes_of_holds hvolumes, rfl⟩⟩⟩⟩
    · exact nomatch hindex
  have hloopEnd : view.u32 (pos + 0x0c) = .ok (UInt32.ofNat wave.samples.length) := by
    rw [View.u32_eq_ok_iff, UInt32.toNat_ofNat_of_lt' hsamples]
    exact hloopEnd
  refine bind_eq_ok_iff.mpr ⟨1, View.u8_eq_ok_iff.mpr hformat, ?_⟩
  refine bind_eq_ok_iff.mpr ⟨.pcm16, rfl, ?_⟩
  refine bind_eq_ok_iff.mpr ⟨1, View.u8_eq_ok_iff.mpr hcount, ?_⟩
  refine bind_eq_ok_iff.mpr ⟨_, readRate_of_holds wave.rate_lt hhigh hlow, ?_⟩
  refine bind_eq_ok_iff.mpr ⟨.offset, bind_eq_ok_iff.mpr
    ⟨0, View.u8_eq_ok_iff.mpr hlocation, rfl⟩, ?_⟩
  refine bind_eq_ok_iff.mpr ⟨0x1c, View.offset_eq_ok_iff.mpr ⟨by decide, htable⟩, ?_⟩
  refine bind_eq_ok_iff.mpr ⟨_, hchannels, ?_⟩
  refine bind_eq_ok_iff.mpr ⟨0, View.u8_eq_ok_iff.mpr hlooped, ?_⟩
  refine bind_eq_ok_iff.mpr ⟨0, View.u32_eq_ok_iff.mpr hloopStart, ?_⟩
  refine bind_eq_ok_iff.mpr ⟨_, hloopEnd, ?_⟩
  exact bind_eq_ok_iff.mpr ⟨0, View.u32_eq_ok_iff.mpr hdata, rfl⟩

/-! ## The samples -/

theorem pcmSample?_of_holds {raw : Bytes} {index : Nat} {sample : Int16}
    (h : (View.mk raw order).Holds (index * 2) (order.spell 2 sample.toUInt16.toNat)) :
    Codec.pcmSample? raw index (some order) = some sample := by
  obtain ⟨first, second, hbytes⟩ := List.length_eq_two.mp
    (order.spell_length 2 sample.toUInt16.toNat)
  have hvalue : order.value [first, second] = sample.toUInt16.toNat := by
    rw [← hbytes, ByteOrder.value_spell]
    exact Nat.mod_eq_of_lt sample.toUInt16.toNat_lt
  rw [hbytes, View.holds_cons_cons, View.holds_byte_iff, View.holds_byte_iff, Nat.mul_comm] at h
  rw [Codec.pcmSample?, h.1, h.2]
  show some (UInt16.ofNat (order.value [first, second])).toInt16 = some sample
  rw [hvalue, UInt16.ofNat_toNat]
  rfl

/-- Samples that stand at the front of some bytes are decoded. -/
theorem decodeSamples_sampleBytes (rest : List UInt8) :
    decodeSamples (wave.sampleBytes order ++ rest).toArray wave.samples.length (.pcm16 order)
      = .ok (wave.samples.toArray, .silent) := by
  have hsize : (Codec.pcm (some order)).byteCount wave.samples.length
      ≤ (wave.sampleBytes order ++ rest).toArray.size := by
    show wave.samples.length * 2 ≤ _
    rw [List.size_toArray, List.length_append, length_sampleBytes]
    exact Nat.le_add_right _ _
  have hsample {index : Nat} {sample : Int16} (hindex : wave.samples[index]? = some sample) :
      Codec.pcmSample? (wave.sampleBytes order ++ rest).toArray index (some order)
        = some sample := by
    have hholds := View.holds_flatMap
      (View.holds_append.mp (View.holds_zero (wave.sampleBytes order ++ rest) order)).1 hindex
    have hbefore : 0 + ((wave.samples.take index).flatMap fun sample =>
        order.spell 2 sample.toUInt16.toNat).length = index * 2 := by
      have hle : index ≤ wave.samples.length := by
        obtain ⟨hlt, -⟩ := List.getElem?_eq_some_iff.mp hindex
        exact Nat.le_of_lt hlt
      simp [List.length_flatMap, Nat.min_eq_left hle]
    rw [hbefore] at hholds
    exact pcmSample?_of_holds hholds
  obtain ⟨samples, hdecoded, hstored⟩ := decodeSamples_pcm hsize
  have hlist : samples.toList.map some = wave.samples.map some := by
    rw [hstored]
    apply List.ext_getElem?
    intro index
    rw [List.getElem?_map, List.getElem?_map]
    cases hindex : wave.samples[index]? with
    | none =>
        have hbehind := List.getElem?_eq_none_iff.mp hindex
        rw [List.getElem?_eq_none (by rw [List.length_range]; exact hbehind)]
        rfl
    | some sample =>
        obtain ⟨hlt, -⟩ := List.getElem?_eq_some_iff.mp hindex
        rw [List.getElem?_range hlt]
        exact congrArg some (hsample hindex)
  have hsamples : samples = wave.samples.toArray := by
    rw [← (List.map_inj_right fun _ _ => Option.some.inj).mp hlist, Array.toArray_toList]
  rw [hsamples] at hdecoded
  exact hdecoded

/-! ## The file -/

variable (wave) (order)

/-- A stored wave as it is read. -/
def opened : Wave where
  header := (wave.contents order).header order
  info := wave.info
  data := ⟨.ofChars 'D' 'A' 'T' 'A', 0x20 + (wave.contents order).firstLength,
    (wave.contents order).secondLength⟩
  view := (wave.contents order).view order

/-- The length of a stored wave is the same in both orders. -/
theorem length_stored : (wave.stored order).length
    = 104 + (wave.samples.length * 2 + (4 - wave.samples.length * 2 % 4) % 4) := by
  have hfirst : (wave.contents order).firstLength = 64 := by
    rw [Contents.firstLength, contents, length_padded, length_record]
    rfl
  have hsecond : (wave.contents order).secondLength
      = 8 + (wave.samples.length * 2 + (4 - wave.samples.length * 2 % 4) % 4) := by
    rw [Contents.secondLength, contents, length_padded, length_sampleBytes]
    rfl
  rw [stored, Contents.length_stored, Contents.length, hfirst, hsecond]
  omega

theorem length_samples_lt (h : (wave.stored order).length < UInt32.size) :
    wave.samples.length < UInt32.size := by
  rw [length_stored] at h
  omega

variable {wave} {order}

/-- A stored wave is read again. -/
theorem read_stored (h : (wave.stored order).length < UInt32.size) :
    Wave.read (wave.stored order).toArray = .ok (wave.opened order) := by
  have hlength : (wave.contents order).length < UInt32.size := by
    rw [← Contents.length_stored _ order]
    exact h
  have hinfo : WaveInfo.read ((wave.contents order).view order) 40 = .ok wave.info :=
    read_info_of_holds (View.holds_append.mp ((wave.contents order).fields order).first).1
      (wave.length_samples_lt order h)
  refine bind_eq_ok_iff.mpr ⟨_, Contents.openAs_stored hlength, ?_⟩
  refine bind_eq_ok_iff.mpr ⟨_, Contents.locate_first_stored hlength, ?_⟩
  refine bind_eq_ok_iff.mpr ⟨_, Contents.locate_second_stored hlength, ?_⟩
  exact bind_eq_ok_iff.mpr ⟨_, hinfo, rfl⟩

/-- A channel without a distance takes the wave data as it is. -/
theorem channelData_zero (waveData : Bytes) (index : Nat) {channel : ChannelInfo}
    (h : channel.dataOffset = 0) :
    WaveInfo.channelData waveData 0 index channel = .ok waveData := by
  unfold WaveInfo.channelData
  rw [h]
  show (if 0 ≤ waveData.size then Except.ok (waveData.extract 0 waveData.size) else _) = _
  rw [if_pos (Nat.zero_le _), Array.extract_size]

/-- A single channel interleaved is the channel. -/
theorem interleave_singleton {samples : Array Int16} {frames : Nat} (h : samples.size = frames) :
    interleave #[samples] frames = samples := by
  subst h
  apply Array.ext
  · rw [interleave, Array.size_ofFn]
    exact Nat.mul_one _
  · intro frame hleft hright
    simp [interleave, hright, Nat.mod_one]

/-- A stored wave decodes to what went into it. -/
theorem decode_opened (h : (wave.stored order).length < UInt32.size) :
    (wave.opened order).decode = .ok wave.audio := by
  have hbody : (wave.opened order).data.body (wave.opened order).view
      = .ok (padded (wave.sampleBytes order)).toArray := by
    refine View.bytes_eq_ok_iff.mpr ⟨?_, ((wave.contents order).fields order).second⟩
    exact (Nat.add_sub_cancel_left ..).symm
  have hcount : (wave.opened order).sampleCount.toNat = wave.samples.length :=
    UInt32.toNat_ofNat_of_lt' (wave.length_samples_lt order h)
  have hchannel : wave.info.decodeChannel order (padded (wave.sampleBytes order)).toArray 0
      wave.samples.length 0 ⟨0, none, .ofFn fun _ => 0⟩ = .ok wave.samples.toArray :=
    bind_eq_ok_iff.mpr ⟨_, channelData_zero _ 0 rfl,
      bind_eq_ok_iff.mpr ⟨_, decodeSamples_sampleBytes _, rfl⟩⟩
  have hlocation : (wave.opened order).info.location ≠ .address := by
    show DataLocation.offset ≠ .address
    decide
  have hinterleaved : interleave #[wave.samples.toArray] wave.samples.length
      = wave.samples.toArray := interleave_singleton List.size_toArray
  refine bind_eq_ok_iff.mpr ⟨_, hbody, ?_⟩
  rw [hcount, WaveInfo.decode, if_neg hlocation]
  refine bind_eq_ok_iff.mpr
    ⟨[wave.samples.toArray], mapM_eq_ok_iff.mpr (.cons hchannel .nil), ?_⟩
  show Except.ok (Audio.mk wave.rate (UInt16.ofNat 1) false 0 wave.info.loopEnd
    (interleave #[wave.samples.toArray] wave.samples.length)) = _
  rw [hinterleaved]
  rfl

end MonoWave

end ConsoleSound

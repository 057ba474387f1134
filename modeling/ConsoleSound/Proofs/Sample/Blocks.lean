import ConsoleSound.Proofs.Sample.Decoding
/-! # Blocks of samples

Samples that are put along a lane fill its places and leave the others alone
(`getElem?_write_place`, `getElem?_write_of_ne`), and putting two pieces behind one another
is putting them as one (`write_append`). A block that has room in a buffer is thus decoded
by itself first and put along its lane afterwards (`decodeBlock_eq`). -/

namespace ConsoleSound

namespace Lane

/-! ## Samples along a lane -/

/-- Whether a buffer of `size` samples has places for `count` samples. -/
def HasRoom (lane : Lane) (count size : Nat) : Prop :=
  ∀ index, index < count → lane.place index < size

/-- A lane has room for all samples if it has room for the last one. -/
theorem hasRoom_iff {lane : Lane} {count size : Nat} :
    lane.HasRoom count size ↔ count = 0 ∨ lane.place (count - 1) < size := by
  constructor
  · intro h
    by_cases hcount : count = 0
    · exact .inl hcount
    · exact .inr (h (count - 1) (by omega))
  · rintro (rfl | hlast) index hindex
    · exact absurd hindex (Nat.not_lt_zero index)
    · have hle : index * lane.stride ≤ (count - 1) * lane.stride :=
        Nat.mul_le_mul_right _ (by omega)
      simp only [place] at hlast ⊢
      omega

theorem fits_iff_hasRoom {lane : Lane} {count size : Nat} (hcount : count ≠ 0) :
    lane.fits count size = true ↔ lane.HasRoom count size := by
  rw [fits, decide_eq_true_iff, hasRoom_iff]
  exact ⟨.inr, fun h => h.resolve_left hcount⟩

theorem place_inj {lane : Lane} (h : 0 < lane.stride) {index other : Nat}
    (hplace : lane.place index = lane.place other) : index = other := by
  have hproducts : index * lane.stride = other * lane.stride := Nat.add_left_cancel hplace
  exact Nat.eq_of_mul_eq_mul_right h hproducts

theorem place_drop (lane : Lane) (count index : Nat) :
    (lane.drop count).place index = lane.place (count + index) := by
  show lane.start + count * lane.stride + index * lane.stride = _
  rw [place, Nat.add_mul, Nat.add_assoc]

theorem drop_zero (lane : Lane) : lane.drop 0 = lane := by
  rw [drop, place, Nat.zero_mul, Nat.add_zero]

theorem drop_drop (lane : Lane) (count more : Nat) :
    (lane.drop count).drop more = lane.drop (count + more) := by
  show Lane.mk ((lane.drop count).place more) lane.stride = _
  rw [place_drop, drop]

theorem HasRoom.mono {lane : Lane} {count fewer size : Nat} (h : lane.HasRoom count size)
    (hfewer : fewer ≤ count) : lane.HasRoom fewer size := by
  intro index hindex
  exact h index (Nat.lt_of_lt_of_le hindex hfewer)

theorem HasRoom.drop {lane : Lane} {first rest size : Nat} (h : lane.HasRoom (first + rest) size) :
    (lane.drop first).HasRoom rest size := by
  intro index hindex
  rw [place_drop]
  exact h (first + index) (Nat.add_lt_add_left hindex first)

theorem size_writeFrom (lane : Lane) (buffer : Array Int16) (index : Nat) (samples : List Int16) :
    (lane.writeFrom buffer index samples).size = buffer.size := by
  induction samples generalizing buffer index with
  | nil => rfl
  | cons sample samples ih => rw [writeFrom, ih, Array.size_setIfInBounds]

theorem writeFrom_append (lane : Lane) (buffer : Array Int16) (index : Nat)
    (first second : List Int16) :
    lane.writeFrom buffer index (first ++ second)
      = lane.writeFrom (lane.writeFrom buffer index first) (index + first.length) second := by
  induction first generalizing buffer index with
  | nil => rfl
  | cons sample first ih =>
      rw [List.cons_append, writeFrom, ih, writeFrom, List.length_cons,
        Nat.add_assoc, Nat.add_comm 1]

theorem writeFrom_drop (lane : Lane) (count : Nat) (buffer : Array Int16) (index : Nat)
    (samples : List Int16) :
    (lane.drop count).writeFrom buffer index samples
      = lane.writeFrom buffer (count + index) samples := by
  induction samples generalizing buffer index with
  | nil => rfl
  | cons sample samples ih => rw [writeFrom, ih, writeFrom, place_drop, Nat.add_assoc]

/-- A place that gets no sample keeps the one that it has. -/
theorem getElem?_writeFrom_of_ne {lane : Lane} {samples : List Int16} {index place : Nat}
    (h : ∀ offset, offset < samples.length → lane.place (index + offset) ≠ place)
    (buffer : Array Int16) : (lane.writeFrom buffer index samples)[place]? = buffer[place]? := by
  induction samples generalizing buffer index with
  | nil => rfl
  | cons sample samples ih =>
      have hfirst : lane.place index ≠ place := h 0 (Nat.zero_lt_succ _)
      rw [writeFrom, ih, Array.getElem?_setIfInBounds_ne hfirst]
      intro offset hoffset
      rw [Nat.add_assoc, Nat.add_comm 1]
      exact h (offset + 1) (Nat.succ_lt_succ hoffset)

theorem getElem?_writeFrom_place {lane : Lane} (hstride : 0 < lane.stride) {samples : List Int16}
    {index offset : Nat} (hoffset : offset < samples.length) {buffer : Array Int16}
    (hplace : lane.place (index + offset) < buffer.size) :
    (lane.writeFrom buffer index samples)[lane.place (index + offset)]? = samples[offset]? := by
  induction samples generalizing buffer index offset with
  | nil => exact nomatch hoffset
  | cons sample samples ih =>
      rw [writeFrom]
      cases offset with
      | zero =>
          -- the samples behind the first one go to later places
          rw [Nat.add_zero index] at hplace ⊢
          rw [getElem?_writeFrom_of_ne, Array.getElem?_setIfInBounds_self_of_lt hplace]
          · rfl
          · intro offset _ heq
            have := place_inj hstride heq
            omega
      | succ offset =>
          have hshift : index + (offset + 1) = index + 1 + offset := by omega
          rw [hshift] at hplace ⊢
          rw [ih (Nat.lt_of_succ_lt_succ hoffset) (by rwa [Array.size_setIfInBounds])]
          rfl

@[simp] theorem size_write (lane : Lane) (buffer samples : Array Int16) :
    (lane.write buffer samples).size = buffer.size := size_writeFrom lane buffer 0 _

/-- Two pieces of samples go behind one another. -/
theorem write_append (lane : Lane) (buffer first second : Array Int16) :
    lane.write buffer (first ++ second)
      = (lane.drop first.size).write (lane.write buffer first) second := by
  rw [write, write, writeFrom_drop, Array.toList_append, writeFrom_append, Array.length_toList,
    Nat.add_comm]
  rfl

theorem getElem?_write_of_ne {lane : Lane} {samples : Array Int16} {place : Nat}
    (h : ∀ index, index < samples.size → lane.place index ≠ place) (buffer : Array Int16) :
    (lane.write buffer samples)[place]? = buffer[place]? := by
  refine getElem?_writeFrom_of_ne ?_ buffer
  intro offset hoffset
  rw [Nat.zero_add]
  exact h offset hoffset

theorem getElem?_write_place {lane : Lane} (hstride : 0 < lane.stride)
    {buffer samples : Array Int16} (hroom : lane.HasRoom samples.size buffer.size) {index : Nat}
    (hindex : index < samples.size) :
    (lane.write buffer samples)[lane.place index]? = samples[index]? := by
  have hplace : lane.place (0 + index) < buffer.size := by
    rw [Nat.zero_add]
    exact hroom index hindex
  have hlist : index < samples.toList.length := hindex
  have hwritten := getElem?_writeFrom_place hstride hlist hplace
  rwa [Nat.zero_add, Array.getElem?_toList] at hwritten

theorem place_mono (index : Nat) : mono.place index = index := by
  show 0 + index * 1 = index
  omega

theorem hasRoom_mono {count size : Nat} (h : count ≤ size) : mono.HasRoom count size := by
  intro index hindex
  rw [place_mono]
  exact Nat.lt_of_lt_of_le hindex h

/-- Samples that fill a buffer of their own are all that is in it. -/
theorem write_mono {buffer samples : Array Int16} (h : samples.size = buffer.size) :
    mono.write buffer samples = samples := by
  apply Array.ext_getElem?
  intro index
  by_cases hindex : index < samples.size
  · have hwritten := getElem?_write_place Nat.one_pos (hasRoom_mono (Nat.le_of_eq h)) hindex
    rwa [place_mono] at hwritten
  · rw [Array.getElem?_eq_none (by rw [size_write]; omega), Array.getElem?_eq_none (by omega)]

/-! ### Several channels -/

theorem place_channel (index channels sample : Nat) (h : 0 < channels) :
    (channel index channels).place sample = index + sample * channels := by
  show index + sample * max channels 1 = _
  rw [Nat.max_eq_left h]

/-- The lanes of two channels have no place in common. -/
theorem place_channel_ne {index other channels : Nat} (hindex : index < channels)
    (hother : other < channels) (hne : index ≠ other) (sample otherSample : Nat) :
    (channel index channels).place sample ≠ (channel other channels).place otherSample := by
  have hpositive : 0 < channels := Nat.zero_lt_of_lt hindex
  rw [place_channel _ _ _ hpositive, place_channel _ _ _ hpositive]
  intro heq
  have hmod := congrArg (· % channels) heq
  simp only [Nat.add_mul_mod_self_right, Nat.mod_eq_of_lt hindex, Nat.mod_eq_of_lt hother] at hmod
  exact hne hmod

theorem hasRoom_channel {index channels frames : Nat} (h : index < channels) :
    (channel index channels).HasRoom frames (frames * channels) := by
  intro sample hsample
  rw [place_channel _ _ _ (Nat.zero_lt_of_lt h)]
  have hrows : (sample + 1) * channels ≤ frames * channels := Nat.mul_le_mul_right _ hsample
  rw [Nat.add_mul] at hrows
  omega

end Lane

/-- A block that has room in a buffer is decoded by itself and put along its lane. -/
theorem decodeBlock_eq (raw : Bytes) {count : Nat} (codec : Codec) {buffer : Array Int16}
    {lane : Lane} (h : lane.HasRoom count buffer.size) :
    decodeBlock raw count codec buffer lane
      = (fun decoded => (lane.write buffer decoded.1, decoded.2))
        <$> decodeSamples raw count codec := by
  rw [decodeBlock]
  by_cases hcount : count = 0
  · rw [if_pos hcount, hcount, decodeSamples_zero]
    rfl
  · rw [if_neg hcount, if_pos ((Lane.fits_iff_hasRoom hcount).mpr h)]
    rfl

/-- A block is decoded by itself into a buffer that is just long enough. -/
theorem decodeBlock_mono (raw : Bytes) (count : Nat) (codec : Codec) :
    decodeBlock raw count codec (Array.replicate count 0) .mono
      = decodeSamples raw count codec := by
  rw [decodeBlock_eq raw codec (Lane.hasRoom_mono (Nat.le_of_eq Array.size_replicate.symm))]
  cases hdecoded : decodeSamples raw count codec with
  | error error => rfl
  | ok decoded =>
      have hsize : decoded.1.size = (Array.replicate count (0 : Int16)).size := by
        rw [size_of_decodeSamples hdecoded, Array.size_replicate]
      show Except.ok (Lane.mono.write _ decoded.1, decoded.2) = _
      rw [Lane.write_mono hsize]

/-- A block that has no room is not decoded. -/
theorem decodeBlock_of_not_hasRoom (raw : Bytes) {count : Nat} (codec : Codec)
    {buffer : Array Int16} {lane : Lane} (h : ¬lane.HasRoom count buffer.size) :
    decodeBlock raw count codec buffer lane = malformed lane.start (.outputFull count) := by
  have hcount : count ≠ 0 := fun hzero => h (Lane.hasRoom_iff.mpr (.inl hzero))
  rw [decodeBlock, if_neg hcount, if_neg (mt (Lane.fits_iff_hasRoom hcount).mp h)]

end ConsoleSound

import ConsoleSound.Sample.Audio
import ConsoleSound.Proofs.Sample.Blocks
/-! # Interleaved channels

Channels that are put along their lanes of one buffer, one channel after the other, are
interleaved in it (`putChannels_eq_interleave`): the lanes cover the buffer, and no two of
them meet. So decoding one channel after the other along its lane of a shared buffer is decoding
every channel by itself and interleaving them (`foldlM_lanes_eq_interleave`). A channel that is
taken out of interleaved ones is the one that went in (`channel_of_interleave`). -/

namespace ConsoleSound

/-- A buffer with channels of `channels` put along their lanes, the first of them along
lane `index`. -/
def putChannels (channels : Nat) :
    (index : Nat) → Array Int16 → List (Array Int16) → Array Int16
  | _, buffer, [] => buffer
  | index, buffer, samples :: others =>
    putChannels channels (index + 1) ((Lane.channel index channels).write buffer samples) others

theorem size_putChannels (channels index : Nat) (buffer : Array Int16)
    (samples : List (Array Int16)) :
    (putChannels channels index buffer samples).size = buffer.size := by
  induction samples generalizing index buffer with
  | nil => rfl
  | cons first others ih => rw [putChannels, ih, Lane.size_write]

/-- Later channels leave the lanes of earlier ones alone. -/
theorem getElem?_putChannels_of_lt {channels index earlier : Nat} (hearlier : earlier < index)
    {samples : List (Array Int16)} (hsamples : index + samples.length ≤ channels)
    (buffer : Array Int16) (frame : Nat) :
    (putChannels channels index buffer samples)[(Lane.channel earlier channels).place frame]?
      = buffer[(Lane.channel earlier channels).place frame]? := by
  induction samples generalizing index buffer with
  | nil => rfl
  | cons first others ih =>
      rw [List.length_cons] at hsamples
      rw [putChannels, ih (by omega) (by omega), Lane.getElem?_write_of_ne]
      intro sample _
      exact Lane.place_channel_ne (by omega) (by omega) (by omega) sample frame

/-- Every channel fills its lane. -/
theorem getElem?_putChannels {channels frames index offset : Nat} {samples : List (Array Int16)}
    (hsamples : index + samples.length ≤ channels) (hsizes : ∀ one ∈ samples, one.size = frames)
    {buffer : Array Int16} (hbuffer : buffer.size = frames * channels) {one : Array Int16}
    (hone : samples[offset]? = some one) {frame : Nat} (hframe : frame < frames) :
    (putChannels channels index buffer samples)[
        (Lane.channel (index + offset) channels).place frame]? = one[frame]? := by
  induction samples generalizing index offset buffer with
  | nil => exact nomatch hone
  | cons first others ih =>
      obtain ⟨hfirst, hothers⟩ := List.forall_mem_cons.mp hsizes
      rw [List.length_cons] at hsamples
      rw [putChannels]
      cases offset with
      | zero =>
          obtain rfl : first = one := Option.some.inj hone
          have hroom : (Lane.channel index channels).HasRoom first.size buffer.size := by
            rw [hfirst, hbuffer]
            exact Lane.hasRoom_channel (by omega)
          have hstride : 0 < (Lane.channel index channels).stride := Nat.le_max_right channels 1
          rw [Nat.add_zero index, getElem?_putChannels_of_lt (Nat.lt_succ_self index) (by omega),
            Lane.getElem?_write_place hstride hroom (by omega)]
      | succ offset =>
          have hshift : index + (offset + 1) = index + 1 + offset := by omega
          rw [hshift]
          exact ih (by omega) hothers (by rw [Lane.size_write, hbuffer]) hone

theorem size_interleave (channels : Array (Array Int16)) (frames : Nat) :
    (interleave channels frames).size = frames * channels.size := Array.size_ofFn

/-- Channels put along all the lanes of a buffer are interleaved in it. -/
theorem putChannels_eq_interleave {frames : Nat} {samples : List (Array Int16)}
    (hsizes : ∀ one ∈ samples, one.size = frames) {buffer : Array Int16}
    (hbuffer : buffer.size = frames * samples.length) :
    putChannels samples.length 0 buffer samples = interleave samples.toArray frames := by
  apply Array.ext_getElem?
  intro place
  by_cases hplace : place < frames * samples.length
  · have hchannels : 0 < samples.length := Nat.pos_of_lt_mul_left hplace
    have hindex : place % samples.length < samples.length := Nat.mod_lt _ hchannels
    have hframe : place / samples.length < frames := Nat.div_lt_of_lt_mul (by rwa [Nat.mul_comm])
    -- every place lies on the lane of its remainder
    have hlane : (Lane.channel (0 + place % samples.length) samples.length).place
        (place / samples.length) = place := by
      rw [Lane.place_channel _ _ _ hchannels, Nat.zero_add, Nat.mul_comm]
      exact Nat.mod_add_div place samples.length
    have hput := getElem?_putChannels (Nat.le_of_eq (Nat.zero_add _)) hsizes hbuffer
      (List.getElem?_eq_getElem hindex) hframe
    rw [hlane] at hput
    have hsize : samples[place % samples.length].size = frames := hsizes _ (List.getElem_mem hindex)
    rw [hput, interleave, Array.getElem?_ofFn, dif_pos (by simpa using hplace)]
    simp [hindex, hsize, hframe]
  · rw [Array.getElem?_eq_none, Array.getElem?_eq_none]
    · rw [size_interleave, List.size_toArray]
      omega
    · rw [size_putChannels, hbuffer]
      omega

/-! ## Decoding along the lanes of a buffer -/

section

variable {α : Type} {frames channels : Nat}
  (shared : Array Int16 → α → Nat → Except Error (Array Int16))
  (single : α → Nat → Except Error (Array Int16))

/-- If every channel is decoded along its lane as it is by itself, then all of them are, one after
the other. -/
theorem foldlM_lanes_eq
    (hshared : ∀ (buffer : Array Int16) (item : α) (index : Nat),
      (Lane.channel index channels).HasRoom frames buffer.size →
        shared buffer item index
          = (Lane.channel index channels).write buffer <$> single item index)
    {items : List α} {index : Nat} (hitems : index + items.length ≤ channels)
    {buffer : Array Int16} (hbuffer : buffer.size = frames * channels) :
    (items.zipIdx index).foldlM (fun buffer entry => shared buffer entry.1 entry.2) buffer
      = putChannels channels index buffer
        <$> (items.zipIdx index).mapM fun entry => single entry.1 entry.2 := by
  induction items generalizing index buffer with
  | nil => rfl
  | cons item items ih =>
      rw [List.length_cons] at hitems
      have hroom : (Lane.channel index channels).HasRoom frames buffer.size := by
        rw [hbuffer]
        exact Lane.hasRoom_channel (by omega)
      rw [List.zipIdx_cons, List.foldlM_cons, List.mapM_cons, hshared buffer item index hroom]
      cases single item index with
      | error error => rfl
      | ok samples =>
          show (items.zipIdx (index + 1)).foldlM _
            ((Lane.channel index channels).write buffer samples) = _
          rw [ih (by omega) (by rw [Lane.size_write, hbuffer])]
          cases (items.zipIdx (index + 1)).mapM fun entry => single entry.1 entry.2 with
          | error error => rfl
          | ok others => rfl

/-- Channels that are decoded along all the lanes of a buffer are decoded by themselves and
interleaved. -/
theorem foldlM_lanes_eq_interleave {items : List α}
    (hshared : ∀ (buffer : Array Int16) (item : α) (index : Nat),
      (Lane.channel index items.length).HasRoom frames buffer.size →
        shared buffer item index
          = (Lane.channel index items.length).write buffer <$> single item index)
    (hsizes : ∀ item index samples, single item index = .ok samples → samples.size = frames) :
    items.zipIdx.foldlM (fun buffer entry => shared buffer entry.1 entry.2)
        (Array.replicate (frames * items.length) 0)
      = (fun samples => interleave samples.toArray frames)
        <$> items.zipIdx.mapM fun entry => single entry.1 entry.2 := by
  rw [foldlM_lanes_eq shared single hshared (Nat.le_of_eq (Nat.zero_add _)) Array.size_replicate]
  cases hsamples : items.zipIdx.mapM fun entry => single entry.1 entry.2 with
  | error error => rfl
  | ok samples =>
      have hlength : samples.length = items.length :=
        (Checked.length_of_mapM hsamples).trans List.length_zipIdx
      have hall : ∀ one ∈ samples, one.size = frames := by
        intro one hone
        obtain ⟨entry, -, hentry⟩ := Checked.exists_of_mapM hsamples hone
        exact hsizes entry.1 entry.2 one hentry
      show Except.ok _ = Except.ok _
      rw [← hlength, putChannels_eq_interleave hall Array.size_replicate]

end

/-! ## Channels taken out again -/

/-- What a channel of interleaved ones holds is what was put in. -/
theorem channel_of_interleave {audio : Audio} {samples : List (Array Int16)} {frames : Nat}
    (hsamples : audio.samples = interleave samples.toArray frames)
    (hcount : audio.channels.toNat = samples.length) (hsizes : ∀ one ∈ samples, one.size = frames)
    {index : Nat} {one : Array Int16} (hone : samples[index]? = some one) :
    audio.channel index = one := by
  obtain ⟨hindex, rfl⟩ := List.getElem?_eq_some_iff.mp hone
  have hchannels : 0 < samples.length := Nat.zero_lt_of_lt hindex
  have hsize : samples[index].size = frames := hsizes _ (List.getElem_mem hindex)
  have hstride : audio.stride = samples.length := by
    rw [Audio.stride, hcount]
    omega
  have htotal : audio.samples.size = frames * samples.length := by
    rw [hsamples, size_interleave, List.size_toArray]
  have hframes : (audio.samples.size - index + audio.stride - 1) / audio.stride = frames := by
    rw [htotal, hstride]
    apply Nat.div_eq_of_lt_le
    · cases frames with
      | zero => omega
      | succ frames =>
          rw [Nat.succ_mul]
          omega
    · rw [Nat.succ_mul]
      omega
  apply Array.ext
  · rw [Audio.channel, Array.size_ofFn, hframes, hsize]
  · intro frame hleft hright
    have hframe : frame < frames := by omega
    have hplace : index + frame * samples.length < frames * samples.length := by
      have hrows : (frame + 1) * samples.length ≤ frames * samples.length :=
        Nat.mul_le_mul_right _ hframe
      rw [Nat.succ_mul] at hrows
      omega
    have hmod : (index + frame * samples.length) % samples.length = index := by
      rw [Nat.add_mul_mod_self_right, Nat.mod_eq_of_lt hindex]
    have hdiv : (index + frame * samples.length) / samples.length = frame := by
      rw [Nat.add_mul_div_right _ _ hchannels, Nat.div_eq_of_lt hindex, Nat.zero_add]
    simp only [Audio.channel, Array.getElem_ofFn, hstride]
    rw [Array.getD_eq_getD_getElem?, hsamples, interleave, Array.getElem?_ofFn,
      dif_pos (by simpa using hplace)]
    simp [hmod, hdiv, hindex, hright]

end ConsoleSound

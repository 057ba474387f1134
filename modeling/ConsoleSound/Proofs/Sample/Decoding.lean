import ConsoleSound.Sample.Codec
import ConsoleSound.Proofs.Checked
/-! # Sample by sample

All codecs decode in the same way: the next sample depends on the bytes and on the samples before
it (`Codec.sampleAfter?`), so a block is decoded one sample behind the other (`Codec.samples?`,
`Codec.decode?_eq`).

The bytes of a sample lie right behind those of the samples before it. For ADPCM these are a header
and one half of a byte; together the headers and the halves of `count` samples are just the first
`Adpcm.byteCount count` bytes (`Adpcm.lt_byteCount_iff`). So a block can be decoded if and only if
it has so many bytes (`Codec.isSome_samples?_iff`), and no byte behind them makes a difference
(`Codec.samples?_congr`). For PCM the samples are those that the bytes spell at their places
(`decodeSamples_pcm`). -/

namespace ConsoleSound

/-! ## The bytes of ADPCM samples -/

namespace Adpcm

/-- The byte with the correction of a sample is the last that is needed up to that sample. -/
theorem byteCount_succ (index : Nat) : byteCount (index + 1) = codePos index + 1 := by
  simp only [byteCount, codePos]
  split <;> omega

theorem byteCount_le_succ (count : Nat) : byteCount count ≤ byteCount (count + 1) := by
  rw [byteCount_succ]
  simp only [byteCount, codePos]
  split <;> omega

theorem headerPos_lt_codePos (index : Nat) : headerPos index < codePos index := by
  simp only [headerPos, codePos]
  omega

/-- The headers and the corrections of the first samples fill the first bytes. -/
theorem lt_byteCount_iff {count pos : Nat} :
    pos < byteCount count
      ↔ ∃ index, index < count ∧ (pos = headerPos index ∨ pos = codePos index) := by
  induction count with
  | zero =>
      constructor
      · intro h
        exact absurd h (Nat.not_lt_zero pos)
      · rintro ⟨index, hindex, -⟩
        exact absurd hindex (Nat.not_lt_zero index)
  | succ count ih =>
      have hnext : pos < byteCount (count + 1)
          ↔ pos < byteCount count ∨ pos = headerPos count ∨ pos = codePos count := by
        rw [byteCount_succ]
        simp only [byteCount, headerPos, codePos]
        split <;> omega
      rw [hnext, ih]
      constructor
      · rintro (⟨index, hindex, hpos⟩ | hpos)
        · exact ⟨index, Nat.lt_succ_of_lt hindex, hpos⟩
        · exact ⟨count, Nat.lt_succ_self count, hpos⟩
      · rintro ⟨index, hindex, hpos⟩
        rcases Nat.lt_succ_iff_lt_or_eq.mp hindex with hindex | rfl
        · exact .inl ⟨index, hindex, hpos⟩
        · exact .inr hpos

theorem decodeFrom?_succ (predictors : Predictors) (raw : Bytes) (count index : Nat)
    (history : History) (decoded : Array Int16) :
    decodeFrom? predictors raw (count + 1) index history decoded
      = (decodeFrom? predictors raw count index history decoded).bind fun result =>
          (sample? predictors raw (index + count) result.2).map fun sample =>
            (result.1.push sample, result.2.push sample) := by
  induction count generalizing index history decoded with
  | zero => cases hsample : sample? predictors raw index history <;> simp [decodeFrom?, hsample]
  | succ count ih =>
      rw [decodeFrom?]
      conv_rhs => rw [decodeFrom?]
      cases sample? predictors raw index history with
      | none => rfl
      | some sample =>
          show decodeFrom? predictors raw (count + 1) (index + 1) _ _ = _
          rw [ih, show index + 1 + count = index + (count + 1) by omega]

end Adpcm

namespace Codec

theorem pcmFrom?_succ (raw : Bytes) (order? : Option ByteOrder) (count index : Nat)
    (decoded : Array Int16) :
    pcmFrom? raw order? (count + 1) index decoded
      = (pcmFrom? raw order? count index decoded).bind fun decoded =>
          (pcmSample? raw (index + count) order?).map decoded.push := by
  induction count generalizing index decoded with
  | zero => cases hsample : pcmSample? raw index order? <;> simp [pcmFrom?, hsample]
  | succ count ih =>
      rw [pcmFrom?]
      conv_rhs => rw [pcmFrom?]
      cases pcmSample? raw index order? with
      | none => rfl
      | some sample =>
          show pcmFrom? raw order? (count + 1) (index + 1) _ = _
          rw [ih, show index + 1 + count = index + (count + 1) by omega]

/-! ## One sample behind the others -/

/-- The sample that some bytes hold behind earlier ones, if they reach so far. A PCM sample stands
for itself, an ADPCM sample is predicted from those before it. -/
def sampleAfter? (codec : Codec) (raw : Bytes) (earlier : List Int16) : Option Int16 :=
  match codec with
  | pcm8 => pcmSample? raw earlier.length none
  | pcm16 order => pcmSample? raw earlier.length (some order)
  | adpcm predictors history =>
    Adpcm.sample? predictors raw earlier.length (earlier.foldl Adpcm.History.push history)

/-- The history after some samples. -/
def historyAfter (codec : Codec) (samples : List Int16) : Adpcm.History :=
  match codec with
  | adpcm _ history => samples.foldl Adpcm.History.push history
  | _ => .silent

/-- The first `count` samples of some bytes, if these reach so far. -/
def samples? (codec : Codec) (raw : Bytes) : (count : Nat) → Option (List Int16)
  | 0 => some []
  | count + 1 => (codec.samples? raw count).bind fun earlier =>
    (codec.sampleAfter? raw earlier).map fun sample => earlier ++ [sample]

variable {codec : Codec} {raw : Bytes} {count : Nat} {samples : List Int16}

theorem samples?_succ_eq_some_iff :
    codec.samples? raw (count + 1) = some samples
      ↔ ∃ earlier, codec.samples? raw count = some earlier
        ∧ ∃ sample, codec.sampleAfter? raw earlier = some sample
          ∧ earlier ++ [sample] = samples := by
  simp only [samples?, Option.bind_eq_some_iff, Option.map_eq_some_iff]

theorem length_of_samples? (h : codec.samples? raw count = some samples) :
    samples.length = count := by
  induction count generalizing samples with
  | zero =>
      rw [← Option.some.inj h]
      rfl
  | succ count ih =>
      obtain ⟨earlier, hearlier, sample, -, rfl⟩ := samples?_succ_eq_some_iff.mp h
      rw [List.length_append, ih hearlier]
      rfl

/-- Every sample is the one that the bytes hold behind those before it. -/
theorem sampleAfter?_take (h : codec.samples? raw count = some samples) {index : Nat}
    (hindex : index < count) : codec.sampleAfter? raw (samples.take index) = samples[index]? := by
  induction count generalizing samples with
  | zero => exact absurd hindex (Nat.not_lt_zero index)
  | succ count ih =>
      obtain ⟨earlier, hearlier, sample, hsample, rfl⟩ := samples?_succ_eq_some_iff.mp h
      have hlength := length_of_samples? hearlier
      rcases Nat.lt_succ_iff_lt_or_eq.mp hindex with hindex | rfl
      · rw [List.take_append_of_le_length (by omega), List.getElem?_append_left (by omega)]
        exact ih hearlier hindex
      · rw [List.take_append_of_le_length (by omega), List.take_of_length_le (by omega), hsample,
          List.getElem?_append_right (by omega), hlength, Nat.sub_self]
        rfl

/-! ## Decoding a block -/

/-- The codec of PCM samples, of one byte each or of two in some order. -/
def pcm : (order? : Option ByteOrder) → Codec
  | none => pcm8
  | some order => pcm16 order

theorem sampleAfter?_pcm (order? : Option ByteOrder) (raw : Bytes) (earlier : List Int16) :
    (pcm order?).sampleAfter? raw earlier = pcmSample? raw earlier.length order? := by
  cases order? <;> rfl

theorem pcmFrom?_eq_samples? (raw : Bytes) (order? : Option ByteOrder) (count : Nat) :
    pcmFrom? raw order? count 0 #[] = ((pcm order?).samples? raw count).map List.toArray := by
  induction count with
  | zero => rfl
  | succ count ih =>
      rw [pcmFrom?_succ, ih, samples?, Nat.zero_add]
      cases hearlier : (pcm order?).samples? raw count with
      | none => rfl
      | some earlier =>
          show (pcmSample? raw count order?).map _
            = (((pcm order?).sampleAfter? raw earlier).map _).map _
          rw [sampleAfter?_pcm, length_of_samples? hearlier]
          cases pcmSample? raw count order? with
          | none => rfl
          | some sample => exact congrArg some (List.push_toArray earlier sample)

theorem decodeFrom?_eq_samples? (raw : Bytes) (predictors : Adpcm.Predictors)
    (history : Adpcm.History) (count : Nat) :
    Adpcm.decode? predictors history raw count
      = ((adpcm predictors history).samples? raw count).map fun samples =>
          (samples.toArray, samples.foldl Adpcm.History.push history) := by
  induction count with
  | zero => rfl
  | succ count ih =>
      rw [Adpcm.decode?, Adpcm.decodeFrom?_succ, ← Adpcm.decode?, ih, samples?, Nat.zero_add]
      cases hearlier : (adpcm predictors history).samples? raw count with
      | none => rfl
      | some earlier =>
          have hsample : (adpcm predictors history).sampleAfter? raw earlier
              = Adpcm.sample? predictors raw count (earlier.foldl Adpcm.History.push history) := by
            rw [← length_of_samples? hearlier]
            rfl
          show (Adpcm.sample? predictors raw count _).map _
            = (((adpcm predictors history).sampleAfter? raw earlier).map _).map _
          rw [hsample]
          cases Adpcm.sample? predictors raw count (earlier.foldl Adpcm.History.push history) with
          | none => rfl
          | some sample =>
              show some (earlier.toArray.push sample, _)
                = some ((earlier ++ [sample]).toArray, (earlier ++ [sample]).foldl _ history)
              rw [List.push_toArray, List.foldl_append]
              rfl

/-- A block is decoded sample by sample. -/
theorem decode?_eq (codec : Codec) (raw : Bytes) (count : Nat) :
    codec.decode? raw count
      = (codec.samples? raw count).map fun samples =>
          (samples.toArray, codec.historyAfter samples) := by
  cases codec with
  | pcm8 =>
      rw [decode?, pcmFrom?_eq_samples? raw none, Option.map_map]
      rfl
  | pcm16 order =>
      rw [decode?, pcmFrom?_eq_samples? raw (some order), Option.map_map]
      rfl
  | adpcm predictors history => exact decodeFrom?_eq_samples? raw predictors history count

/-! ## The bytes of a block -/

theorem byteCount_le_succ (codec : Codec) (count : Nat) :
    codec.byteCount count ≤ codec.byteCount (count + 1) := by
  cases codec with
  | pcm8 => exact Nat.le_succ count
  | pcm16 order => exact Nat.mul_le_mul_right 2 (Nat.le_succ count)
  | adpcm predictors history => exact Adpcm.byteCount_le_succ count

/-- A sample is there exactly if its bytes are. -/
theorem isSome_sampleAfter?_iff (codec : Codec) (raw : Bytes) (earlier : List Int16) :
    (codec.sampleAfter? raw earlier).isSome ↔ codec.byteCount (earlier.length + 1) ≤ raw.size := by
  cases codec with
  | pcm8 =>
      show (Option.map _ raw[earlier.length]?).isSome ↔ earlier.length < raw.size
      rw [Option.isSome_map, isSome_getElem?]
  | pcm16 order =>
      show (pcmSample? raw earlier.length (some order)).isSome ↔ (earlier.length + 1) * 2 ≤ raw.size
      generalize earlier.length = index
      by_cases hsecond : 2 * index + 1 < raw.size
      · have hfirst : 2 * index < raw.size := by omega
        simp only [pcmSample?, Array.getElem?_eq_getElem hfirst, Array.getElem?_eq_getElem hsecond]
        exact ⟨fun _ => by omega, fun _ => rfl⟩
      · have hnone : raw[2 * index + 1]? = none := Array.getElem?_eq_none (by omega)
        have hsample : pcmSample? raw index (some order) = none := by
          rw [pcmSample?, hnone]
          cases raw[2 * index]? <;> rfl
        rw [hsample]
        exact ⟨fun h => absurd h Bool.false_ne_true, fun h => by omega⟩
  | adpcm predictors history =>
      show (Adpcm.sample? predictors raw earlier.length _).isSome
        ↔ Adpcm.byteCount (earlier.length + 1) ≤ raw.size
      generalize earlier.length = index
      rw [Adpcm.byteCount_succ]
      have hheader := Adpcm.headerPos_lt_codePos index
      by_cases hcode : Adpcm.codePos index < raw.size
      · have hheader' : Adpcm.headerPos index < raw.size := by omega
        simp only [Adpcm.sample?, Array.getElem?_eq_getElem hheader',
          Array.getElem?_eq_getElem hcode]
        exact ⟨fun _ => hcode, fun _ => rfl⟩
      · have hnone : raw[Adpcm.codePos index]? = none := Array.getElem?_eq_none (by omega)
        have hsample (before : Adpcm.History) :
            Adpcm.sample? predictors raw index before = none := by
          rw [Adpcm.sample?, hnone]
          cases raw[Adpcm.headerPos index]? <;> rfl
        rw [hsample]
        exact ⟨fun h => absurd h Bool.false_ne_true, fun h => absurd h hcode⟩

theorem isSome_samples?_iff (codec : Codec) (raw : Bytes) (count : Nat) :
    (codec.samples? raw count).isSome ↔ codec.byteCount count ≤ raw.size := by
  induction count with
  | zero =>
      have hzero : codec.byteCount 0 = 0 := by cases codec <;> rfl
      rw [hzero]
      exact ⟨fun _ => Nat.zero_le _, fun _ => rfl⟩
  | succ count ih =>
      constructor
      · intro h
        obtain ⟨samples, hsamples⟩ := Option.isSome_iff_exists.mp h
        obtain ⟨earlier, hearlier, sample, hsample, -⟩ := samples?_succ_eq_some_iff.mp hsamples
        rw [← length_of_samples? hearlier]
        exact (isSome_sampleAfter?_iff codec raw earlier).mp (by rw [hsample]; rfl)
      · intro h
        have hcount := Nat.le_trans (codec.byteCount_le_succ count) h
        obtain ⟨earlier, hearlier⟩ := Option.isSome_iff_exists.mp (ih.mpr hcount)
        rw [← length_of_samples? hearlier] at h
        obtain ⟨sample, hsample⟩ :=
          Option.isSome_iff_exists.mp ((isSome_sampleAfter?_iff codec raw earlier).mpr h)
        rw [samples?_succ_eq_some_iff.mpr ⟨earlier, hearlier, sample, hsample, rfl⟩]
        rfl

/-- A sample depends on no byte behind its own. -/
theorem sampleAfter?_congr {other : Bytes} {earlier : List Int16}
    (h : ∀ pos, pos < codec.byteCount (earlier.length + 1) → other[pos]? = raw[pos]?) :
    codec.sampleAfter? other earlier = codec.sampleAfter? raw earlier := by
  cases codec with
  | pcm8 =>
      show Option.map _ other[earlier.length]? = Option.map _ raw[earlier.length]?
      rw [h earlier.length (Nat.lt_succ_self _)]
  | pcm16 order =>
      have h' : ∀ pos, pos < (earlier.length + 1) * 2 → other[pos]? = raw[pos]? := h
      show pcmSample? other earlier.length (some order) = pcmSample? raw earlier.length (some order)
      rw [pcmSample?, pcmSample?, h' (2 * earlier.length) (by omega),
        h' (2 * earlier.length + 1) (by omega)]
  | adpcm predictors history =>
      have h' : ∀ pos, pos < Adpcm.byteCount (earlier.length + 1) → other[pos]? = raw[pos]? := h
      rw [Adpcm.byteCount_succ] at h'
      have hheader := Adpcm.headerPos_lt_codePos earlier.length
      show Adpcm.sample? predictors other earlier.length _ = Adpcm.sample? predictors raw _ _
      rw [Adpcm.sample?, Adpcm.sample?, h' (Adpcm.headerPos earlier.length) (by omega),
        h' (Adpcm.codePos earlier.length) (by omega)]

theorem samples?_congr {other : Bytes}
    (h : ∀ pos, pos < codec.byteCount count → other[pos]? = raw[pos]?) :
    codec.samples? other count = codec.samples? raw count := by
  induction count with
  | zero => rfl
  | succ count ih =>
      have hearlier := ih fun pos hpos =>
        h pos (Nat.lt_of_lt_of_le hpos (codec.byteCount_le_succ count))
      rw [samples?, samples?, hearlier]
      cases hcase : codec.samples? raw count with
      | none => rfl
      | some earlier =>
          show (codec.sampleAfter? other earlier).map _ = (codec.sampleAfter? raw earlier).map _
          rw [sampleAfter?_congr]
          rwa [length_of_samples? hcase]

end Codec

/-- Decoding gives the samples of a block, or reports the bytes that it lacks. -/
theorem decodeSamples_eq (raw : Bytes) (count : Nat) (codec : Codec) :
    decodeSamples raw count codec
      = match codec.samples? raw count with
        | some samples => .ok (samples.toArray, codec.historyAfter samples)
        | none => malformed raw.size (.shortSamples (codec.byteCount count)) := by
  rw [decodeSamples, codec.decode?_eq]
  cases codec.samples? raw count <;> rfl

theorem decodeSamples_eq_ok_iff {raw : Bytes} {count : Nat} {codec : Codec}
    {decoded : Array Int16} {history : Adpcm.History} :
    decodeSamples raw count codec = .ok (decoded, history)
      ↔ ∃ samples, codec.samples? raw count = some samples ∧ samples.toArray = decoded
        ∧ codec.historyAfter samples = history := by
  rw [decodeSamples_eq]
  cases codec.samples? raw count with
  | none =>
      constructor
      · intro h
        cases h
      · rintro ⟨samples, hsamples, -⟩
        cases hsamples
  | some samples =>
      constructor
      · intro h
        obtain ⟨hdecoded, hhistory⟩ := Prod.mk.inj (Except.ok.inj h)
        exact ⟨samples, rfl, hdecoded, hhistory⟩
      · rintro ⟨other, hother, rfl, rfl⟩
        rw [Option.some.inj hother]

theorem size_of_decodeSamples {raw : Bytes} {count : Nat} {codec : Codec} {decoded : Array Int16}
    {history : Adpcm.History} (h : decodeSamples raw count codec = .ok (decoded, history)) :
    decoded.size = count := by
  obtain ⟨samples, hsamples, rfl, -⟩ := decodeSamples_eq_ok_iff.mp h
  exact Codec.length_of_samples? hsamples

/-- Samples are decoded exactly if there are bytes enough for them. -/
theorem exists_decodeSamples_iff {raw : Bytes} {count : Nat} {codec : Codec} :
    (∃ decoded, decodeSamples raw count codec = .ok decoded)
      ↔ codec.byteCount count ≤ raw.size := by
  rw [← codec.isSome_samples?_iff, decodeSamples_eq]
  cases codec.samples? raw count with
  | none => exact ⟨fun ⟨_, h⟩ => (nomatch h), fun h => (nomatch h)⟩
  | some samples => exact ⟨fun _ => rfl, fun _ => ⟨_, rfl⟩⟩

/-- PCM samples that the bytes hold are decoded to what the bytes spell. -/
theorem decodeSamples_pcm {raw : Bytes} {order? : Option ByteOrder} {count : Nat}
    (h : (Codec.pcm order?).byteCount count ≤ raw.size) :
    ∃ samples : Array Int16, decodeSamples raw count (.pcm order?) = .ok (samples, .silent)
      ∧ samples.toList.map some = (List.range count).map fun index =>
        Codec.pcmSample? raw index order? := by
  obtain ⟨samples, hsamples⟩ :=
    Option.isSome_iff_exists.mp ((Codec.isSome_samples?_iff _ raw count).mpr h)
  have hlength := Codec.length_of_samples? hsamples
  have hhistory : (Codec.pcm order?).historyAfter samples = .silent := by
    cases order? <;> rfl
  refine ⟨samples.toArray, decodeSamples_eq_ok_iff.mpr ⟨samples, hsamples, rfl, hhistory⟩, ?_⟩
  refine List.ext_getElem (by simp [hlength]) fun index hindex _ => ?_
  have hindex : index < samples.length := by simpa using hindex
  have hsample := Codec.sampleAfter?_take hsamples (hlength ▸ hindex)
  rw [Codec.sampleAfter?_pcm, List.length_take_of_le (Nat.le_of_lt hindex),
    List.getElem?_eq_getElem hindex] at hsample
  simp [hsample]

/-- Nothing is asked of the bytes when there are no samples. -/
theorem decodeSamples_zero (raw : Bytes) (codec : Codec) :
    decodeSamples raw 0 codec = .ok (#[], codec.history) := by
  cases codec <;> rfl

end ConsoleSound

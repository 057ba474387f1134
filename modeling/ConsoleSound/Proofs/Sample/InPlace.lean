import ConsoleSound.Proofs.Sample.Blocks
/-! # Decoding in place

`decodeBlock` looks up every byte at the place that it has in the block, and puts the samples along
their lane when all of them are there. A decoder that works in place asks at the start whether
there is room for the samples and whether there are bytes enough; then it goes through the bytes
with a cursor and stores each sample before it comes to the next one. `decodeInPlace?` is such a
decoder, and it has no answer if it ever looks for a byte or for a place that is not there.

It always has an answer, and the same as `decodeBlock` (`decodeInPlace?_eq`). For PCM the bytes of
a sample are counted off from its index. For ADPCM the cursor moves on by a header in front of
every fourteenth sample and by a byte behind every second one; `Adpcm.Cursor.before` tells where it
stands, and `Adpcm.Cursor.next?_before` that it stands there again one sample later. -/

namespace ConsoleSound

/-- A buffer with a sample in a place; none if it has no such place. -/
def store? (buffer : Array Int16) (place : Nat) (sample : Int16) : Option (Array Int16) :=
  if place < buffer.size then some (buffer.setIfInBounds place sample) else none

/-- A buffer with `count` samples stored along a lane, from sample `index` on, each as soon as the
one before it is there; `next?` makes them from what it carries along. -/
def Lane.fill? {σ : Type} (lane : Lane) (next? : Nat → σ → Option (Int16 × σ)) :
    (count index : Nat) → σ → Array Int16 → Option (Array Int16 × σ)
  | 0, _, state, buffer => some (buffer, state)
  | count + 1, index, state, buffer => do
    let (sample, state) ← next? index state
    let buffer ← store? buffer (lane.place index) sample
    lane.fill? next? count (index + 1) state buffer

/-- A buffer with `count` words in places that follow one another, all stored at once. -/
def storeRow? (raw : Bytes) (order : ByteOrder) (count start : Nat) (buffer : Array Int16) :
    Option (Array Int16) :=
  if start + count ≤ buffer.size then
    (Codec.pcmFrom? raw (some order) count 0 #[]).map fun words =>
      buffer.extract 0 start ++ words ++ buffer.extract (start + count) buffer.size
  else none

namespace Adpcm

/-- What decoding ADPCM carries along: the position of the next byte, the scale and the predictor
of the frame, and the last samples. -/
structure Cursor where
  pos : Nat
  scale : Int32
  weights : Predictor
  history : History

namespace Cursor

/-- The cursor before the first frame. -/
def start (history : History) : Cursor := ⟨0, 1, ⟨0, 0⟩, history⟩

/-- Reads the header of a frame, if one starts with sample `index`. -/
def enter? (predictors : Predictors) (raw : Bytes) (index : Nat) (cursor : Cursor) :
    Option Cursor :=
  if index % 14 = 0 then
    (raw[cursor.pos]?).map fun header =>
      { cursor with
        pos := cursor.pos + 1
        scale := Adpcm.scale header
        weights := predictor predictors header }
  else some cursor

/-- Sample `index`, and the cursor behind it. A byte holds two samples. -/
def next? (predictors : Predictors) (raw : Bytes) (index : Nat) (cursor : Cursor) :
    Option (Int16 × Cursor) := do
  let cursor ← cursor.enter? predictors raw index
  let byte ← raw[cursor.pos]?
  let sample := predict cursor.weights cursor.scale (correction index byte) cursor.history
  return (sample,
    { cursor with
      pos := if index % 2 = 0 then cursor.pos else cursor.pos + 1
      history := cursor.history.push sample })

end Cursor

end Adpcm

/-- A PCM sample, which needs nothing but its index. -/
def pcmNext? (raw : Bytes) (order? : Option ByteOrder) (index : Nat) (_ : Unit) :
    Option (Int16 × Unit) :=
  (Codec.pcmSample? raw index order?).map fun sample => (sample, ())

/-- What comes of decoding a block in place, and the buffer that is left; none if a byte or a place
is looked for that is not there. -/
def decodeInPlace? (raw : Bytes) (count : Nat) (codec : Codec) (buffer : Array Int16)
    (lane : Lane) : Option (Except Error Adpcm.History × Array Int16) :=
  if count = 0 then some (.ok codec.history, buffer)
  else if lane.fits count buffer.size = false then
    some (malformed lane.start (.outputFull count), buffer)
  else if raw.size < codec.byteCount count then
    some (malformed raw.size (.shortSamples (codec.byteCount count)), buffer)
  else match codec with
    | .pcm8 =>
      (lane.fill? (pcmNext? raw none) count 0 () buffer).map fun (buffer, _) =>
        (.ok .silent, buffer)
    | .pcm16 order =>
      if lane.stride = 1 then
        (storeRow? raw order count lane.start buffer).map fun buffer => (.ok .silent, buffer)
      else
        (lane.fill? (pcmNext? raw (some order)) count 0 () buffer).map fun (buffer, _) =>
          (.ok .silent, buffer)
    | .adpcm predictors history =>
      (lane.fill? (Adpcm.Cursor.next? predictors raw) count 0 (.start history) buffer).map
        fun (buffer, cursor) => (.ok cursor.history, buffer)

/-! ## Storing samples -/

namespace Lane

/-- Samples that are made one after the other are stored like samples that are all there. -/
theorem fill?_eq {σ : Type} {lane : Lane} {next? : Nat → σ → Option (Int16 × σ)} (state : Nat → σ)
    {samples : List Int16} {index : Nat}
    (hnext : ∀ offset sample, samples[offset]? = some sample →
      next? (index + offset) (state (index + offset))
        = some (sample, state (index + offset + 1)))
    {buffer : Array Int16}
    (hroom : ∀ offset, offset < samples.length → lane.place (index + offset) < buffer.size) :
    lane.fill? next? samples.length index (state index) buffer
      = some (lane.writeFrom buffer index samples, state (index + samples.length)) := by
  induction samples generalizing index buffer with
  | nil => rfl
  | cons sample samples ih =>
      have hfirst : next? index (state index) = some (sample, state (index + 1)) :=
        hnext 0 sample rfl
      have hplace : lane.place index < buffer.size := hroom 0 (Nat.zero_lt_succ _)
      have hrest : lane.fill? next? samples.length (index + 1) (state (index + 1))
          (buffer.setIfInBounds (lane.place index) sample)
          = some (lane.writeFrom (buffer.setIfInBounds (lane.place index) sample) (index + 1)
            samples, state (index + 1 + samples.length)) := by
        refine ih (fun offset later hlater => ?_) (fun offset hoffset => ?_)
        · have hstep := hnext (offset + 1) later hlater
          rwa [show index + (offset + 1) = index + 1 + offset by omega] at hstep
        · have hlater := hroom (offset + 1) (Nat.succ_lt_succ hoffset)
          rw [Array.size_setIfInBounds]
          rwa [show index + (offset + 1) = index + 1 + offset by omega] at hlater
      rw [List.length_cons, fill?, hfirst]
      show store? buffer (lane.place index) sample >>= _ = _
      rw [store?, if_pos hplace]
      show lane.fill? next? samples.length (index + 1) (state (index + 1)) _ = _
      rw [hrest, writeFrom, show index + 1 + samples.length = index + (samples.length + 1) by omega]

theorem fill?_of_hasRoom {σ : Type} {lane : Lane} {next? : Nat → σ → Option (Int16 × σ)}
    (state : Nat → σ) {count : Nat} {buffer : Array Int16} (hroom : lane.HasRoom count buffer.size)
    {samples : List Int16} (hlength : samples.length = count)
    (hnext : ∀ index sample, samples[index]? = some sample →
      next? index (state index) = some (sample, state (index + 1))) :
    lane.fill? next? count 0 (state 0) buffer
      = some (lane.writeFrom buffer 0 samples, state count) := by
  rw [← hlength] at hroom ⊢
  rw [@fill?_eq σ lane next? state samples 0, Nat.zero_add]
  · intro index sample hsample
    rw [Nat.zero_add]
    exact hnext index sample hsample
  · intro index hindex
    rw [Nat.zero_add]
    exact hroom index hindex

/-- A row of words replaces what is in its places. -/
theorem write_of_stride_eq_one {lane : Lane} (hstride : lane.stride = 1)
    (buffer samples : Array Int16) (hroom : lane.start + samples.size ≤ buffer.size) :
    lane.write buffer samples
      = buffer.extract 0 lane.start ++ samples
        ++ buffer.extract (lane.start + samples.size) buffer.size := by
  have hplace (index : Nat) : lane.place index = lane.start + index := by
    rw [place, hstride, Nat.mul_one]
  have hall : lane.HasRoom samples.size buffer.size := by
    intro index hindex
    rw [hplace]
    omega
  have hfront : (buffer.extract 0 lane.start).size = lane.start := by
    rw [Array.size_extract]
    omega
  apply Array.ext_getElem?
  intro place
  by_cases hbefore : place < lane.start
  · rw [getElem?_write_of_ne fun index _ => by rw [hplace]; omega]
    rw [Array.getElem?_append_left (by rw [Array.size_append]; omega),
      Array.getElem?_append_left (by omega), Array.getElem?_extract, if_pos (by omega),
      Nat.zero_add]
  · obtain ⟨index, rfl⟩ := Nat.exists_eq_add_of_le (Nat.not_lt.mp hbefore)
    by_cases hindex : index < samples.size
    · have hwritten := getElem?_write_place (by omega) hall hindex
      rw [hplace] at hwritten
      rw [hwritten, Array.getElem?_append_left (by rw [Array.size_append]; omega),
        Array.getElem?_append_right (by omega), hfront, Nat.add_sub_cancel_left]
    · rw [getElem?_write_of_ne fun other _ => by rw [hplace]; omega]
      rw [Array.getElem?_append_right (by rw [Array.size_append]; omega), Array.size_append, hfront,
        Array.getElem?_extract]
      split
      · rw [show lane.start + samples.size + (lane.start + index - (lane.start + samples.size))
          = lane.start + index by omega]
      · exact Array.getElem?_eq_none (by omega)

end Lane

/-! ## The cursor -/

namespace Adpcm

/-- The position of the next byte before sample `index`. -/
def nextPos (index : Nat) : Nat := if index % 14 = 0 then headerPos index else codePos index

theorem nextPos_succ (index : Nat) :
    nextPos (index + 1) = if index % 2 = 0 then codePos index else codePos index + 1 := by
  simp only [nextPos, headerPos, codePos]
  split <;> split <;> omega

theorem sample?_eq_some_iff {predictors : Predictors} {raw : Bytes} {index : Nat}
    {history : History} {sample : Int16} :
    sample? predictors raw index history = some sample
      ↔ ∃ header byte, raw[headerPos index]? = some header ∧ raw[codePos index]? = some byte
        ∧ predict (predictor predictors header) (scale header) (correction index byte) history
          = sample := by
  rw [sample?]
  cases raw[headerPos index]? with
  | none => simp
  | some header =>
      cases raw[codePos index]? with
      | none => simp
      | some byte =>
          constructor
          · intro h
            exact ⟨header, byte, rfl, rfl, Option.some.inj h⟩
          · rintro ⟨header', byte', hheader, hbyte, rfl⟩
            rw [Option.some.inj hheader, Option.some.inj hbyte]
            rfl

namespace Cursor

/-- The cursor before sample `index`, if the samples before are known: scale and predictor are
still those of the sample before. -/
def before (predictors : Predictors) (raw : Bytes) (history : History) (samples : List Int16) :
    (index : Nat) → Cursor
  | 0 => start history
  | index + 1 =>
    { pos := nextPos (index + 1)
      scale := Adpcm.scale (raw.getD (headerPos index) 0)
      weights := predictor predictors (raw.getD (headerPos index) 0)
      history := (samples.take (index + 1)).foldl History.push history }

variable {predictors : Predictors} {raw : Bytes} {history : History} {samples : List Int16}
  {index : Nat}

theorem pos_before : (before predictors raw history samples index).pos = nextPos index := by
  cases index <;> rfl

theorem history_before : (before predictors raw history samples index).history
    = (samples.take index).foldl History.push history := by
  cases index <;> rfl

/-- Behind the header of the frame, the cursor is at the byte of the sample. -/
theorem enter?_before {header : UInt8} (hheader : raw[headerPos index]? = some header) :
    (before predictors raw history samples index).enter? predictors raw index
      = some { pos := codePos index
               scale := Adpcm.scale header
               weights := predictor predictors header
               history := (samples.take index).foldl History.push history } := by
  rw [enter?, ← @history_before predictors raw]
  split
  · next hframe =>
      have hpos : (before predictors raw history samples index).pos = headerPos index := by
        rw [pos_before, nextPos, if_pos hframe]
      have hcode : headerPos index + 1 = codePos index := by
        simp only [headerPos, codePos]
        omega
      rw [hpos, hheader, Option.map_some, hcode]
  · next hinside =>
      cases index with
      | zero => exact absurd rfl hinside
      | succ index =>
          -- the sample before belongs to the same frame
          have hsame : headerPos index = headerPos (index + 1) := by
            simp only [headerPos]
            omega
          have hbyte : raw.getD (headerPos index) 0 = header := by
            rw [hsame, Array.getD_eq_getD_getElem?, hheader]
            rfl
          have hpos : nextPos (index + 1) = codePos (index + 1) := if_neg hinside
          rw [before, hbyte, hpos]

/-- From sample to sample the cursor stands where the next byte is. -/
theorem next?_before {count : Nat}
    (hsamples : (Codec.adpcm predictors history).samples? raw count = some samples)
    {sample : Int16} (hsample : samples[index]? = some sample) :
    (before predictors raw history samples index).next? predictors raw index
      = some (sample, before predictors raw history samples (index + 1)) := by
  have hlength := Codec.length_of_samples? hsamples
  have hindex : index < samples.length := (List.getElem?_eq_some_iff.mp hsample).1
  have htake : (samples.take index).length = index := List.length_take_of_le (Nat.le_of_lt hindex)
  have hdecoded := Codec.sampleAfter?_take hsamples (hlength ▸ hindex)
  rw [hsample] at hdecoded
  obtain ⟨header, byte, hheader, hbyte, hpredict⟩ := sample?_eq_some_iff.mp hdecoded
  rw [htake] at hheader hbyte hpredict
  have hhistory : (samples.take (index + 1)).foldl History.push history
      = ((samples.take index).foldl History.push history).push sample := by
    rw [List.take_add_one, hsample, List.foldl_append]
    rfl
  have hgetD : raw.getD (headerPos index) 0 = header := by
    rw [Array.getD_eq_getD_getElem?, hheader]
    rfl
  rw [next?, enter?_before hheader]
  show raw[codePos index]? >>= _ = _
  rw [hbyte, before, hgetD, nextPos_succ, hhistory, ← hpredict]
  rfl

end Cursor

end Adpcm

/-! ## Decoding -/

/-- The samples of a block are stored along a lane that has room. -/
theorem decodeBlock_eq_of_samples? {raw : Bytes} {count : Nat} {codec : Codec}
    {buffer : Array Int16} {lane : Lane} (hroom : lane.HasRoom count buffer.size)
    {samples : List Int16} (hsamples : codec.samples? raw count = some samples) :
    decodeBlock raw count codec buffer lane
      = .ok (lane.writeFrom buffer 0 samples, codec.historyAfter samples) := by
  rw [decodeBlock_eq raw codec hroom, decodeSamples_eq, hsamples]
  rfl

theorem fill?_pcm {raw : Bytes} (order? : Option ByteOrder) {count : Nat} {buffer : Array Int16}
    {lane : Lane} (hroom : lane.HasRoom count buffer.size) {samples : List Int16}
    (hsamples : (Codec.pcm order?).samples? raw count = some samples) :
    lane.fill? (pcmNext? raw order?) count 0 () buffer
      = some (lane.writeFrom buffer 0 samples, ()) := by
  have hlength := Codec.length_of_samples? hsamples
  refine Lane.fill?_of_hasRoom (fun _ => ()) hroom hlength fun index sample hsample => ?_
  have hindex : index < samples.length := (List.getElem?_eq_some_iff.mp hsample).1
  have hdecoded := Codec.sampleAfter?_take hsamples (hlength ▸ hindex)
  rw [Codec.sampleAfter?_pcm, List.length_take_of_le (Nat.le_of_lt hindex), hsample] at hdecoded
  rw [pcmNext?, hdecoded]
  rfl

theorem fill?_adpcm {raw : Bytes} {predictors : Adpcm.Predictors} {history : Adpcm.History}
    {count : Nat} {buffer : Array Int16} {lane : Lane} (hroom : lane.HasRoom count buffer.size)
    {samples : List Int16}
    (hsamples : (Codec.adpcm predictors history).samples? raw count = some samples) :
    lane.fill? (Adpcm.Cursor.next? predictors raw) count 0 (.start history) buffer
      = some (lane.writeFrom buffer 0 samples,
        Adpcm.Cursor.before predictors raw history samples count) :=
  Lane.fill?_of_hasRoom (Adpcm.Cursor.before predictors raw history samples) hroom
    (Codec.length_of_samples? hsamples)
    fun _ _ hsample => Adpcm.Cursor.next?_before hsamples hsample

theorem storeRow?_eq {raw : Bytes} {order : ByteOrder} {count : Nat} {buffer : Array Int16}
    {lane : Lane} (hstride : lane.stride = 1) (hroom : lane.HasRoom count buffer.size)
    (hcount : count ≠ 0) {samples : List Int16}
    (hsamples : (Codec.pcm16 order).samples? raw count = some samples) :
    storeRow? raw order count lane.start buffer = some (lane.writeFrom buffer 0 samples) := by
  have hlength : samples.toArray.size = count := Codec.length_of_samples? hsamples
  have hlast := hroom (count - 1) (by omega)
  rw [Lane.place, hstride, Nat.mul_one] at hlast
  have hrow : lane.start + count ≤ buffer.size := by omega
  have hwords : Codec.pcmFrom? raw (some order) count 0 #[] = some samples.toArray := by
    rw [Codec.pcmFrom?_eq_samples?, Codec.pcm, hsamples]
    rfl
  have hwritten := Lane.write_of_stride_eq_one hstride buffer samples.toArray (by omega)
  rw [storeRow?, if_pos hrow, hwords, Option.map_some, ← hlength, ← hwritten]
  rfl

/-- Decoding in place never looks for what is not there. It does what decoding apart does, and if
that fails, it leaves the buffer as it is. -/
theorem decodeInPlace?_eq (raw : Bytes) (count : Nat) (codec : Codec) (buffer : Array Int16)
    (lane : Lane) :
    decodeInPlace? raw count codec buffer lane
      = some (match decodeBlock raw count codec buffer lane with
        | .ok (out, history) => (.ok history, out)
        | .error error => (.error error, buffer)) := by
  unfold decodeInPlace?
  split
  · next hcount => rw [decodeBlock, if_pos hcount]
  · next hcount =>
      split
      · next hfits =>
          have hroom : ¬lane.HasRoom count buffer.size := fun hroom =>
            absurd (hfits.symm.trans ((Lane.fits_iff_hasRoom hcount).mpr hroom)) Bool.false_ne_true
          rw [decodeBlock_of_not_hasRoom raw codec hroom]
          rfl
      · next hfits =>
          have hroom : lane.HasRoom count buffer.size :=
            (Lane.fits_iff_hasRoom hcount).mp (eq_true_of_ne_false hfits)
          split
          · next hshort =>
              have hnone : codec.samples? raw count = none := by
                rw [← Option.not_isSome_iff_eq_none, codec.isSome_samples?_iff]
                omega
              rw [decodeBlock_eq raw codec hroom, decodeSamples_eq, hnone]
              rfl
          · next hbytes =>
              obtain ⟨samples, hsamples⟩ := Option.isSome_iff_exists.mp
                ((codec.isSome_samples?_iff raw count).mpr (Nat.not_lt.mp hbytes))
              rw [decodeBlock_eq_of_samples? hroom hsamples]
              cases codec with
              | pcm8 =>
                  show Option.map _ (lane.fill? (pcmNext? raw none) count 0 () buffer) = _
                  rw [fill?_pcm none hroom hsamples]
                  rfl
              | pcm16 order =>
                  dsimp only
                  split
                  · next hstride =>
                      rw [storeRow?_eq hstride hroom hcount hsamples]
                      rfl
                  · rw [fill?_pcm (some order) hroom hsamples]
                    rfl
              | adpcm predictors history =>
                  have hhistory : (Adpcm.Cursor.before predictors raw history samples count).history
                      = (Codec.adpcm predictors history).historyAfter samples := by
                    rw [Adpcm.Cursor.history_before,
                      List.take_of_length_le (Nat.le_of_eq (Codec.length_of_samples? hsamples))]
                    rfl
                  show Option.map _ (lane.fill? _ count 0 _ buffer) = _
                  rw [fill?_adpcm hroom hsamples, Option.map_some]
                  show some (Except.ok (Adpcm.Cursor.before _ _ _ _ _).history, _) = _
                  rw [hhistory]

/-! ## Blocks and lanes -/

section

variable {raw : Bytes} {count : Nat} {codec : Codec} {buffer : Array Int16} {lane : Lane}

/-- A block is decoded exactly if there is room for its samples and bytes enough for them. -/
theorem decodeBlock_eq_ok_iff {out : Array Int16} {history : Adpcm.History} :
    decodeBlock raw count codec buffer lane = .ok (out, history)
      ↔ lane.HasRoom count buffer.size ∧ ∃ samples, codec.samples? raw count = some samples
        ∧ lane.writeFrom buffer 0 samples = out ∧ codec.historyAfter samples = history := by
  by_cases hroom : lane.HasRoom count buffer.size
  · constructor
    · intro h
      cases hsamples : codec.samples? raw count with
      | none =>
          rw [decodeBlock_eq raw codec hroom, decodeSamples_eq, hsamples] at h
          cases h
      | some samples =>
          rw [decodeBlock_eq_of_samples? hroom hsamples] at h
          obtain ⟨hout, hhistory⟩ := Prod.mk.inj (Except.ok.inj h)
          exact ⟨hroom, samples, rfl, hout, hhistory⟩
    · rintro ⟨-, samples, hsamples, rfl, rfl⟩
      exact decodeBlock_eq_of_samples? hroom hsamples
  · refine ⟨fun h => ?_, fun h => absurd h.1 hroom⟩
    rw [decodeBlock_of_not_hasRoom raw codec hroom] at h
    cases h

theorem exists_decodeBlock_eq_ok_iff :
    (∃ decoded, decodeBlock raw count codec buffer lane = .ok decoded)
      ↔ lane.HasRoom count buffer.size ∧ codec.byteCount count ≤ raw.size := by
  rw [← codec.isSome_samples?_iff, Option.isSome_iff_exists]
  constructor
  · rintro ⟨⟨out, history⟩, h⟩
    obtain ⟨hroom, samples, hsamples, -, -⟩ := decodeBlock_eq_ok_iff.mp h
    exact ⟨hroom, samples, hsamples⟩
  · rintro ⟨hroom, samples, hsamples⟩
    exact ⟨_, decodeBlock_eq_of_samples? hroom hsamples⟩

theorem exists_decodeBlock_eq_error_iff :
    (∃ error, decodeBlock raw count codec buffer lane = .error error)
      ↔ 0 < count
        ∧ (buffer.size ≤ lane.place (count - 1) ∨ raw.size < codec.byteCount count) := by
  have hnone : (∃ error, decodeBlock raw count codec buffer lane = .error error)
      ↔ ¬∃ decoded, decodeBlock raw count codec buffer lane = .ok decoded := by
    cases decodeBlock raw count codec buffer lane with
    | ok decoded => simp
    | error error => simp
  have hempty : count = 0 → codec.byteCount count = 0 := by
    rintro rfl
    cases codec <;> rfl
  rw [hnone, exists_decodeBlock_eq_ok_iff, Lane.hasRoom_iff]
  omega

/-- Decoding a block fills its lane and leaves the rest of the buffer alone. In place it never looks
for a byte or a place that is not there, and what fails leaves the buffer as it is; it fails exactly
if the lane or the bytes are too short. Along whatever lane, by itself or in a row, the samples are
those that the bytes hold one behind the other, and no byte behind these is looked at: those of
ADPCM are the headers and the corrections of the samples, and nothing else. -/
theorem decodeBlock_fillsLane (raw : Bytes) (count : Nat) (codec : Codec) (buffer : Array Int16)
    (lane : Lane) (hstride : 1 ≤ lane.stride) :
    decodeInPlace? raw count codec buffer lane
        = some (match decodeBlock raw count codec buffer lane with
          | .ok (out, history) => (.ok history, out)
          | .error error => (.error error, buffer))
    ∧ (∀ out history, decodeBlock raw count codec buffer lane = .ok (out, history) →
        out.size = buffer.size ∧ ∃ samples, samples.length = count
          ∧ (∀ index, index < count → lane.place index < buffer.size
            ∧ out[lane.place index]? = samples[index]?
            ∧ codec.sampleAfter? raw (samples.take index) = samples[index]?)
          ∧ codec.historyAfter samples = history
          ∧ ∀ place, (∀ index, index < count → lane.place index ≠ place) →
            out[place]? = buffer[place]?)
    ∧ ((∃ error, decodeBlock raw count codec buffer lane = .error error)
      ↔ 0 < count
        ∧ (buffer.size ≤ lane.place (count - 1) ∨ raw.size < codec.byteCount count))
    ∧ (∀ other : Bytes, codec.byteCount count ≤ raw.size → codec.byteCount count ≤ other.size →
        (∀ pos, pos < codec.byteCount count → other[pos]? = raw[pos]?) →
        decodeBlock other count codec buffer lane = decodeBlock raw count codec buffer lane)
    ∧ ∀ pos, pos < Adpcm.byteCount count
        ↔ ∃ index, index < count ∧ (pos = Adpcm.headerPos index ∨ pos = Adpcm.codePos index) := by
  refine ⟨decodeInPlace?_eq raw count codec buffer lane, fun out history h => ?_,
    exists_decodeBlock_eq_error_iff, fun other hraw hother hsame => ?_,
    fun pos => Adpcm.lt_byteCount_iff⟩
  · obtain ⟨hroom, samples, hsamples, rfl, hhistory⟩ := decodeBlock_eq_ok_iff.mp h
    obtain rfl := Codec.length_of_samples? hsamples
    refine ⟨lane.size_writeFrom buffer 0 samples, samples, rfl, fun index hindex => ?_, hhistory,
      fun place hplace => ?_⟩
    · have hwritten : (lane.write buffer samples.toArray)[lane.place index]?
          = samples.toArray[index]? := Lane.getElem?_write_place hstride hroom hindex
      exact ⟨hroom index hindex, hwritten.trans List.getElem?_toArray,
        Codec.sampleAfter?_take hsamples hindex⟩
    · exact Lane.getElem?_write_of_ne hplace buffer
  · by_cases hroom : lane.HasRoom count buffer.size
    · obtain ⟨samples, hsamples⟩ :=
        Option.isSome_iff_exists.mp ((codec.isSome_samples?_iff raw count).mpr hraw)
      rw [decodeBlock_eq_of_samples? hroom hsamples,
        decodeBlock_eq_of_samples? hroom ((Codec.samples?_congr hsame).trans hsamples)]
    · rw [decodeBlock_of_not_hasRoom other codec hroom, decodeBlock_of_not_hasRoom raw codec hroom]

end

/-- Two ADPCM samples of a second channel, from three bytes of which they need two, in a buffer of
sevens. -/
theorem decodeBlock_fillsLane_secondChannel :
    1 ≤ (Lane.channel 1 2).stride
    ∧ decodeInPlace? #[0x00, 0x1f, 0x55] 2 (.adpcm (.replicate 8 ⟨0, 0⟩) .silent) #[7, 7, 7, 7]
        (.channel 1 2) = some (.ok ⟨-1, 1⟩, #[7, 1, 7, -1])
    ∧ ∃ samples : List Int16, samples.length = 2
      ∧ (#[7, 1, 7, -1] : Array Int16)[(Lane.channel 1 2).place 1]? = samples[1]? := by
  have hdecoded : decodeBlock #[0x00, 0x1f, 0x55] 2 (.adpcm (.replicate 8 ⟨0, 0⟩) .silent)
      #[7, 7, 7, 7] (.channel 1 2) = .ok (#[7, 1, 7, -1], ⟨-1, 1⟩) := by decide +kernel
  obtain ⟨hplace, hlane, -⟩ := decodeBlock_fillsLane #[0x00, 0x1f, 0x55] 2
    (.adpcm (.replicate 8 ⟨0, 0⟩) .silent) #[7, 7, 7, 7] (.channel 1 2) (by decide)
  obtain ⟨-, samples, hlength, hsamples, -⟩ := hlane _ _ hdecoded
  exact ⟨by decide, by rw [hplace, hdecoded], samples, hlength, (hsamples 1 (by decide)).2.1⟩

end ConsoleSound

import ConsoleSound.Proofs.Sample.InPlace
/-! # Blocks that follow one another

The samples of a block start with those of every shorter block of the same bytes
(`Codec.samples?_take`): nothing that is decoded later changes them.

ADPCM can moreover be cut between two frames. The bytes of a sample lie at places that count from
the start of the block, so samples behind a whole number of frames lie where they would in the bytes
behind these frames (`Adpcm.sample?_add`), and all that they need to know of what was before is the
history there. So a block is decoded in two pieces, the second with the history that the first one
leaves behind (`Codec.samples?_add`), and along any lane the pieces make up the block. -/

namespace ConsoleSound

/-! ## Shorter blocks -/

namespace Codec

/-- The first samples of a block are those of a shorter block. -/
theorem samples?_take {codec : Codec} {raw : Bytes} {count : Nat} {samples : List Int16}
    (h : codec.samples? raw count = some samples) {first : Nat} (hfirst : first ≤ count) :
    codec.samples? raw first = some (samples.take first) := by
  induction count generalizing samples with
  | zero =>
      obtain rfl : first = 0 := Nat.le_zero.mp hfirst
      rfl
  | succ count ih =>
      rcases Nat.le_succ_iff.mp hfirst with hfirst | rfl
      · obtain ⟨earlier, hearlier, sample, -, rfl⟩ := samples?_succ_eq_some_iff.mp h
        have hlength := length_of_samples? hearlier
        rw [ih hearlier hfirst, List.take_append_of_le_length (by omega)]
      · rw [h, List.take_of_length_le (Nat.le_of_eq (length_of_samples? h))]

end Codec

/-! ## Frames of ADPCM -/

namespace Adpcm

variable {predictors : Predictors} {raw : Bytes} {first : Nat}

theorem headerPos_add (h : 14 ∣ first) (index : Nat) :
    headerPos (first + index) = 8 * first / 14 + headerPos index := by
  simp only [headerPos]
  omega

theorem codePos_add (h : 14 ∣ first) (index : Nat) :
    codePos (first + index) = 8 * first / 14 + codePos index := by
  simp only [codePos]
  omega

/-- Frames are of even length, so they do not move a sample to the other half of its byte. -/
theorem correction_add (h : 14 ∣ first) (index : Nat) (byte : UInt8) :
    correction (first + index) byte = correction index byte := by
  have hhalf : (first + index) % 2 = index % 2 := by omega
  rw [correction, correction, hhalf]

theorem getElem?_behind (raw : Bytes) (start pos : Nat) :
    (raw.extract start raw.size)[pos]? = raw[start + pos]? := by
  rw [Array.getElem?_extract]
  split
  · rfl
  · exact (Array.getElem?_eq_none (by omega)).symm

/-- A sample behind some frames is one of the bytes behind these frames. -/
theorem sample?_add (h : 14 ∣ first) (index : Nat) (history : History) :
    sample? predictors raw (first + index) history
      = sample? predictors (raw.extract (8 * first / 14) raw.size) index history := by
  have hcorrection (byte : UInt8) := correction_add h index byte
  simp only [sample?, headerPos_add h, codePos_add h, getElem?_behind, hcorrection]

end Adpcm

namespace Codec

variable {predictors : Adpcm.Predictors} {history : Adpcm.History} {raw : Bytes}

/-- A block goes on behind a whole number of frames with the history that they leave behind. -/
theorem samples?_add {first : Nat} (hframes : 14 ∣ first) {earlier : List Int16}
    (hearlier : (adpcm predictors history).samples? raw first = some earlier) (rest : Nat) :
    (adpcm predictors history).samples? raw (first + rest)
      = ((adpcm predictors (earlier.foldl Adpcm.History.push history)).samples?
          (raw.extract (8 * first / 14) raw.size) rest).map fun later => earlier ++ later := by
  induction rest with
  | zero =>
      rw [Nat.add_zero first, hearlier]
      exact congrArg some (List.append_nil earlier).symm
  | succ rest ih =>
      rw [← Nat.add_assoc, samples?, ih, samples?]
      cases (adpcm predictors (earlier.foldl Adpcm.History.push history)).samples?
          (raw.extract (8 * first / 14) raw.size) rest with
      | none => rfl
      | some later =>
          have hnext : (adpcm predictors history).sampleAfter? raw (earlier ++ later)
              = (adpcm predictors (earlier.foldl Adpcm.History.push history)).sampleAfter?
                (raw.extract (8 * first / 14) raw.size) later := by
            show Adpcm.sample? predictors raw (earlier ++ later).length _
              = Adpcm.sample? predictors _ later.length _
            rw [List.length_append, length_of_samples? hearlier, List.foldl_append,
              Adpcm.sample?_add hframes]
          show ((adpcm predictors history).sampleAfter? raw (earlier ++ later)).map _
            = (((adpcm predictors _).sampleAfter? _ later).map _).map _
          rw [hnext, Option.map_map]
          exact congrArg (Option.map · _) (funext fun sample =>
            List.append_assoc earlier later [sample])

end Codec

/-! ## Pieces of a block -/

section

variable {predictors : Adpcm.Predictors} {history : Adpcm.History} {raw : Bytes}
  {first rest : Nat} {earlier later : List Int16}

/-- Two pieces that are decoded along a lane, the second behind the first, are the block. -/
theorem decodeBlock_add {buffer : Array Int16} {lane : Lane}
    (hroom : lane.HasRoom (first + rest) buffer.size)
    (hfirst : (Codec.adpcm predictors history).samples? raw first = some earlier)
    (hrest : (Codec.adpcm predictors (earlier.foldl Adpcm.History.push history)).samples?
      (raw.extract (8 * first / 14) raw.size) rest = some later)
    (hblock : (Codec.adpcm predictors history).samples? raw (first + rest)
      = some (earlier ++ later)) :
    decodeBlock raw (first + rest) (.adpcm predictors history) buffer lane
      = (do
        let (buffer, middle) ← decodeBlock raw first (.adpcm predictors history) buffer lane
        decodeBlock (raw.extract (8 * first / 14) raw.size) rest (.adpcm predictors middle) buffer
          (lane.drop first)) := by
  have hlater : (lane.drop first).HasRoom rest (lane.writeFrom buffer 0 earlier).size := by
    rw [Lane.size_writeFrom]
    exact hroom.drop
  rw [decodeBlock_eq_of_samples? hroom hblock,
    decodeBlock_eq_of_samples? (hroom.mono (Nat.le_add_right first rest)) hfirst]
  show _ = decodeBlock _ rest (.adpcm predictors (earlier.foldl Adpcm.History.push history)) _ _
  rw [decodeBlock_eq_of_samples? hlater hrest, Lane.writeFrom_append, Lane.writeFrom_drop,
    Codec.length_of_samples? hfirst, Nat.zero_add, Nat.add_zero first]
  show Except.ok (_, (earlier ++ later).foldl Adpcm.History.push history) = _
  rw [List.foldl_append]
  rfl

end

/-- **A block may be decoded in pieces.** The first samples of a block are those of the shorter
block. If they fill whole frames, the others are those of the bytes behind these frames, decoded
with the history that the first ones leave behind, and so is the history after the block. So along
any lane that has room, the two pieces behind one another give the buffer and the history that the
block gives. -/
theorem decodeSamples_inPieces (predictors : Adpcm.Predictors) (history : Adpcm.History)
    (raw : Bytes) (first rest : Nat) (hraw : Adpcm.byteCount (first + rest) ≤ raw.size) :
    ∃ samples middle last,
      decodeSamples raw (first + rest) (.adpcm predictors history) = .ok (samples, last)
      ∧ samples.size = first + rest
      ∧ decodeSamples raw first (.adpcm predictors history)
        = .ok (samples.extract 0 first, middle)
      ∧ (14 ∣ first →
        decodeSamples (raw.extract (8 * first / 14) raw.size) rest (.adpcm predictors middle)
          = .ok (samples.extract first (first + rest), last)
        ∧ ∀ (buffer : Array Int16) (lane : Lane), lane.HasRoom (first + rest) buffer.size →
          decodeBlock raw (first + rest) (.adpcm predictors history) buffer lane
            = (do
              let (buffer, middle) ← decodeBlock raw first (.adpcm predictors history) buffer lane
              decodeBlock (raw.extract (8 * first / 14) raw.size) rest (.adpcm predictors middle)
                buffer (lane.drop first))) := by
  obtain ⟨samples, hsamples⟩ := Option.isSome_iff_exists.mp
    ((Codec.isSome_samples?_iff (.adpcm predictors history) raw (first + rest)).mpr hraw)
  have hlength : samples.length = first + rest := Codec.length_of_samples? hsamples
  have hfirst := Codec.samples?_take hsamples (Nat.le_add_right first rest)
  refine ⟨samples.toArray, (samples.take first).foldl Adpcm.History.push history,
    samples.foldl Adpcm.History.push history, ?_, hlength, ?_, fun hframes => ?_⟩
  · exact decodeSamples_eq_ok_iff.mpr ⟨samples, hsamples, rfl, rfl⟩
  · exact decodeSamples_eq_ok_iff.mpr ⟨samples.take first, hfirst, by simp, rfl⟩
  · -- the block is known, so its second piece must be what is left of it
    obtain ⟨later, hrest, hpieces⟩ :=
      Option.map_eq_some_iff.mp ((Codec.samples?_add hframes hfirst rest).symm.trans hsamples)
    have hlater : later = samples.drop first :=
      List.append_cancel_left (hpieces.trans (List.take_append_drop first samples).symm)
    refine ⟨decodeSamples_eq_ok_iff.mpr ⟨later, hrest, ?_, ?_⟩, fun buffer lane hroom => ?_⟩
    · simp [hlater, List.take_of_length_le, hlength]
    · show later.foldl _ _ = _
      rw [← List.foldl_append, hpieces]
    · exact decodeBlock_add hroom hfirst hrest (hsamples.trans (congrArg some hpieces.symm))

/-- A frame that repeats the last sample, then two samples of the next frame. -/
theorem decodeSamples_inPieces_secondFrame :
    Adpcm.byteCount (14 + 2)
        ≤ (#[0x00, 0x10, 0x00, 0x00, 0x00, 0x00, 0x00, 0x00, 0x01, 0x1f] : Bytes).size
    ∧ 14 ∣ 14
    ∧ ∃ middle,
      decodeSamples #[0x00, 0x10, 0x00, 0x00, 0x00, 0x00, 0x00, 0x00, 0x01, 0x1f] 14
        (.adpcm (.replicate 8 ⟨2048, 0⟩) ⟨5, 0⟩) = .ok (.replicate 14 6, middle)
      ∧ decodeSamples #[0x01, 0x1f] 2 (.adpcm (.replicate 8 ⟨2048, 0⟩) middle)
        = .ok (#[8, 6], ⟨6, 8⟩) := by
  have hdecoded : decodeSamples #[0x00, 0x10, 0x00, 0x00, 0x00, 0x00, 0x00, 0x00, 0x01, 0x1f] 16
      (.adpcm (.replicate 8 ⟨2048, 0⟩) ⟨5, 0⟩)
      = .ok (.replicate 14 6 ++ #[8, 6], ⟨6, 8⟩) := by decide +kernel
  obtain ⟨samples, middle, last, hblock, -, hfirst, hpieces⟩ :=
    decodeSamples_inPieces (.replicate 8 ⟨2048, 0⟩) ⟨5, 0⟩
      #[0x00, 0x10, 0x00, 0x00, 0x00, 0x00, 0x00, 0x00, 0x01, 0x1f] 14 2 (by decide)
  obtain ⟨rfl, rfl⟩ := Prod.mk.inj (Except.ok.inj (hblock.symm.trans hdecoded))
  exact ⟨by decide, by decide, middle, hfirst, (hpieces (by decide)).1⟩

end ConsoleSound

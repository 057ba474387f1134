import Mathlib.Algebra.Group.Int.Defs
import Mathlib.Algebra.Group.Nat.Defs
import ConsoleSound.Proofs.Sample.Decoding
/-! # Predictions in 32 bits

A sample is predicted from a correction and two products, which are added up in 32 bits before
the sum is scaled down and kept within the range of a sample. Beside that stands the prediction in
integers (`Prediction.exact`), and the numbers that come up on the way to it
(`Prediction.numbers`).

The correction, the two products and the sum without the second product fit 32 bits whatever the
file holds, but the last sum does not: two products may be 2 ^ 30 each. Where it does not fit, it
comes out at the other end of the 32 bits, and the sample at the other end of its range; so a sample
is exact if and only if the last sum fits (`Prediction.toInt_sample_eq_exact_iff`).

How great and how small that sum can be is known from the weights of a predictor
(`Prediction.total_le_greatest`, `Prediction.least_le_total`), and a block of one sample at the
greatest scale gets it there (`SumsFit.isWord_loud`). So the predictors that decode every block
exactly are those for which both numbers fit. -/

namespace ConsoleSound

namespace Adpcm

/-! ## Arithmetic in 32 bits -/

/-- Whether an integer is a number of 32 bits with a sign. -/
def IsWord (number : Int) : Prop := -2 ^ 31 ≤ number ∧ number < 2 ^ 31

theorem toInt_shiftLeft (number : Int32) :
    (number <<< (11 : Int32)).toInt = (number.toInt * 2048).bmod (2 ^ 32) := by
  have hamount : (Int32.toBitVec 11).smod 32 = 11 := by decide
  rw [← Int32.toInt_toBitVec, Int32.toBitVec_shiftLeft, hamount]
  show (number.toBitVec <<< 11).toInt = _
  rw [BitVec.shiftLeft_eq_mul_twoPow, BitVec.toInt_mul]
  rfl

theorem toInt_shiftRight (number : Int32) :
    (number >>> (11 : Int32)).toInt = number.toInt / 2048 := by
  have hamount : (Int32.toBitVec 11).smod 32 = 11 := by decide
  rw [← Int32.toInt_toBitVec, Int32.toBitVec_shiftRight, hamount]
  show (number.toBitVec.sshiftRight 11).toInt = _
  rw [BitVec.toInt_sshiftRight, Int.shiftRight_eq_div_pow]
  rfl

theorem toInt_max (first second : Int32) :
    (max first second).toInt = max first.toInt second.toInt := by
  show (if first ≤ second then second else first).toInt = _
  rw [apply_ite Int32.toInt, Int.max_def]
  simp only [Int32.le_iff_toInt_le]

theorem toInt_min (first second : Int32) :
    (min first second).toInt = min first.toInt second.toInt := by
  show (if first ≤ second then first else second).toInt = _
  rw [apply_ite Int32.toInt, Int.min_def]
  simp only [Int32.le_iff_toInt_le]

/-- A number kept within the range of a sample loses nothing when it is cut to 16 bits. -/
theorem toInt_clamp (value : Int32) :
    (clamp value).toInt = max (-32768) (min value.toInt 32767) := by
  have hlow : (-32768 : Int32).toInt = -32768 := by decide
  have hhigh : (32767 : Int32).toInt = 32767 := by decide
  rw [clamp, Int32.toInt_toInt16, toInt_max, toInt_min, hlow, hhigh]
  exact Int.bmod_eq_of_le (by omega) (by omega)

theorem bmod_of_isWord {number : Int} (h : IsWord number) : number.bmod (2 ^ 32) = number := by
  rw [IsWord] at h
  exact Int.bmod_eq_of_le (by omega) (by omega)

/-- A product with one factor in a range lies between those with the ends of the range. -/
theorem mul_between {weight number low high : Int} (hlow : low ≤ number) (hhigh : number ≤ high) :
    min (weight * high) (weight * low) ≤ weight * number
      ∧ weight * number ≤ max (weight * high) (weight * low) := by
  rcases Int.le_total 0 weight with hweight | hweight
  · have hleft := Int.mul_le_mul_of_nonneg_left hlow hweight
    have hright := Int.mul_le_mul_of_nonneg_left hhigh hweight
    omega
  · have hleft := Int.mul_le_mul_of_nonpos_left hweight hlow
    have hright := Int.mul_le_mul_of_nonpos_left hweight hhigh
    omega

/-! ## What a sample is predicted from -/

/-- What a sample is predicted from: a predictor, the header of the frame, the byte with the
correction, the index of the sample, and the samples before it. -/
structure Prediction where
  weights : Predictor
  header : UInt8
  byte : UInt8
  index : Nat
  history : History
  deriving DecidableEq, Repr

namespace Prediction

variable (prediction : Prediction)

/-- The predicted sample. -/
def sample : Int16 :=
  predict prediction.weights (scale prediction.header)
    (correction prediction.index prediction.byte) prediction.history

/-- The scaled correction. -/
def scaled : Int :=
  (scale prediction.header).toInt * (correction prediction.index prediction.byte).toInt

/-- The weighted last sample. -/
def lastPart : Int := prediction.weights.last.toInt * prediction.history.last.toInt

/-- The weighted sample before the last one. -/
def beforeLastPart : Int :=
  prediction.weights.beforeLast.toInt * prediction.history.beforeLast.toInt

/-- The sum of all, in 1/2048, with a half that rounds it to nearest. -/
def total : Int :=
  0x400 + prediction.scaled * 2048 + prediction.lastPart + prediction.beforeLastPart

/-- All the numbers that come up on the way to the sum. -/
def numbers : List Int :=
  [prediction.scaled, prediction.scaled * 2048, prediction.lastPart, prediction.beforeLastPart,
    0x400 + prediction.scaled * 2048, 0x400 + prediction.scaled * 2048 + prediction.lastPart,
    prediction.total]

/-- The sample that the numbers give as they are. -/
def exact : Int := max (-32768) (min (prediction.total / 2048) 32767)

/-! ### How great the numbers are -/

theorem toInt_scale_bounds (header : UInt8) :
    1 ≤ (scale header).toInt ∧ (scale header).toInt ≤ 32768 := by
  have hshift : header.toNat % 16 ≤ 15 := by omega
  have hpower : 2 ^ (header.toNat % 16) ≤ 2 ^ 15 := Nat.pow_le_pow_right (by decide) hshift
  have hpositive : 0 < 2 ^ (header.toNat % 16) := Nat.two_pow_pos _
  rw [scale, Nat.one_shiftLeft, Int32.toInt_ofNat_of_lt (by omega)]
  omega

theorem toInt_correction_bounds (index : Nat) (byte : UInt8) :
    -8 ≤ (correction index byte).toInt ∧ (correction index byte).toInt ≤ 7 := by
  have hhalf (half : Nat) : -8 ≤ (half : Int).bmod 16 ∧ (half : Int).bmod 16 ≤ 7 := by
    have hlow := Int.le_bmod (x := (half : Int)) (m := 16) (by decide)
    have hhigh := Int.bmod_lt (x := (half : Int)) (m := 16) (by decide)
    omega
  have hbounds := hhalf (if index % 2 = 0 then byte.toNat / 16 else byte.toNat % 16)
  rw [correction, Int32.toInt_ofInt_of_le (by omega) (by omega)]
  exact hbounds

theorem scaled_bounds : -8 * 2 ^ 15 ≤ prediction.scaled ∧ prediction.scaled ≤ 7 * 2 ^ 15 := by
  have hscale := toInt_scale_bounds prediction.header
  obtain ⟨hlow, hhigh⟩ := toInt_correction_bounds prediction.index prediction.byte
  have hproduct : _ ≤ prediction.scaled ∧ prediction.scaled ≤ _ := mul_between hlow hhigh
  omega

/-- The product of a weight and a sample lies between those with the two extreme samples. -/
theorem product_between (weight sample : Int16) :
    min (weight.toInt * 32767) (weight.toInt * -32768) ≤ weight.toInt * sample.toInt
      ∧ weight.toInt * sample.toInt ≤ max (weight.toInt * 32767) (weight.toInt * -32768) := by
  have hlow := sample.le_toInt
  have hhigh := sample.toInt_lt
  exact mul_between (by omega) (by omega)

theorem product_bounds (weight sample : Int16) :
    -2 ^ 30 ≤ weight.toInt * sample.toInt ∧ weight.toInt * sample.toInt ≤ 2 ^ 30 := by
  have hlow := weight.le_toInt
  have hhigh := weight.toInt_lt
  have hproduct := product_between weight sample
  omega

theorem lastPart_bounds : -2 ^ 30 ≤ prediction.lastPart ∧ prediction.lastPart ≤ 2 ^ 30 :=
  product_bounds _ _

theorem beforeLastPart_bounds :
    -2 ^ 30 ≤ prediction.beforeLastPart ∧ prediction.beforeLastPart ≤ 2 ^ 30 :=
  product_bounds _ _

/-- Of the numbers that come up, only the last sum may not fit. -/
theorem forall_isWord_numbers_iff :
    (∀ number ∈ prediction.numbers, IsWord number) ↔ IsWord prediction.total := by
  have hscaled := prediction.scaled_bounds
  have hlast := prediction.lastPart_bounds
  have hbeforeLast := prediction.beforeLastPart_bounds
  simp only [numbers, List.forall_mem_cons, List.not_mem_nil, false_implies, implies_true, and_true,
    IsWord]
  omega

/-- The last sum may leave 32 bits, but not by far. -/
theorem total_bounds : -3 * 2 ^ 30 ≤ prediction.total ∧ prediction.total < 3 * 2 ^ 30 := by
  have hscaled := prediction.scaled_bounds
  have hlast := prediction.lastPart_bounds
  have hbeforeLast := prediction.beforeLastPart_bounds
  rw [total]
  omega

/-! ### The sample -/

/-- The numbers are added up modulo 2 ^ 32. -/
theorem toInt_sample : prediction.sample.toInt
    = max (-32768) (min (prediction.total.bmod (2 ^ 32) / 2048) 32767) := by
  have hround : (0x400 : Int32).toInt = 0x400 := by decide
  rw [sample, predict, toInt_clamp, toInt_shiftRight]
  simp only [Int32.toInt_add, Int32.toInt_mul, toInt_shiftLeft, Int16.toInt_toInt32, hround,
    Int.bmod_mul_bmod, Int.bmod_add_bmod, Int.add_bmod_bmod]
  rfl

/-- A sample is exact if and only if the last sum fits. -/
theorem toInt_sample_eq_exact_iff :
    prediction.sample.toInt = prediction.exact ↔ IsWord prediction.total := by
  have htotal := prediction.total_bounds
  rw [toInt_sample, exact]
  constructor
  · intro heq
    -- a sum that does not fit comes out with the other sign, far from zero
    rw [Int.bmod_def] at heq
    rw [IsWord]
    split at heq <;> omega
  · intro h
    rw [bmod_of_isWord h]

end Prediction

/-! ## The reach of a predictor -/

/-- The sample whose product with a weight is greatest. -/
def highestFor (weight : Int16) : Int16 := if 0 ≤ weight.toInt then 32767 else -32768

/-- The sample whose product with a weight is least. -/
def lowestFor (weight : Int16) : Int16 := if 0 ≤ weight.toInt then -32768 else 32767

theorem toInt_mul_highestFor (weight : Int16) :
    weight.toInt * (highestFor weight).toInt
      = max (weight.toInt * 32767) (weight.toInt * -32768) := by
  have hhigh : (32767 : Int16).toInt = 32767 := by decide
  have hlow : (-32768 : Int16).toInt = -32768 := by decide
  rw [highestFor, apply_ite Int16.toInt, hhigh, hlow]
  split <;> omega

theorem toInt_mul_lowestFor (weight : Int16) :
    weight.toInt * (lowestFor weight).toInt
      = min (weight.toInt * 32767) (weight.toInt * -32768) := by
  have hhigh : (32767 : Int16).toInt = 32767 := by decide
  have hlow : (-32768 : Int16).toInt = -32768 := by decide
  rw [lowestFor, apply_ite Int16.toInt, hhigh, hlow]
  split <;> omega

namespace Predictor

/-- The greatest sum that a predictor can bring about: with a correction of 7 at the greatest
scale, and the two samples that its weights make most of. -/
def greatest (weights : Predictor) : Int :=
  0x400 + 7 * 2 ^ 15 * 2048 + max (weights.last.toInt * 32767) (weights.last.toInt * -32768)
    + max (weights.beforeLast.toInt * 32767) (weights.beforeLast.toInt * -32768)

/-- The least sum that a predictor can bring about, with a correction of -8. -/
def least (weights : Predictor) : Int :=
  0x400 + -8 * 2 ^ 15 * 2048 + min (weights.last.toInt * 32767) (weights.last.toInt * -32768)
    + min (weights.beforeLast.toInt * 32767) (weights.beforeLast.toInt * -32768)

/-- Whether no sum of a predictor leaves 32 bits. -/
def IsSafe (weights : Predictor) : Prop := IsWord weights.least ∧ IsWord weights.greatest

end Predictor

theorem Prediction.total_le_greatest (prediction : Prediction) :
    prediction.total ≤ prediction.weights.greatest := by
  have hscaled := prediction.scaled_bounds
  have hlast : prediction.lastPart ≤ _ := (product_between _ _).2
  have hbeforeLast : prediction.beforeLastPart ≤ _ := (product_between _ _).2
  rw [total, Predictor.greatest]
  omega

theorem Prediction.least_le_total (prediction : Prediction) :
    prediction.weights.least ≤ prediction.total := by
  have hscaled := prediction.scaled_bounds
  have hlast : _ ≤ prediction.lastPart := (product_between _ _).1
  have hbeforeLast : _ ≤ prediction.beforeLastPart := (product_between _ _).1
  rw [total, Predictor.least]
  omega

theorem Prediction.isWord_total {prediction : Prediction} (h : prediction.weights.IsSafe) :
    IsWord prediction.total := by
  have hgreatest := prediction.total_le_greatest
  have hleast := prediction.least_le_total
  obtain ⟨⟨hlow, -⟩, -, hhigh⟩ := h
  exact ⟨by omega, by omega⟩

/-- The header of a frame that takes a predictor and the greatest scale. -/
def loudHeader (slot : Fin 8) : UInt8 := UInt8.ofNat (slot.val * 16 + 15)

theorem toNat_loudHeader (slot : Fin 8) : (loudHeader slot).toNat = slot.val * 16 + 15 := by
  have hsmall : slot.val * 16 + 15 < 256 := by omega
  exact UInt8.toNat_ofNat_of_lt' hsmall

theorem predictor_loudHeader (predictors : Predictors) (slot : Fin 8) :
    predictor predictors (loudHeader slot) = predictors[slot] := by
  have hslot : min ((loudHeader slot).toNat / 16) 7 = slot.val := by
    rw [toNat_loudHeader]
    omega
  simp only [predictor, hslot]
  rfl

theorem toInt_scale_loudHeader (slot : Fin 8) : (scale (loudHeader slot)).toInt = 2 ^ 15 := by
  have hshift : (loudHeader slot).toNat % 16 = 15 := by
    rw [toNat_loudHeader]
    omega
  rw [scale, hshift]
  decide

/-! ## Blocks -/

/-- What the next sample of a block is predicted from, given the samples before it. -/
def predictionAfter? (predictors : Predictors) (history : History) (raw : Bytes)
    (earlier : List Int16) : Option Prediction := do
  let header ← raw[headerPos earlier.length]?
  let byte ← raw[codePos earlier.length]?
  return {
    weights := predictor predictors header
    header
    byte
    index := earlier.length
    history := earlier.foldl History.push history }

/-- Whether every sample of a block is the exact prediction, kept within the range of a sample, and
no number on the way to it leaves 32 bits. -/
def DecodesExactly (predictors : Predictors) (history : History) (raw : Bytes) (count : Nat) :
    Prop :=
  ∀ samples last, decodeSamples raw count (.adpcm predictors history) = .ok (samples, last) →
    ∀ index sample, samples[index]? = some sample →
      ∃ prediction,
        predictionAfter? predictors history raw (samples.toList.take index) = some prediction
        ∧ (∀ number ∈ prediction.numbers, IsWord number)
        ∧ sample.toInt = prediction.exact

/-- Whether the last sum of every sample of a block fits 32 bits. -/
def SumsFit (predictors : Predictors) (history : History) (raw : Bytes) (count : Nat) : Prop :=
  ∀ samples last, decodeSamples raw count (.adpcm predictors history) = .ok (samples, last) →
    ∀ index, index < count → ∀ prediction,
      predictionAfter? predictors history raw (samples.toList.take index) = some prediction →
        IsWord prediction.total

section

variable {predictors : Predictors} {history : History} {raw : Bytes} {count : Nat}

theorem sampleAfter?_eq_map (earlier : List Int16) :
    (Codec.adpcm predictors history).sampleAfter? raw earlier
      = (predictionAfter? predictors history raw earlier).map Prediction.sample := by
  show sample? predictors raw earlier.length _ = _
  rw [sample?, predictionAfter?]
  cases raw[headerPos earlier.length]? with
  | none => rfl
  | some header =>
      cases raw[codePos earlier.length]? with
      | none => rfl
      | some byte => rfl

/-- Every sample of a block comes from its prediction. -/
theorem exists_prediction {samples : Array Int16} {last : History}
    (h : decodeSamples raw count (.adpcm predictors history) = .ok (samples, last)) {index : Nat}
    {sample : Int16} (hsample : samples[index]? = some sample) :
    index < count ∧ ∃ prediction,
      predictionAfter? predictors history raw (samples.toList.take index) = some prediction
        ∧ prediction.sample = sample := by
  have hindex := (Array.getElem?_eq_some_iff.mp hsample).1
  rw [size_of_decodeSamples h] at hindex
  obtain ⟨decoded, hdecoded, rfl, -⟩ := decodeSamples_eq_ok_iff.mp h
  have hafter := Codec.sampleAfter?_take hdecoded hindex
  rw [sampleAfter?_eq_map, ← List.getElem?_toArray, hsample] at hafter
  exact ⟨hindex, Option.map_eq_some_iff.mp hafter⟩

theorem decodesExactly_iff_sumsFit :
    DecodesExactly predictors history raw count ↔ SumsFit predictors history raw count := by
  constructor
  · intro h samples last hdecoded index hindex prediction hprediction
    have hsize := size_of_decodeSamples hdecoded
    obtain ⟨exactly, hexactly, hnumbers, -⟩ :=
      h samples last hdecoded index _ (Array.getElem?_eq_getElem (by omega))
    rw [Option.some.inj (hprediction.symm.trans hexactly)]
    exact exactly.forall_isWord_numbers_iff.mp hnumbers
  · intro h samples last hdecoded index sample hsample
    obtain ⟨hindex, prediction, hprediction, rfl⟩ := exists_prediction hdecoded hsample
    have htotal := h samples last hdecoded index hindex prediction hprediction
    exact ⟨prediction, hprediction, prediction.forall_isWord_numbers_iff.mpr htotal,
      prediction.toInt_sample_eq_exact_iff.mpr htotal⟩

theorem sumsFit_of_isSafe (h : ∀ slot : Fin 8, predictors[slot].IsSafe) :
    SumsFit predictors history raw count := by
  intro samples last _ index _ prediction hprediction
  obtain ⟨header, -, hprediction⟩ := Option.bind_eq_some_iff.mp hprediction
  obtain ⟨byte, -, hprediction⟩ := Option.bind_eq_some_iff.mp hprediction
  refine Prediction.isWord_total ?_
  rw [← Option.some.inj hprediction]
  exact h ⟨min (header.toNat / 16) 7, by omega⟩

/-- One loud sample sums up its correction and the products with its history. -/
theorem SumsFit.isWord_loud {slot : Fin 8} {byte : UInt8}
    (h : SumsFit predictors history #[loudHeader slot, byte] 1) :
    IsWord (0x400 + 2 ^ 15 * (correction 0 byte).toInt * 2048
      + predictors[slot].last.toInt * history.last.toInt
      + predictors[slot].beforeLast.toInt * history.beforeLast.toInt) := by
  have hprediction : predictionAfter? predictors history #[loudHeader slot, byte] []
      = some ⟨predictor predictors (loudHeader slot), loudHeader slot, byte, 0, history⟩ := rfl
  have hword := h _ _ rfl 0 Nat.one_pos _ hprediction
  simp only [Prediction.total, Prediction.scaled, Prediction.lastPart, Prediction.beforeLastPart,
    toInt_scale_loudHeader, predictor_loudHeader] at hword
  exact hword

theorem isSafe_of_sumsFit (h : ∀ history raw count, SumsFit predictors history raw count)
    (slot : Fin 8) : predictors[slot].IsSafe := by
  constructor
  · have hword := (h ⟨lowestFor predictors[slot].last, lowestFor predictors[slot].beforeLast⟩
      #[loudHeader slot, 0x80] 1).isWord_loud
    rw [toInt_mul_lowestFor, toInt_mul_lowestFor] at hword
    exact hword
  · have hword := (h ⟨highestFor predictors[slot].last, highestFor predictors[slot].beforeLast⟩
      #[loudHeader slot, 0x70] 1).isWord_loud
    rw [toInt_mul_highestFor, toInt_mul_highestFor] at hword
    exact hword

end

/-- **A block is decoded exactly if and only if the last sum of each sample fits 32 bits**, for all
predictors, histories and bytes. Predictors decode all blocks from every history exactly if and only
if the least and the greatest sum that each of them can bring about fit. -/
theorem decodesExactly_iff (predictors : Predictors) :
    (∀ history raw count,
      DecodesExactly predictors history raw count ↔ SumsFit predictors history raw count)
    ∧ ((∀ history raw count, DecodesExactly predictors history raw count)
        ↔ ∀ slot : Fin 8, predictors[slot].IsSafe) := by
  refine ⟨fun _ _ _ => decodesExactly_iff_sumsFit, ?_⟩
  constructor
  · intro h
    exact isSafe_of_sumsFit fun history raw count =>
      decodesExactly_iff_sumsFit.mp (h history raw count)
  · intro h history raw count
    exact decodesExactly_iff_sumsFit.mpr (sumsFit_of_isSafe h)

/-- With both products at 2 ^ 30 a sample that should be the highest one is the lowest. -/
theorem not_decodesExactly_greatestProducts :
    decodeSamples #[0x00, 0x00] 1 (.adpcm (.replicate 8 ⟨-32768, -32768⟩) ⟨-32768, -32768⟩)
        = .ok (#[-32768], ⟨-32768, -32768⟩)
      ∧ ¬DecodesExactly (.replicate 8 ⟨-32768, -32768⟩) ⟨-32768, -32768⟩ #[0x00, 0x00] 1 := by
  have hdecoded : decodeSamples #[0x00, 0x00] 1
      (.adpcm (.replicate 8 ⟨-32768, -32768⟩) ⟨-32768, -32768⟩)
      = .ok (#[-32768], ⟨-32768, -32768⟩) := by decide +kernel
  refine ⟨hdecoded, fun h => ?_⟩
  obtain ⟨prediction, hprediction, -, hexact⟩ := h _ _ hdecoded 0 _ rfl
  rw [← Option.some.inj hprediction] at hexact
  exact absurd hexact (by decide +kernel)

end Adpcm

end ConsoleSound

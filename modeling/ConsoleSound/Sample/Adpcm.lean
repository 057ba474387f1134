import ConsoleSound.Sample.Format
/-! # ADPCM

A sample is predicted from the two before it by one of eight predictors; a
four-bit correction, scaled by the frame's header, is added. Sample `index` of a
channel has its header and its correction at fixed places (`headerPos`,
`codePos`), so decoding is a fold over the sample indices that carries the two
last samples along. -/

namespace ConsoleSound.Adpcm

/-- The weights, in 1/2048, of the last sample and of the one before it. -/
structure Predictor where
  last : Int16
  beforeLast : Int16
  deriving DecidableEq, Repr, Inhabited

/-- The predictors that frame headers choose from. -/
abbrev Predictors := Vector Predictor 8

/-- The two samples before the next one. -/
structure History where
  last : Int16
  beforeLast : Int16
  deriving DecidableEq, Repr, Inhabited

/-- The history of a channel that has not started. -/
def History.silent : History := ⟨0, 0⟩

/-- The history after one more sample. -/
def History.push (history : History) (sample : Int16) : History := ⟨sample, history.last⟩

/-! ## Where a sample is coded -/

/-- The position of the frame header that governs a sample. -/
def headerPos (index : Nat) : Nat := index / 14 * 8

/-- The position of the byte that holds the correction of a sample. -/
def codePos (index : Nat) : Nat := index / 14 * 8 + 1 + index % 14 / 2

/-- The correction of a sample: the high half of its byte, then the low half, each
a signed number of four bits. -/
def correction (index : Nat) (byte : UInt8) : Int32 :=
  let half := if index % 2 = 0 then byte.toNat / 16 else byte.toNat % 16
  Int32.ofInt (Int.bmod half 16)

/-- The scale that a frame header gives its corrections. -/
def scale (header : UInt8) : Int32 := Int32.ofNat (1 <<< (header.toNat % 16))

/-- The predictor that a frame header chooses; numbers above seven choose the last. -/
def predictor (predictors : Predictors) (header : UInt8) : Predictor :=
  predictors[min (header.toNat / 16) 7]

/-! ## Prediction -/

/-- A number kept within the range of a sample. -/
def clamp (value : Int32) : Int16 :=
  (max (-32768) (min value 32767)).toInt16

/-- The sample that a correction and a history give, rounded to nearest. -/
def predict (weights : Predictor) (scale correction : Int32) (history : History) : Int16 :=
  let sum : Int32 := 0x400 + (scale * correction) <<< (11 : Int32)
    + weights.last.toInt32 * history.last.toInt32
    + weights.beforeLast.toInt32 * history.beforeLast.toInt32
  clamp (sum >>> (11 : Int32))

/-- Sample `index` of coded data, given the two samples before it. -/
def sample? (predictors : Predictors) (raw : Bytes) (index : Nat) (history : History) :
    Option Int16 := do
  let header ← raw[headerPos index]?
  let byte ← raw[codePos index]?
  return predict (predictor predictors header) (scale header) (correction index byte) history

/-- `count` samples from sample `index` on, appended to those decoded before. -/
def decodeFrom? (predictors : Predictors) (raw : Bytes) :
    (count index : Nat) → History → Array Int16 → Option (Array Int16 × History)
  | 0, _, history, decoded => some (decoded, history)
  | count + 1, index, history, decoded =>
    match sample? predictors raw index history with
    | some sample =>
      decodeFrom? predictors raw count (index + 1) (history.push sample) (decoded.push sample)
    | none => none

/-- The first `count` samples of coded data and the history after them. -/
def decode? (predictors : Predictors) (history : History) (raw : Bytes) (count : Nat) :
    Option (Array Int16 × History) :=
  decodeFrom? predictors raw count 0 history #[]

/-! ## Stored parameters -/

/-- What a channel header stores for decoding. -/
structure Params where
  predictors : Predictors
  gain : UInt16
  header : UInt16
  history : History
  loopHeader : UInt16
  loopHistory : History
  deriving DecidableEq, Repr

/-- The history stored at `pos`. -/
def History.read (view : View) (pos : Nat) : Except Error History := do
  let last ← view.i16 pos
  let beforeLast ← view.i16 (pos + 2)
  return { last, beforeLast }

/-- The predictors stored at `pos`. -/
def Predictors.read (view : View) (pos : Nat) : Except Error Predictors :=
  Vector.ofFnM fun index => do
    let last ← view.i16 (pos + index.val * 4)
    let beforeLast ← view.i16 (pos + index.val * 4 + 2)
    return { last, beforeLast }

/-- The parameters stored at `pos`. -/
def Params.read (view : View) (pos : Nat) : Except Error Params := do
  let predictors ← Predictors.read view pos
  let gain ← view.u16 (pos + 0x20)
  let header ← view.u16 (pos + 0x22)
  let history ← History.read view (pos + 0x24)
  let loopHeader ← view.u16 (pos + 0x28)
  let loopHistory ← History.read view (pos + 0x2a)
  return { predictors, gain, header, history, loopHeader, loopHistory }

end ConsoleSound.Adpcm

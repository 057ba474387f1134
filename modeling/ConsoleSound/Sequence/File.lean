import ConsoleSound.Container.Block
import ConsoleSound.Container.Kind
/-! # Sequence files

A sequence file holds bytecode and labels that name places to start from. -/

namespace ConsoleSound

/-- A named place of the bytecode. -/
structure SequenceLabel where
  name : String
  offset : UInt32
  deriving DecidableEq, Repr

/-- A file of bytecode. -/
structure SequenceFile where
  header : Container.Header
  labels : List SequenceLabel
  code : Bytes
  deriving DecidableEq, Repr

namespace SequenceFile

/-- The label whose record is at `pos`: its offset and a name of counted length. -/
def readLabel (view : View) (pos : Nat) : Except Error SequenceLabel := do
  let length ← view.offset (pos + 4)
  let name ← view.bytes (pos + 8) length
  let offset ← view.u32 pos
  return { name := Text.decodeUtf8 name.toList, offset }

/-- The bytecode of the data block: the rest of the block from a place that the
block names, measured from its header. -/
def readCode (view : View) (data : Container.Block) : Except Error Bytes := do
  let start := data.start + (← view.offset data.base)
  if start < data.base + 4 ∨ data.stop < start then
    malformed data.base .codeOutsideBlock
  else
    view.bytes start (data.stop - start)

/-- The sequence that a file holds. -/
def read (file : Bytes) : Except Error SequenceFile := do
  let (header, view) ← Container.openAs file Container.Kind.sequence.magic
  let data ← Container.Block.locate view 0x10 (.ofChars 'D' 'A' 'T' 'A')
  let code ← readCode view data
  let labels ← match ← view.offset 0x18 with
    | 0 => pure []
    | _ => do
      let block ← Container.Block.locate view 0x18 (.ofChars 'L' 'A' 'B' 'L')
      view.table block.base 4 fun entry => do
        readLabel view (block.base + (← view.offset entry))
  return { header, labels, code }

/-- The offset of the first label of a name. -/
def label? (file : SequenceFile) (name : String) : Option UInt32 :=
  (file.labels.find? fun label => label.name = name).map SequenceLabel.offset

end SequenceFile

end ConsoleSound

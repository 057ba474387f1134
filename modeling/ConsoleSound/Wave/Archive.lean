import ConsoleSound.Wave.File
import ConsoleSound.Reference
/-! # Wave archives

A wave archive is a table of whole wave files, in which a wave may be absent. -/

namespace ConsoleSound

/-- Where a wave archive keeps one wave; an absent wave has no start. -/
structure WaveSlot where
  start? : Option Nat
  length : UInt32
  deriving DecidableEq, Repr

/-- A table of wave files. -/
structure WaveArchive where
  header : Container.Header
  slots : List WaveSlot
  view : View
  deriving DecidableEq, Repr

namespace WaveArchive

/-- The slot stored at `pos`. -/
def readSlot (view : View) (base pos : Nat) : Except Error WaveSlot := do
  let start? ← view.follow? pos base
  let length ← view.u32 (pos + Reference.size)
  return { start?, length }

/-- The archive that a file holds. Waves are measured from the header of the data block. -/
def read (file : Bytes) : Except Error WaveArchive := do
  let (header, view) ← Container.openAs file Container.Kind.waveArchive.magic
  let table ← Container.Block.locate view 0x10 (.ofChars 'T' 'A' 'B' 'L')
  let data ← Container.Block.locate view 0x18 (.ofChars 'D' 'A' 'T' 'A')
  let slots ← view.table table.base (Reference.size + 4) (readSlot view data.start)
  return { header, slots, view }

/-- The number of slots. -/
def waveCount (archive : WaveArchive) : Nat := archive.slots.length

/-- The bytes of the wave in slot `index`; an absent wave has none. -/
def wave (archive : WaveArchive) (index : Nat) : Except Error Bytes :=
  match archive.slots[index]? with
  | none => notFound (.wave index)
  | some slot =>
    match slot.start? with
    | some start => archive.view.bytes start slot.length.toNat
    | none => .ok #[]

/-- The bytes of every wave, in table order. -/
def waves (archive : WaveArchive) : List (Except Error Bytes) :=
  (List.range archive.waveCount).map archive.wave

end WaveArchive

end ConsoleSound

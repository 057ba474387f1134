import ConsoleSound.Instrument.Region
import ConsoleSound.Container.Block
import ConsoleSound.Container.Kind
import ConsoleSound.Wave.Info
/-! # Banks

A bank is a table of programs, each a tree of regions. Older banks also hold the
records of the waves that they play, whose samples lie in data beside the bank. -/

namespace ConsoleSound

/-- The samples of a wave whose record is stored beside its samples. Its positions
count nibbles, and its samples start at `dataOffset`. -/
def WaveInfo.decodeEmbedded (info : WaveInfo) (order : ByteOrder) (waveData : Bytes) :
    Except Error Audio :=
  let frames := info.position .nibble info.loopEnd
  info.decode order waveData info.dataOffset.toNat frames.toNat .nibble

/-- A table of programs. -/
structure Bank where
  header : Container.Header
  programs : List Region
  /-- The records of the bank's own waves, if it has any. -/
  waves? : Option (List WaveInfo)
  view : View
  deriving Repr

namespace Bank

/-- The wave records of the block at `base`, none of which may be absent. -/
def readWaves (view : View) (base : Nat) : Except Error (List WaveInfo) := do
  (← view.targets base base).zipIdx.mapM fun (target?, index) =>
    match target? with
    | some pos => WaveInfo.read view pos
    | none => malformed base (.nullReference s!"wave {index}")

/-- The bank that a file holds. -/
def read (file : Bytes) : Except Error Bank := do
  let (header, view) ← Container.openAs file Container.Kind.bank.magic
  let data ← Container.Block.locate view 0x10 (.ofChars 'D' 'A' 'T' 'A')
  let programs ← view.table data.base Reference.size fun entry => do
    Region.read view (← Reference.read view entry) data.base
  let waves? ← match ← view.offset 0x18 with
    | 0 => pure none
    | _ => do
      let waves ← Container.Block.locate view 0x18 (.ofChars 'W' 'A' 'V' 'E')
      some <$> readWaves view waves.base
  return { header, programs, waves?, view }

/-- The number of programs. -/
def programCount (bank : Bank) : Nat := bank.programs.length

/-- Program `index`. -/
def program (bank : Bank) (index : Nat) : Except Error Region :=
  match bank.programs[index]? with
  | some region => .ok region
  | none => notFound (.program index)

/-- What a program plays at a key and a velocity, if anything. -/
def instrument (bank : Bank) (program : Nat) (key velocity : UInt8) :
    Except Error (Option InstrumentParams) := do
  (← bank.program program).resolve [key, velocity]

/-- The leaves of a program. -/
def zones (bank : Bank) (program : Nat) : Except Error (List Zone) :=
  (bank.program program).map Region.flatten

/-- The number of the bank's own waves. -/
def waveCount (bank : Bank) : Nat := (bank.waves?.getD []).length

/-- The samples of the bank's own wave `index`, taken from the data beside the bank. -/
def decodeWave (bank : Bank) (index : Nat) (waveData : Bytes) : Except Error Audio :=
  match (bank.waves?.getD [])[index]? with
  | some info => info.decodeEmbedded bank.view.order waveData
  | none => notFound (.embeddedWave index)

/-- The samples of all of the bank's own waves. -/
def decodeWaves (bank : Bank) (waveData : Bytes) : Except Error (List Audio) :=
  (List.range bank.waveCount).mapM fun index => bank.decodeWave index waveData

end Bank

end ConsoleSound

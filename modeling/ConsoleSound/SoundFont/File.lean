import ConsoleSound.SoundFont.Error
import ConsoleSound.SoundFont.Tables
import ConsoleSound.Instrument.Bank
/-! # SoundFonts

A bank becomes a SoundFont with one preset and one instrument for each program, one
zone for each leaf of a program's tree, and one sample for each wave. -/

namespace ConsoleSound.SoundFont

open Riff (word long)

/-! ## Samples -/

/-- The silent frames that follow every sample. -/
def padding : Nat := 46

/-- The root key of a sample that no zone plays. -/
def defaultRootKey : UInt8 := 60

/-- The root key of a sample: the key of the first zone that plays it. -/
def rootKey (zones : List Zone) (wave : Nat) : UInt8 :=
  match zones.find? fun zone => zone.params.waveIndex.toInt = (wave : Int) with
  | some zone => zone.params.originalKey
  | none => defaultRootKey

/-- The frames of a wave as a SoundFont stores them, with the silence after them. -/
def sampleData (audio : Audio) : Array UInt8 :=
  ((audio.channel 0).flatMap fun sample =>
      (ByteOrder.little.spell 2 sample.toUInt16.toNat).toArray)
    ++ Array.replicate (padding * 2) 0

/-- The first frame after a sample, and the first frame of the next one. -/
def sampleSpan (start frames : Nat) : Except SoundFontError (Nat × Nat) :=
  if start + frames + padding < UInt32.size then .ok (start + frames, start + frames + padding)
  else .error (.tooMany .sampleFrames (start + frames + padding))

/-- The bytes of a sample header. Loop points are kept within the sample. -/
def sampleHeader (index start frames : Nat) (audio : Audio) (rootKey : UInt8) : List UInt8 :=
  nameField s!"wav{index}"
    ++ long start
    ++ long (start + frames)
    ++ long (start + min audio.loopStart.toNat frames)
    ++ long (start + min audio.loopEnd.toNat frames)
    ++ long audio.rate.toNat
    ++ [rootKey, 0]
    ++ word 0
    ++ word 1

/-- The sample header that ends the table. -/
def terminalSample : List UInt8 := nameField "EOS" ++ List.replicate 26 0

/-- The frames and the headers of waves from number `index` on, the first of which
starts at frame `start`, after those made before. -/
def samplesFrom (zones : List Zone) :
    (index start : Nat) → List Audio → Array UInt8 × Array UInt8 →
      Except SoundFontError (Array UInt8 × Array UInt8)
  | _, _, [], (frames, headers) => .ok (frames, headers ++ terminalSample)
  | index, start, audio :: waves, (frames, headers) => do
    let count := (audio.channel 0).size
    let (_, next) ← sampleSpan start count
    let header := sampleHeader index start count audio (rootKey zones index)
    samplesFrom zones (index + 1) next waves (frames ++ sampleData audio, headers ++ header)

/-! ## The file -/

/-- The first wave that a zone of the programs from number `program` on plays but
which is not among `count` waves. -/
def checkWaves (count : Nat) : (program : Nat) → List (List Zone) → Except SoundFontError Unit
  | _, [] => .ok ()
  | program, zones :: programs =>
    match zones.find? fun zone =>
        zone.params.waveIndex < 0 || count ≤ zone.params.waveIndex.toInt.toNat with
    | some zone => .error (.missingWave program zone.params.waveIndex)
    | none => checkWaves count (program + 1) programs

/-- Refuses more of something than a table can number. -/
def checkCount (what : Countable) (count : Nat) : Except SoundFontError Unit :=
  if 65535 ≤ count then .error (.tooMany what count) else .ok ()

/-- The chunk of some data. -/
def dataChunk (a b c d : Char) (bytes : List UInt8) : Riff.Chunk :=
  .data (.ofChars a b c d) bytes.toArray

/-- The name of the tool that makes the files. -/
def toolName : String := "rsndtools 0.1.0"

/-- The description of a file: format 2.1, its sound engine, its name and its tool. -/
def infoChunk (name : String) : Riff.Chunk :=
  .listOf (.ofChars 'I' 'N' 'F' 'O') [
    dataChunk 'i' 'f' 'i' 'l' (word 2 ++ word 1),
    .string (.ofChars 'i' 's' 'n' 'g') "EMU8000",
    .string (.ofChars 'I' 'N' 'A' 'M') name,
    .string (.ofChars 'I' 'S' 'F' 'T') toolName]

/-- The chunk tree of the SoundFont that plays some zones for each program. -/
def ofPrograms (programs : List (List Zone)) (waves : List Audio) (name : String) :
    Except SoundFontError Riff.Chunk := do
  checkWaves waves.length 0 programs
  let zones := programs.flatten
  checkCount .programs programs.length
  checkCount .waves waves.length
  checkCount .zones zones.length
  checkCount .generators (zones.length * 12)
  let (frames, headers) ← samplesFrom zones 0 0 waves (#[], #[])
  let count := programs.length
  return .riff (.ofChars 's' 'f' 'b' 'k') [
    infoChunk name,
    .listOf (.ofChars 's' 'd' 't' 'a') [.data (.ofChars 's' 'm' 'p' 'l') frames],
    .listOf (.ofChars 'p' 'd' 't' 'a') [
      dataChunk 'p' 'h' 'd' 'r' (presets count),
      dataChunk 'p' 'b' 'a' 'g' (presetBags count),
      dataChunk 'p' 'm' 'o' 'd' modulators,
      dataChunk 'p' 'g' 'e' 'n' ((allPresetGenerators count).flatMap Generator.bytes),
      dataChunk 'i' 'n' 's' 't' (instruments programs),
      dataChunk 'i' 'b' 'a' 'g' (instrumentBags programs),
      dataChunk 'i' 'm' 'o' 'd' modulators,
      dataChunk 'i' 'g' 'e' 'n'
        ((instrumentGenerators programs waves.toArray).flatMap Generator.bytes),
      .data (.ofChars 's' 'h' 'd' 'r') headers]]

/-- The SoundFont of a bank and the waves that its instruments name. -/
def ofBank (bank : Bank) (waves : List Audio) (name : String) :
    Except SoundFontError Riff.Chunk := ofPrograms (bank.programs.map Region.flatten) waves name

end ConsoleSound.SoundFont

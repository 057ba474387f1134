import ConsoleSound.Export.Error
import ConsoleSound.Instrument.Bank
import ConsoleSound.Sequence.Conversion
import ConsoleSound.SoundFont.File
import ConsoleSound.Wave.Archive
/-! # What containers turn into

Sequences turn into MIDI files, waves into audio, and banks with their waves into
SoundFonts. -/

namespace ConsoleSound

/-- A result with the part that its error arose in. -/
def inPart {α : Type} (part : ExportPart) (result : Except ExportError α) :
    Except ExportError α := result.mapError (.within part)

/-- The samples of the wave that a file holds. -/
def decodeWaveFile (file : Bytes) : Except Error Audio := do (← Wave.read file).decode

/-- The conversion of a sequence file, from a label or from an offset if one is given. -/
def convertSequenceFile (file : Bytes) (label? : Option String) (start? : Option UInt32)
    (mode : NoteMode) : Outcome Conversion := do
  let sequence ← (SequenceFile.read file : Except Error SequenceFile)
  let converter ← (Converter.ofFile sequence label? : Except SequenceError Converter)
  let entry := start?.getD converter.entry
  .ofOption { converter with mode, entry }.convert?

/-- The audio that stands for an absent wave of an archive. -/
def absentAudio : Audio where
  rate := 32000
  channels := 1
  looped := false
  loopStart := 0
  loopEnd := 0
  samples := #[]

/-- The samples of every wave that a bank can play: its own waves, or those of a wave
archive. Absent waves stay in the list, so that numbers of waves stay right. -/
def Bank.audio (bank : Bank) (waveData : Bytes) : Except ExportError (List Audio) := do
  if bank.waves?.isSome then
    bank.decodeWaves waveData
  else
    let archive ← WaveArchive.read waveData
    archive.waves.zipIdx.mapM fun (wave, index) => do
      let wave ← wave
      if wave.isEmpty then return absentAudio
      else inPart (.bankWave index) (decodeWaveFile wave)

/-- The SoundFont of the bank that a file holds. -/
def bankSoundFont (file waveData : Bytes) (name : String) : Except ExportError Riff.Chunk := do
  let bank ← Bank.read file
  let waves ← bank.audio waveData
  SoundFont.ofBank bank waves name

end ConsoleSound

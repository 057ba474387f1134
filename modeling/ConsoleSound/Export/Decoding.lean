import ConsoleSound.Export.Action
import ConsoleSound.Export.Conversion
import ConsoleSound.Sample.Wav
import ConsoleSound.Stream.File
/-! # Decoding one container

A container is decoded into one file beside it, or into a directory if it holds several
waves or tracks. -/

namespace ConsoleSound

/-- What to decode, and how. -/
structure DecodeRequest where
  input : String
  output? : Option String
  label? : Option String
  mode : NoteMode
  deriving DecidableEq, Repr

namespace Export

/-- Writes audio as a WAV file. -/
def writeAudio (path : Path) (audio : Audio) : Export Unit := writeFile path audio.wav.bytes

/-- Writes a conversion as a MIDI file, and tells of the tracks that errors ended. -/
def writeConversion (path : Path) (conversion : Conversion) : Export Unit := do
  conversion.errors.toList.forM fun error => report error.message
  writeFile path conversion.midi.toBytes

end Export

namespace DecodeRequest

/-- Where the output goes: the path that is asked for, or that of the input with an
extension for what it turns into. -/
def output (request : DecodeRequest) (extension : String) : Path :=
  match request.output? with
  | some output => .ofString output
  | none => (Path.ofString request.input).withExtension extension

/-- Decodes the tracks of a stream: one to a file, several to a directory. -/
def decodeStream (request : DecodeRequest) (file : Bytes) : Export Unit := do
  let stream ← (Stream.read file : Except Error Stream)
  match stream.trackCount with
  | 0 => .fail (.noTracks request.input)
  | 1 => .writeAudio (request.output "wav") (← (stream.decodeTrack 0 : Except Error Audio))
  | count =>
    let directory := request.output "d"
    .makeDirectory directory
    (List.range count).forM fun index => do
      .writeAudio (directory.child s!"{index}.wav")
        (← inPart (.track index) (stream.decodeTrack index))

/-- Decodes the waves of a wave archive to a directory. Absent waves are left out. -/
def decodeWaveArchive (request : DecodeRequest) (file : Bytes) : Export Unit := do
  let directory := request.output "d"
  .makeDirectory directory
  let archive ← (WaveArchive.read file : Except Error WaveArchive)
  archive.waves.zipIdx.forM fun (wave, index) => do
    let wave ← wave
    unless wave.isEmpty do
      .writeAudio (directory.child s!"{index}.wav") (← inPart (.wave index) (decodeWaveFile wave))

/-- The name of the SoundFont of a bank: that of its file. -/
def soundFontName (request : DecodeRequest) : String :=
  (Path.ofString request.input).stem?.getD "bank"

/-- Decodes a container, given the wave data of a bank if there is any. -/
def decode (request : DecodeRequest) (file : Bytes) (waveData? : Option Bytes) : Export Unit :=
  match Container.Kind.detect? file with
  | none => .fail (.notContainer request.input)
  | some .wave => do
    .writeAudio (request.output "wav") (← (decodeWaveFile file : Except Error Audio))
  | some .stream => request.decodeStream file
  | some .sequence => do
    .writeConversion (request.output "mid")
      (← convertSequenceFile file request.label? none request.mode)
  | some .bank =>
    match waveData? with
    | none => .fail .wavesNeeded
    | some waveData => do
      let soundFont ← bankSoundFont file waveData request.soundFontName
      .writeFile (request.output "sf2") soundFont.bytes
  | some .waveArchive => request.decodeWaveArchive file
  | some kind => .fail (.undecodable kind)

end DecodeRequest

end ConsoleSound

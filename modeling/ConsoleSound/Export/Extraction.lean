import ConsoleSound.Export.Decoding
import ConsoleSound.Archive.File
import ConsoleSound.Instrument.WaveSound
/-! # Extracting archives

An archive is unpacked into a directory, by groups or by sounds, and a wave archive
into its waves. An entry of an archive that cannot be extracted is reported, and the
others are extracted all the same, but not those behind one that never ends. -/

namespace ConsoleSound

/-- How the files of an archive are laid out. -/
inductive ExtractStyle where
  /-- A directory for each group, and in it a directory for each item. -/
  | groups
  /-- A file for each sound that has a name. -/
  | sounds
  deriving DecidableEq, Repr

/-- What to extract, and how. -/
structure ExtractRequest where
  input : String
  output? : Option String
  style : ExtractStyle
  /-- Whether to convert what can be converted, too. -/
  decode : Bool
  /-- Whether to take apart the wave archives found in groups. -/
  splitWaves : Bool
  mode : NoteMode
  deriving DecidableEq, Repr

/-! ## File names -/

/-- Characters that file names should not have. -/
def isUnsafe (char : Char) : Bool :=
  char ∈ ['/', '\\', ':', '*', '?', '"', '<', '>', '|'] ||
    char.toNat < 0x20 || (0x7f ≤ char.toNat && char.toNat < 0xa0)

/-- A name with an underscore for each character that file names should not have. -/
def safeName (name : String) : String :=
  String.ofList (name.toList.map fun char => if isUnsafe char then '_' else char)

/-- The name of a group's directory if the group has no name. -/
def anonymousGroup : String := "_anonymous_group_"

namespace Export

/-! ## Wave archives -/

/-- Writes wave `index` of a wave archive, decoded too if asked for, unless it is absent. -/
def extractWave (directory : Path) (decode : Bool) (index : Nat) (wave : Bytes) : Export Unit :=
  unless wave.isEmpty do
    writeFile (directory.child s!"{index}.brwav") wave
    if decode then
      match decodeWaveFile wave with
      | .ok audio => writeAudio (directory.child s!"{index}.wav") audio
      | .error error => report s!"wave {index}: {error.message}"

/-- Writes the waves of a wave archive, up to the first that lies outside the archive. -/
def extractWaves (file : Bytes) (directory : Path) (decode : Bool) : Export Unit := do
  let archive ← (WaveArchive.read file : Except Error WaveArchive)
  makeDirectory directory
  archive.waves.zipIdx.forM fun (wave, index) => do
    extractWave directory decode index (← wave)

end Export

namespace ExtractRequest

/-- The directory to extract to. -/
def output (request : ExtractRequest) : Path :=
  match request.output? with
  | some output => .ofString output
  | none => (Path.ofString request.input).withExtension "d"

/-! ## Groups -/

/-- Decodes the waves that wave sounds keep beside their file. -/
def decodeWaveSounds (file waveData : Bytes) (directory : Path) : Export Unit := do
  let sounds ← (WaveSoundFile.read file : Except Error WaveSoundFile)
  if sounds.hasEmbeddedWaves then
    .makeDirectory directory
    let count ← (sounds.waveCount waveData : Except Error Nat)
    (List.range count).forM fun index => do
      .writeAudio (directory.child s!"{index}.wav")
        (← (sounds.decodeWave index waveData : Except Error Audio))

/-- Decodes the file of an item, if it is of a kind that can be decoded. -/
def decodeItem (request : ExtractRequest) (file waveData : Bytes) (directory : Path) :
    Export Unit :=
  match Container.Kind.detect? file with
  | some .bank => do
    .writeFile (directory.child "soundfont.sf2") (← bankSoundFont file waveData "soundfont").bytes
  | some .sequence => do
    .writeConversion (directory.child "file.mid") (← convertSequenceFile file none none request.mode)
  | some .waveSound =>
    unless waveData.isEmpty do
      decodeWaveSounds file waveData (directory.child "wave")
  | _ => pure ()

/-- Extracts the wave data of an item if it is a wave archive. The waves of a bank are
not decoded, for they are in its SoundFont. -/
def extractItemWaves (request : ExtractRequest) (file waveData : Bytes) (directory : Path) :
    Export Unit :=
  if Container.Kind.detect? waveData = some .waveArchive then do
    .writeFile (directory.child "wave.brwar") waveData
    if request.splitWaves then
      let decode := request.decode && Container.Kind.detect? file != some .bank
      .extractWaves waveData (directory.child "wave.brwar.d") decode
  else pure ()

/-- Extracts an item of a group. -/
def extractItem (request : ExtractRequest) (archive : Archive) (group item : Nat)
    (directory : Path) : Export Unit := do
  .makeDirectory directory
  let file ← (archive.groupFile group item : Except Error Bytes)
  let waveData ← (archive.groupWaveData group item : Except Error Bytes)
  .writeFile (directory.child s!"file.{Container.extensionFor file}") file
  if request.decode then request.decodeItem file waveData directory
  request.extractItemWaves file waveData directory

/-- Extracts the items of a group, unless the group is kept outside the archive. -/
def extractGroup (request : ExtractRequest) (archive : Archive) (index : Nat)
    (group : GroupInfo) : Export Unit :=
  unless group.isExternal do
    let name := (archive.string? group.nameIndex).getD anonymousGroup
    let directory := request.output.child (safeName name)
    (List.range group.items.length).forM fun item =>
      .attempt s!"group {name} item {item}"
        (request.extractItem archive index item (directory.child (toString item)))

/-- Extracts every group. -/
def extractGroups (request : ExtractRequest) (archive : Archive) : Export Unit :=
  archive.groups.zipIdx.forM fun (group, index) => request.extractGroup archive index group

/-! ## Sounds -/

/-- Decodes the file of a sound, if the sound is a sequence, from where the sound starts. -/
def decodeSound (request : ExtractRequest) (sound : SoundInfo) (file : Bytes) (name : String) :
    Export Unit :=
  match sound.kind with
  | .sequence offset .. => do
    .writeConversion (request.output.child s!"{name}.mid")
      (← convertSequenceFile file none (some offset) request.mode)
  | _ => pure ()

/-- Extracts the file of a sound, if the sound has a name. -/
def extractSound (request : ExtractRequest) (archive : Archive) (sound : SoundInfo) :
    Export Unit :=
  match archive.name? sound.nameIndex with
  | none => pure ()
  | some name =>
    let name := safeName name
    .attempt s!"sound {name}" do
      let file ← (archive.fileData sound.fileIndex.toNat : Except Error Bytes)
      .writeFile (request.output.child s!"{name}.{Container.extensionFor file}") file
      if request.decode then request.decodeSound sound file name

/-- Extracts every sound that has a name. -/
def extractSounds (request : ExtractRequest) (archive : Archive) : Export Unit := do
  .makeDirectory request.output
  archive.sounds.forM (request.extractSound archive)

/-! ## The whole file -/

/-- Extracts an archive or a wave archive. -/
def extract (request : ExtractRequest) (file : Bytes) : Export Unit :=
  match Container.Kind.detect? file with
  | some .archive => do
    let archive ← (Archive.read file : Except Error Archive)
    match request.style with
    | .groups => request.extractGroups archive
    | .sounds => request.extractSounds archive
  | some .waveArchive => .extractWaves file request.output request.decode
  | _ => .fail (.notArchive request.input)

end ExtractRequest

end ConsoleSound

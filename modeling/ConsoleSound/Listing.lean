import ConsoleSound.Archive.File
import ConsoleSound.Export.Error
import ConsoleSound.Instrument.WaveSound
import ConsoleSound.Sequence.File
import ConsoleSound.Stream.File
/-! # Listings

A listing shows what a container holds, line by line. -/

namespace ConsoleSound

/-- What to list of an archive. -/
structure ListOptions where
  groups : Bool
  banks : Bool
  sounds : Bool
  deriving DecidableEq, Repr

/-- The lines of a listing, and the error that cut it short. -/
structure Listing where
  lines : List String
  error? : Option ExportError
  deriving DecidableEq, Repr

namespace Listing

/-- The text of a listing. -/
def text (listing : Listing) : String := String.join (listing.lines.map (· ++ "\n"))

/-- A listing without an error. -/
def ofLines (lines : List String) : Listing := ⟨lines, none⟩

/-- A listing of nothing but an error. -/
def ofError (error : ExportError) : Listing := ⟨[], some error⟩

/-- The listing of what was read, or the error of reading it. -/
def ofRead {α : Type} (read : Except Error α) (list : α → Listing) : Listing :=
  match read with
  | .ok value => list value
  | .error error => ofError (.container error)

/-! ## Archives -/

/-- The line that stands for a group without a name. -/
def anonymousGroup : String := "<anonymous group>"

/-- The line that stands for a bank without a name. -/
def anonymousBank : String := "<anonymous bank>"

/-- The line that stands for a sound without a name. -/
def anonymousSound : String := "<anonymous sound>"

/-- The name of a group. -/
def groupName (archive : Archive) (group : GroupInfo) : String :=
  (archive.string? group.nameIndex).getD anonymousGroup

/-- Where a file is stored: its path outside the archive, or the items that hold it. -/
def placements (archive : Archive) (file : UInt32) : List String :=
  match archive.file file.toNat with
  | .error error => [s!"\t<{error.message}>"]
  | .ok info =>
    match info.externalPath? with
    | some path => [s!"\t{path}"]
    | none => info.placements.map fun place =>
      let group := match archive.groups[place.group.toNat]? with
        | some group => groupName archive group
        | none => anonymousGroup
      s!"\t{group}:{place.item.toNat}"

/-- The line of every group. -/
def groups (archive : Archive) : List String := archive.groups.map (groupName archive)

/-- The lines of every bank. -/
def banks (archive : Archive) : List String :=
  archive.banks.zipIdx.flatMap fun (bank, index) =>
    let name := (archive.name? bank.nameIndex).getD anonymousBank
    s!"{index}) {name}" :: placements archive bank.fileIndex

/-- What a sound plays. -/
def soundDescription (archive : Archive) : SoundKind → String
  | .sequence offset bank .. =>
    let name? := (archive.banks[bank.toNat]?).bind fun bank => archive.name? bank.nameIndex
    s!"off: {offset.toNat}, {name?.getD anonymousBank}"
  | .stream start .. => s!"+{start.toNat}"
  | .wave index .. => s!"#{index.toNat}"
  | .unknown _ => ""

/-- The line of a sound. -/
def soundLine (archive : Archive) (sound : SoundInfo) : String :=
  match archive.name? sound.nameIndex with
  | some name => s!"{name} | {sound.kind.name} | {soundDescription archive sound.kind}"
  | none => anonymousSound

/-- The lines of every sound. -/
def sounds (archive : Archive) : List String :=
  archive.sounds.zipIdx.flatMap fun (sound, index) =>
    s!"{index}) {soundLine archive sound}" :: placements archive sound.fileIndex

/-- The lines of an archive. -/
def archiveLines (options : ListOptions) (archive : Archive) : List String :=
  if options.groups || options.banks || options.sounds then
    (if options.groups then groups archive else [])
      ++ (if options.banks then banks archive else [])
      ++ (if options.sounds then sounds archive else [])
  else
    ["At least one of --groups, --banks, or --sounds must be specified for archives"]

/-! ## Banks -/

/-- The blanks in front of a line at some depth. -/
def indent (depth : Nat) : String := String.ofList (List.replicate (4 * depth) ' ')

mutual

/-- The lines of a region at some depth. -/
def regionLines (depth : Nat) : Region → List String
  | .leaf params => [s!"{indent depth}sample #: {params.waveIndex.toInt}"]
  | .ranges children => rangeLines depth children
  | .indexed min _ children => indexLines depth min.toNat children
  | .silent => [s!"{indent depth}sample: none"]

/-- The lines of children that divide by highest keys. -/
def rangeLines (depth : Nat) : List (UInt8 × Region) → List String
  | [] => []
  | (hi, child) :: children =>
    s!"{indent depth}range: up to {hi.toNat}" :: regionLines (depth + 1) child
      ++ rangeLines depth children

/-- The lines of children for every key from `key` on. -/
def indexLines (depth key : Nat) : List Region → List String
  | [] => []
  | child :: children =>
    s!"{indent depth}index {key}" :: regionLines (depth + 1) child
      ++ indexLines depth (key + 1) children

end

/-- The lines of a bank. -/
def bankLines (bank : Bank) : List String :=
  let programs := bank.programs.zipIdx.flatMap fun (program, index) =>
    s!"Program {index}" :: regionLines 1 program
  let waves := match bank.waves? with
    | some waves => s!"Embedded WAVE count: {waves.length}"
    | none => "Bank file does not embed any WAVE files"
  s!"Program count: {bank.programCount}" :: programs ++ [waves]

/-! ## Other containers -/

/-- The lines of a sequence. -/
def sequenceLines (sequence : SequenceFile) : List String :=
  s!"Label count: {sequence.labels.length}" ::
    sequence.labels.zipIdx.map fun (label, index) =>
      s!"{index}) {label.name}, offset: {label.offset.toNat}"

/-- The listing of a stream, which ends early if it has too many samples to count. -/
def ofStream (stream : Stream) : Listing :=
  let front := [
    s!"Track count: {stream.trackCount}",
    s!"Sample rate: {stream.info.rate.toNat}"]
  match stream.info.sampleCount with
  | .error error => ⟨front, some (.container error)⟩
  | .ok count =>
    let tracks := stream.tracks.zipIdx.flatMap fun (track, index) =>
      [s!"Track {index}", s!"\t# channels: {track.channels.length}"]
    ofLines (front ++ [
      s!"Sample count: {count.toNat}",
      s!"Sample format: {stream.info.format.name}"] ++ tracks)

/-- The lines of a wave. -/
def waveLines (wave : Wave) : List String := [
  s!"Channel count: {wave.info.channelCount.toNat}",
  s!"Sample rate: {wave.info.rate.toNat}",
  s!"Sample count: {wave.sampleCount.toNat}",
  s!"Sample format: {wave.info.format.name}"]

/-- The lines of a wave archive. -/
def waveArchiveLines (archive : WaveArchive) : List String :=
  [s!"WAVE count: {archive.waveCount}"]

/-- The lines of wave sounds. -/
def waveSoundLines (file : WaveSoundFile) : List String :=
  let sounds := file.sounds.zipIdx.map fun (sound, index) =>
    s!"\t{index}) {sound.tracks.length} tracks"
  let waves := if file.hasEmbeddedWaves then [] else ["WSD file does not embed any WAVE info"]
  s!"Sound count: {file.soundCount}" :: sounds ++ waves

/-- The listing of a container. -/
def ofFile (options : ListOptions) (file : Bytes) : Listing :=
  match Container.Kind.detect? file with
  | none => ofError .unknownContainer
  | some .archive => ofRead (Archive.read file) fun archive => ofLines (archiveLines options archive)
  | some .bank => ofRead (Bank.read file) fun bank => ofLines (bankLines bank)
  | some .sequence => ofRead (SequenceFile.read file) fun sequence => ofLines (sequenceLines sequence)
  | some .stream => ofRead (Stream.read file) ofStream
  | some .wave => ofRead (Wave.read file) fun wave => ofLines (waveLines wave)
  | some .waveArchive =>
    ofRead (WaveArchive.read file) fun archive => ofLines (waveArchiveLines archive)
  | some .waveSound => ofRead (WaveSoundFile.read file) fun sounds => ofLines (waveSoundLines sounds)

end Listing

end ConsoleSound

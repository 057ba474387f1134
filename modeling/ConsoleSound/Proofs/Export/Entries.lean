import ConsoleSound.Proofs.Export.Waves
/-! # The entries of an archive and their files

By groups, an archive is extracted item by item: each item has a directory of its own, with
its file, what the file is converted to, and its wave data, whole and taken apart. By sounds,
each sound with a name has a file beside those of the others. So the bytes of the archive
itself go to one file for each entry (`ExtractRequest.Extracts`), and all other files bear
other names: they are conversions, or waves with a number (`ExtractRequest.entry_of_writes`). -/

namespace ConsoleSound

/-! ## Extensions -/

namespace Container

end Container

/-! ## Files of entries -/

/-- The bytes of an entry of an archive, and the file that they are extracted to. -/
structure Entry where
  directory : Path
  /-- The name of the file without its extension. -/
  stem : String
  contents : Bytes

namespace Entry

/-- The path of the file. -/
def path (entry : Entry) : Path :=
  entry.directory.child s!"{entry.stem}.{Container.extensionFor entry.contents}"

end Entry

/-- The name of a group's directory. -/
def Archive.directoryName (archive : Archive) (group : Nat) : String :=
  safeName ((archive.groups[group]?.bind fun info => archive.string? info.nameIndex).getD
    anonymousGroup)

namespace ExtractRequest

open Export

variable {request : ExtractRequest} {archive : Archive} {path directory : Path}
  {file waveData contents : Bytes} {group item : Nat}

/-- The directory that an item is extracted to. -/
def itemDirectory (request : ExtractRequest) (archive : Archive) (group item : Nat) : Path :=
  (request.output.child (archive.directoryName group)).child (toString item)

/-- Whether the file of an item is decoded, if it is of a kind that can be, without an error. -/
def Decodes (request : ExtractRequest) (file waveData : Bytes) (directory : Path) : Prop :=
  (request.decodeItem file waveData directory).result = .ok ()

/-- Whether the extraction of the groups of an archive gets to an item: that of every item
before it comes to an end. -/
def Reaches (request : ExtractRequest) (archive : Archive) (group item : Nat) : Prop :=
  ∀ earlier before, earlier < group ∨ earlier = group ∧ before < item →
    (request.extractItem archive earlier before (request.itemDirectory archive earlier before)).Ends

end ExtractRequest

/-! ## What is extracted of an archive as it is -/

/-- The entries of an archive. -/
inductive EntryKey where
  /-- The file of an item of a group. -/
  | file (group item : Nat)
  /-- The wave data that goes with the file of an item. -/
  | waves (group item : Nat)
  | sound (index : Nat)
  deriving DecidableEq, Repr

namespace EntryKey

variable {group item group' item' index : Nat}

end EntryKey

/-- Whether an entry is extracted, with these bytes to this file: by groups the file of every
item that the archive stores, and its wave data if that is a wave archive and decoding the
file does not fail; by sounds the file of every sound that has a name. -/
inductive ExtractRequest.Extracts (request : ExtractRequest) (archive : Archive) :
    EntryKey → Entry → Prop where
  | file {group item : Nat} {file waveData : Bytes} (style : request.style = .groups)
      (stored : archive.groupFile group item = .ok file)
      (storedWaves : archive.groupWaveData group item = .ok waveData) :
      request.Extracts archive (.file group item)
        ⟨request.itemDirectory archive group item, "file", file⟩
  | waves {group item : Nat} {file waveData : Bytes} (style : request.style = .groups)
      (stored : archive.groupFile group item = .ok file)
      (storedWaves : archive.groupWaveData group item = .ok waveData)
      (kind : Container.Kind.detect? waveData = some .waveArchive)
      (decodes : request.decode = true →
        request.Decodes file waveData (request.itemDirectory archive group item)) :
      request.Extracts archive (.waves group item)
        ⟨request.itemDirectory archive group item, "wave", waveData⟩
  | sound {index : Nat} {sound : SoundInfo} {name : String} {file : Bytes}
      (style : request.style = .sounds) (stored : archive.sounds[index]? = some sound)
      (named : archive.name? sound.nameIndex = some name)
      (storedFile : archive.fileData sound.fileIndex.toNat = .ok file) :
      request.Extracts archive (.sound index) ⟨request.output, safeName name, file⟩

namespace ExtractRequest

open Export

variable {request : ExtractRequest} {archive : Archive} {path directory : Path}
  {file waveData contents : Bytes} {group item : Nat} {key : EntryKey} {entry : Entry}

end ExtractRequest

end ConsoleSound

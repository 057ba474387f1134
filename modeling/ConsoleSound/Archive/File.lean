import ConsoleSound.Archive.NameTree
import ConsoleSound.Archive.Records
import ConsoleSound.Container.Block
import ConsoleSound.Container.Kind
/-! # Sound archives

A sound archive bundles every sound of a game: names, records, and groups of files
with the wave data that goes with them. -/

namespace ConsoleSound

/-- The names of an archive and the trees that find them. -/
structure Symbols where
  strings : Array String
  sounds : NameTree
  players : NameTree
  groups : NameTree
  banks : NameTree
  deriving DecidableEq, Repr

namespace Symbols

/-- The symbols of an archive without names. -/
def empty : Symbols := ⟨#[], .empty, .empty, .empty, .empty⟩

/-- The symbols of the block whose body starts at `base`. -/
def read (view : View) (base : Nat) : Except Error Symbols := do
  let tree (entry : Nat) : Except Error NameTree := do
    NameTree.read view (base + (← view.offset (base + entry)))
  let table ← view.offset base
  let strings ← view.table (base + table) 4 fun entry => do
    view.cstr (base + (← view.offset entry))
  let sounds ← tree 4
  let players ← tree 8
  let groups ← tree 0x0c
  let banks ← tree 0x10
  return { strings := strings.toArray, sounds, players, groups, banks }

end Symbols

/-- The things that an archive has names for. -/
inductive NameKind where
  | sound
  | player
  | group
  | bank
  deriving DecidableEq, Repr

/-- A bundle of sounds. -/
structure Archive where
  header : Container.Header
  symbols : Symbols
  sounds : List SoundInfo
  banks : List BankInfo
  players : List PlayerInfo
  files : List FileInfo
  groups : List GroupInfo
  counts : SoundCounts
  view : View
  deriving DecidableEq, Repr

namespace Archive

/-- The archive that a file holds. -/
def read (file : Bytes) : Except Error Archive := do
  let (header, view) ← Container.openAs file Container.Kind.archive.magic
  let symbols ← match ← view.offset 0x10 with
    | 0 => pure .empty
    | _ => do
      let block ← Container.Block.locate view 0x10 (.ofChars 'S' 'Y' 'M' 'B')
      Symbols.read view block.base
  let info ← Container.Block.locate view 0x18 (.ofChars 'I' 'N' 'F' 'O')
  let base := info.base
  let sounds ← readTable view base base (SoundInfo.read view base)
  let banks ← readTable view base (base + 8) (BankInfo.read view)
  let players ← readTable view base (base + 16) (PlayerInfo.read view)
  let files ← readTable view base (base + 24) (FileInfo.read view base)
  let groups ← readTable view base (base + 32) (GroupInfo.read view base)
  let counts ← match ← view.follow? (base + 40) base with
    | some pos => SoundCounts.read view pos
    | none => pure .zero
  return { header, symbols, sounds, banks, players, files, groups, counts, view }

/-! ## Names -/

/-- String `index`; there is none for a negative index. -/
def string? (archive : Archive) (index : Int32) : Option String :=
  if index < 0 then none else archive.symbols.strings[index.toInt.toNat]?

/-- String `index`, for records whose name has no sign. -/
def name? (archive : Archive) (index : UInt32) : Option String :=
  if 0x7fffffff < index then none else archive.symbols.strings[index.toNat]?

/-- The tree of the names of one kind of thing. -/
def nameTree (archive : Archive) : NameKind → NameTree
  | .sound => archive.symbols.sounds
  | .player => archive.symbols.players
  | .group => archive.symbols.groups
  | .bank => archive.symbols.banks

/-- The id of a name. -/
def lookup (archive : Archive) (kind : NameKind) (name : String) : Option Int32 :=
  (archive.nameTree kind).lookup archive.string? name

/-! ## Records and contents -/

/-- Sound `index`. -/
def sound (archive : Archive) (index : Nat) : Except Error SoundInfo :=
  match archive.sounds[index]? with
  | some sound => .ok sound
  | none => notFound (.sound index)

/-- Group `index`. -/
def group (archive : Archive) (index : Nat) : Except Error GroupInfo :=
  match archive.groups[index]? with
  | some group => .ok group
  | none => notFound (.group index)

/-- File `index`. -/
def file (archive : Archive) (index : Nat) : Except Error FileInfo :=
  match archive.files[index]? with
  | some file => .ok file
  | none => notFound (.file index)

/-- An item of a group that is kept inside the archive, with the group. -/
def internalItem (archive : Archive) (group item : Nat) : Except Error (GroupInfo × GroupItem) := do
  let info ← archive.group group
  match info.items[item]? with
  | none => notFound (.groupItem item group)
  | some entry =>
    if info.isExternal then notFound (.externalGroup group) else return (info, entry)

/-- The bytes of the file in an item of a group. -/
def groupFile (archive : Archive) (group item : Nat) : Except Error Bytes := do
  let (info, entry) ← archive.internalItem group item
  archive.view.bytes (info.fileOffset.toNat + entry.fileOffset.toNat) entry.fileSize.toNat

/-- The wave data that goes with the file in an item of a group. -/
def groupWaveData (archive : Archive) (group item : Nat) : Except Error Bytes := do
  let (info, entry) ← archive.internalItem group item
  archive.view.bytes (info.waveDataOffset.toNat + entry.waveDataOffset.toNat)
    entry.waveDataSize.toNat

/-- The first place that stores a file inside the archive. -/
def firstPlacement (archive : Archive) (index : Nat) : Except Error Placement := do
  let info ← archive.file index
  match info.externalPath? with
  | some path => notFound (.externalFile index path)
  | none =>
    match info.placements with
    | place :: _ => return place
    | [] => notFound (.fileGroup index)

/-- The bytes of a file, from the first group that stores it. -/
def fileData (archive : Archive) (index : Nat) : Except Error Bytes := do
  let place ← archive.firstPlacement index
  archive.groupFile place.group.toNat place.item.toNat

/-- The wave data that goes with a file, from the first group that stores it. -/
def fileWaveData (archive : Archive) (index : Nat) : Except Error Bytes := do
  let place ← archive.firstPlacement index
  archive.groupWaveData place.group.toNat place.item.toNat

end Archive

end ConsoleSound

import ConsoleSound.Reference
/-! # Records of an archive

An archive describes its sounds, banks, players, files and groups by records that
refer to one another by number. -/

namespace ConsoleSound

/-! ## Sounds -/

/-- What kind of sound a record describes, with the data of that kind. -/
inductive SoundKind where
  | sequence (offset bank allocTrack : UInt32) (channelPriority : UInt8)
  | stream (startPosition : UInt32) (allocChannelCount allocTrackFlag : UInt16)
  | wave (index allocTrack : UInt32) (channelPriority : UInt8)
  | unknown (code : UInt8)
  deriving DecidableEq, Repr

namespace SoundKind

/-- The name of a kind. -/
def name : SoundKind → String
  | sequence .. => "SEQ"
  | stream .. => "STRM"
  | wave .. => "WAVE"
  | unknown _ => "UNK"

/-- The kind that a code and the record of its data give; a kind without its data
is unknown. -/
def read (view : View) (code : UInt8) (data? : Option Nat) : Except Error SoundKind :=
  match code, data? with
  | 1, some pos => do
    let offset ← view.u32 pos
    let bank ← view.u32 (pos + 4)
    let allocTrack ← view.u32 (pos + 8)
    let channelPriority ← view.u8 (pos + 0x0c)
    return sequence offset bank allocTrack channelPriority
  | 2, some pos => do
    let startPosition ← view.u32 pos
    let allocChannelCount ← view.u16 (pos + 4)
    let allocTrackFlag ← view.u16 (pos + 6)
    return stream startPosition allocChannelCount allocTrackFlag
  | 3, some pos => do
    let index ← view.u32 pos
    let allocTrack ← view.u32 (pos + 4)
    let channelPriority ← view.u8 (pos + 8)
    return wave index allocTrack channelPriority
  | code, _ => .ok (unknown code)

end SoundKind

/-- A sound of an archive. -/
structure SoundInfo where
  nameIndex : UInt32
  fileIndex : UInt32
  playerId : UInt32
  volume : UInt8
  playerPriority : UInt8
  remoteFilter : UInt8
  panMode : UInt8
  panCurve : UInt8
  actorPlayerId : UInt8
  kind : SoundKind
  deriving DecidableEq, Repr

/-- The sound record at `pos`. -/
def SoundInfo.read (view : View) (base pos : Nat) : Except Error SoundInfo := do
  let code ← view.u8 (pos + 0x16)
  let data? ← view.follow? (pos + 0x18) base
  let kind ← SoundKind.read view code data?
  let nameIndex ← view.u32 pos
  let fileIndex ← view.u32 (pos + 4)
  let playerId ← view.u32 (pos + 8)
  let volume ← view.u8 (pos + 0x14)
  let playerPriority ← view.u8 (pos + 0x15)
  let remoteFilter ← view.u8 (pos + 0x17)
  let panMode ← view.u8 (pos + 0x28)
  let panCurve ← view.u8 (pos + 0x29)
  let actorPlayerId ← view.u8 (pos + 0x2a)
  return {
    nameIndex, fileIndex, playerId, volume, playerPriority, remoteFilter, panMode, panCurve,
    actorPlayerId, kind }

/-! ## Banks and players -/

/-- A bank of an archive. -/
structure BankInfo where
  nameIndex : UInt32
  fileIndex : UInt32
  deriving DecidableEq, Repr

/-- The bank record at `pos`. -/
def BankInfo.read (view : View) (pos : Nat) : Except Error BankInfo := do
  let nameIndex ← view.u32 pos
  let fileIndex ← view.u32 (pos + 4)
  return { nameIndex, fileIndex }

/-- A player of an archive. -/
structure PlayerInfo where
  nameIndex : UInt32
  soundCount : UInt8
  heapSize : UInt32
  deriving DecidableEq, Repr

/-- The player record at `pos`. -/
def PlayerInfo.read (view : View) (pos : Nat) : Except Error PlayerInfo := do
  let nameIndex ← view.u32 pos
  let soundCount ← view.u8 (pos + 4)
  let heapSize ← view.u32 (pos + 8)
  return { nameIndex, soundCount, heapSize }

/-! ## Files and groups -/

/-- The path of something kept outside the archive, if the reference at `pos` names one. -/
def readExternalPath (view : View) (base pos : Nat) : Except Error (Option String) := do
  match ← view.follow? pos base with
  | some path => some <$> view.cstr path
  | none => return none

/-- The records behind the table that the reference at `pos` names, if it names one. -/
def readTable {α : Type} (view : View) (base pos : Nat) (read : Nat → Except Error α) :
    Except Error (List α) := do
  match ← view.follow? pos base with
  | some table => view.records table base read
  | none => return []

/-- The item of a group that stores a file. -/
structure Placement where
  group : UInt32
  item : UInt32
  deriving DecidableEq, Repr

/-- The placement at `pos`. -/
def Placement.read (view : View) (pos : Nat) : Except Error Placement := do
  let group ← view.u32 pos
  let item ← view.u32 (pos + 4)
  return { group, item }

/-- A file of an archive. -/
structure FileInfo where
  fileSize : UInt32
  waveDataSize : UInt32
  externalPath? : Option String
  placements : List Placement
  deriving DecidableEq, Repr

/-- The file record at `pos`. -/
def FileInfo.read (view : View) (base pos : Nat) : Except Error FileInfo := do
  let placements ← readTable view base (pos + 0x14) (Placement.read view)
  let fileSize ← view.u32 pos
  let waveDataSize ← view.u32 (pos + 4)
  let externalPath? ← readExternalPath view base (pos + 0x0c)
  return { fileSize, waveDataSize, externalPath?, placements }

/-- One file in a group, with its place in the group's files and wave data. -/
structure GroupItem where
  fileIndex : UInt32
  fileOffset : UInt32
  fileSize : UInt32
  waveDataOffset : UInt32
  waveDataSize : UInt32
  deriving DecidableEq, Repr

/-- The item record at `pos`. -/
def GroupItem.read (view : View) (pos : Nat) : Except Error GroupItem := do
  let fileIndex ← view.u32 pos
  let fileOffset ← view.u32 (pos + 4)
  let fileSize ← view.u32 (pos + 8)
  let waveDataOffset ← view.u32 (pos + 0x0c)
  let waveDataSize ← view.u32 (pos + 0x10)
  return { fileIndex, fileOffset, fileSize, waveDataOffset, waveDataSize }

/-- Files that are loaded together. -/
structure GroupInfo where
  /-- Negative for a group without a name. -/
  nameIndex : Int32
  entryNumber : UInt32
  externalPath? : Option String
  fileOffset : UInt32
  fileSize : UInt32
  waveDataOffset : UInt32
  waveDataSize : UInt32
  items : List GroupItem
  deriving DecidableEq, Repr

namespace GroupInfo

/-- The group record at `pos`. -/
def read (view : View) (base pos : Nat) : Except Error GroupInfo := do
  let items ← readTable view base (pos + 0x20) (GroupItem.read view)
  let nameIndex ← view.i32 pos
  let entryNumber ← view.u32 (pos + 4)
  let externalPath? ← readExternalPath view base (pos + 8)
  let fileOffset ← view.u32 (pos + 0x10)
  let fileSize ← view.u32 (pos + 0x14)
  let waveDataOffset ← view.u32 (pos + 0x18)
  let waveDataSize ← view.u32 (pos + 0x1c)
  return {
    nameIndex, entryNumber, externalPath?, fileOffset, fileSize, waveDataOffset, waveDataSize,
    items }

/-- Whether the group is kept outside the archive. -/
def isExternal (group : GroupInfo) : Bool := group.externalPath?.isSome

end GroupInfo

/-! ## Counts -/

/-- How many sounds and tracks of each kind play at once. -/
structure SoundCounts where
  sequenceSounds : UInt16
  sequenceTracks : UInt16
  streamSounds : UInt16
  streamTracks : UInt16
  streamChannels : UInt16
  waveSounds : UInt16
  waveTracks : UInt16
  deriving DecidableEq, Repr

namespace SoundCounts

/-- The counts of an archive that stores none. -/
def zero : SoundCounts := ⟨0, 0, 0, 0, 0, 0, 0⟩

/-- The counts at `pos`. -/
def read (view : View) (pos : Nat) : Except Error SoundCounts := do
  let sequenceSounds ← view.u16 pos
  let sequenceTracks ← view.u16 (pos + 2)
  let streamSounds ← view.u16 (pos + 4)
  let streamTracks ← view.u16 (pos + 6)
  let streamChannels ← view.u16 (pos + 8)
  let waveSounds ← view.u16 (pos + 0x0a)
  let waveTracks ← view.u16 (pos + 0x0c)
  return {
    sequenceSounds, sequenceTracks, streamSounds, streamTracks, streamChannels, waveSounds,
    waveTracks }

end SoundCounts

end ConsoleSound

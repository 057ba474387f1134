import ConsoleSound.Instrument.Bank
import ConsoleSound.Wave.Archive
/-! # Wave sounds

A wave sound is a short sound of a few notes on tracks. A file of them either
holds the records of its waves, with the samples beside the file, or plays the
waves of a wave archive. -/

namespace ConsoleSound

/-- How a wave sound is mixed. -/
structure WaveSoundInfo where
  /-- The pitch factor, as the bits of a single-precision number. -/
  pitch : UInt32
  pan : UInt8
  surroundPan : UInt8
  effectSends : Vector UInt8 3
  mainSend : Int8
  deriving DecidableEq, Repr

/-- The mix stored at `pos`. -/
def WaveSoundInfo.read (view : View) (pos : Nat) : Except Error WaveSoundInfo := do
  let _ ← view.bytes (pos + 4) 6
  let pitch ← view.u32 pos
  let pan ← view.u8 (pos + 4)
  let surroundPan ← view.u8 (pos + 5)
  let effectSends ← Vector.ofFnM fun index => view.u8 (pos + 6 + index.val)
  let mainSend ← view.i8 (pos + 9)
  return { pitch, pan, surroundPan, effectSends, mainSend }

/-- A note on a track; times are the bits of single-precision numbers. -/
structure NoteEvent where
  position : UInt32
  length : UInt32
  noteIndex : UInt32
  deriving DecidableEq, Repr

/-- The note stored at `pos`. -/
def NoteEvent.read (view : View) (pos : Nat) : Except Error NoteEvent := do
  let position ← view.u32 pos
  let length ← view.u32 (pos + 4)
  let noteIndex ← view.u32 (pos + 8)
  return { position, length, noteIndex }

/-- A sound made of notes. -/
structure WaveSound where
  info? : Option WaveSoundInfo
  tracks : List (List NoteEvent)
  notes : List InstrumentParams
  deriving DecidableEq, Repr

namespace WaveSound

/-- The sound of an unused entry. -/
def absent : WaveSound := ⟨none, [], []⟩

/-- The notes of the track whose record is at `pos`. -/
def readTrack (view : View) (base pos : Nat) : Except Error (List NoteEvent) := do
  match ← view.follow? pos base with
  | some events => view.records events base (NoteEvent.read view)
  | none => return []

/-- The tracks of the table at `pos`; an absent track has no notes. -/
def readTracks (view : View) (base pos : Nat) : Except Error (List (List NoteEvent)) := do
  (← view.targets pos base).mapM fun target? =>
    match target? with
    | some track => readTrack view base track
    | none => .ok []

/-- The sound whose record is at `pos`. -/
def read (view : View) (base pos : Nat) : Except Error WaveSound := do
  let info? ← match ← view.follow? pos base with
    | some info => some <$> WaveSoundInfo.read view info
    | none => pure none
  let tracks ← match ← view.follow? (pos + 8) base with
    | some table => readTracks view base table
    | none => pure []
  let notes ← match ← view.follow? (pos + 16) base with
    | some table => view.records table base (InstrumentParams.read view)
    | none => pure []
  return { info?, tracks, notes }

end WaveSound

/-- Where the waves of wave sounds are. -/
inductive WaveSource where
  /-- Their records are in the file, their samples beside it. -/
  | embedded (waves : List WaveInfo)
  /-- They are whole files in a wave archive beside the file. -/
  | archive
  deriving DecidableEq, Repr

/-- A file of wave sounds. -/
structure WaveSoundFile where
  header : Container.Header
  sounds : List WaveSound
  waves : WaveSource
  view : View
  deriving DecidableEq, Repr

namespace WaveSoundFile

/-- The first version that plays waves of an archive. -/
def archiveVersion : UInt16 := 0x0103

/-- The wave records of the block at `base`. -/
def readWaves (view : View) (base : Nat) : Except Error (List WaveInfo) :=
  view.table base 4 fun entry => do
    WaveInfo.read view (base + (← view.offset entry))

/-- The wave sounds that a file holds. -/
def read (file : Bytes) : Except Error WaveSoundFile := do
  let (header, view) ← Container.openAs file Container.Kind.waveSound.magic
  let data ← Container.Block.locate view 0x10 (.ofChars 'D' 'A' 'T' 'A')
  let sounds ← (← view.targets data.base data.base).mapM fun target? =>
    match target? with
    | some pos => WaveSound.read view data.base pos
    | none => .ok WaveSound.absent
  let wavesOffset ← view.offset 0x18
  let waves ← if header.version < archiveVersion ∧ wavesOffset ≠ 0 then do
      let block ← Container.Block.locate view 0x18 (.ofChars 'W' 'A' 'V' 'E')
      WaveSource.embedded <$> readWaves view block.base
    else pure .archive
  return { header, sounds, waves, view }

/-- The number of sounds. -/
def soundCount (file : WaveSoundFile) : Nat := file.sounds.length

/-- Sound `index`. -/
def sound (file : WaveSoundFile) (index : Nat) : Except Error WaveSound :=
  match file.sounds[index]? with
  | some sound => .ok sound
  | none => notFound (.waveSound index)

/-- What note `index` of a sound plays. -/
def note (file : WaveSoundFile) (sound index : Nat) : Except Error InstrumentParams := do
  match (← file.sound sound).notes[index]? with
  | some params => return params
  | none => notFound (.note index sound)

/-- Whether the records of the waves are in the file. -/
def hasEmbeddedWaves (file : WaveSoundFile) : Bool :=
  match file.waves with
  | .embedded _ => true
  | .archive => false

/-- The number of waves in the file or in the archive beside it. -/
def waveCount (file : WaveSoundFile) (waveData : Bytes) : Except Error Nat :=
  match file.waves with
  | .embedded waves => .ok waves.length
  | .archive => (WaveArchive.read waveData).map WaveArchive.waveCount

/-- The samples of wave `index`, wherever it is. -/
def decodeWave (file : WaveSoundFile) (index : Nat) (waveData : Bytes) : Except Error Audio :=
  match file.waves with
  | .embedded waves =>
    match waves[index]? with
    | some info => info.decodeEmbedded file.view.order waveData
    | none => notFound (.embeddedWave index)
  | .archive => do
    let archive ← WaveArchive.read waveData
    (← Wave.read (← archive.wave index)).decode

end WaveSoundFile

end ConsoleSound

import ConsoleSound.Midi.Track
/-! # MIDI files

A file of format 1 holds tracks that play together. Every track is written with the
file's global events merged in, in the order of ticks and ranks, and ends once. -/

namespace ConsoleSound.Midi

/-- The ticks of a quarter note that sequences start with. -/
def defaultResolution : UInt16 := 48

/-- Tracks that play together. -/
structure File where
  /-- Ticks of a quarter note. -/
  resolution : UInt16
  tracks : List Track
  /-- Events that are merged into every track. -/
  shared : List Event
  deriving DecidableEq, Repr

namespace File

/-- The file without tracks. -/
def empty (resolution : UInt16) : File := ⟨resolution, [], []⟩

/-- Shifts the keys of all notes after a tick. -/
def addTranspose (file : File) (tick : UInt32) (semitones : Int8) : File :=
  { file with shared := file.shared ++ [Event.at tick 0 (.globalTranspose semitones)] }

/-- Whether an event is written before, or may stay before, another one. -/
def inOrder (first second : Event) : Bool :=
  first.time < second.time
    || (first.time = second.time && first.priority.rank ≤ second.priority.rank)

/-- The events of a track and the shared ones in output order, the track's own first
among equals. -/
def mergedEvents (file : File) (track : Track) : List Event :=
  (track.events.toList.filter (·.kind ≠ .endOfTrack) ++ file.shared).mergeSort inOrder

/-- The events of a track in output order with the end of the track. -/
def orderedEvents (file : File) (track : Track) : List Event :=
  let events := file.mergedEvents track
  events ++ [Event.at (max (Track.latest events) track.cursor) 0 .endOfTrack]

/-! ## Writing -/

/-- Some bytes followed by those of the events of a track. -/
def writeEvents : (cursor : Cursor) → List Event → (written : Array UInt8) → Array UInt8
  | _, [], written => written
  | cursor, event :: events, written =>
    let (bytes, cursor) := event.write cursor
    writeEvents cursor events (written ++ bytes)

/-- The body of a track. -/
def trackBody (file : File) (track : Track) : Array UInt8 :=
  writeEvents .start (file.orderedEvents track) #[]

/-- A chunk: its code, the length of its body, and the body. -/
def chunk (code : List UInt8) (body : Array UInt8) : Array UInt8 :=
  code.toArray ++ ByteOrder.big.spell 4 body.size ++ body

/-- The header chunk: format 1, the number of tracks and the resolution. -/
def headerChunk (file : File) : Array UInt8 :=
  chunk [0x4d, 0x54, 0x68, 0x64] (ByteOrder.big.spell 2 1
    ++ ByteOrder.big.spell 2 file.tracks.length ++ ByteOrder.big.spell 2 file.resolution.toNat).toArray

/-- The chunk of a track. -/
def trackChunk (file : File) (track : Track) : Array UInt8 :=
  chunk [0x4d, 0x54, 0x72, 0x6b] (file.trackBody track)

/-- The bytes of a file. -/
def toBytes (file : File) : Array UInt8 :=
  file.tracks.foldl (fun written track => written ++ file.trackChunk track) file.headerChunk

end File

end ConsoleSound.Midi

import ConsoleSound.Sequence.Player
import ConsoleSound.Sequence.File
/-! # Sequences as MIDI files

A sequence starts with one track, and tracks open others. The tracks wait in a queue
and are played one after the other, each to its end, before the tracks that it opened.
A track may open itself, so the queue need not run dry. `convert?` plays until it does, and
has no result if it never does; `convertWithin` plays a number of tracks at most and says
so if more are waiting. -/

namespace ConsoleSound

/-- What to convert, and how. -/
structure Converter where
  code : Bytes
  entry : UInt32
  mode : NoteMode
  /-- The ticks of a quarter note, unless an instruction sets them. -/
  resolution : UInt16
  deriving DecidableEq, Repr

/-- The usual way to convert some code: from its start, striking notes again. -/
def Converter.ofCode (code : Bytes) : Converter :=
  { code, entry := 0, mode := .retrigger, resolution := Midi.defaultResolution }

/-- The usual way to convert a sequence file, from a label if one is named. -/
def Converter.ofFile (file : SequenceFile) (label? : Option String) :
    Except SequenceError Converter :=
  let converter := Converter.ofCode file.code
  match label? with
  | none => .ok converter
  | some name =>
    match file.label? name with
    | some offset => .ok { converter with entry := offset }
    | none => .error (.unknownLabel name)

/-- A track that an error ended; its events up to the error are kept. -/
structure TrackError where
  /-- The number of the track in the MIDI file. -/
  track : Nat
  player : UInt8
  error : SequenceError
  deriving DecidableEq, Repr

/-- The wording of a track's error. -/
def TrackError.message (error : TrackError) : String :=
  s!"track {error.track} (player track {error.player.toNat}): {error.error.message}"

/-- A conversion under way: the tracks played, those that wait, and the errors. -/
structure Conversion where
  resolution : UInt16
  tracks : Array Midi.Track
  errors : Array TrackError
  queue : List PendingTrack
  deriving DecidableEq, Repr

namespace Conversion

/-- The conversion before its first track. -/
def start (converter : Converter) : Conversion where
  resolution := converter.resolution
  tracks := #[]
  errors := #[]
  queue := [⟨0, 0, converter.entry⟩]

/-- Whether no track ended with an error. -/
def isClean (conversion : Conversion) : Bool := conversion.errors.isEmpty

/-- The MIDI file of the tracks played so far. -/
def midi (conversion : Conversion) : Midi.File where
  resolution := conversion.resolution
  tracks := conversion.tracks.toList
  shared := []

/-- Plays the first track that waits. -/
def playNext (converter : Converter) (conversion : Conversion) : Conversion :=
  match conversion.queue with
  | [] => conversion
  | pending :: waiting =>
    let (player, error?) :=
      (Player.start converter.code converter.mode conversion.resolution pending).run
    let errors := match error? with
      | some error => conversion.errors.push ⟨conversion.tracks.size, pending.player, error⟩
      | none => conversion.errors
    { resolution := player.resolution
      tracks := conversion.tracks.push player.track
      errors
      queue := waiting ++ player.opened.toList }

/-- Plays at most `count` of the tracks that wait. -/
def playAll (converter : Converter) : (count : Nat) → Conversion → Conversion
  | 0, conversion => conversion
  | count + 1, conversion =>
    if conversion.queue.isEmpty then conversion
    else playAll converter count (conversion.playNext converter)

/-- Plays all the tracks that wait and those that they open; none if there is always one
more. -/
def playOut? (converter : Converter) (conversion : Conversion) : Option Conversion :=
  if conversion.queue.isEmpty then some conversion
  else conversion.playNext converter |>.playOut? converter
partial_fixpoint

end Conversion

/-- The conversion of a sequence of at most `count` tracks; none if there are more. -/
def Converter.convertWithin (converter : Converter) (count : Nat) : Option Conversion :=
  let conversion := (Conversion.start converter).playAll converter count
  if conversion.queue.isEmpty then some conversion else none

/-- The conversion of a sequence; none if it opens tracks without end. -/
def Converter.convert? (converter : Converter) : Option Conversion :=
  (Conversion.start converter).playOut? converter

end ConsoleSound

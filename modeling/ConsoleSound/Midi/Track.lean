import ConsoleSound.Midi.Event
/-! # MIDI tracks

A track collects events in the order they are made, at a cursor that moves forward.
A note of known duration makes its note-off at once; note-offs that still lie ahead
are kept track of, so that a new note on the same key can cut the old one. -/

namespace ConsoleSound.Midi

/-- The sum of two ticks, at most the last tick. -/
def addTicks (left right : UInt32) : UInt32 :=
  UInt32.ofNat (min 0xffffffff (left.toNat + right.toNat))

/-- The events of a track in the order they were made. -/
structure Track where
  events : Array Event
  /-- The tick of the events made next. -/
  cursor : UInt32
  /-- Where in `events` the note-offs are that still lie ahead. -/
  openOffs : List Nat
  deriving DecidableEq, Repr, Inhabited

namespace Track

/-- The track without events. -/
def empty : Track := ⟨#[], 0, []⟩

/-- The latest tick of some events, zero if there are none. -/
def latest (events : List Event) : UInt32 :=
  events.foldl (fun tick event => max tick event.time) 0

/-- The tick of the track's end: that of the last event or the cursor. -/
def endTime (track : Track) : UInt32 := max (latest track.events.toList) track.cursor

/-- A track with the cursor at a tick. -/
def setCursor (track : Track) (tick : UInt32) : Track := { track with cursor := tick }

/-- A track with the cursor moved forward. -/
def advance (track : Track) (ticks : UInt32) : Track :=
  { track with cursor := addTicks track.cursor ticks }

/-- A track with one more event. -/
def push (track : Track) (event : Event) : Track :=
  { track with events := track.events.push event }

/-- A track with one more event at the cursor. -/
def add (track : Track) (channel : UInt8) (kind : EventKind) : Track :=
  track.push (Event.at track.cursor channel kind)

/-! ## Notes -/

/-- Forgets the note-offs that lie ahead. -/
def forgetOffs (track : Track) : Track := { track with openOffs := [] }

/-- Forgets the note-offs at or before a tick. -/
def forgetOffsUntil (track : Track) (tick : UInt32) : Track :=
  { track with openOffs := track.openOffs.filter fun index =>
      match track.events[index]? with
      | some event => tick < event.time
      | none => false }

/-- Whether the event of an index ends a note of some channel and key. -/
def endsNote (track : Track) (channel key : UInt8) (index : Nat) : Bool :=
  match track.events[index]? with
  | some event => event.channel = channel && event.kind = .noteOff key
  | none => false

/-- A track with the event of an index moved to a tick. -/
def moveEvent (track : Track) (tick : UInt32) (index : Nat) : Track :=
  { track with events := track.events.modify index fun event => { event with time := tick } }

/-- Ends the notes of a channel and a key at the cursor, if their note-offs lie ahead. -/
def cutNotes (track : Track) (channel key : UInt8) : Track :=
  let track := track.forgetOffsUntil track.cursor
  let stale := track.openOffs.filter (track.endsNote channel key)
  let kept := track.openOffs.filter fun index => !track.endsNote channel key index
  { stale.foldl (fun track index => track.moveEvent track.cursor index) track with openOffs := kept }

/-- Plays a note at the cursor, cutting one that still sounds on its key. -/
def addNote (track : Track) (channel key velocity : UInt8) (duration : UInt32) : Track :=
  let channel := channelOf channel
  let track := (track.cutNotes channel key).add channel (.noteOn key velocity)
  let off := Event.at (addTicks track.cursor duration) channel (.noteOff key)
  { track.push off with openOffs := track.openOffs ++ [track.events.size] }

/-- Plays a note at the cursor, or extends the one that still sounds on its key. -/
def addNoteContinuing (track : Track) (channel key velocity : UInt8) (duration : UInt32) : Track :=
  let channel := channelOf channel
  let sounding? := track.events.findIdx? fun event =>
    track.cursor < event.time && event.channel = channel && event.kind = .noteOff key
  match sounding? with
  | some index => track.moveEvent (addTicks track.cursor duration) index
  | none => track.addNote channel key velocity duration

/-! ## Other messages -/

/-- Sets a controller. -/
def addController (track : Track) (channel controller value : UInt8) : Track :=
  track.add channel (.controller controller value)

/-- Chooses a program. -/
def addProgram (track : Track) (channel program : UInt8) : Track :=
  track.add channel (.programChange program)

/-- Sets the depth of modulation. -/
def addModulation (track : Track) (channel depth : UInt8) : Track :=
  track.addController channel 1 depth

/-- Sets the time of a glide. -/
def addPortamentoTime (track : Track) (channel time : UInt8) : Track :=
  track.addController channel 5 time

/-- Sets the volume of a channel. -/
def addVolume (track : Track) (channel volume : UInt8) : Track :=
  track.addController channel 7 volume

/-- Sets the pan of a channel. -/
def addPan (track : Track) (channel pan : UInt8) : Track := track.addController channel 10 pan

/-- Sets the expression of a channel. -/
def addExpression (track : Track) (channel expression : UInt8) : Track :=
  track.addController channel 11 expression

/-- Switches gliding on or off. -/
def addPortamento (track : Track) (channel : UInt8) (on : Bool) : Track :=
  track.addController channel 65 (if on then 0x7f else 0)

/-- Sets the key that the next note glides from. -/
def addPortamentoControl (track : Track) (channel key : UInt8) : Track :=
  track.addController channel 84 key

/-- Sets the volume of the whole device. -/
def addMasterVolume (track : Track) (volume : UInt8) : Track :=
  track.add 0 (.sysex [0x7f, 0x7f, 0x04, 0x01, 0x00, dataByte volume])

/-- Bends the pitch of a channel. -/
def addPitchBend (track : Track) (channel : UInt8) (bend : Int16) : Track :=
  track.add channel (.pitchBend bend)

/-- Sets how far bends reach, through the registered parameter for it. The four
controllers come before anything else of their tick. -/
def addBendRange (track : Track) (channel semitones cents : UInt8) : Track :=
  [(101, 0), (100, 0), (6, semitones), (38, cents)].foldl
    (fun track (controller, value) =>
      track.push { Event.at track.cursor channel (.controller controller value) with
        priority := .highest })
    track

/-- Sets the tempo in microseconds per quarter note. -/
def addTempo (track : Track) (micros : UInt32) : Track := track.add 0 (.tempo micros)

/-- Microseconds per quarter note at a number of beats per minute, to the nearest. -/
def microsPerBeat (bpm : Float) : UInt32 := (60000000.0 / bpm).round.toUInt32

/-- Sets the tempo in beats per minute; only a positive one has a meaning. -/
def addTempoBpm (track : Track) (bpm : Float) : Track :=
  if bpm > 0.0 then track.addTempo (microsPerBeat bpm) else track

end Track

end ConsoleSound.Midi

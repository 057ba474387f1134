import ConsoleSound.ByteOrder
import ConsoleSound.Midi.VariableLength
/-! # MIDI events

Events have an absolute tick. Written to a track, each gives the ticks since the
event before it and its message; a global transpose gives no bytes but moves the
keys of later notes, percussion apart. -/

namespace ConsoleSound.Midi

/-- The rank of an event among those of its tick; lower ranks are written first. -/
inductive Priority where
  | highest
  | higher
  | high
  | middle
  | low
  | lower
  | lowest
  deriving DecidableEq, Repr, Inhabited

/-- The place of a rank, zero for the first. -/
def Priority.rank : Priority → Nat
  | highest => 0
  | higher => 1
  | high => 2
  | middle => 3
  | low => 4
  | lower => 5
  | lowest => 6

/-- What an event does. -/
inductive EventKind where
  | noteOn (key velocity : UInt8)
  | noteOff (key : UInt8)
  | controller (controller value : UInt8)
  | programChange (program : UInt8)
  /-- A bend around the centre. -/
  | pitchBend (bend : Int16)
  /-- Microseconds per quarter note. -/
  | tempo (micros : UInt32)
  /-- A system message, without the bytes that open and close it. -/
  | sysex (payload : List UInt8)
  /-- Shifts the keys of later notes by semitones. -/
  | globalTranspose (semitones : Int8)
  | endOfTrack
  deriving DecidableEq, Repr, Inhabited

/-- The rank of an event that is not given another: tempo first, notes late, the end last. -/
def EventKind.priority : EventKind → Priority
  | tempo _ | globalTranspose _ => .highest
  | sysex _ => .higher
  | programChange _ => .high
  | controller .. | pitchBend _ => .middle
  | noteOn .. | noteOff _ => .lower
  | endOfTrack => .lowest

/-- An event at a tick. -/
structure Event where
  time : UInt32
  channel : UInt8
  priority : Priority
  kind : EventKind
  deriving DecidableEq, Repr, Inhabited

/-- One of the sixteen channels. -/
def channelOf (number : UInt8) : UInt8 := UInt8.ofNat (number.toNat % 16)

/-- An event of the usual rank. -/
def Event.at (time : UInt32) (channel : UInt8) (kind : EventKind) : Event :=
  { time, channel := channelOf channel, priority := kind.priority, kind }

/-- A key moved by semitones, kept among the 128 keys. -/
def shiftKey (key : UInt8) (semitones : Int8) : UInt8 :=
  UInt8.ofNat (min 127 (key.toNat + semitones.toInt).toNat)

/-! ## Writing -/

/-- What one event of a track leaves for the next. -/
structure Cursor where
  /-- The tick of the last event written. -/
  tick : UInt32
  /-- The transposition of the notes that follow. -/
  transpose : Int8
  deriving DecidableEq, Repr

/-- The cursor at the start of a track. -/
def Cursor.start : Cursor := ⟨0, 0⟩

/-- The seven low bits of a byte. -/
def dataByte (byte : UInt8) : UInt8 := UInt8.ofNat (byte.toNat % 128)

/-- The key that a note is written with. Percussion, on the tenth channel, is not transposed. -/
def Cursor.key (cursor : Cursor) (channel key : UInt8) : UInt8 :=
  if channel = 9 then dataByte key else shiftKey key cursor.transpose

/-- A meta event: its code, its length and its data. -/
def metaMessage (code : UInt8) (data : List UInt8) : List UInt8 :=
  0xff :: code :: variableLength (UInt32.ofNat data.length) ++ data

/-- The bend of a message, in two groups of seven bits, the low one first. -/
def bendBytes (bend : Int16) : List UInt8 :=
  let value := min 0x3fff (bend.toInt + 0x2000).toNat
  [UInt8.ofNat (value % 128), UInt8.ofNat (value / 128)]

/-- The message of an event; a global transpose has none. -/
def Event.message (event : Event) (cursor : Cursor) : List UInt8 :=
  let status (base : UInt8) := base ||| event.channel
  match event.kind with
  | .noteOn key velocity => [status 0x90, cursor.key event.channel key, dataByte velocity]
  | .noteOff key => [status 0x80, cursor.key event.channel key, 0x40]
  | .controller controller value => [status 0xb0, dataByte controller, dataByte value]
  | .programChange program => [status 0xc0, dataByte program]
  | .pitchBend bend => status 0xe0 :: bendBytes bend
  | .tempo micros => metaMessage 0x51 (ByteOrder.big.spell 3 (min micros.toNat 0xffffff))
  | .sysex payload =>
    0xf0 :: variableLength (UInt32.ofNat (payload.length + 1)) ++ payload ++ [0xf7]
  | .globalTranspose _ => []
  | .endOfTrack => metaMessage 0x2f []

/-- The bytes of an event after the events before it, and the cursor after it. -/
def Event.write (event : Event) (cursor : Cursor) : List UInt8 × Cursor :=
  match event.kind with
  | .globalTranspose semitones => ([], { cursor with transpose := semitones })
  | _ =>
    let delta := UInt32.ofNat (event.time.toNat - cursor.tick.toNat)
    (variableLength delta ++ event.message cursor, { cursor with tick := max event.time cursor.tick })

end ConsoleSound.Midi

import ConsoleSound.Sequence.Instruction
import ConsoleSound.Midi.File
/-! # Playing a track

A track is played by an interpreter that executes one instruction a step and writes
what it hears into a MIDI track. Loops and calls nest to a limited depth, a jump to
the same target ends the track the second time, and no track executes more than
`stepLimit` instructions. -/

namespace ConsoleSound

/-- How deep calls nest, and how deep loops nest. -/
def nestingLimit : Nat := 64

/-- What a note does while its key still sounds. -/
inductive NoteMode where
  /-- It cuts the sounding note and strikes again. -/
  | retrigger
  /-- It extends the sounding note. -/
  | continueNote
  deriving DecidableEq, Repr, Inhabited

/-- A track that waits to be played. -/
structure PendingTrack where
  /-- The number of the track in its player. -/
  player : UInt8
  /-- The tick at which it starts. -/
  start : UInt32
  offset : UInt32
  deriving DecidableEq, Repr

/-- A loop that is being played. -/
structure LoopFrame where
  start : Nat
  /-- How often the body is still to be played, this time included. -/
  remaining : UInt8
  deriving DecidableEq, Repr

/-- The state of a track while it is played. -/
structure Player where
  code : Bytes
  mode : NoteMode
  channel : UInt8
  offset : Nat
  register : ArgumentRegister
  /-- Where the open calls return to, innermost first. -/
  calls : List Nat
  /-- The open loops, innermost first. -/
  loops : List LoopFrame
  /-- The targets of the jumps taken. -/
  jumps : List UInt32
  transpose : Int8
  /-- Whether a note takes the time that it lasts. -/
  noteWait : Bool
  track : Midi.Track
  resolution : UInt16
  /-- The tracks opened so far. -/
  opened : Array PendingTrack
  deriving DecidableEq, Repr

/-- What a step leads to. -/
inductive StepResult where
  | next (player : Player)
  | done (player : Player)
  | failed (player : Player) (error : SequenceError)
  deriving DecidableEq, Repr

namespace Player

/-- The state at the start of a track. -/
def start (code : Bytes) (mode : NoteMode) (resolution : UInt16) (pending : PendingTrack) :
    Player where
  code
  mode
  channel := Midi.channelOf pending.player
  offset := pending.offset.toNat
  register := none
  calls := []
  loops := []
  jumps := []
  transpose := 0
  noteWait := false
  track := Midi.Track.empty.setCursor pending.start
  resolution
  opened := #[]

/-- Writes something into the track. -/
def write (player : Player) (add : Midi.Track → Midi.Track) : Player :=
  { player with track := add player.track }

/-- Plays a note. -/
def playNote (player : Player) (key velocity : UInt8) (duration : UInt32) : Player :=
  let key := Midi.shiftKey key player.transpose
  let player := player.write fun track =>
    match player.mode with
    | .retrigger => track.addNote player.channel key velocity duration
    | .continueNote => track.addNoteContinuing player.channel key velocity duration
  if player.noteWait then player.write (·.advance duration) else player

/-- Executes an instruction that sets something. What has no counterpart in MIDI is ignored. -/
def setControl (player : Player) (control : Control) (value : UInt8) : Player :=
  let channel := player.channel
  match control with
  | .timebase => if value = 0 then player else { player with resolution := value.toUInt16 }
  | .pan => player.write (·.addPan channel value)
  | .volume => player.write (·.addVolume channel value)
  | .mainVolume => player.write (·.addMasterVolume value)
  | .volume2 => player.write (·.addExpression channel value)
  | .transpose => { player with transpose := value.toInt8 }
  | .pitchBend => player.write (·.addPitchBend channel (value.toInt8.toInt16 * 64))
  | .bendRange => player.write (·.addBendRange channel value 0)
  | .noteWait => { player with noteWait := value ≠ 0 }
  | .porta =>
    player.write (·.addPortamentoControl channel (Midi.shiftKey value player.transpose))
  | .portaSwitch => player.write (·.addPortamento channel (value ≠ 0))
  | .portaTime => player.write (·.addPortamentoTime channel value)
  | .modDepth => player.write (·.addModulation channel value)
  | _ => player

/-- Ends the innermost loop or plays its body again; without a loop nothing happens. -/
def endLoop (player : Player) : Player :=
  match player.loops with
  | [] => player
  | frame :: outer =>
    if 1 < frame.remaining then
      { player with
        loops := { frame with remaining := frame.remaining - 1 } :: outer
        offset := frame.start }
    else { player with loops := outer }

/-- Executes an instruction that was read at `origin`; the player's offset is already
behind it. -/
def execute (player : Player) (origin : Nat) : Instruction → StepResult
  | .note key velocity duration => .next (player.playNote key velocity duration)
  | .wait ticks => .next (player.write fun track => track.forgetOffs.advance ticks)
  | .program number =>
    .next (player.write (·.addProgram player.channel (UInt8.ofNat (number.toNat % 128))))
  | .openTrack track offset =>
    .next { player with opened := player.opened.push ⟨track, player.track.cursor, offset⟩ }
  | .jump target =>
    if target ∈ player.jumps then .done player
    else .next { player with jumps := target :: player.jumps, offset := target.toNat }
  | .call target =>
    if nestingLimit ≤ player.calls.length then .failed player (.deepNesting origin)
    else .next { player with calls := player.offset :: player.calls, offset := target.toNat }
  | .ret =>
    match player.calls with
    | [] => .done player
    | offset :: calls => .next { player with calls, offset }
  | .fin => .done player
  | .loopStart count =>
    if nestingLimit ≤ player.loops.length then .failed player (.deepNesting origin)
    else .next { player with loops := ⟨player.offset, max count 1⟩ :: player.loops }
  | .loopEnd => .next player.endLoop
  | .set control value => .next (player.setControl control value)
  | .setWord .tempo value => .next (player.write (·.addTempoBpm (Float.ofInt value.toInt)))
  | .random | .fromVariable | .ifHeld | .setWord .. | .extended .. | .envReset
  | .allocTrack _ => .next player

/-- Reads an instruction and executes it. -/
def step (player : Player) : StepResult :=
  match Instruction.read player.code player.offset player.register with
  | (.error error, register) => .failed { player with register } error
  | (.ok (instruction, next), register) =>
    { player with register, offset := next }.execute player.offset instruction

/-- Executes at most `steps` instructions. Gives the last state, and the error that
ended the track. -/
def runFor : (steps : Nat) → Player → Player × Option SequenceError
  | 0, player => (player, some .tooManySteps)
  | steps + 1, player =>
    match player.step with
    | .next player => runFor steps player
    | .done player => (player, none)
    | .failed player error => (player, some error)

/-- Plays a track to its end. -/
def run (player : Player) : Player × Option SequenceError := runFor stepLimit player

end Player

end ConsoleSound

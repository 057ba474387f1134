import ConsoleSound.Proofs.Midi.Building
import ConsoleSound.Proofs.Sequence.Executing
/-! # The call of an instruction

An instruction adds to the MIDI track by at most one call, and then moves the cursor. Which
call, and by how many ticks, hangs on the channel and on three settings of the player
(`Settings`): what a note does while its key sounds, by how much keys are moved, and whether
notes take time. Two instructions change a setting, and none looks at anything else
(`Player.music_execute`). -/

namespace ConsoleSound

open Midi (Call)

/-- What the call of an instruction hangs on, besides its channel. -/
structure Settings where
  mode : NoteMode
  transpose : Int8
  noteWait : Bool

/-- The settings of a track. -/
def Player.settings (player : Player) : Settings where
  mode := player.mode
  transpose := player.transpose
  noteWait := player.noteWait

/-- The call that plays a note. -/
def Settings.noteCall (settings : Settings) (channel key velocity : UInt8) (duration : UInt32) :
    Call :=
  let key := Midi.shiftKey key settings.transpose
  match settings.mode with
  | .retrigger => .note channel key velocity duration
  | .continueNote => .noteContinuing channel key velocity duration

/-- The call that sets a control, if it has a counterpart in MIDI. -/
def Control.call? (control : Control) (settings : Settings) (channel value : UInt8) :
    Option Call :=
  match control with
  | pan => some (.controller channel 10 value)
  | volume => some (.controller channel 7 value)
  | mainVolume => some (.masterVolume value)
  | volume2 => some (.controller channel 11 value)
  | pitchBend => some (.pitchBend channel (value.toInt8.toInt16 * 64))
  | bendRange => some (.bendRange channel value 0)
  | porta => some (.controller channel 84 (Midi.shiftKey value settings.transpose))
  | portaSwitch => some (.controller channel 65 (if decide (value ≠ 0) then 0x7f else 0))
  | portaTime => some (.controller channel 5 value)
  | modDepth => some (.controller channel 1 value)
  | _ => none

namespace Instruction

/-- The call by which an instruction adds to the MIDI track. -/
def call? (settings : Settings) (channel : UInt8) : Instruction → Option Call
  | note key velocity duration => some (settings.noteCall channel key velocity duration)
  | program number => some (.program channel (UInt8.ofNat (number.toNat % 128)))
  | set control value => control.call? settings channel value
  | setWord .tempo value => some (.tempoBpm (Float.ofInt value.toInt))
  | _ => none

/-- By how many ticks an instruction moves the cursor. -/
def elapsed (settings : Settings) : Instruction → UInt32
  | note _ _ duration => if settings.noteWait then duration else 0
  | wait ticks => ticks
  | _ => 0

/-- The settings after an instruction. -/
def settingsAfter (settings : Settings) : Instruction → Settings
  | set .transpose value => { settings with transpose := value.toInt8 }
  | set .noteWait value => { settings with noteWait := value ≠ 0 }
  | _ => settings

/-- A MIDI track without the note-offs that an instruction forgets. -/
def forget (track : Midi.Track) : Instruction → Midi.Track
  | wait _ => track.forgetOffs
  | _ => track

/-- A MIDI track after an instruction. -/
def writeTo (track : Midi.Track) (settings : Settings) (channel : UInt8)
    (instruction : Instruction) : Midi.Track :=
  let track := instruction.forget track
  ((instruction.call? settings channel).elim track (Call.apply track)).advance
    (instruction.elapsed settings)

end Instruction

namespace Player

/-- What the MIDI track, the channel and the settings of a player are after an instruction. -/
structure Music (player : Player) (instruction : Instruction) (after : Player) : Prop where
  track : after.track = instruction.writeTo player.track player.settings player.channel
  channel : after.channel = player.channel
  settings : after.settings = instruction.settingsAfter player.settings

theorem music_playNote (player : Player) (key velocity : UInt8) (duration : UInt32) :
    player.Music (.note key velocity duration) (player.playNote key velocity duration) := by
  cases hmode : player.mode <;> cases hwait : player.noteWait
  all_goals
    refine ⟨?_, ?_, ?_⟩
    · simp only [playNote, write, hmode, hwait, Instruction.writeTo, Instruction.call?,
        Instruction.elapsed, Instruction.forget, Settings.noteCall, settings, Option.elim,
        Call.apply, if_true, Bool.false_eq_true, if_false, Midi.Track.advance_zero]
    · simp only [playNote, write, hwait, if_true, Bool.false_eq_true, if_false]
    · simp only [playNote, write, hmode, hwait, settings, Instruction.settingsAfter, if_true,
        Bool.false_eq_true, if_false]

/-- What plays nothing and takes no time leaves the MIDI track alone. -/
theorem music_still (player : Player) (instruction : Instruction)
    (hwrite : ∀ track, instruction.writeTo track player.settings player.channel
      = track.advance 0)
    (hsettings : instruction.settingsAfter player.settings = player.settings) {after : Player}
    (h : after.track = player.track ∧ after.channel = player.channel
      ∧ after.settings = player.settings) : player.Music instruction after where
  track := by rw [hwrite, Midi.Track.advance_zero, h.1]
  channel := h.2.1
  settings := by rw [hsettings, h.2.2]

theorem music_setControl (player : Player) (control : Control) (value : UInt8) :
    player.Music (.set control value) (player.setControl control value) := by
  cases control with
  | timebase =>
      refine music_still player _ (fun _ => rfl) rfl ?_
      rw [setControl]
      split
      · exact ⟨rfl, rfl, rfl⟩
      · exact ⟨rfl, rfl, rfl⟩
  | _ => exact ⟨(Midi.Track.advance_zero _).symm, rfl, rfl⟩

/-- An instruction makes its call, moves the cursor, and changes no more than its settings. -/
theorem music_execute (player : Player) (origin : Nat) (instruction : Instruction) :
    player.Music instruction (player.execute origin instruction).player := by
  cases instruction with
  | note key velocity duration => exact music_playNote player key velocity duration
  | set control value => exact music_setControl player control value
  | setWord control value => cases control <;> exact ⟨(Midi.Track.advance_zero _).symm, rfl, rfl⟩
  | wait ticks => exact ⟨rfl, rfl, rfl⟩
  | jump target | call target | ret | loopStart count =>
      refine music_still player _ (fun _ => rfl) rfl ?_
      simp only [execute]
      split <;> exact ⟨rfl, rfl, rfl⟩
  | loopEnd =>
      refine music_still player _ (fun _ => rfl) rfl ?_
      simp only [execute, endLoop, StepResult.player]
      split
      · exact ⟨rfl, rfl, rfl⟩
      · split <;> exact ⟨rfl, rfl, rfl⟩
  | _ => exact ⟨(Midi.Track.advance_zero _).symm, rfl, rfl⟩

/-- A step makes the call of the instruction that it reads. -/
theorem music_step {player : Player} {instruction : Instruction}
    (h : player.instruction? = some instruction) :
    player.Music instruction player.step.player := by
  obtain ⟨offset, register, hstep⟩ := step_of_instruction? h
  rw [hstep]
  obtain ⟨htrack, hchannel, hsettings⟩ :=
    music_execute { player with register, offset } player.offset instruction
  exact ⟨htrack, hchannel, hsettings⟩

end Player

end ConsoleSound

import ConsoleSound.Proofs.Midi.Orderly
import ConsoleSound.Proofs.Sequence.Steps
/-! # What a track writes

One instruction of a track writes a note, waits, or makes messages at the cursor
(`Writes`), and the channel and the note mode stay what they are. What these three do to
a MIDI track is all that has to be known of the interpreter to follow the notes of a
track. -/

namespace ConsoleSound

open Midi (Track Event)

/-- Whether an instruction neither plays a note nor waits. -/
def Instruction.isSilent : Instruction → Bool
  | note .. => false
  | wait _ => false
  | _ => true

namespace Player

/-- The MIDI track with a note struck at the cursor. -/
def struck (player : Player) (key velocity : UInt8) (duration : UInt32) : Track :=
  let key := Midi.shiftKey key player.transpose
  match player.mode with
  | .retrigger => player.track.addNote player.channel key velocity duration
  | .continueNote => player.track.addNoteContinuing player.channel key velocity duration

/-- In retrigger mode a struck note is a new one. -/
theorem struck_retrigger {player : Player} (h : player.mode = .retrigger)
    (key velocity : UInt8) (duration : UInt32) :
    player.struck key velocity duration
      = player.track.addNote player.channel (Midi.shiftKey key player.transpose) velocity
          duration := by
  rw [struck, h]

/-- In continue mode it extends the one that still sounds. -/
theorem struck_continueNote {player : Player} (h : player.mode = .continueNote)
    (key velocity : UInt8) (duration : UInt32) :
    player.struck key velocity duration
      = player.track.addNoteContinuing player.channel (Midi.shiftKey key player.transpose)
          velocity duration := by
  rw [struck, h]

/-- What the next instruction makes of the MIDI track. -/
inductive Writes (player : Player) : Track → Prop where
  /-- It plays a note. -/
  | note {key velocity : UInt8} {duration : UInt32} :
      player.instruction? = some (.note key velocity duration) →
      Writes player (if player.noteWait then (player.struck key velocity duration).advance duration
        else player.struck key velocity duration)
  /-- It waits. -/
  | wait {ticks : UInt32} : player.instruction? = some (.wait ticks) →
      Writes player (player.track.forgetOffs.advance ticks)
  /-- It does neither, and makes messages at most. -/
  | messages {instruction : Instruction} {events : List Event} :
      player.instruction? = some instruction → instruction.isSilent = true →
      player.track.Messages events → Writes player (player.track.pushAll events)

/-- Setting a control makes messages at most, and keeps the channel and the mode. -/
theorem setControl_writes (player : Player) (control : Control) (value : UInt8) :
    player.track.MakesMessages (player.setControl control value).track
      ∧ (player.setControl control value).channel = player.channel
      ∧ (player.setControl control value).mode = player.mode := by
  cases control with
  | timebase =>
      show player.track.MakesMessages
          (if value = 0 then player else { player with resolution := value.toUInt16 }).track
        ∧ (if value = 0 then player else { player with resolution := value.toUInt16 }).channel
          = player.channel
        ∧ (if value = 0 then player else { player with resolution := value.toUInt16 }).mode
          = player.mode
      split <;> exact ⟨Track.makesMessages_refl _, rfl, rfl⟩
  | bendRange => exact ⟨Track.makesMessages_addBendRange _ _ _ _, rfl, rfl⟩
  | pan | volume | mainVolume | volume2 | pitchBend | porta | portaSwitch | portaTime
  | modDepth => exact ⟨Track.makesMessages_add _ _ rfl, rfl, rfl⟩
  | _ => exact ⟨Track.makesMessages_refl _, rfl, rfl⟩

theorem endLoop_writes (player : Player) :
    player.endLoop.track = player.track ∧ player.endLoop.channel = player.channel
      ∧ player.endLoop.mode = player.mode := by
  rw [endLoop]
  split
  · exact ⟨rfl, rfl, rfl⟩
  · split <;> exact ⟨rfl, rfl, rfl⟩

theorem playNote_writes (player : Player) (key velocity : UInt8) (duration : UInt32) :
    (player.playNote key velocity duration).track
        = (if player.noteWait then (player.struck key velocity duration).advance duration
          else player.struck key velocity duration)
      ∧ (player.playNote key velocity duration).channel = player.channel
      ∧ (player.playNote key velocity duration).mode = player.mode := by
  cases hwait : player.noteWait <;> cases hmode : player.mode <;>
    simp [playNote, write, struck, hwait, hmode]

/-- A note takes its time or none. -/
theorem exists_advance_eq (noteWait : Bool) (track : Track) (duration : UInt32) :
    ∃ ticks, (if noteWait then track.advance duration else track) = track.advance ticks := by
  cases noteWait with
  | true => exact ⟨duration, rfl⟩
  | false => exact ⟨0, (Track.advance_zero track).symm⟩

/-- One instruction writes a note, waits, or makes messages. -/
theorem writes_of_step {player next : Player} (h : player.step = .next next) :
    Writes player next.track ∧ next.channel = player.channel ∧ next.mode = player.mode := by
  obtain ⟨instruction, offset, register, hread, hexecute⟩ := step_next h
  -- most instructions make no message either, or move the place of reading only
  have other : instruction.isSilent = true → player.track.MakesMessages next.track →
      Writes player next.track := by
    rintro hsilent ⟨events, hmessages, htrack⟩
    rw [htrack]
    exact .messages hread hsilent hmessages
  have quiet : instruction.isSilent = true →
      next.track = player.track ∧ next.channel = player.channel ∧ next.mode = player.mode →
      Writes player next.track ∧ next.channel = player.channel ∧ next.mode = player.mode := by
    rintro hsilent ⟨htrack, hsame⟩
    exact ⟨other hsilent (by rw [htrack]; exact Track.makesMessages_refl _), hsame⟩
  cases instruction with
  | note key velocity duration =>
      obtain rfl := StepResult.next.inj hexecute
      obtain ⟨htrack, hsame⟩ :=
        playNote_writes { player with register, offset } key velocity duration
      rw [htrack]
      exact ⟨.note hread, hsame⟩
  | wait ticks =>
      obtain rfl := StepResult.next.inj hexecute
      exact ⟨.wait hread, rfl, rfl⟩
  | program number =>
      obtain rfl := StepResult.next.inj hexecute
      exact ⟨other rfl (Track.makesMessages_add _ _ rfl), rfl, rfl⟩
  | set control value =>
      obtain rfl := StepResult.next.inj hexecute
      obtain ⟨hmessages, hsame⟩ := setControl_writes { player with register, offset } control value
      exact ⟨other rfl hmessages, hsame⟩
  | setWord control value =>
      cases control with
      | tempo =>
          obtain rfl := StepResult.next.inj hexecute
          exact ⟨other rfl (Track.makesMessages_addTempoBpm _ _), rfl, rfl⟩
      | modDelay | sweepPitch => cases hexecute; exact quiet rfl ⟨rfl, rfl, rfl⟩
  | loopEnd =>
      obtain rfl := StepResult.next.inj hexecute
      exact quiet rfl (endLoop_writes { player with register, offset })
  | jump target | call target | ret | loopStart count =>
      simp only [execute] at hexecute
      split at hexecute <;> cases hexecute
      exact quiet rfl ⟨rfl, rfl, rfl⟩
  | fin => cases hexecute
  | _ => cases hexecute; exact quiet rfl ⟨rfl, rfl, rfl⟩

end Player

end ConsoleSound

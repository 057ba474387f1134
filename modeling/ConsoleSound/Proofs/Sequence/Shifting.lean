import ConsoleSound.Proofs.Midi.Shifting
import ConsoleSound.Proofs.Sequence.Calls
import ConsoleSound.Proofs.Sequence.Places
/-! # Starting later, or on another player

A track that is started later, or for another track of a player, is shifted and nothing else:
it executes the same instructions, makes the same events on its own channel, opens the same
tracks and ends the same way (`Player.run_shifted`). All ticks are shifted alike, as long as
nothing goes beyond the last one (`Execution.Fits`).

Two tracks are shifted against each other (`Player.Shifted`) if they stand at the same place
with the same settings and their MIDI tracks are shifted. Neither the resolution nor what has
been opened before counts. -/

namespace ConsoleSound

open Midi (Call Event Origin SameTick Track)

/-- How long an instruction plays or waits. -/
def Instruction.ticks : Instruction → UInt32
  | note _ _ duration => duration
  | wait ticks => ticks
  | _ => 0

/-- Whether an instruction does not go beyond the last tick. -/
def Execution.Fits (execution : Execution) : Prop :=
  execution.tick.toNat + execution.instruction.ticks.toNat < UInt32.size

instance (execution : Execution) : Decidable execution.Fits :=
  inferInstanceAs (Decidable (_ < _))

/-- The same instruction at ticks equally far from their origins. -/
structure Execution.Shifted (a b : Origin) (execution execution' : Execution) : Prop where
  tick : SameTick a b execution.tick execution'.tick
  instruction : execution'.instruction = execution.instruction

/-- The same track, opened at ticks equally far from their origins. -/
structure PendingTrack.Shifted (a b : Origin) (pending pending' : PendingTrack) : Prop where
  player : pending'.player = pending.player
  start : SameTick a b pending.start pending'.start
  offset : pending'.offset = pending.offset

variable {a b : Origin}

namespace Instruction

variable {track track' : Track} {instruction : Instruction}

/-- On another channel an instruction makes the same call there. -/
theorem call?_onChannel (settings : Settings) (channel channel' : UInt8)
    (instruction : Instruction) :
    (instruction.call? settings channel).map (Call.onChannel channel')
      = instruction.call? settings channel' := by
  cases instruction with
  | note key velocity duration =>
      show some ((settings.noteCall channel key velocity duration).onChannel channel')
        = some (settings.noteCall channel' key velocity duration)
      rw [Settings.noteCall, Settings.noteCall]
      cases settings.mode <;> rfl
  | set control value => cases control <;> rfl
  | setWord control value => cases control <;> rfl
  | _ => rfl

/-- A call does not go beyond the last tick if its instruction does not. -/
theorem fitsAt_of_call? {settings : Settings} {channel : UInt8} {tick : UInt32} {call : Call}
    (hcall : instruction.call? settings channel = some call)
    (hfits : Execution.Fits ⟨tick, instruction⟩) : call.FitsAt tick := by
  cases instruction with
  | note key velocity duration =>
      obtain rfl := Option.some.inj hcall
      rw [Settings.noteCall]
      cases settings.mode <;> exact hfits
  | program number => obtain rfl := Option.some.inj hcall; trivial
  | set control value => cases control <;> cases hcall <;> trivial
  | setWord control value => cases control <;> cases hcall; trivial
  | _ => cases hcall

theorem cursor_noteCall (settings : Settings) (channel key velocity : UInt8) (duration : UInt32)
    (track : Track) :
    ((settings.noteCall channel key velocity duration).apply track).cursor = track.cursor := by
  rw [Settings.noteCall]
  cases settings.mode with
  | retrigger => exact track.cursor_addNote channel _ velocity duration
  | continueNote =>
      show (track.addNoteContinuing channel _ velocity duration).cursor = track.cursor
      rcases track.addNoteContinuing_eq channel (Midi.shiftKey key settings.transpose) velocity
        duration with ⟨_, _, -, heq⟩ | ⟨-, heq⟩
      · rw [heq]
        rfl
      · rw [heq]
        exact track.cursor_addNote (Midi.channelOf channel) _ velocity duration

theorem shifted_forget (h : track.Shifted a b track') (instruction : Instruction) :
    (instruction.forget track).Shifted a b (instruction.forget track') := by
  cases instruction with
  | wait ticks => exact h.forgetOffs
  | _ => exact h

theorem cursor_forget (instruction : Instruction) (track : Track) :
    (instruction.forget track).cursor = track.cursor := by
  cases instruction <;> rfl

/-- The same instruction keeps two tracks shifted. -/
theorem shifted_writeTo (h : track.Shifted a b track') (settings : Settings)
    (hfits : Execution.Fits ⟨track.cursor, instruction⟩)
    (hfits' : Execution.Fits ⟨track'.cursor, instruction⟩) :
    (instruction.writeTo track settings a.channel).Shifted a b
      (instruction.writeTo track' settings b.channel) := by
  have hcalled : ((instruction.call? settings a.channel).elim (instruction.forget track)
        (Call.apply (instruction.forget track))).Shifted a b
      ((instruction.call? settings b.channel).elim (instruction.forget track')
        (Call.apply (instruction.forget track'))) := by
    have hforget := shifted_forget h instruction
    cases hcall : instruction.call? settings a.channel with
    | none =>
        rw [← call?_onChannel settings a.channel b.channel, hcall]
        exact hforget
    | some call =>
        have hown : call.onChannel a.channel = call := by
          have hsame := call?_onChannel settings a.channel a.channel instruction
          rw [hcall] at hsame
          exact Option.some.inj hsame
        have hcalled := hforget.apply
          (by rw [cursor_forget]; exact fitsAt_of_call? hcall hfits)
          (by rw [cursor_forget]; exact fitsAt_of_call? hcall hfits')
        rw [← call?_onChannel settings a.channel b.channel, hcall]
        rw [hown] at hcalled
        exact hcalled
  cases instruction with
  | wait ticks => exact hcalled.advance hfits hfits'
  | note key velocity duration =>
      simp only [writeTo, elapsed]
      split
      · -- the call has left the cursor where it was, so the sum is that of the note-off
        refine hcalled.advance ?_ ?_
        · exact cursor_noteCall settings a.channel key velocity duration track ▸ hfits
        · exact cursor_noteCall settings b.channel key velocity duration track' ▸ hfits'
      · rw [Track.advance_zero, Track.advance_zero]
        exact hcalled
  | _ => simpa only [writeTo, elapsed, Track.advance_zero] using hcalled

end Instruction

/-- Two steps that end alike, in states that are related. -/
inductive StepResult.Alike (related : Player → Player → Prop) : StepResult → StepResult → Prop where
  | next {player player' : Player} : related player player' →
      Alike related (.next player) (.next player')
  | done {player player' : Player} : related player player' →
      Alike related (.done player) (.done player')
  | failed {player player' : Player} (error : SequenceError) : related player player' →
      Alike related (.failed player error) (.failed player' error)

namespace Player

/-- Two players at the same place that play the same from their origins on. -/
structure Shifted (a b : Origin) (player player' : Player) : Prop where
  place : player'.place = player.place
  channel : player.channel = a.channel
  channel' : player'.channel = b.channel
  settings : player'.settings = player.settings
  track : player.track.Shifted a b player'.track

namespace Shifted

variable {player player' : Player}

theorem moved (h : player.Shifted a b player') (place : Place) :
    (player.withPlace place).Shifted a b (player'.withPlace place) :=
  ⟨rfl, h.channel, h.channel', h.settings, h.track⟩

/-- A straight instruction does the same to both. -/
theorem perform (h : player.Shifted a b player') {instruction : Instruction}
    (hfits : Execution.Fits ⟨player.track.cursor, instruction⟩)
    (hfits' : Execution.Fits ⟨player'.track.cursor, instruction⟩) (place : Place) :
    ((player.perform instruction).withPlace place).Shifted a b
      ((player'.perform instruction).withPlace place) := by
  have hmusic : player.Music instruction (player.perform instruction) :=
    music_execute player 0 instruction
  have hmusic' : player'.Music instruction (player'.perform instruction) :=
    music_execute player' 0 instruction
  have hsettings : (player'.perform instruction).settings
      = (player.perform instruction).settings := by
    rw [hmusic.settings, hmusic'.settings, h.settings]
  have htrack : (player.perform instruction).track.Shifted a b
      (player'.perform instruction).track := by
    rw [hmusic.track, hmusic'.track, h.channel, h.channel', h.settings]
    exact Instruction.shifted_writeTo h.track player.settings hfits hfits'
  exact ⟨by rw [place_withPlace, place_withPlace], hmusic.channel.trans h.channel,
    hmusic'.channel.trans h.channel', hsettings, htrack⟩

/-- Both read the same. -/
theorem read (h : player.Shifted a b player') :
    Instruction.read player'.code player'.offset player'.register
      = Instruction.read player.code player.offset player.register :=
  congrArg (fun place : Place => Instruction.read place.code place.offset place.register) h.place

theorem instruction? (h : player.Shifted a b player') :
    player'.instruction? = player.instruction? := by
  rw [Player.instruction?, Player.instruction?, h.read]

/-- One step does the same to both. -/
theorem step (h : player.Shifted a b player')
    (hfits : ∀ execution, player.execution? = some execution → execution.Fits)
    (hfits' : ∀ execution, player'.execution? = some execution → execution.Fits) :
    StepResult.Alike (Shifted a b) player.step player'.step := by
  rcases hread : Instruction.read player.code player.offset player.register with ⟨result, register⟩
  have hread' := h.read.trans hread
  cases result with
  | error error =>
      rw [Player.step, Player.step, hread, hread']
      refine .failed error ⟨?_, h.channel, h.channel', h.settings, h.track⟩
      exact congrArg (fun place : Place => { place with register }) h.place
  | ok read =>
      obtain ⟨instruction, behind⟩ := read
      have hoffset : player'.offset = player.offset := congrArg Place.offset h.place
      rw [step_of_read hread, step_of_read hread', hoffset,
        show player'.placeBehind behind register = player.placeBehind behind register by
          rw [placeBehind, placeBehind, h.place]]
      cases hstraight : instruction.isStraight with
      | true =>
          rw [execute_straight hstraight, execute_straight hstraight]
          refine .next (h.perform (hfits _ ?_) (hfits' _ ?_) _)
          · rw [execution?, Player.instruction?, hread]
            rfl
          · rw [execution?, Player.instruction?, hread']
            rfl
      | false =>
          rcases execute_turning hstraight (player.placeBehind behind register) player.offset
            with ⟨place, hnext⟩ | hdone | ⟨error, hfailed⟩
          · rw [hnext, hnext]
            exact .next (h.moved place)
          · rw [hdone, hdone]
            exact .done (h.moved _)
          · rw [hfailed, hfailed]
            exact .failed error (h.moved _)

/-- Both read the same instruction, at ticks equally far from their origins. -/
theorem execution? (h : player.Shifted a b player') :
    List.Forall₂ (Execution.Shifted a b) player.execution?.toList player'.execution?.toList := by
  rw [Player.execution?, Player.execution?, h.instruction?]
  cases player.instruction? with
  | none => exact .nil
  | some instruction => exact .cons ⟨h.track.cursor, rfl⟩ .nil

/-- Whole runs do the same. -/
theorem runFor (h : player.Shifted a b player') (steps : Nat)
    (hfits : ∀ execution ∈ player.executed steps, execution.Fits)
    (hfits' : ∀ execution ∈ player'.executed steps, execution.Fits) :
    (Player.runFor steps player).1.Shifted a b (Player.runFor steps player').1
      ∧ (Player.runFor steps player).2 = (Player.runFor steps player').2
      ∧ List.Forall₂ (Execution.Shifted a b) (player.executed steps) (player'.executed steps) := by
  induction steps generalizing player player' with
  | zero => exact ⟨h, rfl, .nil⟩
  | succ steps ih =>
      rw [executed] at hfits hfits'
      have hstep := h.step
        (fun execution hread => hfits execution (List.mem_append_left _ (by rw [hread]; simp)))
        (fun execution hread => hfits' execution (List.mem_append_left _ (by rw [hread]; simp)))
      rw [Player.runFor, Player.runFor, executed, executed]
      generalize player.step = result, player'.step = result' at hstep hfits hfits' ⊢
      cases hstep with
      | next hnext =>
          obtain ⟨hfinal, hend, hrest⟩ := ih hnext
            (fun execution hmem => hfits execution (List.mem_append_right _ hmem))
            (fun execution hmem => hfits' execution (List.mem_append_right _ hmem))
          exact ⟨hfinal, hend, List.rel_append h.execution? hrest⟩
      | done hfinal => exact ⟨hfinal, rfl, List.rel_append h.execution? .nil⟩
      | failed error hfinal => exact ⟨hfinal, rfl, List.rel_append h.execution? .nil⟩

end Shifted

/-- What the same instructions open is the same. -/
theorem forall₂_opened {executions executions' : List Execution}
    (h : List.Forall₂ (Execution.Shifted a b) executions executions') :
    List.Forall₂ (PendingTrack.Shifted a b) (executions.filterMap Execution.opened?)
      (executions'.filterMap Execution.opened?) := by
  refine List.rel_filterMap (fun execution execution' hsame => ?_) h
  obtain ⟨tick, instruction⟩ := execution
  obtain ⟨tick', instruction'⟩ := execution'
  obtain ⟨htick, rfl⟩ := hsame
  cases instruction' with
  | openTrack player offset => exact .some ⟨rfl, htick, rfl⟩
  | _ => exact .none

/-- **A track that starts later, or on another player, is shifted and nothing else**: whatever
has been opened before and whatever the resolution is, it executes the same instructions, ends
the same way, makes the same events on its own channel, ends at the same cursor and opens the
same tracks, all at ticks that are equally far from the start, if nothing goes beyond the last
tick. -/
theorem run_shifted (code : Bytes) (mode : NoteMode) (offset : UInt32)
    (resolution resolution' : UInt16) (track track' : UInt8) (tick tick' : UInt32)
    (waiting waiting' : Array PendingTrack)
    (hfits : ∀ execution ∈ executed stepLimit
      { start code mode resolution ⟨track, tick, offset⟩ with opened := waiting }, execution.Fits)
    (hfits' : ∀ execution ∈ executed stepLimit
      { start code mode resolution' ⟨track', tick', offset⟩ with opened := waiting' },
      execution.Fits) :
    let a := Origin.ofPlayer tick track
    let b := Origin.ofPlayer tick' track'
    let first := { start code mode resolution ⟨track, tick, offset⟩ with opened := waiting }
    let second := { start code mode resolution' ⟨track', tick', offset⟩ with opened := waiting' }
    List.Forall₂ (Execution.Shifted a b) (executed stepLimit first) (executed stepLimit second)
      ∧ first.run.2 = second.run.2
      ∧ List.Forall₂ (Event.Shifted a b) first.run.1.track.events.toList
          second.run.1.track.events.toList
      ∧ SameTick a b first.run.1.track.cursor second.run.1.track.cursor
      ∧ ∃ opened opened', first.run.1.opened.toList = waiting.toList ++ opened
          ∧ second.run.1.opened.toList = waiting'.toList ++ opened'
          ∧ List.Forall₂ (PendingTrack.Shifted a b) opened opened' := by
  intro a b first second
  have hstart : first.Shifted a b second := ⟨rfl, rfl, rfl, rfl, .start a b⟩
  obtain ⟨hfinal, hend, hexecuted⟩ := hstart.runFor stepLimit hfits hfits'
  exact ⟨hexecuted, hend, hfinal.track.events, hfinal.track.cursor, _, _,
    opened_runFor stepLimit first, opened_runFor stepLimit second, forall₂_opened hexecuted⟩

/-- A note that is struck again while it sounds, a track that is opened, and a rest. -/
def doubled : Bytes :=
  #[0x3c, 0x64, 0x20, 0x80, 0x08, 0x3c, 0x64, 0x20, 0x88, 0x02, 0x00, 0x00, 0x00, 0x80, 0x08, 0xff]

/-- A hundred ticks later on the eighteenth track, which is on the second channel, the first note
is extended as well, and the track is opened a hundred ticks later. -/
theorem run_shifted_doubled :
    let a := Origin.ofPlayer 0 0
    let b := Origin.ofPlayer 100 17
    let first := { start doubled .continueNote 48 ⟨0, 0, 0⟩ with opened := #[] }
    let second := { start doubled .continueNote 96 ⟨17, 100, 0⟩ with opened := #[⟨5, 7, 9⟩] }
    (∀ execution ∈ executed stepLimit first, execution.Fits)
      ∧ (∀ execution ∈ executed stepLimit second, execution.Fits)
      ∧ second.run.1.track.events.toList
        = [.at 100 1 (.noteOn 0x3c 0x64), .at 140 1 (.noteOff 0x3c)]
      ∧ List.Forall₂ (Execution.Shifted a b) (executed stepLimit first) (executed stepLimit second)
      ∧ first.run.2 = second.run.2
      ∧ List.Forall₂ (Event.Shifted a b) first.run.1.track.events.toList
          second.run.1.track.events.toList
      ∧ SameTick a b first.run.1.track.cursor second.run.1.track.cursor
      ∧ ∃ opened opened', first.run.1.opened.toList = [] ++ opened
          ∧ second.run.1.opened.toList = [⟨5, 7, 9⟩] ++ opened'
          ∧ List.Forall₂ (PendingTrack.Shifted a b) opened opened' := by
  have hfits : ∀ execution ∈ executed stepLimit
      { start doubled .continueNote 48 ⟨0, 0, 0⟩ with opened := #[] }, execution.Fits := by
    decide +kernel
  have hfits' : ∀ execution ∈ executed stepLimit
      { start doubled .continueNote 96 ⟨17, 100, 0⟩ with opened := #[⟨5, 7, 9⟩] },
      execution.Fits := by
    decide +kernel
  have hshifted :=
    run_shifted doubled .continueNote 0 48 96 0 17 0 100 #[] #[⟨5, 7, 9⟩] hfits hfits'
  -- with the runs written out, the two statements agree as they stand
  dsimp only at hshifted ⊢
  exact ⟨hfits, hfits', by decide +kernel, hshifted⟩

end Player

end ConsoleSound

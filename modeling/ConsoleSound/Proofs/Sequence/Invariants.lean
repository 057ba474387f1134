import ConsoleSound.Proofs.Midi.Growing
import ConsoleSound.Proofs.Sequence.Calls
import ConsoleSound.Proofs.Sequence.Places
import ConsoleSound.Proofs.Sequence.Reading
/-! # What holds while a track is played

Loops and calls stay within their limit, and what they go back to is the end of an instruction
that the track has read (`Nested`). The MIDI track grows on the channel of the track, from the
tick on at which that starts (`Midi.Track.Composed`), and it grows with every instruction
(`Midi.Track.Grows`). The two halves are kept by different lemmas: what an instruction does to
the place decides the first (`Moves`), and its call the second. -/

namespace ConsoleSound

open Midi (Track Event Call channelOf)

namespace Instruction

/-! ## Calls -/

/-- An instruction plays on the channel of its track, and keys and programs that there are. -/
theorem isProper_of_call? {settings : Settings} {channel : UInt8} {instruction : Instruction}
    {call : Call} (h : instruction.call? settings channel = some call) :
    call.IsProper channel := by
  cases instruction with
  | note key velocity duration =>
      obtain rfl := Option.some.inj h
      rw [Settings.noteCall]
      cases settings.mode with
      | retrigger => exact ⟨rfl, Midi.shiftKey_le key settings.transpose⟩
      | continueNote => exact ⟨rfl, Midi.shiftKey_le key settings.transpose⟩
  | program number =>
      obtain rfl := Option.some.inj h
      refine ⟨rfl, ?_⟩
      rw [UInt8.le_iff_toNat_le, UInt8.toNat_ofNat']
      show _ ≤ 127
      omega
  | set control value =>
      cases control with
      | porta =>
          obtain rfl := Option.some.inj h
          exact ⟨rfl, fun _ => Midi.shiftKey_le value settings.transpose⟩
      | pan | volume | volume2 | portaSwitch | portaTime | modDepth =>
          obtain rfl := Option.some.inj h
          exact ⟨rfl, fun hkey => absurd hkey (by decide)⟩
      | mainVolume => obtain rfl := Option.some.inj h; trivial
      | pitchBend | bendRange => obtain rfl := Option.some.inj h; rfl
      | _ => cases h
  | setWord control value =>
      cases control with
      | tempo => obtain rfl := Option.some.inj h; trivial
      | _ => cases h
  | _ => cases h

variable {track : Track} {channel : UInt8}

theorem grows_writeTo (h : channelOf channel = channel) (settings : Settings)
    (instruction : Instruction) (track : Track) :
    Track.Grows channel track (instruction.writeTo track settings channel) := by
  have hcall : Track.Grows channel (instruction.forget track)
      ((instruction.call? settings channel).elim (instruction.forget track)
        (Call.apply (instruction.forget track))) := by
    cases hcall : instruction.call? settings channel with
    | none => exact .refl _
    | some call => exact Track.grows_apply h (isProper_of_call? hcall) _
  -- what is forgotten is not an event, so the growth starts from the track itself
  have hgrows : Track.Grows channel track
      ((instruction.call? settings channel).elim (instruction.forget track)
        (Call.apply (instruction.forget track))) := by
    cases instruction <;> exact ⟨hcall.cursor, hcall.events⟩
  exact hgrows.advance _

theorem built_writeTo (h : track.Built) (settings : Settings) (instruction : Instruction) :
    (instruction.writeTo track settings channel).Built := by
  have hforget : (instruction.forget track).Built := by
    cases instruction with
    | wait ticks => exact ⟨h.orderly.forgetOffs, h.plain⟩
    | _ => exact h
  refine Track.Built.advance ?_ _
  cases instruction.call? settings channel with
  | none => exact hforget
  | some call => exact hforget.apply call

end Instruction

namespace Player

/-! ## Music -/

/-- A player whose MIDI track is composed on its channel. -/
structure Plays (channel : UInt8) (tick : UInt32) (player : Player) : Prop where
  onChannel : player.channel = channel
  composed : player.track.Composed channel tick

theorem plays_start (code : Bytes) (mode : NoteMode) (resolution : UInt16)
    (pending : PendingTrack) :
    Plays (channelOf pending.player) pending.start (start code mode resolution pending) :=
  ⟨rfl, Track.composed_start _ _⟩

variable {channel : UInt8} {tick : UInt32} {player : Player}

/-- Every step lets the MIDI track grow. -/
theorem Plays.grows (hchannel : channelOf channel = channel) (h : player.Plays channel tick) :
    Track.Grows channel player.track player.step.player.track := by
  cases hread : player.instruction? with
  | some instruction =>
      rw [(music_step hread).track, h.onChannel]
      exact Instruction.grows_writeTo hchannel player.settings instruction player.track
  | none =>
      obtain ⟨register, error, hstep⟩ := step_of_instruction?_eq_none hread
      rw [hstep]
      exact .refl player.track

theorem Plays.step (hchannel : channelOf channel = channel) (h : player.Plays channel tick) :
    player.step.player.Plays channel tick := by
  have hgrows := h.grows hchannel
  cases hread : player.instruction? with
  | some instruction =>
      have hmusic := music_step hread
      refine ⟨hmusic.channel.trans h.onChannel, h.composed.grow hgrows ?_⟩
      rw [hmusic.track]
      exact Instruction.built_writeTo h.composed.built player.settings instruction
  | none =>
      obtain ⟨register, error, hstep⟩ := step_of_instruction?_eq_none hread
      rw [hstep]
      exact ⟨h.onChannel, h.composed⟩

/-- What every step keeps is kept by runs. -/
theorem runFor_induction {motive : Player → Prop}
    (hstep : ∀ player, motive player → motive player.step.player) (steps : Nat)
    (h : motive player) : motive (runFor steps player).1 := by
  induction steps generalizing player with
  | zero => exact h
  | succ steps ih =>
      have hnext := hstep player h
      rw [runFor]
      cases hcase : player.step with
      | next next => rw [hcase] at hnext; exact ih hnext
      | done final | failed final error => rw [hcase] at hnext; exact hnext

theorem fst_runFor_one (player : Player) : (runFor 1 player).1 = player.step.player := by
  rw [runFor]
  cases player.step <;> rfl

/-- With one instruction more, the MIDI track of a run grows. -/
theorem Plays.grows_runFor (hchannel : channelOf channel = channel)
    (h : player.Plays channel tick) (steps : Nat) :
    Track.Grows channel (runFor steps player).1.track (runFor (steps + 1) player).1.track := by
  induction steps generalizing player with
  | zero =>
      rw [fst_runFor_one]
      exact h.grows hchannel
  | succ steps ih =>
      have hnext := h.step hchannel
      rw [runFor, runFor]
      cases hcase : player.step with
      | next next => rw [hcase] at hnext; exact ih hnext
      | done final | failed final error => exact .refl _

/-! ## Nesting -/

/-- Whether an instruction is one of the first that a track reads, and where it ends. -/
def HasRead (player : Player) (count : Nat) (instruction : Instruction) (next : Nat) : Prop :=
  ∃ earlier before register, earlier < count ∧ player.after earlier = some before
    ∧ Instruction.read player.code before.offset before.register
        = (.ok (instruction, next), register)

theorem HasRead.mono {count count' next : Nat} {instruction : Instruction}
    (h : player.HasRead count instruction next) (hle : count ≤ count') :
    player.HasRead count' instruction next := by
  obtain ⟨earlier, before, register, hlt, hread⟩ := h
  exact ⟨earlier, before, register, Nat.lt_of_lt_of_le hlt hle, hread⟩

theorem HasRead.next_le {count next : Nat} {instruction : Instruction}
    (h : player.HasRead count instruction next) : next ≤ player.code.size := by
  obtain ⟨earlier, before, register, -, -, hread⟩ := h
  exact (Instruction.read_bounds hread).2

/-- What holds of the open calls and loops of a track after some instructions. -/
structure Nested (player : Player) (count : Nat) (place : Place) : Prop where
  code : place.code = player.code
  calls : place.calls.length ≤ nestingLimit
  loops : place.loops.length ≤ nestingLimit
  /-- A call returns to behind itself. -/
  returns : ∀ offset ∈ place.calls, ∃ target, player.HasRead count (.call target) offset
  /-- A loop starts behind the instruction that opens it, and is to be played. -/
  repeats : ∀ frame ∈ place.loops,
    (∃ times, player.HasRead count (.loopStart times) frame.start) ∧ 1 ≤ frame.remaining

theorem Nested.mono {count count' : Nat} {place : Place} (h : player.Nested count place)
    (hle : count ≤ count') : player.Nested count' place where
  code := h.code
  calls := h.calls
  loops := h.loops
  returns := fun offset hmem => (h.returns offset hmem).imp fun _ hread => hread.mono hle
  repeats := fun frame hmem =>
    ⟨(h.repeats frame hmem).1.imp fun _ hread => hread.mono hle, (h.repeats frame hmem).2⟩

/-- What an instruction that goes on does to the open calls and loops. -/
theorem Nested.moves {count behind : Nat} {place place' : Place} {instruction : Instruction}
    (h : player.Nested count place) (hread : player.HasRead count instruction behind)
    (hoffset : place.offset = behind) (hmoves : Moves place instruction place') :
    player.Nested count place' := by
  subst hoffset
  cases hmoves with
  | straight _ | stray _ => exact h
  | jump _ => exact ⟨h.code, h.calls, h.loops, h.returns, h.repeats⟩
  | @call target hlimit =>
      exact ⟨h.code, hlimit, h.loops,
        List.forall_mem_cons.mpr ⟨⟨target, hread⟩, h.returns⟩, h.repeats⟩
  | @ret offset calls hcalls =>
      have hlength := h.calls
      have hreturns := h.returns
      rw [hcalls] at hlength hreturns
      exact ⟨h.code, Nat.le_of_succ_le hlength, h.loops, (List.forall_mem_cons.mp hreturns).2,
        h.repeats⟩
  | @loopStart times hlimit =>
      exact ⟨h.code, h.calls, hlimit, h.returns,
        List.forall_mem_cons.mpr ⟨⟨⟨times, hread⟩, one_le_max_one times⟩, h.repeats⟩⟩
  | @again frame outer hloops hmore =>
      have hlength := h.loops
      have hrepeats := h.repeats
      rw [hloops] at hlength hrepeats
      obtain ⟨⟨hstart, -⟩, houter⟩ := List.forall_mem_cons.mp hrepeats
      have hleft : 1 ≤ frame.remaining - 1 := by
        rw [UInt8.lt_iff_toNat_lt] at hmore
        rw [UInt8.le_iff_toNat_le, UInt8.toNat_sub_of_le _ _ (UInt8.le_of_lt hmore)]
        exact Nat.le_sub_of_add_le hmore
      exact ⟨h.code, h.calls, hlength, h.returns,
        List.forall_mem_cons.mpr ⟨⟨hstart, hleft⟩, houter⟩⟩
  | @leave frame outer hloops =>
      have hlength := h.loops
      have hrepeats := h.repeats
      rw [hloops] at hlength hrepeats
      exact ⟨h.code, h.calls, Nat.le_of_succ_le hlength, h.returns,
        (List.forall_mem_cons.mp hrepeats).2⟩

/-- The calls and loops of a track stay within their limit, and go back to what it has read. -/
theorem Nested.after {count : Nat} {last : Player} (h : player.Nested 0 player.place)
    (hlast : player.after count = some last) : player.Nested count last.place := by
  induction count generalizing last with
  | zero =>
      rw [← Option.some.inj hlast]
      exact h
  | succ count ih =>
      obtain ⟨before, hbefore, hstep⟩ := after_succ.mp hlast
      obtain ⟨instruction, behind, register, hread, hmoves, -⟩ := moves_step hstep
      have hnested := (ih hbefore).mono (Nat.le_succ count)
      have hcode : before.code = player.code := hnested.code
      have hread' : player.HasRead (count + 1) instruction behind :=
        ⟨count, before, register, Nat.lt_succ_self count, hbefore, hcode ▸ hread⟩
      have hbehind : player.Nested (count + 1) (before.placeBehind behind register) :=
        ⟨hnested.code, hnested.calls, hnested.loops, hnested.returns, hnested.repeats⟩
      exact hbehind.moves hread' rfl hmoves

/-- What holds of the state of a track that has executed some instructions. -/
structure Invariants (player : Player) (pending : PendingTrack) (count : Nat) (state : Player) :
    Prop where
  calls : state.calls.length ≤ nestingLimit
  loops : state.loops.length ≤ nestingLimit
  /-- A call returns to behind itself. -/
  returns : ∀ offset ∈ state.calls,
    (∃ target, player.HasRead count (.call target) offset) ∧ offset ≤ player.code.size
  /-- A loop starts behind the instruction that opens it, and is to be played. -/
  repeats : ∀ frame ∈ state.loops,
    (∃ times, player.HasRead count (.loopStart times) frame.start)
      ∧ frame.start ≤ player.code.size ∧ 1 ≤ frame.remaining
  start_le : pending.start ≤ state.track.cursor
  /-- What does not end a note is made in the order of ticks. -/
  ordered : (Track.starting state.track.events.toList).Pairwise fun first second =>
    first.time ≤ second.time
  /-- A note-off stands behind its note-on, and does not come before it. -/
  ends : ∀ (index : Nat) (off : Event), state.track.events.toList[index]? = some off →
    off.isOff = true → ∃ place on key velocity, index = place + 1
      ∧ state.track.events.toList[place]? = some on ∧ on.kind = .noteOn key velocity
      ∧ off.kind = .noteOff key ∧ on.channel = off.channel ∧ on.time ≤ off.time
  proper : ∀ event ∈ state.track.events.toList, event.IsProper (channelOf pending.player)

/-- **The invariants of a track**: they hold however many instructions it has executed, and with
the next one its cursor does not go back, its events stay but for the ticks of note-offs, and
what is new stands at the cursor if it does not end a note. -/
theorem invariants_runFor (code : Bytes) (mode : NoteMode) (resolution : UInt16)
    (pending : PendingTrack) (count : Nat) :
    (start code mode resolution pending).Invariants pending count
        (runFor count (start code mode resolution pending)).1
      ∧ Track.Grows (channelOf pending.player)
          (runFor count (start code mode resolution pending)).1.track
          (runFor (count + 1) (start code mode resolution pending)).1.track := by
  have hchannel := Midi.channelOf_channelOf pending.player
  have hstart := plays_start code mode resolution pending
  have hplays := runFor_induction (fun _ h => Plays.step hchannel h) count hstart
  have hcomposed := hplays.composed
  obtain ⟨earlier, last, hle, hlast, hends⟩ :=
    runFor_last count (start code mode resolution pending)
  have hempty : (start code mode resolution pending).Nested 0
      (start code mode resolution pending).place :=
    ⟨rfl, Nat.zero_le _, Nat.zero_le _, nofun, nofun⟩
  have hnested := (hempty.after hlast).mono hle
  -- the last step has moved no more than the place of reading
  obtain ⟨register, offset, hfinal⟩ := hends.eq_last
  have hcalls : (runFor count (start code mode resolution pending)).1.calls = last.calls := by
    rw [hfinal]
  have hloops : (runFor count (start code mode resolution pending)).1.loops = last.loops := by
    rw [hfinal]
  refine ⟨⟨hcalls ▸ hnested.calls, hloops ▸ hnested.loops, ?_, ?_, hcomposed.start_le,
    hcomposed.ordered, fun index off => hcomposed.built.orderly.paired.on_of_off,
    hcomposed.proper⟩, hstart.grows_runFor hchannel count⟩
  · rw [hcalls]
    intro back hmem
    obtain ⟨target, hread⟩ := hnested.returns back hmem
    exact ⟨⟨target, hread⟩, hread.next_le⟩
  · rw [hloops]
    intro frame hmem
    obtain ⟨⟨times, hread⟩, hpositive⟩ := hnested.repeats frame hmem
    exact ⟨⟨times, hread⟩, hread.next_le, hpositive⟩

end Player

end ConsoleSound

import ConsoleSound.Proofs.Midi.Orderly
import ConsoleSound.Proofs.Midi.RoundTrip
/-! # Tracks that are built call by call

A track is built from the empty one by notes, by steps of its cursor and by messages
(`Call`, `Track.build`). What the calls keep is `Track.Built`: the track stays orderly, so
that behind every note-on stands its note-off, and its events are plain (`Event.IsPlain`),
which is all that writing them needs. An extended note moves a note-off forward or back, but
never before the cursor, so it keeps pairs as well (`Orderly.moveEvent`). -/

namespace ConsoleSound.Midi

/-- A call that adds to a track or moves its cursor. Volume, pan and their like are
controllers, each by its number. -/
inductive Call where
  | note (channel key velocity : UInt8) (duration : UInt32)
  /-- A note that extends the one that still sounds on its key. -/
  | noteContinuing (channel key velocity : UInt8) (duration : UInt32)
  | advance (ticks : UInt32)
  | controller (channel number value : UInt8)
  | program (channel number : UInt8)
  | pitchBend (channel : UInt8) (bend : Int16)
  | bendRange (channel semitones cents : UInt8)
  | masterVolume (volume : UInt8)
  | tempo (micros : UInt32)
  | tempoBpm (bpm : Float)

/-- A track after a call. -/
def Call.apply (track : Track) : Call → Track
  | .note channel key velocity duration => track.addNote channel key velocity duration
  | .noteContinuing channel key velocity duration =>
    track.addNoteContinuing channel key velocity duration
  | .advance ticks => track.advance ticks
  | .controller channel number value => track.addController channel number value
  | .program channel number => track.addProgram channel number
  | .pitchBend channel bend => track.addPitchBend channel bend
  | .bendRange channel semitones cents => track.addBendRange channel semitones cents
  | .masterVolume volume => track.addMasterVolume volume
  | .tempo micros => track.addTempo micros
  | .tempoBpm bpm => track.addTempoBpm bpm

/-- The track that calls build from the empty one. -/
def Track.build (calls : List Call) : Track := calls.foldl Call.apply .empty

/-- An event as calls make them: on one of the sixteen channels, short enough to be written,
neither an end nor a transpose, and behind the other events of its tick if it is of a note. -/
structure Event.IsPlain (event : Event) : Prop where
  channel : event.channel.toNat < 16
  fits : event.Fits
  notEnd : event.kind ≠ .endOfTrack
  noTranspose : event.kind.transpose? = none
  noteRank : event.kind.key? ≠ none → event.priority = .lower

/-- A plain event at another tick is plain. -/
theorem Event.IsPlain.move {event : Event} (h : event.IsPlain) (tick : UInt32) :
    { event with time := tick }.IsPlain :=
  ⟨h.channel, h.fits, h.notEnd, h.noTranspose, h.noteRank⟩

theorem channel_at_lt (tick : UInt32) (channel : UInt8) (kind : EventKind) :
    (Event.at tick channel kind).channel.toNat < 16 :=
  Event.isMade_iff.mp ⟨tick, channel, kind, kind.priority, rfl⟩

/-- A message without a payload is short enough. -/
theorem one_lt_size : 0 + 1 < UInt32.size := by decide

theorem isPlain_at {tick : UInt32} {channel : UInt8} {kind : EventKind}
    (hfits : kind.payload.length + 1 < UInt32.size) (hend : kind ≠ .endOfTrack)
    (htranspose : kind.transpose? = none) : (Event.at tick channel kind).IsPlain where
  channel := channel_at_lt tick channel kind
  fits := hfits
  notEnd := hend
  noTranspose := htranspose
  noteRank := by
    intro hkey
    cases kind with
    | noteOn key velocity => rfl
    | noteOff key => rfl
    | _ => exact absurd rfl hkey

namespace Track

/-! ## Note-offs that are moved -/

/-- An event when the note-off of an index is moved to a tick. -/
def moveOff (tick : UInt32) (index place : Nat) (event : Event) : Event :=
  if index = place ∧ event.isOff = true then { event with time := tick } else event

theorem moveOff_cases (tick : UInt32) (index place : Nat) (event : Event) :
    moveOff tick index place event = event
      ∨ event.isOff = true ∧ moveOff tick index place event = { event with time := tick } := by
  by_cases h : index = place ∧ event.isOff = true
  · exact .inr ⟨h.2, if_pos h⟩
  · exact .inl (if_neg h)

@[simp] theorem moveOff_kind (tick : UInt32) (index place : Nat) (event : Event) :
    (moveOff tick index place event).kind = event.kind := by
  rcases moveOff_cases tick index place event with heq | ⟨-, heq⟩ <;> rw [heq]

@[simp] theorem moveOff_channel (tick : UInt32) (index place : Nat) (event : Event) :
    (moveOff tick index place event).channel = event.channel := by
  rcases moveOff_cases tick index place event with heq | ⟨-, heq⟩ <;> rw [heq]

/-- Moving the event of an index, if that is a note-off. -/
theorem events_moveEvent {track : Track} {index : Nat} {off : Event}
    (h : track.events.toList[index]? = some off) (hoff : off.isOff = true) (tick : UInt32) :
    (track.moveEvent tick index).events.toList
      = track.events.toList.mapIdx (moveOff tick index) := by
  apply List.ext_getElem?
  intro place
  rw [moveEvent, Array.toList_modify, List.getElem?_modify, List.getElem?_mapIdx]
  by_cases hplace : index = place
  · rw [← hplace, h]
    simp [moveOff, hoff]
  · cases track.events.toList[place]? with
    | none => rfl
    | some event => simp [moveOff, hplace]

/-- An extended note moves the note-off that lies ahead; if there is none it is a new note. -/
theorem addNoteContinuing_eq (track : Track) (channel key velocity : UInt8)
    (duration : UInt32) :
    (∃ index off, track.LiesAhead (channelOf channel) key index off
        ∧ track.addNoteContinuing channel key velocity duration
          = track.moveEvent (addTicks track.cursor duration) index)
      ∨ (∀ index off, ¬ track.LiesAhead (channelOf channel) key index off)
        ∧ track.addNoteContinuing channel key velocity duration
          = track.addNote (channelOf channel) key velocity duration := by
  rw [addNoteContinuing]
  split
  · next index hfind =>
      obtain ⟨hlt, hfound, -⟩ := Array.findIdx?_eq_some_iff_getElem.mp hfind
      simp only [Bool.and_eq_true, decide_eq_true_eq] at hfound
      refine .inl ⟨index, track.events[index], ⟨?_, hfound.1.2, hfound.2, hfound.1.1⟩, rfl⟩
      rw [Array.getElem?_toList, Array.getElem?_eq_getElem hlt]
  · next hfind =>
      refine .inr ⟨?_, rfl⟩
      intro index off h
      have hmem : off ∈ track.events := Array.mem_def.mpr (List.mem_of_getElem? h.event)
      have hnone := Array.findIdx?_eq_none_iff.mp hfind off hmem
      simp [h.channel, h.kind, h.ahead] at hnone

/-- A note-off that is moved, but not to before the cursor, leaves a track orderly. -/
theorem Orderly.moveEvent {track : Track} (h : track.Orderly) {index : Nat} {off : Event}
    (hindex : track.events.toList[index]? = some off) (hoff : off.isOff = true) {tick : UInt32}
    (hle : track.cursor ≤ tick) : (track.moveEvent tick index).Orderly where
  paired := by
    rw [events_moveEvent hindex hoff]
    refine h.paired.mapIdx (fun event hmem hstarts => ?_) _ (moveOff_cases tick index)
    exact UInt32.le_trans (h.started event hmem hstarts) hle
  started := by
    intro event hmem hstarts
    rw [events_moveEvent hindex hoff] at hmem
    obtain ⟨place, hlt, rfl⟩ := List.mem_mapIdx.mp hmem
    rcases moveOff_cases tick index place track.events.toList[place] with heq | ⟨hends, heq⟩
    · rw [heq] at hstarts ⊢
      exact h.started _ (List.getElem_mem hlt) hstarts
    · rw [heq] at hstarts
      exact absurd (hends.symm.trans hstarts) nofun
  lastOpen := by
    intro open_ hopen
    obtain ⟨last, key, hlast, hkind, hlater⟩ := h.lastOpen open_ hopen
    rw [events_moveEvent hindex hoff]
    refine ⟨moveOff tick index open_ last, key, by rw [List.getElem?_mapIdx, hlast]; rfl,
      by rw [moveOff_kind]; exact hkind, ?_⟩
    intro later event hlt hevent
    rw [List.getElem?_mapIdx] at hevent
    obtain ⟨before, hbefore, rfl⟩ := Option.map_eq_some_iff.mp hevent
    rw [moveOff_channel, Event.isNoteOf, moveOff_channel, moveOff_kind]
    exact hlater later before hlt hbefore

/-! ## One call -/

/-- What calls keep of a track: it is orderly, and its events are plain. -/
structure Built (track : Track) : Prop where
  orderly : track.Orderly
  plain : ∀ event ∈ track.events.toList, event.IsPlain

theorem built_empty : empty.Built := ⟨orderly_start 0, fun _ hmem => nomatch hmem⟩

variable {track : Track}

theorem Built.addNote (h : track.Built) (channel key velocity : UInt8) (duration : UInt32) :
    (track.addNote channel key velocity duration).Built := by
  refine ⟨h.orderly.addNote channel key velocity duration, ?_⟩
  intro event hmem
  obtain ⟨index, hevent⟩ := List.getElem?_of_mem hmem
  rcases getElem?_addNote track channel key velocity duration hevent
    with ⟨before, hbefore, rfl⟩ | ⟨-, rfl⟩ | ⟨-, rfl⟩
  · have hplain := h.plain before (List.mem_of_getElem? hbefore)
    rcases track.cutEvent_cases (channelOf channel) key index before with heq | ⟨-, -, heq⟩
    · rw [heq]
      exact hplain
    · rw [heq]
      exact hplain.move track.cursor
  · exact isPlain_at one_lt_size nofun rfl
  · exact isPlain_at one_lt_size nofun rfl

theorem Built.addNoteContinuing (h : track.Built) (channel key velocity : UInt8)
    (duration : UInt32) : (track.addNoteContinuing channel key velocity duration).Built := by
  rcases track.addNoteContinuing_eq channel key velocity duration
    with ⟨index, off, hahead, heq⟩ | ⟨-, heq⟩
  · rw [heq]
    refine ⟨h.orderly.moveEvent hahead.event hahead.isOff (le_addTicks track.cursor duration), ?_⟩
    intro event hmem
    rw [events_moveEvent hahead.event hahead.isOff] at hmem
    obtain ⟨place, hplace, rfl⟩ := List.mem_mapIdx.mp hmem
    have hplain := h.plain _ (List.getElem_mem hplace)
    rcases moveOff_cases (addTicks track.cursor duration) index place
      track.events.toList[place] with heq | ⟨-, heq⟩
    · rw [heq]
      exact hplain
    · rw [heq]
      exact hplain.move _
  · rw [heq]
    exact h.addNote (channelOf channel) key velocity duration

/-- Messages at the cursor, if they are plain. -/
theorem Built.pushAll (h : track.Built) {events : List Event} (hmessages : track.Messages events)
    (hplain : ∀ event ∈ events, event.IsPlain) : (track.pushAll events).Built := by
  refine ⟨h.orderly.pushAll hmessages, ?_⟩
  intro event hmem
  rw [toList_pushAll] at hmem
  rcases List.mem_append.mp hmem with hold | hnew
  · exact h.plain event hold
  · exact hplain event hnew

/-- A message at the cursor. -/
theorem Built.add (h : track.Built) (channel : UInt8) (kind : EventKind)
    (hkey : kind.key? = none) (hfits : kind.payload.length + 1 < UInt32.size)
    (hend : kind ≠ .endOfTrack) (htranspose : kind.transpose? = none) :
    (track.add channel kind).Built := by
  rw [add_eq_pushAll]
  refine h.pushAll (messages_singleton track channel hkey) ?_
  intro event hmem
  rw [List.mem_singleton.mp hmem]
  exact isPlain_at hfits hend htranspose

theorem Built.addBendRange (h : track.Built) (channel semitones cents : UInt8) :
    (track.addBendRange channel semitones cents).Built := by
  rw [addBendRange_eq_pushAll]
  refine h.pushAll (messages_bendRangeEvents track channel semitones cents) ?_
  intro event hmem
  obtain ⟨setting, -, rfl⟩ := List.mem_map.mp hmem
  have hplain : (Event.at track.cursor channel (.controller setting.1 setting.2)).IsPlain :=
    isPlain_at one_lt_size (by simp) rfl
  exact ⟨hplain.channel, hplain.fits, hplain.notEnd, hplain.noTranspose,
    fun hkey => absurd rfl hkey⟩

theorem Built.advance (h : track.Built) (ticks : UInt32) : (track.advance ticks).Built :=
  ⟨h.orderly.advance ticks, h.plain⟩

theorem Built.addTempo (h : track.Built) (micros : UInt32) : (track.addTempo micros).Built :=
  h.add 0 (.tempo micros) rfl one_lt_size nofun rfl

/-- Every call keeps a track built. -/
theorem Built.apply (h : track.Built) (call : Call) : (call.apply track).Built := by
  cases call with
  | note channel key velocity duration => exact h.addNote channel key velocity duration
  | noteContinuing channel key velocity duration =>
      exact h.addNoteContinuing channel key velocity duration
  | advance ticks => exact h.advance ticks
  | controller channel number value =>
      exact h.add channel (.controller number value) rfl one_lt_size nofun rfl
  | program channel number =>
      exact h.add channel (.programChange number) rfl one_lt_size nofun rfl
  | pitchBend channel bend => exact h.add channel (.pitchBend bend) rfl one_lt_size nofun rfl
  | bendRange channel semitones cents => exact h.addBendRange channel semitones cents
  | masterVolume volume =>
      have hfits : 6 + 1 < UInt32.size := by decide
      exact h.add 0 (.sysex [0x7f, 0x7f, 0x04, 0x01, 0x00, dataByte volume]) rfl hfits nofun rfl
  | tempo micros => exact h.addTempo micros
  | tempoBpm bpm =>
      show (track.addTempoBpm bpm).Built
      rw [addTempoBpm]
      split
      · exact h.addTempo _
      · exact h

/-- However a track is built, it is orderly, and its events are plain. -/
theorem built_build (calls : List Call) : (build calls).Built := by
  suffices h : ∀ track : Track, track.Built → (calls.foldl Call.apply track).Built from
    h empty built_empty
  induction calls with
  | nil => exact fun track h => h
  | cons call calls ih => exact fun track h => ih _ (h.apply call)

end Track

end ConsoleSound.Midi

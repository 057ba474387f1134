import Mathlib.Data.List.Forall2
import ConsoleSound.Proofs.Midi.Building
/-! # How a track grows

A call leaves the events of a track where they are, apart from the ticks of note-offs, and adds
its own behind them, at the cursor if they are not note-offs (`Track.Grows`). An event that a
track of some channel makes is on that channel or on none, and its key or program is one of the
128 that there are (`Event.IsProper`).

So what does not end a note is made in the order of ticks (`Composed`). -/

namespace ConsoleSound.Midi

/-! ## Proper events -/

/-- The channel of an event that is made on a channel. Tempo and volume of the device are for all
channels, which counts as the first. -/
def EventKind.home (channel : UInt8) : EventKind → UInt8
  | noteOn .. | noteOff _ | controller .. | programChange _ | pitchBend _ => channel
  | tempo _ | sysex _ | globalTranspose _ | endOfTrack => 0

/-- Whether the key or the program of an event is one of 128; there are neither transpositions
nor ends among the events of a track that is played. -/
def EventKind.IsBounded : EventKind → Prop
  | noteOn key _ | noteOff key => key ≤ 127
  | controller number value => number = 84 → value ≤ 127
  | programChange program => program ≤ 127
  | pitchBend _ | tempo _ | sysex _ => True
  | globalTranspose _ | endOfTrack => False

/-- An event as a track of a channel makes it. -/
structure Event.IsProper (channel : UInt8) (event : Event) : Prop where
  channel : event.channel = event.kind.home channel
  bounded : event.kind.IsBounded

theorem channelOf_home {channel : UInt8} (h : channelOf channel = channel) (kind : EventKind) :
    channelOf (kind.home channel) = kind.home channel := by
  cases kind <;> first | exact h | rfl

/-- An event that is made on its channel is proper. -/
theorem isProper_at {channel : UInt8} (h : channelOf channel = channel) (tick : UInt32)
    {kind : EventKind} (hbounded : kind.IsBounded) :
    (Event.at tick (kind.home channel) kind).IsProper channel :=
  ⟨channelOf_home h kind, hbounded⟩

theorem shiftKey_le (key : UInt8) (semitones : Int8) : shiftKey key semitones ≤ 127 := by
  rw [UInt8.le_iff_toNat_le, shiftKey, UInt8.toNat_ofNat']
  show _ ≤ 127
  omega

/-! ## Growth -/

/-- Whether an event stands for another one, the same unless it is a note-off that was moved. -/
def Event.Keeps (before after : Event) : Prop :=
  ∃ time, after = { before with time } ∧ (before.isOff = false → time = before.time)

theorem Event.Keeps.refl (event : Event) : event.Keeps event := ⟨event.time, rfl, fun _ => rfl⟩

/-- A note-off that was moved. -/
theorem Event.Keeps.of_cases {before after : Event} {tick : UInt32}
    (h : after = before ∨ before.isOff = true ∧ after = { before with time := tick }) :
    before.Keeps after := by
  rcases h with rfl | ⟨hoff, rfl⟩
  · exact .refl after
  · exact ⟨tick, rfl, fun hnot => absurd (hoff.symm.trans hnot) nofun⟩

theorem Event.Keeps.isProper {channel : UInt8} {before after : Event} (h : before.Keeps after)
    (hproper : before.IsProper channel) : after.IsProper channel := by
  obtain ⟨time, rfl, -⟩ := h
  exact ⟨hproper.channel, hproper.bounded⟩

namespace Track

/-- What a track becomes when events are made on a channel. -/
structure Grows (channel : UInt8) (before after : Track) : Prop where
  cursor : before.cursor ≤ after.cursor
  events : ∃ kept made, after.events.toList = kept ++ made
    ∧ List.Forall₂ Event.Keeps before.events.toList kept
    ∧ ∀ event ∈ made, event.IsProper channel
        ∧ (event.isOff = false → event.time = before.cursor)

theorem forall₂_keeps_refl (events : List Event) : List.Forall₂ Event.Keeps events events :=
  List.forall₂_same.mpr fun event _ => .refl event

/-- Moving note-offs keeps all events. -/
theorem forall₂_keeps_mapIdx (events : List Event) {moved : Nat → Event → Event} (tick : UInt32)
    (hmoved : ∀ index event, moved index event = event
      ∨ event.isOff = true ∧ moved index event = { event with time := tick }) :
    List.Forall₂ Event.Keeps events (events.mapIdx moved) := by
  induction events generalizing moved with
  | nil => exact .nil
  | cons event events ih =>
      rw [List.mapIdx_cons]
      exact .cons (.of_cases (hmoved 0 event)) (ih fun index event => hmoved (index + 1) event)

variable {channel : UInt8} {track before after : Track}

theorem Grows.refl (track : Track) : Grows channel track track :=
  ⟨UInt32.le_refl _, _, [], (List.append_nil _).symm, forall₂_keeps_refl _,
    fun _ hmem => nomatch hmem⟩

theorem Grows.advance (h : Grows channel before after) (ticks : UInt32) :
    Grows channel before (after.advance ticks) :=
  ⟨UInt32.le_trans h.cursor (le_addTicks after.cursor ticks), h.events⟩

/-- Events at the cursor, if they are proper. -/
theorem grows_pushAll {events : List Event}
    (h : ∀ event ∈ events, event.IsProper channel ∧ event.time = track.cursor) :
    Grows channel track (track.pushAll events) :=
  ⟨UInt32.le_refl _, _, events, toList_pushAll track events, forall₂_keeps_refl _,
    fun event hmem => ⟨(h event hmem).1, fun _ => (h event hmem).2⟩⟩

theorem grows_add (h : channelOf channel = channel) (kind : EventKind) (hbounded : kind.IsBounded) :
    Grows channel track (track.add (kind.home channel) kind) := by
  rw [add_eq_pushAll]
  refine grows_pushAll fun event hmem => ?_
  rw [List.mem_singleton.mp hmem]
  exact ⟨isProper_at h _ hbounded, rfl⟩

theorem grows_addBendRange (h : channelOf channel = channel) (semitones cents : UInt8) :
    Grows channel track (track.addBendRange channel semitones cents) := by
  rw [addBendRange_eq_pushAll]
  refine grows_pushAll fun event hmem => ⟨?_, (messages_bendRangeEvents _ _ _ _ event hmem).2⟩
  -- none of the four controllers has a key
  simp only [bendRangeEvents, List.map_cons, List.map_nil, List.mem_cons, List.not_mem_nil,
    or_false] at hmem
  rcases hmem with rfl | rfl | rfl | rfl <;> exact ⟨h, fun hkey => absurd hkey (by decide)⟩

theorem grows_addNote (h : channelOf channel = channel) {key : UInt8} (hkey : key ≤ 127)
    (velocity : UInt8) (duration : UInt32) :
    Grows channel track (track.addNote channel key velocity duration) := by
  have hcut := forall₂_keeps_mapIdx track.events.toList track.cursor fun index event =>
    (track.cutEvent_cases (channelOf channel) key index event).imp_right
      fun hcut => ⟨hcut.1, hcut.2.2⟩
  refine ⟨?_, _, _, events_addNote track channel key velocity duration, hcut, ?_⟩
  · rw [cursor_addNote]
    exact UInt32.le_refl _
  · intro event hmem
    rcases List.mem_cons.mp hmem with rfl | hmem
    · exact ⟨⟨(newOn_channel ..).trans h, hkey⟩, fun _ => rfl⟩
    · rw [List.mem_singleton.mp hmem]
      exact ⟨⟨(newOff_channel ..).trans h, hkey⟩, nofun⟩

theorem grows_addNoteContinuing (h : channelOf channel = channel) {key : UInt8} (hkey : key ≤ 127)
    (velocity : UInt8) (duration : UInt32) :
    Grows channel track (track.addNoteContinuing channel key velocity duration) := by
  rcases track.addNoteContinuing_eq channel key velocity duration
    with ⟨index, off, hahead, heq⟩ | ⟨-, heq⟩
  · rw [heq]
    exact ⟨UInt32.le_refl _, _, [],
      (events_moveEvent hahead.event hahead.isOff _).trans (List.append_nil _).symm,
      forall₂_keeps_mapIdx _ _ (moveOff_cases _ index), fun _ hmem => nomatch hmem⟩
  · rw [heq, h]
    exact grows_addNote h hkey velocity duration

end Track

/-- A call of a track of some channel, with a key or a program of 128. -/
def Call.IsProper (channel : UInt8) : Call → Prop
  | note own key _ _ | noteContinuing own key _ _ => own = channel ∧ key ≤ 127
  | controller own number value => own = channel ∧ (number = 84 → value ≤ 127)
  | program own number => own = channel ∧ number ≤ 127
  | pitchBend own _ | bendRange own _ _ => own = channel
  | advance _ | masterVolume _ | tempo _ | tempoBpm _ => True

namespace Track

/-- A proper call lets a track grow. -/
theorem grows_apply {channel : UInt8} (h : channelOf channel = channel) {call : Call}
    (hproper : call.IsProper channel) (track : Track) :
    Grows channel track (call.apply track) := by
  cases call with
  | note own key velocity duration =>
      obtain ⟨rfl, hkey⟩ := hproper
      exact grows_addNote h hkey velocity duration
  | noteContinuing own key velocity duration =>
      obtain ⟨rfl, hkey⟩ := hproper
      exact grows_addNoteContinuing h hkey velocity duration
  | advance ticks => exact (Grows.refl track).advance ticks
  | controller own number value =>
      obtain ⟨rfl, hvalue⟩ := hproper
      exact grows_add h (.controller number value) hvalue
  | program own number =>
      obtain ⟨rfl, hnumber⟩ := hproper
      exact grows_add h (.programChange number) hnumber
  | pitchBend own bend =>
      obtain rfl := hproper
      exact grows_add h (.pitchBend bend) trivial
  | bendRange own semitones cents =>
      obtain rfl := hproper
      exact grows_addBendRange h semitones cents
  | masterVolume volume =>
      exact grows_add h (.sysex [0x7f, 0x7f, 0x04, 0x01, 0x00, dataByte volume]) trivial
  | tempo micros => exact grows_add h (.tempo micros) trivial
  | tempoBpm bpm =>
      show Grows channel track (track.addTempoBpm bpm)
      rw [addTempoBpm]
      split
      · exact grows_add h (.tempo (microsPerBeat bpm)) trivial
      · exact .refl track

/-! ## Composed tracks -/

/-- The events that do not end a note. -/
def starting (events : List Event) : List Event := events.filter fun event => !event.isOff

/-- Events that are kept start the same. -/
theorem starting_eq_of_keeps {events kept : List Event}
    (h : List.Forall₂ Event.Keeps events kept) : starting kept = starting events := by
  induction h with
  | nil => rfl
  | @cons event other events kept hkeeps _ ih =>
      obtain ⟨time, rfl, hstays⟩ := hkeeps
      cases hoff : event.isOff with
      | true =>
          have hmoved : Event.isOff { event with time } = true := hoff
          rw [starting, starting, List.filter_cons_of_neg (by simp [hmoved]),
            List.filter_cons_of_neg (by simp [hoff])]
          exact ih
      | false =>
          rw [hstays hoff]
          rw [starting, starting, List.filter_cons_of_pos (by simp [hoff]),
            List.filter_cons_of_pos (by simp [hoff])]
          exact congrArg (event :: ·) ih

/-- Events that are kept stay proper. -/
theorem isProper_of_keeps {channel : UInt8} {events kept : List Event}
    (h : List.Forall₂ Event.Keeps events kept)
    (hproper : ∀ event ∈ events, event.IsProper channel) :
    ∀ event ∈ kept, event.IsProper channel := by
  induction h with
  | nil => exact hproper
  | cons hkeeps _ ih =>
      obtain ⟨hfirst, hrest⟩ := List.forall_mem_cons.mp hproper
      exact List.forall_mem_cons.mpr ⟨hkeeps.isProper hfirst, ih hrest⟩

/-- A track as it is made on a channel from a tick on. -/
structure Composed (channel : UInt8) (start : UInt32) (track : Track) : Prop where
  built : track.Built
  start_le : start ≤ track.cursor
  ordered : (starting track.events.toList).Pairwise fun first second => first.time ≤ second.time
  proper : ∀ event ∈ track.events.toList, event.IsProper channel

theorem composed_start (channel : UInt8) (start : UInt32) :
    (empty.setCursor start).Composed channel start where
  built := ⟨orderly_start start, fun _ hmem => nomatch hmem⟩
  start_le := UInt32.le_refl _
  ordered := .nil
  proper := fun _ hmem => nomatch hmem

/-- A composed track stays so as it grows. -/
theorem Composed.grow {channel : UInt8} {start : UInt32} {track after : Track}
    (h : track.Composed channel start) (hgrows : Grows channel track after)
    (hbuilt : after.Built) : after.Composed channel start := by
  obtain ⟨hcursor, kept, made, hevents, hkept, hmade⟩ := hgrows
  refine ⟨hbuilt, UInt32.le_trans h.start_le hcursor, ?_, ?_⟩
  · -- what starts now starts at the cursor, up to which all else has started
    have hstarting : starting after.events.toList
        = starting track.events.toList ++ starting made := by
      rw [hevents, ← starting_eq_of_keeps hkept]
      exact List.filter_append ..
    have hnew : ∀ event ∈ starting made, event.time = track.cursor := by
      intro event hmem
      obtain ⟨hmem, hnot⟩ := List.mem_filter.mp hmem
      exact (hmade event hmem).2 (by simpa using hnot)
    rw [hstarting, List.pairwise_append]
    refine ⟨h.ordered, List.Pairwise.imp_of_mem ?_ (List.pairwise_of_forall fun _ _ => trivial), ?_⟩
    · intro first second hfirst hsecond _
      rw [hnew first hfirst, hnew second hsecond]
      exact UInt32.le_refl _
    · intro first hfirst second hsecond
      obtain ⟨hmem, hnot⟩ := List.mem_filter.mp hfirst
      rw [hnew second hsecond]
      exact h.built.orderly.started first hmem (by simpa using hnot)
  · intro event hmem
    rw [hevents] at hmem
    rcases List.mem_append.mp hmem with hold | hnew
    · exact isProper_of_keeps hkept h.proper event hold
    · exact (hmade event hnew).1

end Track

/-- In front of every note-off stands the note-on that it ends. -/
theorem Paired.on_of_off {tick : UInt32} {events : List Event} (h : Paired tick events)
    {index : Nat} {off : Event} (hindex : events[index]? = some off) (hoff : off.isOff = true) :
    ∃ place on key velocity, index = place + 1 ∧ events[place]? = some on
      ∧ on.kind = .noteOn key velocity ∧ off.kind = .noteOff key ∧ on.channel = off.channel
      ∧ on.time ≤ off.time := by
  induction h generalizing index with
  | nil => exact nomatch hindex
  | @message tick event rest hkind _ _ ih =>
      cases index with
      | zero =>
          obtain rfl := Option.some.inj hindex
          exact absurd (hoff.symm.trans (Event.isOff_eq_false_of_message hkind)) nofun
      | succ index =>
          obtain ⟨place, on, key, velocity, rfl, hplace, hrest⟩ := ih hindex
          exact ⟨place + 1, on, key, velocity, rfl, hplace, hrest⟩
  | @note tick on off' rest key velocity hon hends hchannel _ hle _ ih =>
      match index with
      | 0 =>
          obtain rfl := Option.some.inj hindex
          exact absurd (hoff.symm.trans (Event.isOff_eq_false_of_on hon)) nofun
      | 1 =>
          obtain rfl := Option.some.inj hindex
          exact ⟨0, on, key, velocity, rfl, rfl, hon, hends, hchannel.symm, hle⟩
      | index + 2 =>
          obtain ⟨place, on', key', velocity', rfl, hplace, hrest⟩ := ih hindex
          exact ⟨place + 2, on', key', velocity', rfl, hplace, hrest⟩

end ConsoleSound.Midi

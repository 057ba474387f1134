import ConsoleSound.Proofs.Midi.Alternation
/-! # Notes on a track

What the operations of a track do to its notes. A note is made as a note-on with its
note-off right behind it (`Paired`), and only note-offs are ever moved, never before
their note-on.

A new note cuts the open note-offs of its key that lie ahead (`cutEvent`), and stands at
the end of the events (`events_addNote`). -/

namespace ConsoleSound.Midi

/-! ## Ticks and channels -/

theorem le_addTicks (tick ticks : UInt32) : tick ≤ addTicks tick ticks := by
  have h := tick.toNat_lt
  rw [UInt32.le_iff_toNat_le, addTicks, UInt32.toNat_ofNat']
  omega

theorem channelOf_channelOf (channel : UInt8) :
    channelOf (channelOf channel) = channelOf channel := by
  have h := channel.toNat_lt
  rw [← UInt8.toNat_inj]
  simp only [channelOf, UInt8.toNat_ofNat']
  omega

/-! ## Events in pairs -/

/-- Events in the order they are made, from a tick on: the events that start something
do not go back in time, and behind every note-on stands its note-off. -/
inductive Paired : UInt32 → List Event → Prop where
  | nil (tick : UInt32) : Paired tick []
  | message {tick : UInt32} {event : Event} {rest : List Event} :
      event.kind.key? = none → tick ≤ event.time → Paired event.time rest →
      Paired tick (event :: rest)
  | note {tick : UInt32} {on off : Event} {rest : List Event} {key velocity : UInt8} :
      on.kind = .noteOn key velocity → off.kind = .noteOff key → off.channel = on.channel →
      tick ≤ on.time → on.time ≤ off.time → Paired on.time rest →
      Paired tick (on :: off :: rest)

namespace Paired

theorem weaken {tick later : UInt32} {events : List Event} (h : Paired later events)
    (hle : tick ≤ later) : Paired tick events := by
  cases h with
  | nil => exact .nil tick
  | message hkind hlate hrest => exact .message hkind (UInt32.le_trans hle hlate) hrest
  | note hon hoff hchannel hlate hends hrest =>
      exact .note hon hoff hchannel (UInt32.le_trans hle hlate) hends hrest

theorem le_time {tick : UInt32} {events : List Event} (h : Paired tick events) :
    ∀ event ∈ events, tick ≤ event.time := by
  induction h with
  | nil => intro event hmem; exact nomatch hmem
  | message _ hle _ ih =>
      intro event hmem
      rcases List.mem_cons.mp hmem with heq | hmem
      · rw [heq]; exact hle
      · exact UInt32.le_trans hle (ih event hmem)
  | note _ _ _ hle hends _ ih =>
      intro event hmem
      rcases List.mem_cons.mp hmem with heq | hmem
      · rw [heq]; exact hle
      · rcases List.mem_cons.mp hmem with heq | hmem
        · rw [heq]; exact UInt32.le_trans hle hends
        · exact UInt32.le_trans hle (ih event hmem)

/-- More events may follow at a tick up to which everything has started. -/
theorem append {tick later : UInt32} {events more : List Event} (h : Paired tick events)
    (hle : tick ≤ later) (hstarted : ∀ event ∈ events, event.isOff = false → event.time ≤ later)
    (hmore : Paired later more) : Paired tick (events ++ more) := by
  induction h with
  | nil => exact hmore.weaken hle
  | @message tick event rest hkind hlate _ ih =>
      have hevent : event.time ≤ later :=
        hstarted event List.mem_cons_self (Event.isOff_eq_false_of_message hkind)
      exact .message hkind hlate
        (ih hevent fun event hmem => hstarted event (List.mem_cons_of_mem _ hmem))
  | @note tick on off rest key velocity hon hoff hchannel hlate hends _ ih =>
      have hevent : on.time ≤ later :=
        hstarted on List.mem_cons_self (Event.isOff_eq_false_of_on hon)
      refine .note hon hoff hchannel hlate hends (ih hevent ?_)
      intro event hmem
      exact hstarted event (List.mem_cons_of_mem _ (List.mem_cons_of_mem _ hmem))

/-- Note-offs may be moved to a tick up to which everything has started. -/
theorem mapIdx {tick cursor : UInt32} {events : List Event} (h : Paired tick events)
    (hstarted : ∀ event ∈ events, event.isOff = false → event.time ≤ cursor)
    (moved : Nat → Event → Event)
    (hmoved : ∀ index event, moved index event = event
      ∨ event.isOff = true ∧ moved index event = { event with time := cursor }) :
    Paired tick (events.mapIdx moved) := by
  induction h generalizing moved with
  | nil => exact .nil _
  | @message tick event rest hkind hlate _ ih =>
      have hstays : moved 0 event = event := by
        rcases hmoved 0 event with heq | ⟨hoff, -⟩
        · exact heq
        · rw [Event.isOff_eq_false_of_message hkind] at hoff
          exact nomatch hoff
      rw [List.mapIdx_cons, hstays]
      exact .message hkind hlate
        (ih (fun event hmem => hstarted event (List.mem_cons_of_mem _ hmem)) _
          fun index event => hmoved (index + 1) event)
  | @note tick on off rest key velocity hon hoff hchannel hlate hends _ ih =>
      have hon_isOff := Event.isOff_eq_false_of_on hon
      have hstays : moved 0 on = on := by
        rcases hmoved 0 on with heq | ⟨hisOff, -⟩
        · exact heq
        · rw [hon_isOff] at hisOff; exact nomatch hisOff
      have hcursor : on.time ≤ cursor := hstarted on List.mem_cons_self hon_isOff
      have hrest := ih (fun event hmem => hstarted event
        (List.mem_cons_of_mem _ (List.mem_cons_of_mem _ hmem)))
        (fun index => moved (index + 2)) fun index event => hmoved (index + 2) event
      rw [List.mapIdx_cons, List.mapIdx_cons, hstays]
      -- the note-off stays, or it goes to the cursor, which is not before the note-on
      rcases hmoved 1 off with heq | ⟨-, heq⟩
      · rw [show moved (0 + 1) off = off from heq]
        exact .note hon hoff hchannel hlate hends hrest
      · rw [show moved (0 + 1) off = { off with time := cursor } from heq]
        exact .note hon hoff hchannel hlate hcursor hrest

/-- The notes of any channels and keys are made in turn. -/
theorem inTurn {tick : UInt32} {events : List Event} (h : Paired tick events)
    (select : UInt8 → Option UInt8 → Bool) (hselect : ∀ channel, select channel none = false) :
    InTurn (events.filter fun event => select event.channel event.kind.key?) := by
  induction h with
  | nil => exact .nil
  | message hkind _ _ ih =>
      rw [List.filter_cons_of_neg (by rw [hkind, hselect]; exact Bool.false_ne_true)]
      exact ih
  | @note tick on off rest key velocity hon hoff hchannel _ hends hrest ih =>
      have hkey : on.kind.key? = some key := by rw [hon]; rfl
      have hkey' : off.kind.key? = some key := by rw [hoff]; rfl
      cases hsel : select on.channel (some key) with
      | true =>
          rw [List.filter_cons_of_pos (by rw [hkey]; exact hsel),
            List.filter_cons_of_pos (by rw [hkey', hchannel]; exact hsel)]
          refine .note (Event.isOn_of_kind hon) (Event.isOff_of_kind hoff)
            (decide_eq_true hends) ?_ ih
          intro event hmem
          exact decide_eq_true (hrest.le_time event (List.mem_filter.mp hmem).1)
      | false =>
          have hnot : ¬ select on.channel (some key) = true := by
            rw [hsel]
            exact Bool.false_ne_true
          rw [List.filter_cons_of_neg (by rw [hkey]; exact hnot),
            List.filter_cons_of_neg (by rw [hkey', hchannel]; exact hnot)]
          exact ih

end Paired

namespace Track

theorem advance_zero (track : Track) : track.advance 0 = track := by
  have h := track.cursor.toNat_lt
  have hcursor : addTicks track.cursor 0 = track.cursor := by
    rw [← UInt32.toNat_inj, addTicks, UInt32.toNat_ofNat', UInt32.toNat_zero]
    omega
  rw [advance, hcursor]

/-- A track with more events at its end. -/
def pushAll (track : Track) (events : List Event) : Track :=
  { track with events := track.events ++ events }

theorem add_eq_pushAll (track : Track) (channel : UInt8) (kind : EventKind) :
    track.add channel kind = track.pushAll [Event.at track.cursor channel kind] := by
  simp [add, push, pushAll]

/-- The four controllers of a bend range. -/
def bendRangeEvents (track : Track) (channel semitones cents : UInt8) : List Event :=
  [(101, 0), (100, 0), (6, semitones), (38, cents)].map fun setting =>
    { Event.at track.cursor channel (.controller setting.1 setting.2) with priority := .highest }

theorem addBendRange_eq_pushAll (track : Track) (channel semitones cents : UInt8) :
    track.addBendRange channel semitones cents
      = track.pushAll (track.bendRangeEvents channel semitones cents) := by
  simp [addBendRange, bendRangeEvents, push, pushAll]

/-! ## What a new note does -/

/-- An event when a note of a channel and a key starts at the cursor: a note-off that
lies ahead and is open is moved to the cursor. -/
def cutEvent (track : Track) (channel key : UInt8) (index : Nat) (event : Event) : Event :=
  if index ∈ track.openOffs ∧ track.cursor < event.time ∧ event.channel = channel
      ∧ event.kind = .noteOff key then
    { event with time := track.cursor }
  else event

theorem cutEvent_eq_self (track : Track) (channel key : UInt8) {index : Nat} {event : Event}
    (h : ¬ (index ∈ track.openOffs ∧ track.cursor < event.time ∧ event.channel = channel
      ∧ event.kind = .noteOff key)) : track.cutEvent channel key index event = event := if_neg h

theorem cutEvent_eq_moved (track : Track) {channel key : UInt8} {index : Nat} {event : Event}
    (hopen : index ∈ track.openOffs) (hahead : track.cursor < event.time)
    (hchannel : event.channel = channel) (hkind : event.kind = .noteOff key) :
    track.cutEvent channel key index event = { event with time := track.cursor } :=
  if_pos ⟨hopen, hahead, hchannel, hkind⟩

/-- An event is left alone, or it is a note-off that is moved to the cursor from behind it. -/
theorem cutEvent_cases (track : Track) (channel key : UInt8) (index : Nat) (event : Event) :
    track.cutEvent channel key index event = event
      ∨ event.isOff = true ∧ track.cursor < event.time
        ∧ track.cutEvent channel key index event = { event with time := track.cursor } := by
  by_cases h : index ∈ track.openOffs ∧ track.cursor < event.time ∧ event.channel = channel
      ∧ event.kind = .noteOff key
  · obtain ⟨hopen, hahead, hchannel, hkind⟩ := h
    exact Or.inr ⟨Event.isOff_of_kind hkind, hahead,
      track.cutEvent_eq_moved hopen hahead hchannel hkind⟩
  · exact Or.inl (track.cutEvent_eq_self channel key h)

@[simp] theorem cutEvent_kind (track : Track) (channel key : UInt8) (index : Nat)
    (event : Event) : (track.cutEvent channel key index event).kind = event.kind := by
  rcases track.cutEvent_cases channel key index event with heq | ⟨-, -, heq⟩ <;> rw [heq]

@[simp] theorem cutEvent_channel (track : Track) (channel key : UInt8) (index : Nat)
    (event : Event) : (track.cutEvent channel key index event).channel = event.channel := by
  rcases track.cutEvent_cases channel key index event with heq | ⟨-, -, heq⟩ <;> rw [heq]

/-- Cutting moves nothing to a later tick. -/
theorem cutEvent_time_le (track : Track) (channel key : UInt8) (index : Nat) (event : Event) :
    (track.cutEvent channel key index event).time ≤ event.time := by
  rcases track.cutEvent_cases channel key index event with heq | ⟨-, hahead, heq⟩
  · rw [heq]
    exact UInt32.le_refl _
  · rw [heq]
    exact UInt32.le_of_lt hahead

/-- Moving the events of some indices to the cursor. -/
theorem foldl_moveEvent (indices : List Nat) (track : Track) :
    let moved := indices.foldl (fun track index => track.moveEvent track.cursor index) track
    moved.cursor = track.cursor ∧ ∀ index, moved.events[index]?
      = track.events[index]?.map fun event =>
          if index ∈ indices then { event with time := track.cursor } else event := by
  induction indices generalizing track with
  | nil => simp
  | cons first indices ih =>
      obtain ⟨hcursor, hevents⟩ := ih (track.moveEvent track.cursor first)
      refine ⟨hcursor, ?_⟩
      intro index
      rw [List.foldl_cons, hevents index]
      simp only [moveEvent, Array.getElem?_modify]
      -- an index that occurs again is moved again, to the same tick
      by_cases hfirst : first = index
      · subst hfirst
        cases track.events[first]? <;> simp
      · rw [if_neg hfirst]
        cases track.events[index]? <;> simp [Ne.symm hfirst]

theorem mem_openOffs_forgetOffsUntil (track : Track) (tick : UInt32) (index : Nat) :
    index ∈ (track.forgetOffsUntil tick).openOffs
      ↔ index ∈ track.openOffs
        ∧ ∃ event, track.events.toList[index]? = some event ∧ tick < event.time := by
  simp only [forgetOffsUntil, List.mem_filter, Array.getElem?_toList]
  cases track.events[index]? <;> simp

theorem endsNote_iff (track : Track) (channel key : UInt8) (index : Nat) :
    track.endsNote channel key index = true
      ↔ ∃ event, track.events.toList[index]? = some event
        ∧ event.channel = channel ∧ event.kind = .noteOff key := by
  simp only [endsNote, Array.getElem?_toList]
  cases track.events[index]? <;> simp

theorem cursor_cutNotes (track : Track) (channel key : UInt8) :
    (track.cutNotes channel key).cursor = track.cursor :=
  (foldl_moveEvent _ (track.forgetOffsUntil track.cursor)).1

theorem events_cutNotes (track : Track) (channel key : UInt8) :
    (track.cutNotes channel key).events.toList
      = track.events.toList.mapIdx (track.cutEvent channel key) := by
  apply List.ext_getElem?
  intro index
  rw [List.getElem?_mapIdx, Array.getElem?_toList, Array.getElem?_toList]
  refine ((foldl_moveEvent _ (track.forgetOffsUntil track.cursor)).2 index).trans ?_
  -- what is forgotten is not moved, but the events themselves are as before
  show track.events[index]?.map _ = track.events[index]?.map _
  cases hevent : track.events[index]? with
  | none => rfl
  | some event =>
      simp only [Option.map_some, List.mem_filter, mem_openOffs_forgetOffsUntil, endsNote_iff,
        cutEvent]
      simp [forgetOffsUntil, hevent, and_assoc]

theorem mem_openOffs_cutNotes (track : Track) (channel key : UInt8) (index : Nat) :
    index ∈ (track.cutNotes channel key).openOffs
      ↔ index ∈ track.openOffs
        ∧ ∃ event, track.events.toList[index]? = some event ∧ track.cursor < event.time
          ∧ ¬ (event.channel = channel ∧ event.kind = .noteOff key) := by
  simp only [cutNotes, List.mem_filter, mem_openOffs_forgetOffsUntil, Bool.not_eq_true',
    ← Bool.not_eq_true, endsNote_iff]
  simp only [forgetOffsUntil]
  cases hevent : track.events.toList[index]? <;> simp [and_assoc]

/-- The note-on of a new note. -/
def newOn (track : Track) (channel key velocity : UInt8) : Event :=
  Event.at track.cursor (channelOf channel) (.noteOn key velocity)

/-- The note-off of a new note. -/
def newOff (track : Track) (channel key : UInt8) (duration : UInt32) : Event :=
  Event.at (addTicks track.cursor duration) (channelOf channel) (.noteOff key)

variable (track : Track) (channel key velocity : UInt8) (duration : UInt32)

@[simp] theorem newOn_channel : (track.newOn channel key velocity).channel = channelOf channel :=
  channelOf_channelOf channel

@[simp] theorem newOff_channel : (track.newOff channel key duration).channel = channelOf channel :=
  channelOf_channelOf channel

theorem cursor_addNote : (track.addNote channel key velocity duration).cursor = track.cursor :=
  track.cursor_cutNotes (channelOf channel) key

/-- A new note cuts the old one and stands at the end. -/
theorem events_addNote :
    (track.addNote channel key velocity duration).events.toList
      = track.events.toList.mapIdx (track.cutEvent (channelOf channel) key)
        ++ [track.newOn channel key velocity, track.newOff channel key duration] := by
  have hcursor := track.cursor_cutNotes (channelOf channel) key
  have hevents := track.events_cutNotes (channelOf channel) key
  simp only [addNote, add, push, Array.toList_push, hevents, hcursor, List.append_assoc]
  rfl

theorem size_addNote :
    (track.addNote channel key velocity duration).events.size = track.events.size + 2 := by
  have hlength := congrArg List.length (track.events_addNote channel key velocity duration)
  simpa using hlength

/-- After a new note, its note-off is open, and so is what was open before, lies ahead
and ends other notes. -/
theorem mem_openOffs_addNote (index : Nat) :
    index ∈ (track.addNote channel key velocity duration).openOffs
      ↔ (index ∈ track.openOffs
          ∧ ∃ event, track.events.toList[index]? = some event ∧ track.cursor < event.time
            ∧ ¬ (event.channel = channelOf channel ∧ event.kind = .noteOff key))
        ∨ index = track.events.size + 1 := by
  have hsize : (track.cutNotes (channelOf channel) key).events.size = track.events.size := by
    have hlength := congrArg List.length (track.events_cutNotes (channelOf channel) key)
    simpa using hlength
  simp only [addNote, add, push, List.mem_append, mem_openOffs_cutNotes, List.mem_singleton,
    Array.size_push, hsize]

/-- The events after a new note by their places. -/
theorem getElem?_addNote {index : Nat} {event : Event}
    (h : (track.addNote channel key velocity duration).events.toList[index]? = some event) :
    (∃ before, track.events.toList[index]? = some before
        ∧ event = track.cutEvent (channelOf channel) key index before)
      ∨ (index = track.events.size ∧ event = track.newOn channel key velocity)
      ∨ (index = track.events.size + 1 ∧ event = track.newOff channel key duration) := by
  rw [events_addNote] at h
  rcases Nat.lt_or_ge index track.events.size with hlt | hge
  · rw [List.getElem?_append_left (by simpa using hlt), List.getElem?_mapIdx] at h
    obtain ⟨before, hbefore, heq⟩ := Option.map_eq_some_iff.mp h
    exact Or.inl ⟨before, hbefore, heq.symm⟩
  · rw [List.getElem?_append_right (by simpa using hge), List.length_mapIdx,
      Array.length_toList] at h
    rcases Nat.lt_or_ge track.events.size index with hgt | hle
    · have hlt : index - track.events.size < 2 := by
        obtain ⟨hlt, -⟩ := List.getElem?_eq_some_iff.mp h
        exact hlt
      have hindex : index = track.events.size + 1 := by omega
      rw [hindex, Nat.add_sub_cancel_left] at h
      exact Or.inr (Or.inr ⟨hindex, (Option.some.inj h).symm⟩)
    · have hindex : index = track.events.size := Nat.le_antisymm hle hge
      rw [hindex, Nat.sub_self] at h
      exact Or.inr (Or.inl ⟨hindex, (Option.some.inj h).symm⟩)

/-- What stood on the track before a new note is cut at most. -/
theorem getElem?_addNote_of_getElem? {index : Nat} {before : Event}
    (h : track.events.toList[index]? = some before) :
    (track.addNote channel key velocity duration).events.toList[index]?
      = some (track.cutEvent (channelOf channel) key index before) := by
  obtain ⟨hlt, -⟩ := List.getElem?_eq_some_iff.mp h
  rw [events_addNote, List.getElem?_append_left (by simpa using hlt), List.getElem?_mapIdx, h]
  rfl

end Track

end ConsoleSound.Midi

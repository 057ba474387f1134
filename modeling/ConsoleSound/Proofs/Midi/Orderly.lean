import ConsoleSound.Proofs.Midi.Notes
/-! # When notes get out of order

`Orderly` is the invariant of a track on which notes are played: its events are paired,
nothing starts after the cursor, and an open note-off is the last event of its key.

On an orderly track a new note leaves the notes of its key in the order of ticks exactly
if they were so before and no note-off that the track has forgotten lies ahead
(`inOrder_addNote`). -/

namespace ConsoleSound.Midi

theorem Event.isNoteOf_iff {channel key : UInt8} {event : Event} :
    event.isNoteOf channel key = true
      ↔ event.channel = channel ∧ event.kind.key? = some key := by
  simp [isNoteOf]

/-- What ends a note of a key is its note-off. -/
theorem Event.kind_of_isOff {event : Event} (h : event.isOff = true) {key : UInt8}
    (hkey : event.kind.key? = some key) : event.kind = .noteOff key := by
  obtain ⟨key', hkind⟩ := exists_kind_of_isOff h
  rw [hkind] at hkey ⊢
  rw [show key' = key from Option.some.inj hkey]

namespace Track

/-- The invariant of a track on which notes are played. -/
structure Orderly (track : Track) : Prop where
  paired : Paired 0 track.events.toList
  started : ∀ event ∈ track.events.toList, event.isOff = false → event.time ≤ track.cursor
  lastOpen : ∀ index ∈ track.openOffs, ∃ (off : Event) (key : UInt8),
    track.events.toList[index]? = some off ∧ off.kind = .noteOff key
      ∧ ∀ (later : Nat) (event : Event), index < later → track.events.toList[later]? = some event →
          event.isNoteOf off.channel key = false

/-- The notes of a channel and a key are in the order of their ticks. -/
def InOrder (track : Track) (channel key : UInt8) : Prop :=
  ∀ (i j : Nat) (first second : Event), i < j → track.events.toList[i]? = some first →
    track.events.toList[j]? = some second → first.isNoteOf channel key = true →
    second.isNoteOf channel key = true → first.time ≤ second.time

/-- The event of an index is a note-off of a channel and a key, and lies ahead. -/
structure LiesAhead (track : Track) (channel key : UInt8) (index : Nat) (off : Event) : Prop where
  event : track.events.toList[index]? = some off
  channel : off.channel = channel
  kind : off.kind = .noteOff key
  ahead : track.cursor < off.time

/-- A note-off that lies ahead but is not open any more: no new note will cut it. -/
def Forgotten (track : Track) (channel key : UInt8) : Prop :=
  ∃ (index : Nat) (off : Event), track.events.toList[index]? = some off ∧ off.channel = channel
    ∧ off.kind = .noteOff key ∧ track.cursor < off.time ∧ index ∉ track.openOffs

theorem LiesAhead.isNoteOf {track : Track} {channel key : UInt8} {index : Nat} {off : Event}
    (h : track.LiesAhead channel key index off) : off.isNoteOf channel key = true :=
  Event.isNoteOf_iff.mpr ⟨h.channel, by rw [h.kind]; rfl⟩

theorem LiesAhead.isOff {track : Track} {channel key : UInt8} {index : Nat} {off : Event}
    (h : track.LiesAhead channel key index off) : off.isOff = true :=
  Event.isOff_of_kind h.kind

theorem forgotten_iff {track : Track} {channel key : UInt8} :
    track.Forgotten channel key
      ↔ ∃ index off, track.LiesAhead channel key index off ∧ index ∉ track.openOffs := by
  constructor
  · rintro ⟨index, off, hevent, hchannel, hkind, hahead, hclosed⟩
    exact ⟨index, off, ⟨hevent, hchannel, hkind, hahead⟩, hclosed⟩
  · rintro ⟨index, off, h, hclosed⟩
    exact ⟨index, off, h.event, h.channel, h.kind, h.ahead, hclosed⟩

/-- What lies ahead is open unless it is forgotten. -/
theorem LiesAhead.mem_openOffs {track : Track} {channel key : UInt8} {index : Nat} {off : Event}
    (h : track.LiesAhead channel key index off) (hremembered : ¬ track.Forgotten channel key) :
    index ∈ track.openOffs := Decidable.byContradiction fun hclosed =>
  hremembered (forgotten_iff.mpr ⟨index, off, h, hclosed⟩)

/-- Sorting by ticks keeps the notes of a key in place exactly if they are in order. -/
theorem pairwise_notes_iff (track : Track) (channel key : UInt8) :
    (track.events.toList.filter (Event.isNoteOf channel key)).Pairwise
        (fun first second => notAfter first second = true)
      ↔ track.InOrder channel key := by
  rw [List.pairwise_filter, List.pairwise_iff_getElem]
  constructor
  · intro h i j first second hij hi hj hfirst hsecond
    obtain ⟨hi', rfl⟩ := List.getElem?_eq_some_iff.mp hi
    obtain ⟨hj', rfl⟩ := List.getElem?_eq_some_iff.mp hj
    exact of_decide_eq_true (h i j hi' hj' hij hfirst hsecond)
  · intro h i j hi hj hij hfirst hsecond
    exact decide_eq_true (h i j _ _ hij (List.getElem?_eq_getElem hi)
      (List.getElem?_eq_getElem hj) hfirst hsecond)

/-! ## Operations that play no note -/

theorem orderly_start (tick : UInt32) : (empty.setCursor tick).Orderly where
  paired := .nil 0
  started := fun _ hmem => nomatch hmem
  lastOpen := fun _ hmem => nomatch hmem

theorem inOrder_start (tick : UInt32) (channel key : UInt8) :
    (empty.setCursor tick).InOrder channel key := by
  intro i j first second _ hi
  exact nomatch hi

theorem Orderly.advance {track : Track} (h : track.Orderly) (ticks : UInt32) :
    (track.advance ticks).Orderly where
  paired := h.paired
  started := fun event hmem hoff =>
    UInt32.le_trans (h.started event hmem hoff) (le_addTicks track.cursor ticks)
  lastOpen := h.lastOpen

theorem Orderly.forgetOffs {track : Track} (h : track.Orderly) : track.forgetOffs.Orderly where
  paired := h.paired
  started := h.started
  lastOpen := fun _ hmem => nomatch hmem

/-- Messages made at the cursor. -/
def Messages (track : Track) (events : List Event) : Prop :=
  ∀ event ∈ events, event.kind.key? = none ∧ event.time = track.cursor

theorem messages_nil (track : Track) : track.Messages [] := fun _ hmem => nomatch hmem

/-- A message at the cursor. -/
theorem messages_singleton (track : Track) (channel : UInt8) {kind : EventKind}
    (h : kind.key? = none) : track.Messages [Event.at track.cursor channel kind] := by
  intro event hmem
  rw [List.mem_singleton.mp hmem]
  exact ⟨h, rfl⟩

/-- What an operation makes of a track when it makes messages only. -/
def MakesMessages (track after : Track) : Prop :=
  ∃ events, track.Messages events ∧ after = track.pushAll events

theorem makesMessages_refl (track : Track) : track.MakesMessages track :=
  ⟨[], messages_nil track, by simp [Track.pushAll]⟩

theorem makesMessages_add (track : Track) (channel : UInt8) {kind : EventKind}
    (h : kind.key? = none) : track.MakesMessages (track.add channel kind) :=
  ⟨_, messages_singleton track channel h, track.add_eq_pushAll channel kind⟩

theorem makesMessages_addTempoBpm (track : Track) (bpm : Float) :
    track.MakesMessages (track.addTempoBpm bpm) := by
  rw [addTempoBpm]
  split
  · exact makesMessages_add track 0 rfl
  · exact makesMessages_refl track

theorem messages_bendRangeEvents (track : Track) (channel semitones cents : UInt8) :
    track.Messages (track.bendRangeEvents channel semitones cents) := by
  intro event hmem
  obtain ⟨setting, -, rfl⟩ := List.mem_map.mp hmem
  exact ⟨rfl, rfl⟩

theorem makesMessages_addBendRange (track : Track) (channel semitones cents : UInt8) :
    track.MakesMessages (track.addBendRange channel semitones cents) :=
  ⟨_, messages_bendRangeEvents track channel semitones cents, addBendRange_eq_pushAll ..⟩

theorem toList_pushAll (track : Track) (events : List Event) :
    (track.pushAll events).events.toList = track.events.toList ++ events := by
  simp [pushAll]

/-- The events after some messages by their places. -/
theorem getElem?_pushAll {track : Track} {events : List Event} {index : Nat} {event : Event}
    (h : (track.pushAll events).events.toList[index]? = some event) :
    track.events.toList[index]? = some event ∨ event ∈ events := by
  rw [toList_pushAll] at h
  rcases Nat.lt_or_ge index track.events.toList.length with hlt | hge
  · rw [List.getElem?_append_left hlt] at h
    exact Or.inl h
  · rw [List.getElem?_append_right hge] at h
    exact Or.inr (List.mem_of_getElem? h)

theorem Messages.isNoteOf {track : Track} {events : List Event} (h : track.Messages events)
    {event : Event} (hmem : event ∈ events) (channel key : UInt8) :
    event.isNoteOf channel key = false := by
  rw [Event.isNoteOf, (h event hmem).1]
  exact Bool.and_false _

theorem Messages.paired {track : Track} {events : List Event} (h : track.Messages events) :
    Paired track.cursor events := by
  induction events with
  | nil => exact .nil _
  | cons event events ih =>
      obtain ⟨hkind, htime⟩ := h event List.mem_cons_self
      have hrest := ih fun other hmem => h other (List.mem_cons_of_mem _ hmem)
      rw [← htime] at hrest
      exact .message hkind (by rw [htime]; exact UInt32.le_refl _) hrest

theorem Orderly.pushAll {track : Track} (h : track.Orderly) {events : List Event}
    (hmessages : track.Messages events) : (track.pushAll events).Orderly where
  paired := by
    rw [toList_pushAll]
    have hzero : 0 ≤ track.cursor := UInt32.zero_le
    exact h.paired.append hzero h.started hmessages.paired
  started := by
    intro event hmem hoff
    rw [toList_pushAll] at hmem
    rcases List.mem_append.mp hmem with hold | hnew
    · exact h.started event hold hoff
    · show event.time ≤ track.cursor
      rw [(hmessages event hnew).2]
      exact UInt32.le_refl _
  lastOpen := by
    intro index hmem
    obtain ⟨off, key, hoff, hkind, hlast⟩ := h.lastOpen index hmem
    refine ⟨off, key, ?_, hkind, ?_⟩
    · obtain ⟨hlt, -⟩ := List.getElem?_eq_some_iff.mp hoff
      rw [toList_pushAll, List.getElem?_append_left hlt]
      exact hoff
    · intro later event hlater hevent
      rcases getElem?_pushAll hevent with hold | hnew
      · exact hlast later event hlater hold
      · exact hmessages.isNoteOf hnew _ _

/-! ## A new note -/

theorem newOn_isNoteOf (track : Track) (channel key velocity : UInt8) :
    (track.newOn channel key velocity).isNoteOf (channelOf channel) key = true := by
  rw [Event.isNoteOf_iff]
  exact ⟨newOn_channel track channel key velocity, rfl⟩

theorem newOff_isNoteOf (track : Track) (channel key : UInt8) (duration : UInt32) :
    (track.newOff channel key duration).isNoteOf (channelOf channel) key = true := by
  rw [Event.isNoteOf_iff]
  exact ⟨newOff_channel track channel key duration, rfl⟩

@[simp] theorem cutEvent_isNoteOf (track : Track) (channel key channel' key' : UInt8)
    (index : Nat) (event : Event) :
    (track.cutEvent channel key index event).isNoteOf channel' key'
      = event.isNoteOf channel' key' := by
  simp [Event.isNoteOf]

theorem Orderly.addNote {track : Track} (h : track.Orderly) (channel key velocity : UInt8)
    (duration : UInt32) : (track.addNote channel key velocity duration).Orderly where
  paired := by
    rw [events_addNote]
    have hcut := h.paired.mapIdx h.started (track.cutEvent (channelOf channel) key)
      fun index event => (track.cutEvent_cases (channelOf channel) key index event).imp_right
        fun hcut => ⟨hcut.1, hcut.2.2⟩
    have hzero : 0 ≤ track.cursor := UInt32.zero_le
    refine hcut.append hzero ?_ ?_
    · intro event hmem hoff
      obtain ⟨index, hlt, heq⟩ := List.mem_mapIdx.mp hmem
      rcases track.cutEvent_cases (channelOf channel) key index track.events.toList[index]
        with hsame | ⟨-, -, hmoved⟩
      · rw [hsame] at heq
        rw [← heq] at hoff ⊢
        exact h.started _ (List.getElem_mem hlt) hoff
      · rw [← heq, hmoved]
        exact UInt32.le_refl _
    · exact .note rfl rfl
        (by rw [newOn_channel, newOff_channel]) (UInt32.le_refl _)
        (le_addTicks track.cursor duration) (.nil _)
  started := by
    intro event hmem hoff
    rw [cursor_addNote]
    obtain ⟨index, hevent⟩ := List.getElem?_of_mem hmem
    rcases getElem?_addNote track channel key velocity duration hevent
      with ⟨before, hbefore, heq⟩ | ⟨-, heq⟩ | ⟨-, heq⟩
    · rcases track.cutEvent_cases (channelOf channel) key index before
        with hsame | ⟨-, -, hmoved⟩
      · rw [hsame] at heq
        rw [heq] at hoff ⊢
        exact h.started before (List.mem_of_getElem? hbefore) hoff
      · rw [heq, hmoved]
        exact UInt32.le_refl _
    · rw [heq]
      exact UInt32.le_refl _
    · rw [heq] at hoff
      exact nomatch hoff
  lastOpen := by
    intro index hmem
    rcases (mem_openOffs_addNote track channel key velocity duration index).mp hmem
      with ⟨hopen, off, hoff, -, hother⟩ | hindex
    · obtain ⟨off', key', hoff', hkind, hlast⟩ := h.lastOpen index hopen
      rw [hoff] at hoff'
      obtain rfl := Option.some.inj hoff'
      refine ⟨_, key', getElem?_addNote_of_getElem? track channel key velocity duration hoff,
        by rw [cutEvent_kind]; exact hkind, ?_⟩
      rw [cutEvent_channel]
      -- the new note is one of another key, or this note-off would have been cut
      have hnew : ∀ event : Event, event.isNoteOf (channelOf channel) key = true →
          event.isNoteOf off.channel key' = false := by
        intro event hnote
        rw [Event.isNoteOf_iff] at hnote
        rw [← Bool.not_eq_true, Event.isNoteOf_iff]
        rintro ⟨hchannel, hkey⟩
        refine hother ⟨hchannel.symm.trans hnote.1, ?_⟩
        rw [hkind, Option.some.inj (hkey.symm.trans hnote.2)]
      intro later event hlater hevent
      rcases getElem?_addNote track channel key velocity duration hevent
        with ⟨before, hbefore, heq⟩ | ⟨-, heq⟩ | ⟨-, heq⟩
      · rw [heq, cutEvent_isNoteOf]
        exact hlast later before hlater hbefore
      · rw [heq]
        exact hnew _ (newOn_isNoteOf track channel key velocity)
      · rw [heq]
        exact hnew _ (newOff_isNoteOf track channel key duration)
    · -- the new note-off is the last event of all
      refine ⟨track.newOff channel key duration, key, ?_, rfl, ?_⟩
      · rw [events_addNote, hindex, List.getElem?_append_right (by simp)]
        simp
      · intro later event hlater hevent
        obtain ⟨hlt, -⟩ := List.getElem?_eq_some_iff.mp hevent
        have hsize := size_addNote track channel key velocity duration
        rw [Array.length_toList] at hlt
        omega

/-- A new note puts the notes of its key out of order exactly if a note-off that the
track has forgotten lies ahead. -/
theorem inOrder_addNote {track : Track} (h : track.Orderly) (channel key velocity : UInt8)
    (duration : UInt32) :
    (track.addNote channel key velocity duration).InOrder (channelOf channel) key
      ↔ track.InOrder (channelOf channel) key ∧ ¬ track.Forgotten (channelOf channel) key := by
  constructor
  · intro hafter
    constructor
    · intro i j first second hij hi hj hfirst hsecond
      have hi' := getElem?_addNote_of_getElem? track channel key velocity duration hi
      have hj' := getElem?_addNote_of_getElem? track channel key velocity duration hj
      have hle := hafter i j _ _ hij hi' hj' (by rwa [cutEvent_isNoteOf])
        (by rwa [cutEvent_isNoteOf])
      -- a note-off before another event of its key is not open, so it is not moved
      have hstays : track.cutEvent (channelOf channel) key i first = first := by
        refine track.cutEvent_eq_self _ key ?_
        rintro ⟨hopen, -, -, -⟩
        obtain ⟨off, key', hoff, hkind, hlast⟩ := h.lastOpen i hopen
        rw [hi] at hoff
        obtain rfl := Option.some.inj hoff
        have hother := hlast j second hij hj
        rw [Event.isNoteOf_iff] at hfirst
        rw [hkind] at hfirst
        rw [hfirst.1, show key' = key from Option.some.inj hfirst.2, hsecond] at hother
        exact nomatch hother
      rw [hstays] at hle
      exact UInt32.le_trans hle (cutEvent_time_le track _ key j second)
    · -- a forgotten note-off stays ahead of the new note-on, which is made after it
      rintro ⟨index, off, hoff, hchannel, hkind, hahead, hnot⟩
      have hstays : track.cutEvent (channelOf channel) key index off = off :=
        track.cutEvent_eq_self _ key fun hcut => hnot hcut.1
      have hindex := getElem?_addNote_of_getElem? track channel key velocity duration hoff
      rw [hstays] at hindex
      have hon : (track.addNote channel key velocity duration).events.toList[track.events.size]?
          = some (track.newOn channel key velocity) := by
        rw [events_addNote, List.getElem?_append_right (by simp)]
        simp
      obtain ⟨hlt, -⟩ := List.getElem?_eq_some_iff.mp hoff
      have hle := hafter index track.events.size off _ (by simpa using hlt) hindex hon
        (Event.isNoteOf_iff.mpr ⟨hchannel, by rw [hkind]; rfl⟩)
        (newOn_isNoteOf track channel key velocity)
      exact UInt32.not_le.mpr hahead hle
  · rintro ⟨hbefore, hkept⟩
    -- cutting leaves every note of the key at or before the cursor, and in order
    have hcut : ∀ index event, track.events.toList[index]? = some event →
        event.isNoteOf (channelOf channel) key = true →
        (track.cutEvent (channelOf channel) key index event).time ≤ track.cursor := by
      intro index event hevent hnote
      cases hoff : event.isOff with
      | false =>
          exact UInt32.le_trans (cutEvent_time_le track _ key index event)
            (h.started event (List.mem_of_getElem? hevent) hoff)
      | true =>
          rw [Event.isNoteOf_iff] at hnote
          have hkind := Event.kind_of_isOff hoff hnote.2
          by_cases hahead : track.cursor < event.time
          · have hopen : index ∈ track.openOffs := Decidable.byContradiction fun hnot =>
              hkept ⟨index, event, hevent, hnote.1, hkind, hahead, hnot⟩
            rw [track.cutEvent_eq_moved hopen hahead hnote.1 hkind]
            exact UInt32.le_refl _
          · exact UInt32.le_trans (cutEvent_time_le track _ key index event)
              (UInt32.not_lt.mp hahead)
    intro i j first second hij hi hj hfirst hsecond
    have hjlt : j < track.events.size + 2 := by
      obtain ⟨hlt, -⟩ := List.getElem?_eq_some_iff.mp hj
      rw [Array.length_toList, size_addNote] at hlt
      exact hlt
    rcases getElem?_addNote track channel key velocity duration hi
      with ⟨first', hi', heq⟩ | ⟨hindex, heq⟩ | ⟨hindex, -⟩
    · have hfirst' : first'.isNoteOf (channelOf channel) key = true := by
        rwa [heq, cutEvent_isNoteOf] at hfirst
      have hreached := hcut i first' hi' hfirst'
      rw [heq]
      rcases getElem?_addNote track channel key velocity duration hj
        with ⟨second', hj', heq'⟩ | ⟨-, heq'⟩ | ⟨-, heq'⟩
      · -- two old notes: the later one may be cut, but not to before the cursor
        rw [heq'] at hsecond ⊢
        rw [cutEvent_isNoteOf] at hsecond
        rcases track.cutEvent_cases (channelOf channel) key j second'
          with hsame | ⟨-, -, hmoved⟩
        · rw [hsame]
          exact UInt32.le_trans (cutEvent_time_le track _ key i first')
            (hbefore i j first' second' hij hi' hj' hfirst' hsecond)
        · rw [hmoved]
          exact hreached
      · rw [heq']
        exact hreached
      · rw [heq']
        exact UInt32.le_trans hreached (le_addTicks track.cursor duration)
    · rcases getElem?_addNote track channel key velocity duration hj
        with ⟨second', hj', -⟩ | ⟨hindex', -⟩ | ⟨-, heq'⟩
      · obtain ⟨hlt, -⟩ := List.getElem?_eq_some_iff.mp hj'
        rw [Array.length_toList] at hlt
        omega
      · omega
      · rw [heq, heq']
        exact le_addTicks track.cursor duration
    · omega

/-! ## What leaves a key alone -/

/-- An operation that neither makes nor moves a note of a channel and a key. -/
structure SameNotes (channel key : UInt8) (before after : Track) : Prop where
  cursor : before.cursor ≤ after.cursor
  kept : ∀ (index : Nat) (event : Event), before.events.toList[index]? = some event →
    event.isNoteOf channel key = true → after.events.toList[index]? = some event
  made : ∀ (index : Nat) (event : Event), after.events.toList[index]? = some event →
    event.isNoteOf channel key = true → before.events.toList[index]? = some event

/-- An operation that forgets no note-off of a channel and a key either, as long as it
lies ahead. -/
structure Aside (channel key : UInt8) (before after : Track) : Prop
    extends SameNotes channel key before after where
  closed : ∀ index ∈ after.openOffs, index < before.events.size → index ∈ before.openOffs
  remembered : ∀ (index : Nat) (event : Event), before.events.toList[index]? = some event →
    event.isNoteOf channel key = true → before.cursor < event.time →
    index ∈ before.openOffs → index ∈ after.openOffs

theorem SameNotes.inOrder_iff {channel key : UInt8} {before after : Track}
    (h : SameNotes channel key before after) :
    after.InOrder channel key ↔ before.InOrder channel key := by
  constructor
  · intro hafter i j first second hij hi hj hfirst hsecond
    exact hafter i j first second hij (h.kept i first hi hfirst) (h.kept j second hj hsecond)
      hfirst hsecond
  · intro hbefore i j first second hij hi hj hfirst hsecond
    exact hbefore i j first second hij (h.made i first hi hfirst) (h.made j second hj hsecond)
      hfirst hsecond

theorem sameNotes_advance (track : Track) (ticks : UInt32) (channel key : UInt8) :
    SameNotes channel key track (track.advance ticks) :=
  ⟨le_addTicks track.cursor ticks, fun _ _ hevent _ => hevent, fun _ _ hevent _ => hevent⟩

theorem sameNotes_wait (track : Track) (ticks : UInt32) (channel key : UInt8) :
    SameNotes channel key track (track.forgetOffs.advance ticks) :=
  ⟨le_addTicks track.cursor ticks, fun _ _ hevent _ => hevent, fun _ _ hevent _ => hevent⟩

theorem Aside.advance {channel key : UInt8} {before after : Track}
    (h : Aside channel key before after) (ticks : UInt32) :
    Aside channel key before (after.advance ticks) :=
  ⟨⟨UInt32.le_trans h.cursor (le_addTicks after.cursor ticks), h.kept, h.made⟩, h.closed,
    h.remembered⟩

theorem aside_pushAll {track : Track} {events : List Event} (h : track.Messages events)
    (channel key : UInt8) : Aside channel key track (track.pushAll events) where
  cursor := UInt32.le_refl _
  kept := by
    intro index event hevent _
    obtain ⟨hlt, -⟩ := List.getElem?_eq_some_iff.mp hevent
    rw [toList_pushAll, List.getElem?_append_left hlt]
    exact hevent
  made := by
    intro index event hevent hnote
    rcases getElem?_pushAll hevent with hold | hnew
    · exact hold
    · rw [h.isNoteOf hnew] at hnote
      exact nomatch hnote
  closed := fun _ hopen _ => hopen
  remembered := fun _ _ _ _ _ hopen => hopen

/-- A new note leaves the notes of other channels and of other keys alone. -/
theorem aside_addNote_of_other (track : Track) (channel key velocity : UInt8)
    (duration : UInt32) {channel' key' : UInt8}
    (h : ¬ (channel' = channelOf channel ∧ key' = key)) :
    Aside channel' key' track (track.addNote channel key velocity duration) := by
  have hother : ∀ event : Event, event.isNoteOf channel' key' = true →
      ¬ event.isNoteOf (channelOf channel) key = true := by
    intro event hnote hown
    rw [Event.isNoteOf_iff] at hnote hown
    exact h ⟨hnote.1.symm.trans hown.1, Option.some.inj (hnote.2.symm.trans hown.2)⟩
  have hends : ∀ event : Event, event.isNoteOf channel' key' = true →
      ¬ (event.channel = channelOf channel ∧ event.kind = .noteOff key) := by
    rintro event hnote ⟨hchannel, hkind⟩
    exact hother event hnote (Event.isNoteOf_iff.mpr ⟨hchannel, by rw [hkind]; rfl⟩)
  have hstays : ∀ (index : Nat) (event : Event), event.isNoteOf channel' key' = true →
      track.cutEvent (channelOf channel) key index event = event := by
    intro index event hnote
    exact track.cutEvent_eq_self _ key fun hcut => hends event hnote hcut.2.2
  refine ⟨⟨?_, ?_, ?_⟩, ?_, ?_⟩
  · rw [cursor_addNote]
    exact UInt32.le_refl _
  · intro index event hevent hnote
    rw [getElem?_addNote_of_getElem? track channel key velocity duration hevent,
      hstays index event hnote]
  · intro index event hevent hnote
    rcases getElem?_addNote track channel key velocity duration hevent
      with ⟨before, hbefore, heq⟩ | ⟨-, heq⟩ | ⟨-, heq⟩
    · rw [heq, cutEvent_isNoteOf] at hnote
      rw [heq, hstays index before hnote]
      exact hbefore
    · rw [heq] at hnote
      exact absurd (newOn_isNoteOf track channel key velocity) (hother _ hnote)
    · rw [heq] at hnote
      exact absurd (newOff_isNoteOf track channel key duration) (hother _ hnote)
  · intro index hopen hlt
    rcases (mem_openOffs_addNote track channel key velocity duration index).mp hopen
      with ⟨hbefore, -⟩ | hnew
    · exact hbefore
    · omega
  · intro index event hevent hnote hahead hopen
    exact (mem_openOffs_addNote track channel key velocity duration index).mpr
      (Or.inl ⟨hopen, event, hevent, hahead, hends event hnote⟩)

/-- A new note leaves the other keys of its channel alone. -/
theorem aside_addNote (track : Track) (channel key velocity : UInt8) (duration : UInt32)
    {key' : UInt8} (h : key' ≠ key) :
    Aside (channelOf channel) key' track (track.addNote channel key velocity duration) :=
  track.aside_addNote_of_other channel key velocity duration fun hsame => h hsame.2

end Track

end ConsoleSound.Midi

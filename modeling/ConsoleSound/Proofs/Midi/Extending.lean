import ConsoleSound.Proofs.Midi.Balance
import ConsoleSound.Proofs.Midi.Growing
import ConsoleSound.Proofs.Midi.Settled
/-! # What a key sounds

A key sounds from each of its note-ons to the note-off behind it (`SoundsAt`, and `Track.Sounds`
told by the places of the two). When its notes are extended, the last one alone decides what the
key sounds from its start on: before the cursor everything stays, and from there on the key
sounds as long as the note says, be that longer than before or shorter
(`sounds_addNoteContinuing`). -/

namespace ConsoleSound.Midi

/-- Whether a tick lies between a note-on and the event behind it. -/
def SoundsAt (events : List Event) (tick : UInt32) : Prop :=
  ∃ note ∈ notePairs events, note.1.time ≤ tick ∧ tick < note.2.time

/-- The notes of a channel and a key among events that are paired. -/
theorem Paired.notePairs_filter {tick : UInt32} {events : List Event} (h : Paired tick events)
    (channel key : UInt8) :
    Midi.notePairs (events.filter (Event.isNoteOf channel key))
      = (Midi.notePairs events).filter fun note => note.1.isNoteOf channel key := by
  induction h with
  | nil => rfl
  | @message tick event rest hkind _ _ ih =>
      have hnot : ¬ event.isNoteOf channel key = true := by
        rw [Event.isNoteOf_iff, hkind]
        rintro ⟨-, hkey⟩
        exact nomatch hkey
      rw [List.filter_cons_of_neg hnot, notePairs_message (Event.isOn_eq_false_of_message hkind)]
      exact ih
  | @note tick on off rest key' velocity hon hoff hchannel _ _ _ ih =>
      have hstarts := Event.isOn_of_kind hon
      have hsame : off.isNoteOf channel key = on.isNoteOf channel key := by
        rw [Event.isNoteOf, Event.isNoteOf, hchannel, hon, hoff]
        rfl
      by_cases hown : on.isNoteOf channel key = true
      · simp [notePairs_note hstarts, hsame, hown, ih]
      · simp [notePairs_note hstarts, hsame, hown, ih]

/-- The notes among events that are paired, told by the places of their note-ons. -/
theorem Paired.mem_notePairs_iff {tick : UInt32} {events : List Event} (h : Paired tick events)
    {note : Event × Event} :
    note ∈ Midi.notePairs events
      ↔ ∃ index, events[index]? = some note.1 ∧ events[index + 1]? = some note.2
        ∧ note.1.isOn = true := by
  induction h with
  | nil => simp [Midi.notePairs]
  | @message tick event rest hkind _ _ ih =>
      have hstarts := Event.isOn_eq_false_of_message hkind
      rw [notePairs_message hstarts, ih]
      constructor
      · rintro ⟨index, hon, hoff, hisOn⟩
        exact ⟨index + 1, hon, hoff, hisOn⟩
      · rintro ⟨index, hon, hoff, hisOn⟩
        cases index with
        | zero =>
            rw [← Option.some.inj hon, hstarts] at hisOn
            exact absurd hisOn Bool.false_ne_true
        | succ index => exact ⟨index, hon, hoff, hisOn⟩
  | @note tick on off rest key velocity hon hoff _ _ _ _ ih =>
      have hstarts := Event.isOn_of_kind hon
      rw [notePairs_note hstarts, List.mem_cons, ih]
      constructor
      · rintro (rfl | ⟨index, hfirst, hsecond, hisOn⟩)
        · exact ⟨0, rfl, rfl, hstarts⟩
        · exact ⟨index + 2, hfirst, hsecond, hisOn⟩
      · rintro ⟨index, hfirst, hsecond, hisOn⟩
        cases index with
        | zero =>
            exact .inl (Prod.ext (Option.some.inj hfirst).symm (Option.some.inj hsecond).symm)
        | succ index =>
            cases index with
            | zero =>
                -- a note-off starts nothing
                have hends := Event.isOn_eq_false_of_isOff (Event.isOff_of_kind hoff)
                rw [← Option.some.inj hfirst, hends] at hisOn
                exact absurd hisOn Bool.false_ne_true
            | succ index => exact .inr ⟨index, hfirst, hsecond, hisOn⟩

namespace Track

/-- A note-on of a channel and a key at an index, with its note-off behind it. -/
structure NoteAt (track : Track) (channel key : UInt8) (index : Nat) (on off : Event) : Prop where
  first : track.events.toList[index]? = some on
  second : track.events.toList[index + 1]? = some off
  isOn : on.isOn = true
  isOff : off.isOff = true
  onOf : on.isNoteOf channel key = true
  offOf : off.isNoteOf channel key = true

/-- Whether a channel and a key sound at a tick. -/
def Sounds (track : Track) (channel key : UInt8) (tick : UInt32) : Prop :=
  ∃ index on off, track.NoteAt channel key index on off ∧ on.time ≤ tick ∧ tick < off.time

variable {track : Track} {channel key : UInt8} {index : Nat} {on off : Event} {tick : UInt32}

/-- If the notes of a key are in order, its events in order of ticks tell what it sounds. -/
theorem soundsAt_iff (horderly : track.Orderly) (hinOrder : track.InOrder channel key) :
    SoundsAt (inTickOrder (track.events.toList.filter (Event.isNoteOf channel key))) tick
      ↔ track.Sounds channel key tick := by
  have hpaired := horderly.paired
  rw [inTickOrder, List.mergeSort_of_pairwise ((pairwise_notes_iff track channel key).mpr hinOrder),
    SoundsAt, hpaired.notePairs_filter]
  constructor
  · rintro ⟨⟨on, off⟩, hmem, hstarted, hends⟩
    obtain ⟨hnote, hown⟩ := List.mem_filter.mp hmem
    obtain ⟨index, hfirst, hsecond, hisOn⟩ := hpaired.mem_notePairs_iff.mp hnote
    obtain ⟨-, -, key', velocity, hon, hoff, hchannel⟩ := hpaired.notePairs (on, off) hnote
    have hoffOf : off.isNoteOf channel key = true := by
      rw [← hown, Event.isNoteOf, Event.isNoteOf, hchannel, hon, hoff]
      rfl
    exact ⟨index, on, off, ⟨hfirst, hsecond, hisOn, Event.isOff_of_kind hoff, hown, hoffOf⟩,
      hstarted, hends⟩
  · rintro ⟨index, on, off, hnote, hstarted, hends⟩
    have hmem : (on, off) ∈ Midi.notePairs track.events.toList :=
      hpaired.mem_notePairs_iff.mpr ⟨index, hnote.first, hnote.second, hnote.isOn⟩
    exact ⟨(on, off), List.mem_filter.mpr ⟨hmem, hnote.onOf⟩, hstarted, hends⟩

/-- What neither makes nor moves a note of a key leaves what the key sounds. -/
theorem SameNotes.sounds_iff {after : Track} (h : SameNotes channel key track after) :
    after.Sounds channel key tick ↔ track.Sounds channel key tick := by
  constructor
  · rintro ⟨index, on, off, hnote, hsounds⟩
    exact ⟨index, on, off, ⟨h.made _ _ hnote.first hnote.onOf, h.made _ _ hnote.second hnote.offOf,
      hnote.isOn, hnote.isOff, hnote.onOf, hnote.offOf⟩, hsounds⟩
  · rintro ⟨index, on, off, hnote, hsounds⟩
    exact ⟨index, on, off, ⟨h.kept _ _ hnote.first hnote.onOf, h.kept _ _ hnote.second hnote.offOf,
      hnote.isOn, hnote.isOff, hnote.onOf, hnote.offOf⟩, hsounds⟩

/-! ## Notes that lie ahead -/

/-- The note-off of a note lies ahead if it is later than the cursor. -/
theorem NoteAt.liesAhead (h : track.NoteAt channel key index on off)
    (hlate : track.cursor < off.time) : track.LiesAhead channel key (index + 1) off := by
  have hoffOf := Event.isNoteOf_iff.mp h.offOf
  exact ⟨h.second, hoffOf.1, Event.kind_of_isOff h.isOff hoffOf.2, hlate⟩

/-- In front of a note-off that lies ahead stands its note-on, which has started. -/
theorem LiesAhead.noteAt (h : track.LiesAhead channel key index off) (horderly : track.Orderly) :
    ∃ place on, index = place + 1 ∧ track.NoteAt channel key place on off
      ∧ on.time ≤ track.cursor := by
  obtain ⟨place, on, key', velocity, rfl, hplace, hon, hkind, hchannel, -⟩ :=
    horderly.paired.on_of_off h.event h.isOff
  obtain rfl : key' = key := EventKind.noteOff.inj (hkind.symm.trans h.kind)
  have honOf : on.isNoteOf channel key' = true :=
    Event.isNoteOf_iff.mpr ⟨hchannel.trans h.channel, by rw [hon]; rfl⟩
  exact ⟨place, on, rfl, ⟨hplace, h.event, Event.isOn_of_kind hon, h.isOff, honOf, h.isNoteOf⟩,
    horderly.started on (List.mem_of_getElem? hplace) (Event.isOff_eq_false_of_on hon)⟩

/-- Moving the note-off that lies ahead to a tick decides what its key sounds from the cursor
on. -/
theorem sounds_moveEvent (h : track.Settled channel key) (horderly : track.Orderly)
    (hahead : track.LiesAhead channel key index off) {ending : UInt32}
    (hle : track.cursor ≤ ending) :
    (track.moveEvent ending index).Sounds channel key tick
      ↔ tick < track.cursor ∧ track.Sounds channel key tick
        ∨ track.cursor ≤ tick ∧ tick < ending := by
  -- what is moved starts nothing
  have hstarts : ¬ off.isOn = true := by
    rw [Event.isOn_eq_false_of_isOff hahead.isOff]
    exact nofun
  constructor
  · rintro ⟨place, on, last, hnote, hstarted, hends⟩
    have hfirst : track.events.toList[place]? = some on := by
      rcases of_getElem?_moveEvent hahead.event hnote.first with ⟨-, rfl⟩ | ⟨-, hbefore⟩
      · exact absurd hnote.isOn hstarts
      · exact hbefore
    rcases of_getElem?_moveEvent hahead.event hnote.second with ⟨rfl, rfl⟩ | ⟨hplace, hsecond⟩
    · rcases UInt32.lt_or_le tick track.cursor with hlt | hge
      · exact .inl ⟨hlt, place, on, off,
          ⟨hfirst, hahead.event, hnote.isOn, hahead.isOff, hnote.onOf, hahead.isNoteOf⟩, hstarted,
          UInt32.lt_trans hlt hahead.ahead⟩
      · exact .inr ⟨hge, hends⟩
    · have hbefore : track.NoteAt channel key place on last :=
        ⟨hfirst, hsecond, hnote.isOn, hnote.isOff, hnote.onOf, hnote.offOf⟩
      rcases UInt32.lt_or_le tick track.cursor with hlt | hge
      · exact .inl ⟨hlt, place, on, last, hbefore, hstarted, hends⟩
      · have hlate := UInt32.lt_of_le_of_lt hge hends
        exact absurd (h.unique hahead (hbefore.liesAhead hlate)) hplace
  · rintro (⟨hlt, place, on, last, hnote, hstarted, hends⟩ | ⟨hge, hlt⟩)
    · have hfirst : index ≠ place := by
        rintro rfl
        obtain rfl := Option.some.inj (hnote.first.symm.trans hahead.event)
        exact hstarts hnote.isOn
      have hfirst := (getElem?_moveEvent_of_ne hfirst ending).trans hnote.first
      by_cases hplace : index = place + 1
      · subst hplace
        obtain rfl := Option.some.inj (hnote.second.symm.trans hahead.event)
        exact ⟨place, on, _, ⟨hfirst, getElem?_moveEvent_self hahead.event ending, hnote.isOn,
          hnote.isOff, hnote.onOf, hnote.offOf⟩, hstarted, UInt32.lt_of_lt_of_le hlt hle⟩
      · have hsecond := (getElem?_moveEvent_of_ne hplace ending).trans hnote.second
        exact ⟨place, on, last, ⟨hfirst, hsecond, hnote.isOn, hnote.isOff, hnote.onOf,
          hnote.offOf⟩, hstarted, hends⟩
    · obtain ⟨place, on, rfl, hnote, hstarted⟩ := hahead.noteAt horderly
      have hfirst := (getElem?_moveEvent_of_ne (Nat.succ_ne_self place) ending).trans hnote.first
      exact ⟨place, on, _, ⟨hfirst, getElem?_moveEvent_self hahead.event ending, hnote.isOn,
        hnote.isOff, hnote.onOf, hnote.offOf⟩, UInt32.le_trans hstarted hge, hlt⟩

/-- A new note of a key that is silent decides what the key sounds from the cursor on. -/
theorem sounds_addNote (velocity : UInt8) (duration : UInt32)
    (hquiet : ∀ index off, ¬ track.LiesAhead (channelOf channel) key index off) :
    (track.addNote channel key velocity duration).Sounds (channelOf channel) key tick
      ↔ tick < track.cursor ∧ track.Sounds (channelOf channel) key tick
        ∨ track.cursor ≤ tick ∧ tick < addTicks track.cursor duration := by
  -- nothing that is there is cut
  have hstays : ∀ (index : Nat) (event : Event), track.events.toList[index]? = some event →
      (track.addNote channel key velocity duration).events.toList[index]? = some event := by
    intro index event hevent
    rw [getElem?_addNote_of_getElem? track channel key velocity duration hevent,
      track.cutEvent_eq_self]
    rintro ⟨-, hahead, hchannel, hkind⟩
    exact hquiet index event ⟨hevent, hchannel, hkind, hahead⟩
  constructor
  · rintro ⟨place, on, last, hnote, hstarted, hends⟩
    rcases getElem?_addNote track channel key velocity duration hnote.first
      with ⟨on', hon, -⟩ | ⟨rfl, hon⟩ | ⟨-, rfl⟩
    · obtain rfl := Option.some.inj ((hstays place on' hon).symm.trans hnote.first)
      rcases getElem?_addNote track channel key velocity duration hnote.second
        with ⟨last', hlast, -⟩ | ⟨-, rfl⟩ | ⟨hplace, -⟩
      · obtain rfl := Option.some.inj ((hstays _ last' hlast).symm.trans hnote.second)
        have hbefore : track.NoteAt (channelOf channel) key place on' last' :=
          ⟨hon, hlast, hnote.isOn, hnote.isOff, hnote.onOf, hnote.offOf⟩
        rcases UInt32.lt_or_le tick track.cursor with hlt | hge
        · exact .inl ⟨hlt, place, on', last', hbefore, hstarted, hends⟩
        · exact absurd (hbefore.liesAhead (UInt32.lt_of_le_of_lt hge hends)) (hquiet _ _)
      · exact absurd hnote.isOff nofun
      · obtain ⟨hlt, -⟩ := List.getElem?_eq_some_iff.mp hon
        rw [Array.length_toList] at hlt
        omega
    · rcases getElem?_addNote track channel key velocity duration hnote.second
        with ⟨last', hlast, -⟩ | ⟨-, rfl⟩ | ⟨-, rfl⟩
      · obtain ⟨hlt, -⟩ := List.getElem?_eq_some_iff.mp hlast
        rw [Array.length_toList] at hlt
        omega
      · exact absurd hnote.isOff nofun
      · rw [hon] at hstarted
        exact .inr ⟨hstarted, hends⟩
    · exact absurd hnote.isOn nofun
  · rintro (⟨-, place, on, last, hnote, hstarted, hends⟩ | ⟨hge, hlt⟩)
    · exact ⟨place, on, last, ⟨hstays _ _ hnote.first, hstays _ _ hnote.second, hnote.isOn,
        hnote.isOff, hnote.onOf, hnote.offOf⟩, hstarted, hends⟩
    · refine ⟨track.events.size, track.newOn channel key velocity,
        track.newOff channel key duration, ⟨?_, ?_, rfl, rfl,
          newOn_isNoteOf track channel key velocity, newOff_isNoteOf track channel key duration⟩,
        hge, hlt⟩
      · rw [events_addNote, List.getElem?_append_right (by simp)]
        simp
      · rw [events_addNote, List.getElem?_append_right (by simp)]
        simp

/-- **The last note decides**: when a note is extended, its key sounds as before up to the cursor,
and from there on exactly as long as the note says. -/
theorem sounds_addNoteContinuing (h : track.Settled (channelOf channel) key)
    (horderly : track.Orderly) (velocity : UInt8) (duration tick : UInt32) :
    (track.addNoteContinuing channel key velocity duration).Sounds (channelOf channel) key tick
      ↔ tick < track.cursor ∧ track.Sounds (channelOf channel) key tick
        ∨ track.cursor ≤ tick ∧ tick < addTicks track.cursor duration := by
  rcases track.addNoteContinuing_eq channel key velocity duration
    with ⟨index, off, hahead, heq⟩ | ⟨hquiet, heq⟩
  · rw [heq]
    exact sounds_moveEvent h horderly hahead (le_addTicks track.cursor duration)
  · rw [← channelOf_channelOf channel] at hquiet ⊢
    rw [heq]
    exact sounds_addNote velocity duration hquiet

end Track

end ConsoleSound.Midi

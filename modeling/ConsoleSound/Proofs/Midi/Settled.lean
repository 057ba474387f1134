import ConsoleSound.Proofs.Midi.Building
/-! # Settled notes

A note-off of a key lies ahead as long as the key sounds (`Track.LiesAhead`). The notes of a
channel and a key are settled (`Track.Settled`) if they are in order and only the last of them
may lie ahead.

They stay settled if the one that lies ahead is moved, but not to before the cursor
(`Settled.moveEvent`), or if a note is added that cuts it (`Settled.addNote`), for which the track
must not have forgotten it. A note that extends the one that sounds does the first of these if
there is one, and otherwise has nothing to cut (`addNoteContinuing_eq`), so that it leaves its key
settled whatever the track remembers (`Settled.addNoteContinuing`). -/

namespace ConsoleSound.Midi

namespace Track

/-! ## Note-offs that lie ahead -/

/-- What is known of the notes of a channel and a key: they are in order, and a note-off that
lies ahead is the last of them. -/
structure Settled (track : Track) (channel key : UInt8) : Prop where
  inOrder : track.InOrder channel key
  endsLast : ∀ (index : Nat) (off : Event), track.LiesAhead channel key index off →
    ∀ (later : Nat) (event : Event), index < later → track.events.toList[later]? = some event →
      event.isNoteOf channel key = false

variable {track : Track} {channel key : UInt8} {index : Nat} {off : Event}

/-- Notes that are in order alternate. -/
theorem Orderly.alternates (h : track.Orderly) (hinOrder : track.InOrder channel key) :
    alternates (inTickOrder (track.events.toList.filter (Event.isNoteOf channel key))) = true := by
  have hturn : InTurn (track.events.toList.filter (Event.isNoteOf channel key)) :=
    h.paired.inTurn (fun own key? => decide (own = channel) && decide (key? = some key))
      fun own => by simp
  rw [alternates_inTickOrder hturn, pairwise_notes_iff]
  exact hinOrder

/-- If no note-off that lies ahead is forgotten, it is the last event of its key. -/
theorem Orderly.settled (h : track.Orderly) (hinOrder : track.InOrder channel key)
    (hremembered : ¬ track.Forgotten channel key) : track.Settled channel key where
  inOrder := hinOrder
  endsLast := by
    intro index off hahead later event hlater hevent
    obtain ⟨last, key', hlast, hkind, hnone⟩ :=
      h.lastOpen index (hahead.mem_openOffs hremembered)
    obtain rfl : off = last := Option.some.inj (hahead.event.symm.trans hlast)
    obtain rfl : key = key' := EventKind.noteOff.inj (hahead.kind.symm.trans hkind)
    rw [← hahead.channel]
    exact hnone later event hlater hevent

/-- At most one note-off of a channel and a key lies ahead. -/
theorem Settled.unique (h : track.Settled channel key) {index' : Nat} {off' : Event}
    (hahead : track.LiesAhead channel key index off)
    (hahead' : track.LiesAhead channel key index' off') : index = index' := by
  rcases Nat.lt_trichotomy index index' with hlt | heq | hgt
  · have hnone := h.endsLast index off hahead index' off' hlt hahead'.event
    rw [hahead'.isNoteOf] at hnone
    exact nomatch hnone
  · exact heq
  · have hnone := h.endsLast index' off' hahead' index off hgt hahead.event
    rw [hahead.isNoteOf] at hnone
    exact nomatch hnone

/-- What neither makes nor moves a note of a channel and a key leaves them settled. -/
theorem SameNotes.settled {after : Track} (h : SameNotes channel key track after)
    (hsettled : track.Settled channel key) : after.Settled channel key where
  inOrder := h.inOrder_iff.mpr hsettled.inOrder
  endsLast := by
    intro index off hahead later event hlater hevent
    have hbefore : track.LiesAhead channel key index off :=
      ⟨h.made index off hahead.event hahead.isNoteOf, hahead.channel, hahead.kind,
        UInt32.lt_of_le_of_lt h.cursor hahead.ahead⟩
    cases hnote : event.isNoteOf channel key with
    | false => rfl
    | true =>
        have hnone := hsettled.endsLast index off hbefore later event hlater
          (h.made later event hevent hnote)
        exact absurd (hnone.symm.trans hnote) nofun

/-! ## Note-offs that are moved -/

/-- The events by their places when the event of an index is moved. -/
theorem getElem?_moveEvent (track : Track) (tick : UInt32) (index place : Nat) :
    (track.moveEvent tick index).events.toList[place]?
      = if index = place then
          track.events.toList[place]?.map fun event => { event with time := tick }
        else track.events.toList[place]? := by
  rw [moveEvent, Array.toList_modify, List.getElem?_modify]
  by_cases hplace : index = place
  · simp [hplace]
  · simp [hplace]

theorem getElem?_moveEvent_self (h : track.events.toList[index]? = some off) (tick : UInt32) :
    (track.moveEvent tick index).events.toList[index]? = some { off with time := tick } := by
  rw [getElem?_moveEvent, if_pos rfl, h]
  rfl

theorem getElem?_moveEvent_of_ne {place : Nat} (h : index ≠ place) (tick : UInt32) :
    (track.moveEvent tick index).events.toList[place]? = track.events.toList[place]? := by
  rw [getElem?_moveEvent, if_neg h]

/-- An event after a move is the one that was moved, or it is where it was. -/
theorem of_getElem?_moveEvent (h : track.events.toList[index]? = some off) {tick : UInt32}
    {place : Nat} {event : Event}
    (hevent : (track.moveEvent tick index).events.toList[place]? = some event) :
    (index = place ∧ event = { off with time := tick })
      ∨ (index ≠ place ∧ track.events.toList[place]? = some event) := by
  by_cases hplace : index = place
  · subst hplace
    rw [getElem?_moveEvent_self h] at hevent
    exact .inl ⟨rfl, (Option.some.inj hevent).symm⟩
  · rw [getElem?_moveEvent_of_ne hplace] at hevent
    exact .inr ⟨hplace, hevent⟩

/-- Moving a note-off leaves the notes of other channels and of other keys alone. -/
theorem aside_moveEvent (h : track.LiesAhead channel key index off) (tick : UInt32)
    {channel' key' : UInt8} (hother : ¬ (channel' = channel ∧ key' = key)) :
    Aside channel' key' track (track.moveEvent tick index) := by
  have hnot : ∀ event : Event, event.channel = off.channel → event.kind = off.kind →
      ¬ event.isNoteOf channel' key' = true := by
    intro event hchannel hkind hnote
    rw [Event.isNoteOf_iff, hchannel, hkind, h.channel, h.kind] at hnote
    exact hother ⟨hnote.1.symm, (Option.some.inj hnote.2).symm⟩
  refine ⟨⟨UInt32.le_refl _, ?_, ?_⟩, fun _ hopen _ => hopen, fun _ _ _ _ _ hopen => hopen⟩
  · intro place event hevent hnote
    have hplace : index ≠ place := by
      rintro rfl
      obtain rfl := Option.some.inj (hevent.symm.trans h.event)
      exact hnot event rfl rfl hnote
    rw [getElem?_moveEvent_of_ne hplace]
    exact hevent
  · intro place event hevent hnote
    rcases of_getElem?_moveEvent h.event hevent with ⟨-, rfl⟩ | ⟨-, hbefore⟩
    · exact absurd hnote (hnot _ rfl rfl)
    · exact hbefore

/-- The one note-off that lies ahead may be moved, but not to before the cursor. -/
theorem Settled.moveEvent (h : track.Settled channel key) (horderly : track.Orderly)
    (hahead : track.LiesAhead channel key index off) {tick : UInt32}
    (hle : track.cursor ≤ tick) : (track.moveEvent tick index).Settled channel key where
  inOrder := by
    intro i j first second hij hi hj hfirst hsecond
    rcases of_getElem?_moveEvent hahead.event hi with ⟨hindex, rfl⟩ | ⟨-, hi⟩
    · -- nothing of the key stands behind the note-off that is moved
      subst hindex
      rcases of_getElem?_moveEvent hahead.event hj with ⟨heq, -⟩ | ⟨-, hj⟩
      · omega
      · rw [h.endsLast index off hahead j second hij hj] at hsecond
        exact nomatch hsecond
    · rcases of_getElem?_moveEvent hahead.event hj with ⟨hindex, rfl⟩ | ⟨-, hj⟩
      · -- what stands in front of it is over, or it would be the one that lies ahead
        subst hindex
        refine UInt32.le_trans ?_ hle
        cases hoff : first.isOff with
        | false => exact horderly.started first (List.mem_of_getElem? hi) hoff
        | true =>
            rw [Event.isNoteOf_iff] at hfirst
            refine UInt32.not_lt.mp fun hlate => ?_
            have hsame := h.unique hahead
              ⟨hi, hfirst.1, Event.kind_of_isOff hoff hfirst.2, hlate⟩
            omega
      · exact h.inOrder i j first second hij hi hj hfirst hsecond
  endsLast := by
    intro place moved hmoved later event hlater hevent
    have hplace : index = place := by
      rcases of_getElem?_moveEvent hahead.event hmoved.event with ⟨heq, -⟩ | ⟨-, hbefore⟩
      · exact heq
      · exact h.unique hahead ⟨hbefore, hmoved.channel, hmoved.kind, hmoved.ahead⟩
    subst hplace
    rcases of_getElem?_moveEvent hahead.event hevent with ⟨heq, -⟩ | ⟨-, hbefore⟩
    · omega
    · exact h.endsLast index off hahead later event hlater hbefore

/-- A note-off that is open is not forgotten when it is moved. -/
theorem not_forgotten_moveEvent (hevent : track.events.toList[index]? = some off)
    (hopen : index ∈ track.openOffs) (tick : UInt32) {channel' key' : UInt8}
    (h : ¬ track.Forgotten channel' key') :
    ¬ (track.moveEvent tick index).Forgotten channel' key' := by
  rw [forgotten_iff] at h ⊢
  rintro ⟨place, moved, hmoved, hclosed⟩
  rcases of_getElem?_moveEvent hevent hmoved.event with ⟨rfl, -⟩ | ⟨-, hbefore⟩
  · exact hclosed hopen
  · exact h ⟨place, moved, ⟨hbefore, hmoved.channel, hmoved.kind, hmoved.ahead⟩, hclosed⟩

/-! ## A new note -/

/-- After a new note the one note-off of its key that lies ahead is its own, which is open. -/
theorem not_forgotten_addNote (channel key velocity : UInt8) (duration : UInt32)
    (h : ¬ track.Forgotten (channelOf channel) key) :
    ¬ (track.addNote channel key velocity duration).Forgotten (channelOf channel) key := by
  rw [forgotten_iff]
  rintro ⟨index, off, hahead, hclosed⟩
  have hlate : track.cursor < off.time := by
    have hlate := hahead.ahead
    rwa [cursor_addNote] at hlate
  rcases getElem?_addNote track channel key velocity duration hahead.event
    with ⟨before, hbefore, rfl⟩ | ⟨-, rfl⟩ | ⟨rfl, -⟩
  · have hchannel := hahead.channel
    have hkind := hahead.kind
    rw [cutEvent_channel] at hchannel
    rw [cutEvent_kind] at hkind
    -- it lay ahead before and was open, so it has been cut
    have hbeforeLate : track.cursor < before.time :=
      UInt32.lt_of_lt_of_le hlate (cutEvent_time_le track _ key index before)
    have hbeforeAhead : track.LiesAhead (channelOf channel) key index before :=
      ⟨hbefore, hchannel, hkind, hbeforeLate⟩
    have hopen := hbeforeAhead.mem_openOffs h
    rw [track.cutEvent_eq_moved hopen hbeforeLate hchannel hkind] at hlate
    exact absurd (UInt32.le_refl _) (UInt32.not_le.mpr hlate)
  · exact absurd hahead.kind nofun
  · exact hclosed ((mem_openOffs_addNote track channel key velocity duration _).mpr (.inr rfl))

/-- A new note leaves its key settled if it was, and no note-off of the key was forgotten. -/
theorem Settled.addNote (h : track.Settled (channelOf channel) key) (horderly : track.Orderly)
    (hremembered : ¬ track.Forgotten (channelOf channel) key) (velocity : UInt8)
    (duration : UInt32) :
    (track.addNote channel key velocity duration).Settled (channelOf channel) key :=
  (horderly.addNote channel key velocity duration).settled
    ((inOrder_addNote horderly channel key velocity duration).mpr ⟨h.inOrder, hremembered⟩)
    (not_forgotten_addNote channel key velocity duration hremembered)

/-! ## An extended note -/

/-- An extended note leaves its key settled. -/
theorem Settled.addNoteContinuing (h : track.Settled (channelOf channel) key)
    (horderly : track.Orderly) (velocity : UInt8) (duration : UInt32) :
    (track.addNoteContinuing channel key velocity duration).Settled (channelOf channel) key := by
  rcases track.addNoteContinuing_eq channel key velocity duration
    with ⟨index, off, hahead, heq⟩ | ⟨hquiet, heq⟩
  · rw [heq]
    exact h.moveEvent horderly hahead (le_addTicks track.cursor duration)
  · have hremembered : ¬ track.Forgotten (channelOf channel) key := by
      rw [forgotten_iff]
      rintro ⟨index, off, hahead, -⟩
      exact hquiet index off hahead
    rw [← channelOf_channelOf channel] at h hremembered ⊢
    rw [heq]
    exact h.addNote horderly hremembered velocity duration

/-- An extended note leaves the notes of other channels and of other keys alone. -/
theorem aside_addNoteContinuing (track : Track) (channel key velocity : UInt8)
    (duration : UInt32) {channel' key' : UInt8}
    (hother : ¬ (channel' = channelOf channel ∧ key' = key)) :
    Aside channel' key' track (track.addNoteContinuing channel key velocity duration) := by
  rcases track.addNoteContinuing_eq channel key velocity duration
    with ⟨index, off, hahead, heq⟩ | ⟨-, heq⟩
  · rw [heq]
    exact aside_moveEvent hahead _ hother
  · rw [heq]
    refine track.aside_addNote_of_other _ key velocity duration ?_
    rw [channelOf_channelOf]
    exact hother

end Track

end ConsoleSound.Midi

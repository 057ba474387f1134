import ConsoleSound.Proofs.Midi.Growing
/-! # A track on another channel, from another tick on

Two tracks are shifted against each other (`Track.Shifted`) if they hold the same events, each
on the channel of its track, and all ticks of the one are as far from its first tick as those of
the other are from that of the other. The same call on the channel of each track keeps them
so (`Track.Shifted.apply`): what cuts a note or extends one compares ticks and channels of one
track only. Ticks stop at the last one, though, so the calls must not go beyond it. -/

namespace ConsoleSound.Midi

/-- Where a track is made: from a tick on, on a channel. -/
structure Origin where
  tick : UInt32
  channel : UInt8
  valid : channelOf channel = channel

/-- The origin of a track that is played for a track of a player. -/
def Origin.ofPlayer (tick : UInt32) (player : UInt8) : Origin :=
  ⟨tick, channelOf player, channelOf_channelOf player⟩

variable {a b : Origin}

/-! ## Ticks -/

/-- Whether two ticks are equally far from their origins. -/
def SameTick (a b : Origin) (tick tick' : UInt32) : Prop :=
  tick.toNat + b.tick.toNat = tick'.toNat + a.tick.toNat

namespace SameTick

variable {tick tick' other other' : UInt32}

theorem start (a b : Origin) : SameTick a b a.tick b.tick := Nat.add_comm _ _

theorem lt_iff (h : SameTick a b tick tick') (h' : SameTick a b other other') :
    tick < other ↔ tick' < other' := by
  rw [SameTick] at h h'
  rw [UInt32.lt_iff_toNat_lt, UInt32.lt_iff_toNat_lt]
  omega

/-- Time goes on alike as long as it does not go beyond the last tick. -/
theorem addTicks (h : SameTick a b tick tick') {ticks : UInt32}
    (hfits : tick.toNat + ticks.toNat < UInt32.size)
    (hfits' : tick'.toNat + ticks.toNat < UInt32.size) :
    SameTick a b (addTicks tick ticks) (addTicks tick' ticks) := by
  rw [SameTick] at h ⊢
  simp only [Midi.addTicks, UInt32.toNat_ofNat', UInt32.size] at hfits hfits' ⊢
  omega

end SameTick

/-! ## Events -/

/-- The same event of two tracks. -/
structure Event.Shifted (a b : Origin) (event event' : Event) : Prop where
  time : SameTick a b event.time event'.time
  kind : event'.kind = event.kind
  priority : event'.priority = event.priority
  channel : event.channel = event.kind.home a.channel
  channel' : event'.channel = event.kind.home b.channel

namespace Event.Shifted

variable {event event' : Event}

theorem move (h : event.Shifted a b event') {tick tick' : UInt32}
    (htick : SameTick a b tick tick') :
    Event.Shifted a b { event with time := tick } { event' with time := tick' } :=
  ⟨htick, h.kind, h.priority, h.channel, h.channel'⟩

/-- Both events end a note of a key, or neither does. -/
theorem ends_iff (h : event.Shifted a b event') (key : UInt8) :
    (event.channel = a.channel ∧ event.kind = .noteOff key)
      ↔ (event'.channel = b.channel ∧ event'.kind = .noteOff key) := by
  rw [h.kind, h.channel, h.channel']
  constructor
  · rintro ⟨-, hkind⟩
    exact ⟨by rw [hkind]; rfl, hkind⟩
  · rintro ⟨-, hkind⟩
    exact ⟨by rw [hkind]; rfl, hkind⟩

theorem endsNote (h : event.Shifted a b event') (key : UInt8) :
    (decide (event'.channel = b.channel) && decide (event'.kind = .noteOff key))
      = (decide (event.channel = a.channel) && decide (event.kind = .noteOff key)) := by
  rw [Bool.eq_iff_iff]
  simp only [Bool.and_eq_true, decide_eq_true_eq]
  exact (h.ends_iff key).symm

/-- An event that is made on the channel of its track. -/
theorem made {tick tick' : UInt32} (h : SameTick a b tick tick') (kind : EventKind) :
    Event.Shifted a b (.at tick (kind.home a.channel) kind)
      (.at tick' (kind.home b.channel) kind) :=
  ⟨h, rfl, rfl, channelOf_home a.valid kind, channelOf_home b.valid kind⟩

end Event.Shifted

/-! ## Lists that are related item by item -/

section Related

variable {α β : Type} {R : α → β → Prop} {items : List α} {items' : List β}

theorem forall₂_modify (h : List.Forall₂ R items items') {f : α → α} {g : β → β}
    (hfg : ∀ item item', R item item' → R (f item) (g item')) (index : Nat) :
    List.Forall₂ R (items.modify index f) (items'.modify index g) := by
  induction h generalizing index with
  | nil => rw [List.modify_nil, List.modify_nil]; exact .nil
  | cons hitem hrest ih =>
      cases index with
      | zero => exact .cons (hfg _ _ hitem) hrest
      | succ index => exact .cons hitem (ih index)

theorem findIdx?_eq_of_forall₂ {items : Array α} {items' : Array β}
    (h : List.Forall₂ R items.toList items'.toList) {p : α → Bool} {q : β → Bool}
    (hpq : ∀ item item', R item item' → p item = q item') :
    items.findIdx? p = items'.findIdx? q := by
  obtain ⟨items⟩ := items
  obtain ⟨items'⟩ := items'
  rw [List.findIdx?_toArray, List.findIdx?_toArray]
  replace h : List.Forall₂ R items items' := h
  induction h with
  | nil => rfl
  | cons hitem _ ih => rw [List.findIdx?_cons, List.findIdx?_cons, hpq _ _ hitem, ih]

theorem rel_getElem?_of_forall₂ (h : List.Forall₂ R items items') (index : Nat) :
    Option.Rel R items[index]? items'[index]? := by
  induction h generalizing index with
  | nil => exact .none
  | cons hitem _ ih =>
      cases index with
      | zero => exact .some hitem
      | succ index => exact ih index

end Related

/-! ## Tracks -/

namespace Track

/-- The same track on two channels, from two ticks on. -/
structure Shifted (a b : Origin) (track track' : Track) : Prop where
  cursor : SameTick a b track.cursor track'.cursor
  events : List.Forall₂ (Event.Shifted a b) track.events.toList track'.events.toList
  openOffs : track'.openOffs = track.openOffs

namespace Shifted

variable {track track' : Track}

theorem start (a b : Origin) : Shifted a b (empty.setCursor a.tick) (empty.setCursor b.tick) :=
  ⟨.start a b, .nil, rfl⟩

theorem getElem? (h : track.Shifted a b track') (index : Nat) :
    Option.Rel (Event.Shifted a b) track.events[index]? track'.events[index]? := by
  rw [← Array.getElem?_toList, ← Array.getElem?_toList]
  exact rel_getElem?_of_forall₂ h.events index

theorem size (h : track.Shifted a b track') : track'.events.size = track.events.size := by
  rw [← Array.length_toList, ← Array.length_toList]
  exact h.events.length_eq.symm

theorem advance (h : track.Shifted a b track') {ticks : UInt32}
    (hfits : track.cursor.toNat + ticks.toNat < UInt32.size)
    (hfits' : track'.cursor.toNat + ticks.toNat < UInt32.size) :
    (track.advance ticks).Shifted a b (track'.advance ticks) :=
  ⟨h.cursor.addTicks hfits hfits', h.events, h.openOffs⟩

theorem forgetOffs (h : track.Shifted a b track') :
    track.forgetOffs.Shifted a b track'.forgetOffs :=
  ⟨h.cursor, h.events, rfl⟩

theorem push (h : track.Shifted a b track') {event event' : Event}
    (hevent : event.Shifted a b event') : (track.push event).Shifted a b (track'.push event') := by
  refine ⟨h.cursor, ?_, h.openOffs⟩
  rw [Track.push, Track.push, Array.toList_push, Array.toList_push]
  exact List.rel_append h.events (.cons hevent .nil)

theorem pushAll (h : track.Shifted a b track') {events events' : List Event}
    (hevents : List.Forall₂ (Event.Shifted a b) events events') :
    (track.pushAll events).Shifted a b (track'.pushAll events') := by
  refine ⟨h.cursor, ?_, h.openOffs⟩
  rw [toList_pushAll, toList_pushAll]
  exact List.rel_append h.events hevents

/-- An event that is made at the cursor, on the channel of the track. -/
theorem add (h : track.Shifted a b track') (kind : EventKind) :
    (track.add (kind.home a.channel) kind).Shifted a b (track'.add (kind.home b.channel) kind) :=
  h.push (.made h.cursor kind)

theorem addBendRange (h : track.Shifted a b track') (semitones cents : UInt8) :
    (track.addBendRange a.channel semitones cents).Shifted a b
      (track'.addBendRange b.channel semitones cents) := by
  rw [addBendRange_eq_pushAll, addBendRange_eq_pushAll]
  refine h.pushAll ?_
  rw [bendRangeEvents, bendRangeEvents, List.forall₂_map_left_iff, List.forall₂_map_right_iff,
    List.forall₂_same]
  intro setting _
  exact ⟨h.cursor, rfl, rfl, a.valid, b.valid⟩

/-! ### Notes -/

theorem moveEvent (h : track.Shifted a b track') {tick tick' : UInt32}
    (htick : SameTick a b tick tick') (index : Nat) :
    (track.moveEvent tick index).Shifted a b (track'.moveEvent tick' index) := by
  refine ⟨h.cursor, ?_, h.openOffs⟩
  rw [Track.moveEvent, Track.moveEvent, Array.toList_modify, Array.toList_modify]
  exact forall₂_modify h.events (fun _ _ hevent => hevent.move htick) index

theorem moveEvents (h : track.Shifted a b track') (indices : List Nat) :
    (indices.foldl (fun track index => track.moveEvent track.cursor index) track).Shifted a b
      (indices.foldl (fun track index => track.moveEvent track.cursor index) track') := by
  induction indices generalizing track track' with
  | nil => exact h
  | cons index indices ih => exact ih (h.moveEvent h.cursor index)

theorem forgetOffsUntil (h : track.Shifted a b track') :
    (track.forgetOffsUntil track.cursor).Shifted a b (track'.forgetOffsUntil track'.cursor) := by
  refine ⟨h.cursor, h.events, ?_⟩
  rw [Track.forgetOffsUntil, Track.forgetOffsUntil, h.openOffs]
  refine List.filter_congr fun index _ => ?_
  have hsame := h.getElem? index
  generalize track.events[index]? = event?, track'.events[index]? = event?' at hsame ⊢
  cases hsame with
  | none => rfl
  | some hevent => exact decide_eq_decide.mpr (h.cursor.lt_iff hevent.time).symm

theorem endsNote (h : track.Shifted a b track') (key : UInt8) (index : Nat) :
    track'.endsNote b.channel key index = track.endsNote a.channel key index := by
  have hsame := h.getElem? index
  rw [Track.endsNote, Track.endsNote]
  generalize track.events[index]? = event?, track'.events[index]? = event?' at hsame ⊢
  cases hsame with
  | none => rfl
  | some hevent => exact hevent.endsNote key

theorem cutNotes (h : track.Shifted a b track') (key : UInt8) :
    (track.cutNotes a.channel key).Shifted a b (track'.cutNotes b.channel key) := by
  have hahead := h.forgetOffsUntil
  have hends : (track'.forgetOffsUntil track'.cursor).endsNote b.channel key
      = (track.forgetOffsUntil track.cursor).endsNote a.channel key :=
    funext (hahead.endsNote key)
  rw [Track.cutNotes, Track.cutNotes]
  simp only [hends, hahead.openOffs]
  have hmoved := hahead.moveEvents
    ((track.forgetOffsUntil track.cursor).openOffs.filter
      ((track.forgetOffsUntil track.cursor).endsNote a.channel key))
  exact ⟨hmoved.cursor, hmoved.events, rfl⟩

theorem addNote (h : track.Shifted a b track') (key velocity : UInt8) {duration : UInt32}
    (hfits : track.cursor.toNat + duration.toNat < UInt32.size)
    (hfits' : track'.cursor.toNat + duration.toNat < UInt32.size) :
    (track.addNote a.channel key velocity duration).Shifted a b
      (track'.addNote b.channel key velocity duration) := by
  have hon := (h.cutNotes key).add (.noteOn key velocity)
  -- cutting the old note and striking the new one leave the cursor where it is
  have hend := hon.cursor.addTicks (by rwa [← track.cursor_cutNotes a.channel key] at hfits)
    (by rwa [← track'.cursor_cutNotes b.channel key] at hfits')
  have hoff := hon.push (.made hend (.noteOff key))
  rw [Track.addNote, Track.addNote, a.valid, b.valid]
  refine ⟨hoff.cursor, hoff.events, ?_⟩
  exact congrArg₂ (fun openOffs size => openOffs ++ [size]) hon.openOffs hon.size

theorem addNoteContinuing (h : track.Shifted a b track') (key velocity : UInt8) {duration : UInt32}
    (hfits : track.cursor.toNat + duration.toNat < UInt32.size)
    (hfits' : track'.cursor.toNat + duration.toNat < UInt32.size) :
    (track.addNoteContinuing a.channel key velocity duration).Shifted a b
      (track'.addNoteContinuing b.channel key velocity duration) := by
  have hfind : track'.events.findIdx? (fun event =>
        track'.cursor < event.time && event.channel = b.channel && event.kind = .noteOff key)
      = track.events.findIdx? fun event =>
        track.cursor < event.time && event.channel = a.channel && event.kind = .noteOff key := by
    refine (findIdx?_eq_of_forall₂ h.events fun event event' hevent => ?_).symm
    rw [Bool.and_assoc, Bool.and_assoc, hevent.endsNote key,
      decide_eq_decide.mpr (h.cursor.lt_iff hevent.time)]
  rw [Track.addNoteContinuing, Track.addNoteContinuing, a.valid, b.valid]
  simp only [hfind]
  split
  · exact h.moveEvent (h.cursor.addTicks hfits hfits') _
  · exact h.addNote key velocity hfits hfits'

end Shifted

end Track

/-! ## Calls -/

namespace Call

/-- The same call on another channel. -/
def onChannel (channel : UInt8) : Call → Call
  | note _ key velocity duration => note channel key velocity duration
  | noteContinuing _ key velocity duration => noteContinuing channel key velocity duration
  | controller _ number value => controller channel number value
  | program _ number => program channel number
  | pitchBend _ bend => pitchBend channel bend
  | bendRange _ semitones cents => bendRange channel semitones cents
  | advance ticks => advance ticks
  | masterVolume volume => masterVolume volume
  | tempo micros => tempo micros
  | tempoBpm bpm => tempoBpm bpm

/-- Whether a call does not go beyond the last tick. -/
def FitsAt (cursor : UInt32) : Call → Prop
  | note _ _ _ duration | noteContinuing _ _ _ duration =>
    cursor.toNat + duration.toNat < UInt32.size
  | advance ticks => cursor.toNat + ticks.toNat < UInt32.size
  | _ => True

end Call

/-- A call on the channel of each track keeps them the same. -/
theorem Track.Shifted.apply {track track' : Track} (h : track.Shifted a b track') {call : Call}
    (hfits : call.FitsAt track.cursor) (hfits' : call.FitsAt track'.cursor) :
    ((call.onChannel a.channel).apply track).Shifted a b
      ((call.onChannel b.channel).apply track') := by
  cases call with
  | note _ key velocity duration => exact h.addNote key velocity hfits hfits'
  | noteContinuing _ key velocity duration => exact h.addNoteContinuing key velocity hfits hfits'
  | advance ticks => exact h.advance hfits hfits'
  | controller _ number value => exact h.add (.controller number value)
  | program _ number => exact h.add (.programChange number)
  | pitchBend _ bend => exact h.add (.pitchBend bend)
  | bendRange _ semitones cents => exact h.addBendRange semitones cents
  | masterVolume volume =>
      exact h.add (.sysex [0x7f, 0x7f, 0x04, 0x01, 0x00, dataByte volume])
  | tempo micros => exact h.add (.tempo micros)
  | tempoBpm bpm =>
      show (track.addTempoBpm bpm).Shifted a b (track'.addTempoBpm bpm)
      rw [addTempoBpm, addTempoBpm]
      split
      · exact h.add (.tempo (microsPerBeat bpm))
      · exact h

end ConsoleSound.Midi

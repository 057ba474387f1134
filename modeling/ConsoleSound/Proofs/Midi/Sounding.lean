import ConsoleSound.Proofs.Midi.Transposing
/-! # Notes that are started and ended under transposes

A note that is written with one key at both of its ends is in balance
(`Transposed.notesInBalance`). One that goes on while the transposition changes may be
started with one key and ended with another, and then the first of the two never ends
(`Transposed.exists_off`). All tracks are in balance exactly if the transposition is the same
at all ticks (`playsInBalance_build`). -/

namespace ConsoleSound.Midi

/-! ## What a reader has to find -/

/-- Whether a message is of a group, on a channel, and about a key. -/
def Record.isAbout (group channel : Nat) (key : UInt8) (record : Record) : Bool :=
  record.status.toNat / 16 = group && record.status.toNat % 16 = channel
    && record.data.head? = some key

/-- Whether on every channel and for every key as many notes end as start, and never more
before. Note-ons are of group nine, note-offs of group eight. -/
def NotesInBalance (records : List Record) : Prop :=
  ∀ channel key, InBalance (Record.isAbout 9 channel key) (Record.isAbout 8 channel key) records

/-- The key that a note event is written with. -/
def File.writtenKey? (file : File) (event : Event) : Option UInt8 :=
  event.kind.key?.map (soundingKey (file.transposeAt event.time) event.channel)

section

variable {file : File}

/-! ## Notes as they are written -/

/-- The high half of the status byte of a message. -/
def EventKind.group : EventKind → Nat
  | noteOn .. => 0x9
  | noteOff _ => 0x8
  | controller .. => 0xb
  | programChange _ => 0xc
  | pitchBend _ => 0xe
  | _ => 0xf

theorem Event.isOn_of_group {event : Event} (h : event.kind.group = 9) : event.isOn = true := by
  cases hkind : event.kind with
  | noteOn key velocity => exact isOn_of_kind hkind
  | _ => rw [hkind] at h; exact nomatch h

theorem Event.isOff_of_group {event : Event} (h : event.kind.group = 8) : event.isOff = true := by
  cases hkind : event.kind with
  | noteOff key => exact isOff_of_kind hkind
  | _ => rw [hkind] at h; exact nomatch h

theorem status_record? {event : Event} (hchannel : event.channel.toNat < 16) {transpose : Int8}
    {record : Record} (h : event.record? transpose = some record) :
    record.status.toNat / 16 = event.kind.group := by
  have hstatus {group : Nat} (hgroup : group < 16) :
      (statusByte group event.channel).toNat / 16 = group := by
    have htoNat := toNat_statusByte hchannel hgroup
    omega
  obtain ⟨time, channel, priority, kind⟩ := event
  cases kind with
  | tempo micros =>
      rw [← Option.some.inj h]
      exact show (0xff : UInt8).toNat / 16 = 0xf by decide
  | sysex payload =>
      rw [← Option.some.inj h]
      exact show (0xf0 : UInt8).toNat / 16 = 0xf by decide
  | endOfTrack =>
      rw [← Option.some.inj h]
      exact show (0xff : UInt8).toNat / 16 = 0xf by decide
  | globalTranspose semitones => exact nomatch h
  | _ =>
      -- a message on a channel
      rw [← Option.some.inj h]
      exact hstatus (by decide)

/-- Whether an event is written as a message of a group, on a channel, and about a key. -/
def File.writesAbout (file : File) (group number : Nat) (key : UInt8) (event : Event) : Bool :=
  (event.record? (file.transposeAt event.time)).any (Record.isAbout group number key)

theorem isAbout_statusByte {group : Nat} {channel : UInt8} (hchannel : channel.toNat < 16)
    (hgroup : group < 16) (time number : Nat) (key written : UInt8) (data : List UInt8) :
    Record.isAbout group number key ⟨time, statusByte group channel, written :: data⟩
      = (decide (channel.toNat = number) && decide (some written = some key)) := by
  have hstatus := toNat_statusByte hchannel hgroup
  have hdiv : (statusByte group channel).toNat / 16 = group := by omega
  have hmod : (statusByte group channel).toNat % 16 = channel.toNat := by omega
  simp [Record.isAbout, hdiv, hmod]

/-- An event of a note is written about the key that it is written with. -/
theorem writesAbout_note {event : Event} (hchannel : event.channel.toNat < 16) (group : Nat)
    (hgroup : event.kind.group = group) (hkey : event.kind.key? ≠ none) (number : Nat)
    (written : UInt8) :
    file.writesAbout group number written event
      = (decide (event.channel.toNat = number)
        && decide (file.writtenKey? event = some written)) := by
  subst hgroup
  obtain ⟨time, channel, priority, kind⟩ := event
  cases kind with
  | noteOn key velocity => exact isAbout_statusByte hchannel (by decide) _ number written _ _
  | noteOff key => exact isAbout_statusByte hchannel (by decide) _ number written _ _
  | _ => exact absurd rfl hkey

/-- What is written about a key in a group is an event of that group. -/
theorem group_of_writesAbout {event : Event} (hchannel : event.channel.toNat < 16)
    {group number : Nat} {key : UInt8} (h : file.writesAbout group number key event = true) :
    event.kind.group = group := by
  obtain ⟨record, hrecord, habout⟩ := (Option.any_eq_true _ _).mp h
  rw [← status_record? hchannel hrecord]
  simp only [Record.isAbout, Bool.and_eq_true, decide_eq_true_eq] at habout
  exact habout.1.1

/-- Written events are counted as what they are. -/
theorem counted_writesAbout {event : Event} (hchannel : event.channel.toNat < 16) (number : Nat)
    (key : UInt8) :
    Counted (file.writesAbout 9 number key) (file.writesAbout 8 number key) event where
  notOn := by
    intro hon
    rw [← Bool.not_eq_true]
    intro hwrites
    rw [Event.isOn_of_group (group_of_writesAbout hchannel hwrites)] at hon
    exact nomatch hon
  notOff := by
    intro hoff
    rw [← Bool.not_eq_true]
    intro hwrites
    rw [Event.isOff_of_group (group_of_writesAbout hchannel hwrites)] at hoff
    exact nomatch hoff

/-- A message is not a note-on and a note-off. -/
theorem isAbout_off_of_on {number : Nat} {key : UInt8} {record : Record}
    (h : record.isAbout 9 number key = true) : record.isAbout 8 number key = false := by
  simp only [Record.isAbout, Bool.and_eq_true, decide_eq_true_eq] at h
  simp [Record.isAbout, h.1.1]

theorem writesAbout_off_of_on {number : Nat} {key : UInt8} {event : Event}
    (h : file.writesAbout 9 number key event = true) :
    file.writesAbout 8 number key event = false := by
  obtain ⟨record, hrecord, habout⟩ := (Option.any_eq_true _ _).mp h
  rw [File.writesAbout, hrecord]
  exact isAbout_off_of_on habout

/-! ## Notes in balance -/

namespace Transposed

variable {track : Track}

/-- The records of a track are in balance if its events are, as they are written. -/
theorem notesInBalance_iff (h : Transposed file track) :
    NotesInBalance (recordsOf (file.orderedEvents track))
      ↔ ∀ number key, InBalance (file.writesAbout 9 number key) (file.writesAbout 8 number key)
          (file.orderedEvents track) := by
  refine forall₂_congr fun number key => ?_
  rw [← sounding?_zero_iff fun record => isAbout_off_of_on,
    ← sounding?_zero_iff fun event => writesAbout_off_of_on,
    h.recordsOf_orderedEvents, sounding?_filterMap]
  rfl

/-- A track whose notes are each written with one key is in balance. -/
theorem notesInBalance (h : Transposed file track)
    (hsame : ∀ note ∈ notePairs track.events.toList,
      file.writtenKey? note.1 = file.writtenKey? note.2) :
    NotesInBalance (recordsOf (file.orderedEvents track)) := by
  have hplain := h.built.plain
  have hend := channel_at_lt (file.endTick track) 0 .endOfTrack
  rw [h.notesInBalance_iff]
  intro number key
  obtain ⟨hstart, hends⟩ := (counted_writesAbout hend number key).message rfl
  rw [← sounding?_zero_iff fun event => writesAbout_off_of_on, File.orderedEvents_eq,
    h.mergedEvents_eq, sounding?_insertOther hstart hends, List.append_nil]
  refine sounding?_mergeSort h.built.orderly.paired ?_
    (fun event hmem => (hplain event hmem).noteRank) ?_ ?_
  · intro event hmem
    exact counted_writesAbout (Event.isMade_iff.mp (h.made event hmem).1) number key
  · intro event hmem
    obtain ⟨tick, semitones, rfl⟩ := h.shared event hmem
    rfl
  · intro note hmem
    obtain ⟨hon, hoff, written, velocity, hkindOn, hkindOff, hchannel⟩ :=
      h.built.orderly.paired.notePairs note hmem
    rw [writesAbout_note (hplain _ hon).channel 9 (by rw [hkindOn]; rfl) (by rw [hkindOn]; nofun),
      writesAbout_note (hplain _ hoff).channel 8 (by rw [hkindOff]; rfl) (by rw [hkindOff]; nofun),
      hchannel, hsame note hmem]

/-- In balance every note-on has a note-off that is written with its key. -/
theorem exists_off (h : Transposed file track)
    (hbalance : NotesInBalance (recordsOf (file.orderedEvents track))) {on : Event}
    (hon : on ∈ track.events.toList) {key velocity : UInt8}
    (hkind : on.kind = .noteOn key velocity) :
    ∃ off ∈ track.events.toList, off.isOff = true
      ∧ file.writtenKey? off = file.writtenKey? on := by
  rw [h.notesInBalance_iff] at hbalance
  obtain ⟨written, hwritten⟩ : ∃ written, file.writtenKey? on = some written := by
    rw [File.writtenKey?, hkind]
    exact ⟨_, rfl⟩
  have hstarts : file.writesAbout 9 on.channel.toNat written on = true := by
    rw [writesAbout_note (h.built.plain on hon).channel 9 (by rw [hkind]; rfl)
      (by rw [hkind]; nofun)]
    simp [hwritten]
  have honOrdered : on ∈ file.orderedEvents track := by
    rw [File.orderedEvents_eq, h.mergedEvents_eq]
    exact List.mem_append_left _ (List.mem_mergeSort.mpr (List.mem_append_left _ hon))
  -- as many end as start, and one starts
  obtain ⟨hcount, -⟩ := hbalance on.channel.toNat written
  have hpos := List.countP_pos_iff.mpr ⟨on, honOrdered, hstarts⟩
  rw [← hcount] at hpos
  obtain ⟨off, hoffOrdered, hends⟩ := List.countP_pos_iff.mp hpos
  have hchannel := (readRecords?_of_made h.made).1 off hoffOrdered
  have hgroup := group_of_writesAbout hchannel hends
  have hoff := Event.isOff_of_group hgroup
  have hkey : off.kind.key? ≠ none := by
    obtain ⟨key', hkindOff⟩ := Event.exists_kind_of_isOff hoff
    rw [hkindOff]
    nofun
  rw [writesAbout_note hchannel 8 hgroup hkey, Bool.and_eq_true, decide_eq_true_eq,
    decide_eq_true_eq] at hends
  exact ⟨off, h.mem_own_of_key hoffOrdered hkey, hoff, hends.2.trans hwritten.symm⟩

end Transposed

end

/-! ## Tracks of one note -/

theorem addTicks_zero_left (ticks : UInt32) : addTicks 0 ticks = ticks := by
  have hlt := ticks.toNat_lt
  rw [← UInt32.toNat_inj, addTicks, UInt32.toNat_ofNat', UInt32.toNat_zero]
  omega

/-- A note on the first channel from the start to a tick. -/
theorem events_build_note (key velocity : UInt8) (tick : UInt32) :
    (Track.build [.note 0 key velocity tick]).events.toList
      = [Event.at 0 0 (.noteOn key velocity), Event.at tick 0 (.noteOff key)] := by
  refine (Track.events_addNote .empty 0 key velocity tick).trans ?_
  show [Event.at 0 0 (.noteOn key velocity), Event.at (addTicks 0 tick) 0 (.noteOff key)] = _
  rw [addTicks_zero_left]

/-- No two transpositions sound all the keys alike. -/
theorem eq_of_soundingKey {transpose other : Int8}
    (h : ∀ key, soundingKey transpose 0 key = soundingKey other 0 key) : transpose = other := by
  have hkey (key : Nat) (hlt : key < 256) : max 0 (min 127 (key + transpose.toInt))
      = max 0 (min 127 (key + other.toInt)) := by
    have hsame := congrArg UInt8.toNat (h (UInt8.ofNat key))
    have hnot : ¬ (0 : UInt8) = 9 := by decide
    rw [soundingKey, soundingKey, if_neg hnot, if_neg hnot] at hsame
    simp only [UInt8.toNat_ofNat'] at hsame
    omega
  -- transpositions up are told apart by the lowest key, those down by the highest ones
  have hlowest := hkey 0 (by decide)
  have hhighest := hkey 127 (by decide)
  have habove := hkey 128 (by decide)
  have hlow := transpose.le_toInt
  have hlow' := other.le_toInt
  have hhigh := transpose.toInt_lt
  have hhigh' := other.toInt_lt
  rw [← Int8.toInt_inj]
  omega

/-- A note that is alone on its track is in balance only if it ends with the key that it
starts with. -/
theorem soundingKey_of_notesInBalance {file : File} {key velocity : UInt8} {tick : UInt32}
    (h : Transposed file (Track.build [.note 0 key velocity tick]))
    (hbalance : NotesInBalance (recordsOf (file.orderedEvents
      (Track.build [.note 0 key velocity tick])))) :
    soundingKey (file.transposeAt tick) 0 key = soundingKey (file.transposeAt 0) 0 key := by
  have hevents := events_build_note key velocity tick
  have hon : Event.at 0 0 (.noteOn key velocity)
      ∈ (Track.build [.note 0 key velocity tick]).events.toList := by
    rw [hevents]
    exact List.mem_cons_self
  obtain ⟨off, hoff, hisOff, hwritten⟩ := h.exists_off hbalance hon rfl
  rw [hevents, List.mem_cons, List.mem_singleton] at hoff
  rcases hoff with rfl | rfl
  · exact nomatch hisOff
  · exact Option.some.inj hwritten

/-! ## Built tracks under transposes -/

/-- Whether the notes of a built track are read back in balance from the body that is written
for it under some transposes. -/
def PlaysInBalance (resolution : UInt16) (transposes : List (UInt32 × Int8)) (calls : List Call) :
    Prop :=
  let file := (File.empty resolution).withTransposes transposes
  ∃ records, readRecords? 0 (file.trackBody (Track.build calls)).toList = some records
    ∧ NotesInBalance records

theorem playsInBalance_iff (resolution : UInt16) (transposes : List (UInt32 × Int8))
    (calls : List Call) :
    PlaysInBalance resolution transposes calls
      ↔ NotesInBalance (recordsOf
          (((File.empty resolution).withTransposes transposes).orderedEvents
            (Track.build calls))) := by
  have hread := (readRecords?_of_made (transposed_build resolution transposes calls).made).2
  constructor
  · rintro ⟨records, hrecords, hbalance⟩
    rw [hread] at hrecords
    rw [Option.some.inj hrecords]
    exact hbalance
  · intro hbalance
    exact ⟨_, hread, hbalance⟩

/-- **Notes are in balance under transposes that do not cut them.** However a track is built
and wherever transposes are put, its notes are in balance if each of them is written with one
key at both of its ends. They are in balance on every track exactly if the transposition is
the same at all ticks. -/
theorem playsInBalance_build (resolution : UInt16) (transposes : List (UInt32 × Int8)) :
    let file := (File.empty resolution).withTransposes transposes
    (∀ calls, (∀ note ∈ notePairs (Track.build calls).events.toList,
        file.writtenKey? note.1 = file.writtenKey? note.2) →
      PlaysInBalance resolution transposes calls)
    ∧ ((∀ calls, PlaysInBalance resolution transposes calls)
        ↔ ∀ tick, file.transposeAt tick = file.transposeAt 0) := by
  intro file
  have hbalance (calls : List Call)
      (hsame : ∀ note ∈ notePairs (Track.build calls).events.toList,
        file.writtenKey? note.1 = file.writtenKey? note.2) :
      PlaysInBalance resolution transposes calls :=
    (playsInBalance_iff resolution transposes calls).mpr
      ((transposed_build resolution transposes calls).notesInBalance hsame)
  refine ⟨hbalance, ?_, ?_⟩
  · -- a note from the start to a tick tells the transpositions of the two apart
    intro hall tick
    refine eq_of_soundingKey fun key => ?_
    exact soundingKey_of_notesInBalance (transposed_build resolution transposes _)
      ((playsInBalance_iff resolution transposes [.note 0 key 0 tick]).mp (hall _))
  · intro hsteady calls
    refine hbalance calls fun note hmem => ?_
    obtain ⟨-, -, key, velocity, hon, hoff, hchannel⟩ :=
      (Track.built_build calls).orderly.paired.notePairs note hmem
    rw [File.writtenKey?, File.writtenKey?, hsteady note.1.time, hsteady note.2.time, hon, hoff,
      hchannel]
    rfl

/-- Under a transpose that comes inside of them, a note at the highest key and one of percussion
stay as they are, and so does a note that is over. -/
theorem playsInBalance_build_keptKeys :
    PlaysInBalance 48 [(2, 20)]
      [.note 0 127 100 4, .note 9 40 100 4, .note 0 60 100 1, .advance 8, .note 0 60 100 4,
        .advance 2, .noteContinuing 0 60 100 9] :=
  (playsInBalance_build 48 [(2, 20)]).1 _ (by decide +kernel)

/-- A note is started with key 60 and ended with key 72. -/
theorem not_playsInBalance_transposedInside : ¬ PlaysInBalance 48 [(2, 12)] [.note 0 60 100 4] := by
  rw [playsInBalance_iff]
  intro h
  have hsame := soundingKey_of_notesInBalance (transposed_build 48 [(2, 12)] [.note 0 60 100 4]) h
  exact absurd hsame (by decide +kernel)

end ConsoleSound.Midi

import ConsoleSound.Midi.File
import ConsoleSound.Proofs.Midi.Reading
/-! # Tracks are read back as their events

The body that is written for a track is read back as its events in output order, the
global transposes left out (`readRecords?_trackBody`). What a reader has to find for an
event is its `record?`: its own tick, its status byte and its data, with the key of a
note moved by the last transpose before it (`transposeAfter`).

A message is read back by itself, one case for each kind (`readData?_message`). An event
is written with the ticks since the one before it, cut at zero; output order carries the
rest of the proof, because no event is earlier than one before it, so that nothing is
ever cut (`readRecords?_writeEvents`). -/

namespace ConsoleSound.Midi

/-! ## What a reader has to find -/

/-- Whether an event was made the way tracks and files make theirs, on one of the sixteen
channels; its rank may be any. -/
def Event.IsMade (event : Event) : Prop :=
  ∃ time channel kind priority, event = { Event.at time channel kind with priority }

/-- The payload of a system message. -/
def EventKind.payload : EventKind → List UInt8
  | sysex payload => payload
  | _ => []

/-- Whether the length of a system message, the closing byte counted, fits its field of 32 bits. -/
def Event.Fits (event : Event) : Prop := event.kind.payload.length + 1 < UInt32.size

instance (event : Event) : Decidable event.Fits :=
  inferInstanceAs (Decidable (event.kind.payload.length + 1 < UInt32.size))

/-- A status byte: what the message is in the high half, the channel in the low half. -/
def statusByte (group : Nat) (channel : UInt8) : UInt8 := UInt8.ofNat (group * 16 + channel.toNat)

/-- The transposition that an event sets. -/
def EventKind.transpose? : EventKind → Option Int8
  | globalTranspose semitones => some semitones
  | _ => none

/-- The transposition after some events: that of the last global transpose among them. -/
def transposeAfter (events : List Event) : Int8 :=
  (events.filterMap fun event => event.kind.transpose?).getLast?.getD 0

/-- The key of a note after a transposition, kept among the 128 keys; percussion keeps the
low seven bits of its own. -/
def soundingKey (transpose : Int8) (channel key : UInt8) : UInt8 :=
  if channel = 9 then key % 128
  else UInt8.ofNat (max 0 (min 127 (key.toNat + transpose.toInt))).toNat

/-- The record of an event after a transposition; a global transpose has none. -/
def Event.record? (transpose : Int8) (event : Event) : Option Record :=
  let record (status : UInt8) (data : List UInt8) : Option Record :=
    some ⟨event.time.toNat, status, data⟩
  match event.kind with
  | .noteOn key velocity =>
    record (statusByte 0x9 event.channel) [soundingKey transpose event.channel key, velocity % 128]
  | .noteOff key =>
    record (statusByte 0x8 event.channel) [soundingKey transpose event.channel key, 0x40]
  | .controller controller value =>
    record (statusByte 0xb event.channel) [controller % 128, value % 128]
  | .programChange program => record (statusByte 0xc event.channel) [program % 128]
  | .pitchBend bend =>
    let value := (max 0 (min 0x3fff (bend.toInt + 0x2000))).toNat
    record (statusByte 0xe event.channel) [UInt8.ofNat (value % 128), UInt8.ofNat (value / 128)]
  | .tempo micros =>
    let value := min micros.toNat 0xffffff
    record 0xff [0x51, UInt8.ofNat (value / 65536), UInt8.ofNat (value / 256), UInt8.ofNat value]
  | .sysex payload => record 0xf0 (payload ++ [0xf7])
  | .globalTranspose _ => none
  | .endOfTrack => record 0xff [0x2f]

/-- The records of events in order, each after the transpositions before it. -/
def recordsOf (events : List Event) : List Record :=
  events.zipIdx.filterMap fun (event, index) => event.record? (transposeAfter (events.take index))

/-! ## Messages -/

/-- Events are made with any rank, so only the channel tells those that are not. -/
theorem Event.isMade_iff {event : Event} : event.IsMade ↔ event.channel.toNat < 16 := by
  constructor
  · rintro ⟨time, channel, kind, priority, rfl⟩
    show (channelOf channel).toNat < 16
    rw [channelOf, UInt8.toNat_ofNat']
    omega
  · intro h
    obtain ⟨time, channel, priority, kind⟩ := event
    have hchannel : channelOf channel = channel := by
      rw [channelOf, Nat.mod_eq_of_lt h, UInt8.ofNat_toNat]
    refine ⟨time, channel, kind, priority, ?_⟩
    rw [Event.at, hchannel]

instance (event : Event) : Decidable event.IsMade := decidable_of_iff _ Event.isMade_iff.symm

/-- Setting the bits of a channel in a status byte adds the channel. -/
theorem status_or_channel {group : Nat} {channel : UInt8} (hchannel : channel.toNat < 16)
    (hgroup : group < 16) : UInt8.ofNat (group * 16) ||| channel = statusByte group channel := by
  have hsum : group * 16 + channel.toNat = group * 16 ||| channel.toNat := by
    rw [Nat.mul_comm]
    exact Nat.two_pow_add_eq_or_of_lt (i := 4) hchannel group
  apply UInt8.toNat_inj.mp
  rw [UInt8.toNat_or, UInt8.toNat_ofNat_of_lt' (by show _ < 256; omega), statusByte,
    UInt8.toNat_ofNat_of_lt' (by show _ < 256; omega), hsum]

theorem toNat_statusByte {group : Nat} {channel : UInt8} (hchannel : channel.toNat < 16)
    (hgroup : group < 16) : (statusByte group channel).toNat = group * 16 + channel.toNat :=
  UInt8.toNat_ofNat_of_lt' (by show _ < 256; omega)

theorem dataByte_eq (byte : UInt8) : dataByte byte = byte % 128 := by
  apply UInt8.toNat_inj.mp
  rw [dataByte, UInt8.toNat_mod, UInt8.toNat_ofNat']
  exact Nat.mod_eq_of_lt (by show _ < 256; omega)

theorem key_eq_soundingKey (cursor : Cursor) (channel key : UInt8) :
    cursor.key channel key = soundingKey cursor.transpose channel key := by
  rw [Cursor.key, soundingKey, dataByte_eq, shiftKey]
  congr 2
  omega

theorem take?_append (data rest : List UInt8) :
    take? data.length (data ++ rest) = some (data, rest) := by
  rw [take?, if_pos (by rw [List.length_append]; exact Nat.le_add_right _ _), List.take_left,
    List.drop_left]

theorem bendBytes_eq (bend : Int16) :
    bendBytes bend
      = [UInt8.ofNat ((max 0 (min 0x3fff (bend.toInt + 0x2000))).toNat % 128),
        UInt8.ofNat ((max 0 (min 0x3fff (bend.toInt + 0x2000))).toNat / 128)] := by
  have hvalue : min 0x3fff (bend.toInt + 0x2000).toNat
      = (max 0 (min 0x3fff (bend.toInt + 0x2000))).toNat := by omega
  rw [bendBytes, hvalue]

theorem spell_three (value : Nat) :
    ByteOrder.big.spell 3 value
      = [UInt8.ofNat (value / 65536), UInt8.ofNat (value / 256), UInt8.ofNat value] := by
  have hbyte (number : Nat) : UInt8.ofNat (number % 256) = UInt8.ofNat number :=
    UInt8.ofNat_mod_size
  simp only [ByteOrder.spell, ByteOrder.littleSpell, hbyte, Nat.div_div_eq_div_mul,
    List.reverse_cons, List.reverse_nil, List.nil_append, List.cons_append]

/-- A channel message is read back: its data are as long as its status tells. -/
theorem readData?_channel (group : Nat) {channel : UInt8} {message data : List UInt8}
    (hchannel : channel.toNat < 16) (hgroup : group < 0xf)
    (hlength : dataLength? (UInt8.ofNat (group * 16)) = some data.length)
    (hmessage : message = (UInt8.ofNat (group * 16) ||| channel) :: data) (rest : List UInt8) :
    ∃ behind, message = statusByte group channel :: behind
      ∧ readData? (statusByte group channel) (behind ++ rest) = some (data, rest) := by
  have hstatus := toNat_statusByte hchannel (Nat.lt_succ_of_lt hgroup)
  have hbelow : (statusByte group channel).toNat < 0xf0 := by omega
  have hnotMeta : statusByte group channel ≠ 0xff := by
    intro h
    rw [h] at hbelow
    exact absurd hbelow (by decide)
  have hnotSystem : statusByte group channel ≠ 0xf0 := by
    intro h
    rw [h] at hbelow
    exact absurd hbelow (by decide)
  have hsame : dataLength? (statusByte group channel) = some data.length := by
    rw [← hlength, dataLength?, dataLength?, hstatus,
      UInt8.toNat_ofNat_of_lt' (by show _ < 256; omega)]
    congr 1
    omega
  refine ⟨data, ?_, ?_⟩
  · rw [hmessage, status_or_channel hchannel (Nat.lt_succ_of_lt hgroup)]
  · rw [readData?, if_neg hnotMeta, if_neg hnotSystem, hsame]
    exact take?_append data rest

/-- A meta event is read back. -/
theorem readData?_meta {code : UInt8} {data : List UInt8} (hlength : data.length < UInt32.size)
    (rest : List UInt8) :
    readData? 0xff (code :: (variableLength (UInt32.ofNat data.length) ++ data) ++ rest)
      = some (code :: data, rest) := by
  have hcode := take?_append [code] (variableLength (UInt32.ofNat data.length) ++ (data ++ rest))
  have hquantity := readQuantity?_variableLength (UInt32.ofNat data.length) (data ++ rest)
  rw [UInt32.toNat_ofNat_of_lt' hlength] at hquantity
  have hdata := take?_append data rest
  rw [readData?, if_pos rfl, List.cons_append, List.append_assoc]
  simp only [List.length_singleton, List.singleton_append] at hcode
  simp only [hcode, hquantity, hdata, Option.bind_eq_bind, Option.bind_some, List.singleton_append,
    Option.pure_def]

/-- A system message is read back. -/
theorem readData?_system {data : List UInt8} (hlength : data.length < UInt32.size)
    (rest : List UInt8) :
    readData? 0xf0 (variableLength (UInt32.ofNat data.length) ++ data ++ rest)
      = some (data, rest) := by
  have hquantity := readQuantity?_variableLength (UInt32.ofNat data.length) (data ++ rest)
  rw [UInt32.toNat_ofNat_of_lt' hlength] at hquantity
  rw [readData?, if_neg (by decide), if_pos rfl, List.append_assoc, hquantity]
  exact take?_append data rest

/-- A message is read back as the record of its event. -/
theorem readData?_message {event : Event} {cursor : Cursor} {record : Record}
    (hchannel : event.channel.toNat < 16) (hfits : event.Fits)
    (hrecord : event.record? cursor.transpose = some record) (rest : List UInt8) :
    ∃ behind, event.message cursor = record.status :: behind
      ∧ readData? record.status (behind ++ rest) = some (record.data, rest) := by
  obtain ⟨time, channel, priority, kind⟩ := event
  cases kind with
  | noteOn key velocity =>
      obtain rfl := Option.some.inj hrecord
      refine readData?_channel 0x9 hchannel (by decide) rfl ?_ rest
      simp only [Event.message, key_eq_soundingKey, dataByte_eq]
      rfl
  | noteOff key =>
      obtain rfl := Option.some.inj hrecord
      refine readData?_channel 0x8 hchannel (by decide) rfl ?_ rest
      simp only [Event.message, key_eq_soundingKey]
      rfl
  | controller controller value =>
      obtain rfl := Option.some.inj hrecord
      refine readData?_channel 0xb hchannel (by decide) rfl ?_ rest
      simp only [Event.message, dataByte_eq]
      rfl
  | programChange program =>
      obtain rfl := Option.some.inj hrecord
      refine readData?_channel 0xc hchannel (by decide) rfl ?_ rest
      simp only [Event.message, dataByte_eq]
      rfl
  | pitchBend bend =>
      obtain rfl := Option.some.inj hrecord
      refine readData?_channel 0xe hchannel (by decide) rfl ?_ rest
      simp only [Event.message, bendBytes_eq]
      rfl
  | tempo micros =>
      obtain rfl := Option.some.inj hrecord
      refine ⟨_, ?_, readData?_meta (by show 3 < _; decide) rest⟩
      simp only [Event.message, metaMessage, spell_three]
      rfl
  | sysex payload =>
      obtain rfl := Option.some.inj hrecord
      have hlength : (payload ++ [0xf7]).length < UInt32.size := by
        rw [List.length_append]
        exact hfits
      refine ⟨_, ?_, readData?_system hlength rest⟩
      simp only [Event.message, List.length_append, List.length_singleton, List.append_assoc,
        List.cons_append]
  | globalTranspose semitones => exact nomatch hrecord
  | endOfTrack =>
      obtain rfl := Option.some.inj hrecord
      exact ⟨_, rfl, readData?_meta (by decide) rest⟩

/-! ## Events -/

theorem transposeAfter_concat (before : List Event) (event : Event) :
    transposeAfter (before ++ [event])
      = event.kind.transpose?.getD (transposeAfter before) := by
  cases h : event.kind.transpose? with
  | none => simp [transposeAfter, h]
  | some semitones => simp [transposeAfter, h]

/-- An event without a record only sets the transposition. -/
theorem write_of_record?_eq_none {event : Event} {before : List Event}
    (h : event.record? (transposeAfter before) = none) (tick : UInt32) :
    event.write ⟨tick, transposeAfter before⟩
      = ([], ⟨tick, transposeAfter (before ++ [event])⟩) := by
  rw [transposeAfter_concat]
  obtain ⟨time, channel, priority, kind⟩ := event
  cases kind with
  | globalTranspose semitones => rfl
  | _ => exact nomatch h

/-- An event with a record is written as the ticks since the last one and its message. -/
theorem write_of_record?_eq_some {event : Event} {before : List Event} {record : Record}
    (h : event.record? (transposeAfter before) = some record) (tick : UInt32) :
    event.write ⟨tick, transposeAfter before⟩
      = (variableLength (UInt32.ofNat (event.time.toNat - tick.toNat))
          ++ event.message ⟨tick, transposeAfter before⟩,
        ⟨max event.time tick, transposeAfter (before ++ [event])⟩) := by
  rw [transposeAfter_concat]
  obtain ⟨time, channel, priority, kind⟩ := event
  cases kind with
  | globalTranspose semitones => exact nomatch h
  | _ => rfl

theorem time_of_record? {event : Event} {transpose : Int8} {record : Record}
    (h : event.record? transpose = some record) : record.time = event.time.toNat := by
  obtain ⟨time, channel, priority, kind⟩ := event
  cases kind with
  | globalTranspose semitones => exact nomatch h
  | _ => rw [← Option.some.inj h]

/-- The bytes of an event are read back as its record if it is not before the cursor. -/
theorem readRecord?_write {event : Event} (cursor : Cursor) {record : Record}
    (hchannel : event.channel.toNat < 16) (hfits : event.Fits)
    (hrecord : event.record? cursor.transpose = some record) (htick : cursor.tick ≤ event.time)
    (rest : List UInt8) :
    readRecord? cursor.tick.toNat
        (variableLength (UInt32.ofNat (event.time.toNat - cursor.tick.toNat))
          ++ event.message cursor ++ rest)
      = some (record, rest) := by
  obtain ⟨behind, hmessage, hdata⟩ := readData?_message hchannel hfits hrecord rest
  have hle : cursor.tick.toNat ≤ event.time.toNat := UInt32.le_iff_toNat_le.mp htick
  have hdelta : (UInt32.ofNat (event.time.toNat - cursor.tick.toNat)).toNat
      = event.time.toNat - cursor.tick.toNat :=
    UInt32.toNat_ofNat_of_lt' (Nat.lt_of_le_of_lt (Nat.sub_le _ _) event.time.toNat_lt)
  rw [readRecord?, List.append_assoc, readQuantity?_variableLength, hmessage, List.cons_append,
    hdelta]
  simp only [hdata, Option.map_some]
  rw [Nat.add_sub_cancel' hle, ← time_of_record? hrecord]

theorem max_eq_left_of_le {tick other : UInt32} (h : other ≤ tick) : max tick other = tick := by
  show (if tick ≤ other then other else tick) = tick
  split
  · next hle => exact UInt32.le_antisymm h hle
  · rfl

theorem toList_writeEvents (cursor : Cursor) (events : List Event) (written : Array UInt8) :
    (File.writeEvents cursor events written).toList
      = written.toList ++ (File.writeEvents cursor events #[]).toList := by
  induction events generalizing cursor written with
  | nil => rw [File.writeEvents, File.writeEvents, List.append_nil]
  | cons event events ih =>
      rw [File.writeEvents, File.writeEvents, ih, ih _ (#[] ++ (event.write cursor).1)]
      simp only [Array.toList_appendList, List.nil_append, List.append_assoc]

theorem toList_writeEvents_cons (cursor : Cursor) (event : Event) (events : List Event) :
    (File.writeEvents cursor (event :: events) #[]).toList
      = (event.write cursor).1
        ++ (File.writeEvents (event.write cursor).2 events #[]).toList := by
  rw [File.writeEvents, toList_writeEvents]
  simp only [Array.toList_appendList, List.nil_append]

/-- Events in the order of their ticks are read back, whatever came before them. -/
theorem readRecords?_writeEvents {events : List Event}
    (hchannel : ∀ event ∈ events, event.channel.toNat < 16) (hfits : ∀ event ∈ events, event.Fits)
    (hsorted : events.Pairwise fun first second => first.time ≤ second.time)
    (before : List Event) (tick : UInt32) (htick : ∀ event ∈ events, tick ≤ event.time) :
    readRecords? tick.toNat
        (File.writeEvents ⟨tick, transposeAfter before⟩ events #[]).toList
      = some ((events.zipIdx before.length).filterMap fun (event, index) =>
          event.record? (transposeAfter ((before ++ events).take index))) := by
  induction events generalizing before tick with
  | nil => exact readRecords?_nil _
  | cons event events ih =>
      obtain ⟨hevent, hchannel⟩ := List.forall_mem_cons.mp hchannel
      obtain ⟨hfitsEvent, hfits⟩ := List.forall_mem_cons.mp hfits
      obtain ⟨hlater, hsorted⟩ := List.pairwise_cons.mp hsorted
      obtain ⟨htickEvent, htick⟩ := List.forall_mem_cons.mp htick
      have hrest := ih hchannel hfits hsorted (before ++ [event])
      rw [List.append_assoc, List.singleton_append, List.length_append, List.length_singleton]
        at hrest
      have htake : (before ++ event :: events).take before.length = before := List.take_left
      rw [toList_writeEvents_cons, List.zipIdx_cons, List.filterMap_cons]
      simp only [htake]
      cases hrecord : event.record? (transposeAfter before) with
      | none =>
          rw [write_of_record?_eq_none hrecord tick, List.nil_append]
          exact hrest tick htick
      | some record =>
          -- nothing is cut off, and the next event counts its ticks from this one
          have hmax := max_eq_left_of_le htickEvent
          have hread := readRecord?_write ⟨tick, transposeAfter before⟩ hevent hfitsEvent hrecord
            htickEvent
          rw [write_of_record?_eq_some hrecord tick, hmax,
            readRecords?_of_readRecord? (hread _), time_of_record? hrecord, hrest event.time hlater]
          rfl

/-! ## Output order -/

theorem inOrder_iff {first second : Event} :
    File.inOrder first second = true
      ↔ first.time.toNat < second.time.toNat
        ∨ first.time.toNat = second.time.toNat ∧ first.priority.rank ≤ second.priority.rank := by
  simp only [File.inOrder, Bool.or_eq_true, Bool.and_eq_true, decide_eq_true_eq,
    UInt32.lt_iff_toNat_lt, ← UInt32.toNat_inj]

theorem toNat_max (first second : UInt32) :
    (max first second).toNat = max first.toNat second.toNat := by
  rcases Nat.le_total second.toNat first.toNat with h | h
  · rw [max_eq_left_of_le (UInt32.le_iff_toNat_le.mpr h), Nat.max_eq_left h]
  · show (if first ≤ second then second else first).toNat = _
    rw [if_pos (UInt32.le_iff_toNat_le.mpr h), Nat.max_eq_right h]

/-- The latest tick so far is not before the start or any of the events. -/
theorem le_foldl_max (events : List Event) (start : UInt32) :
    let latest := events.foldl (fun tick event => max tick event.time) start
    start.toNat ≤ latest.toNat ∧ ∀ event ∈ events, event.time.toNat ≤ latest.toNat := by
  induction events generalizing start with
  | nil => exact ⟨Nat.le_refl _, fun _ h => nomatch h⟩
  | cons event events ih =>
      obtain ⟨hstart, hevents⟩ := ih (max start event.time)
      rw [toNat_max] at hstart
      exact ⟨Nat.le_trans (Nat.le_max_left _ _) hstart,
        List.forall_mem_cons.mpr ⟨Nat.le_trans (Nat.le_max_right _ _) hstart, hevents⟩⟩

theorem time_le_latest {events : List Event} {event : Event} (h : event ∈ events) :
    event.time.toNat ≤ (Track.latest events).toNat := by
  exact (le_foldl_max events 0).2 event h

/-- In output order no event is earlier than one before it; the end of the track is last. -/
theorem pairwise_orderedEvents (file : File) (track : Track) :
    (file.orderedEvents track).Pairwise fun first second => first.time ≤ second.time := by
  rw [File.orderedEvents, List.pairwise_append]
  refine ⟨?_, List.pairwise_singleton _ _, fun event hevent last hlast => ?_⟩
  · refine (List.pairwise_mergeSort ?_ ?_ _).imp fun {first second} h => ?_
    · intro first second third hfirst hsecond
      rw [inOrder_iff] at hfirst hsecond ⊢
      omega
    · intro first second
      rw [Bool.or_eq_true, inOrder_iff, inOrder_iff]
      omega
    · rw [inOrder_iff] at h
      exact UInt32.le_iff_toNat_le.mpr (by omega)
  · obtain rfl := List.mem_singleton.mp hlast
    show event.time ≤ max _ _
    rw [UInt32.le_iff_toNat_le, toNat_max]
    exact Nat.le_trans (time_le_latest hevent) (Nat.le_max_left _ _)

/-- The events of a track in output order are its own, the shared ones and its end. -/
theorem mem_orderedEvents {file : File} {track : Track} {event : Event}
    (h : event ∈ file.orderedEvents track) :
    event ∈ track.events.toList ++ file.shared
      ∨ ∃ tick, event = Event.at tick 0 .endOfTrack := by
  rw [File.orderedEvents, List.mem_append] at h
  rcases h with h | h
  · rw [File.mergedEvents, List.mem_mergeSort, List.mem_append] at h
    exact .inl (List.mem_append.mpr (h.imp_left fun h => (List.mem_filter.mp h).1))
  · exact .inr ⟨_, List.mem_singleton.mp h⟩

/-! ## Tracks -/

theorem soundingKey_lt (transpose : Int8) (channel key : UInt8) :
    soundingKey transpose channel key < 0x80 := by
  rw [soundingKey, UInt8.lt_iff_toNat_lt]
  split
  · rw [UInt8.toNat_mod]
    exact Nat.mod_lt _ (by decide)
  · rw [UInt8.toNat_ofNat']
    show _ < 128
    omega

theorem mod_lt_dataBound (byte : UInt8) : byte % 128 < 0x80 := by
  rw [UInt8.lt_iff_toNat_lt, UInt8.toNat_mod]
  exact Nat.mod_lt _ (by decide)

/-- The data of channel messages have no high bit, which marks the status bytes. -/
theorem data_lt_of_record? {event : Event} {transpose : Int8} {record : Record}
    (h : event.record? transpose = some record) (hstatus : record.status < 0xf0) :
    ∀ byte ∈ record.data, byte < 0x80 := by
  obtain ⟨time, channel, priority, kind⟩ := event
  cases kind with
  | noteOn key velocity =>
      obtain rfl := Option.some.inj h
      simp only [List.forall_mem_cons, soundingKey_lt, mod_lt_dataBound, true_and]
      exact fun _ h => nomatch h
  | noteOff key =>
      obtain rfl := Option.some.inj h
      simp only [List.forall_mem_cons, soundingKey_lt, true_and]
      exact ⟨by decide, fun _ h => nomatch h⟩
  | controller controller value =>
      obtain rfl := Option.some.inj h
      simp only [List.forall_mem_cons, mod_lt_dataBound, true_and]
      exact fun _ h => nomatch h
  | programChange program =>
      obtain rfl := Option.some.inj h
      simp only [List.forall_mem_cons, mod_lt_dataBound, true_and]
      exact fun _ h => nomatch h
  | pitchBend bend =>
      obtain rfl := Option.some.inj h
      have hbyte {value : Nat} (h : value < 128) : UInt8.ofNat value < 0x80 := by
        rw [UInt8.lt_iff_toNat_lt, UInt8.toNat_ofNat_of_lt' (Nat.lt_trans h (by decide))]
        exact h
      simp only [List.forall_mem_cons]
      exact ⟨hbyte (by omega), hbyte (by omega), fun _ h => nomatch h⟩
  | tempo micros =>
      obtain rfl := Option.some.inj h
      exact absurd (show (0xff : UInt8) < 0xf0 from hstatus) (by decide)
  | sysex payload =>
      obtain rfl := Option.some.inj h
      exact absurd (show (0xf0 : UInt8) < 0xf0 from hstatus) (by decide)
  | globalTranspose semitones => exact nomatch h
  | endOfTrack =>
      obtain rfl := Option.some.inj h
      exact absurd (show (0xff : UInt8) < 0xf0 from hstatus) (by decide)

/-- **The body of a track reads back as its events.** Whatever events a track and a file
are made of, the body is used up exactly, and the records found are those of the events in
output order, each at its own tick and with the transposition set last before it; the data
of channel messages have no high bit. A system message has to be short enough for the
field that counts its bytes. -/
theorem readRecords?_trackBody (file : File) (track : Track)
    (hmade : ∀ event ∈ track.events.toList ++ file.shared, event.IsMade)
    (hfits : ∀ event ∈ track.events.toList ++ file.shared, event.Fits) :
    readRecords? 0 (file.trackBody track).toList = some (recordsOf (file.orderedEvents track))
      ∧ ∀ record ∈ recordsOf (file.orderedEvents track), record.status < 0xf0 →
          ∀ byte ∈ record.data, byte < 0x80 := by
  constructor
  · have hchannel : ∀ event ∈ file.orderedEvents track, event.channel.toNat < 16 := by
      intro event h
      rcases mem_orderedEvents h with h | ⟨tick, rfl⟩
      · exact Event.isMade_iff.mp (hmade event h)
      · exact Event.isMade_iff.mp ⟨tick, 0, .endOfTrack, .lowest, rfl⟩
    have hfitsAll : ∀ event ∈ file.orderedEvents track, event.Fits := by
      intro event h
      rcases mem_orderedEvents h with h | ⟨tick, rfl⟩
      · exact hfits event h
      · exact of_decide_eq_true rfl
    exact readRecords?_writeEvents hchannel hfitsAll (pairwise_orderedEvents file track) [] 0
      fun event _ => UInt32.zero_le
  · intro record h
    obtain ⟨⟨event, index⟩, -, hrecord⟩ := List.mem_filterMap.mp h
    exact data_lt_of_record? hrecord

/-- A file with two transposes. -/
def transposedTwice : File :=
  ⟨48, [], [Event.at 4 0 (.globalTranspose 20), Event.at 9 0 (.globalTranspose (-3))]⟩

/-- A track with events of every kind, out of order, notes on percussion among them. -/
def everyKind : Track :=
  ⟨#[Event.at 0 0 (.tempo 500000), Event.at 0 17 (.programChange 0x85),
    Event.at 0 1 (.noteOn 60 100), Event.at 4 1 (.noteOff 60), Event.at 4 9 (.noteOn 120 90),
    Event.at 4 1 (.noteOn 120 90), Event.at 200 1 (.pitchBend (-8192)),
    { Event.at 200 1 (.controller 7 200) with priority := .highest },
    Event.at 9 1 (.sysex [0x7f, 0xff])], 300, []⟩

/-- Every kind of event is read back, the transposes apart. -/
theorem readRecords?_trackBody_everyKind :
    readRecords? 0 (transposedTwice.trackBody everyKind).toList
        = some (recordsOf (transposedTwice.orderedEvents everyKind))
      ∧ ∀ record ∈ recordsOf (transposedTwice.orderedEvents everyKind), record.status < 0xf0 →
          ∀ byte ∈ record.data, byte < 0x80 :=
  readRecords?_trackBody transposedTwice everyKind (by decide) (by decide)

-- keys are moved and kept among the 128, but those of percussion stay
example : recordsOf
    [Event.at 0 1 (.noteOn 60 100), Event.at 4 0 (.globalTranspose 20), Event.at 4 1 (.noteOff 60),
      Event.at 4 9 (.noteOn 120 90), Event.at 4 1 (.noteOn 120 90), Event.at 300 0 .endOfTrack]
    = [⟨0, 0x91, [60, 100]⟩, ⟨4, 0x81, [80, 0x40]⟩, ⟨4, 0x99, [120, 90]⟩, ⟨4, 0x91, [127, 90]⟩,
      ⟨300, 0xff, [0x2f]⟩] := by
  decide

end ConsoleSound.Midi

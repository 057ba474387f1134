import Mathlib.Data.List.Basic
import ConsoleSound.Proofs.Midi.RoundTrip
/-! # How tracks end

The end that a track is given lies behind all the events that are written before it
(`le_endTick_iff`). It is the only one, and nothing is later, unless the file's shared
events bring ends of their own, which are written like any other event, or the track holds
one that is later than everything else, which is left out (`endsOnce_iff`).

In the body of a track a reader finds an end where an event is one (`record?_isEnd_iff`),
so bodies end once under the same condition on the shared events. -/

namespace ConsoleSound.Midi

/-- Whether a message ends its track. -/
def Record.IsEnd (record : Record) : Prop := record.status = 0xff ∧ record.data.head? = some 0x2f

/-- Whether the last of some messages ends the track, and no other does. -/
def EndOnce (records : List Record) : Prop :=
  ∃ before last, records = before ++ [last] ∧ last.IsEnd ∧ ∀ record ∈ before, ¬ record.IsEnd

namespace File

/-- Whether the events of a track in output order have one end, which comes last, and no
event of the track or of the file is later. -/
def EndsOnce (file : File) (track : Track) : Prop :=
  ∃ before last, file.orderedEvents track = before ++ [last] ∧ last.kind = .endOfTrack
    ∧ (∀ event ∈ before, event.kind ≠ .endOfTrack)
    ∧ ∀ event ∈ track.events.toList ++ file.shared, event.time ≤ last.time

/-- The tick of the end that a track is given. -/
def endTick (file : File) (track : Track) : UInt32 :=
  max (Track.latest (file.mergedEvents track)) track.cursor

theorem orderedEvents_eq (file : File) (track : Track) :
    file.orderedEvents track
      = file.mergedEvents track ++ [Event.at (file.endTick track) 0 .endOfTrack] := rfl

variable {file : File} {track : Track}

theorem mem_mergedEvents {event : Event} :
    event ∈ file.mergedEvents track
      ↔ event ∈ track.events.toList ∧ event.kind ≠ .endOfTrack ∨ event ∈ file.shared := by
  rw [mergedEvents, List.mem_mergeSort, List.mem_append, List.mem_filter, decide_eq_true_eq]

/-- Own ends are left out, so the events before the end have an end only if the shared ones do. -/
theorem forall_mergedEvents_iff :
    (∀ event ∈ file.mergedEvents track, event.kind ≠ .endOfTrack)
      ↔ ∀ event ∈ file.shared, event.kind ≠ .endOfTrack := by
  constructor
  · intro h event hmem
    exact h event (mem_mergedEvents.mpr (.inr hmem))
  · intro h event hmem
    rcases mem_mergedEvents.mp hmem with ⟨-, hkind⟩ | hshared
    · exact hkind
    · exact h event hshared

end File

/-! ## The latest tick -/

/-- The latest tick is that of an event, or the one that the search started with. -/
theorem foldl_max_eq (events : List Event) (start : UInt32) :
    events.foldl (fun tick event => max tick event.time) start = start
      ∨ ∃ event ∈ events, events.foldl (fun tick event => max tick event.time) start
        = event.time := by
  induction events generalizing start with
  | nil => exact .inl rfl
  | cons first events ih =>
      rw [List.foldl_cons]
      rcases ih (max start first.time) with h | ⟨event, hmem, h⟩
      · rw [h]
        rcases UInt32.le_total start first.time with hle | hle
        · exact .inr ⟨first, List.mem_cons_self, if_pos hle⟩
        · exact .inl (max_eq_left_of_le hle)
      · exact .inr ⟨event, List.mem_cons_of_mem _ hmem, h⟩

/-- A tick lies up to the end of a track if the cursor or an event before the end reaches it. -/
theorem le_endTick_iff {file : File} {track : Track} {tick : UInt32} :
    tick ≤ file.endTick track
      ↔ tick ≤ track.cursor ∨ ∃ event ∈ file.mergedEvents track, tick ≤ event.time := by
  simp only [UInt32.le_iff_toNat_le, File.endTick, toNat_max]
  constructor
  · intro h
    rcases Nat.le_total (Track.latest (file.mergedEvents track)).toNat track.cursor.toNat
      with hle | hle
    · rw [Nat.max_eq_right hle] at h
      exact .inl h
    · rw [Nat.max_eq_left hle] at h
      rcases foldl_max_eq (file.mergedEvents track) 0 with hzero | ⟨event, hmem, hlatest⟩
      · rw [Track.latest, hzero] at h
        exact .inl (Nat.le_trans h (Nat.zero_le _))
      · rw [Track.latest, hlatest] at h
        exact .inr ⟨event, hmem, h⟩
  · rintro (h | ⟨event, hmem, h⟩)
    · exact Nat.le_trans h (Nat.le_max_right _ _)
    · exact Nat.le_trans h (Nat.le_trans (time_le_latest hmem) (Nat.le_max_left _ _))

/-! ## Ends among the records -/

/-- The record of an event is an end if the event is one. -/
theorem record?_isEnd_iff {event : Event} {transpose : Int8} {record : Record}
    (hchannel : event.channel.toNat < 16) (h : event.record? transpose = some record) :
    record.IsEnd ↔ event.kind = .endOfTrack := by
  have hstatus {group : Nat} (hgroup : group < 0xf) : statusByte group event.channel ≠ 0xff := by
    intro heq
    have htoNat := toNat_statusByte hchannel (Nat.lt_succ_of_lt hgroup)
    rw [heq] at htoNat
    have hmeta : (0xff : UInt8).toNat = 255 := rfl
    omega
  obtain ⟨time, channel, priority, kind⟩ := event
  cases kind with
  | tempo micros =>
      obtain rfl := Option.some.inj h
      refine iff_of_false ?_ nofun
      rintro ⟨-, hcode⟩
      exact absurd (Option.some.inj hcode) (by decide)
  | sysex payload =>
      obtain rfl := Option.some.inj h
      refine iff_of_false ?_ nofun
      rintro ⟨hsystem, -⟩
      exact absurd (show (0xf0 : UInt8) = 0xff from hsystem) (by decide)
  | globalTranspose semitones => exact nomatch h
  | endOfTrack =>
      obtain rfl := Option.some.inj h
      exact iff_of_true ⟨rfl, rfl⟩ rfl
  | _ =>
      -- a message on a channel
      obtain rfl := Option.some.inj h
      exact iff_of_false (fun hend => hstatus (by decide) hend.1) nofun

/-- Records have an end if the events have one. -/
theorem exists_isEnd_iff {events : List Event}
    (hchannel : ∀ event ∈ events, event.channel.toNat < 16) :
    (∃ record ∈ recordsOf events, record.IsEnd) ↔ ∃ event ∈ events, event.kind = .endOfTrack := by
  constructor
  · rintro ⟨record, hmem, hend⟩
    obtain ⟨⟨event, index⟩, hevent, hrecord⟩ := List.mem_filterMap.mp hmem
    have hevent := List.mem_of_getElem? (List.mem_zipIdx_iff_getElem?.mp hevent)
    exact ⟨event, hevent, (record?_isEnd_iff (hchannel event hevent) hrecord).mp hend⟩
  · rintro ⟨event, hevent, hkind⟩
    obtain ⟨index, hindex⟩ := List.getElem?_of_mem hevent
    refine ⟨⟨event.time.toNat, 0xff, [0x2f]⟩, ?_, rfl, rfl⟩
    refine List.mem_filterMap.mpr ⟨(event, index), List.mem_zipIdx_iff_getElem?.mpr hindex, ?_⟩
    simp only [Event.record?, hkind]

/-- The records of some events and one more. -/
theorem recordsOf_concat (before : List Event) (last : Event) :
    recordsOf (before ++ [last])
      = recordsOf before ++ (last.record? (transposeAfter before)).toList := by
  have hbefore : before.zipIdx.filterMap (fun place =>
        place.1.record? (transposeAfter ((before ++ [last]).take place.2))) = recordsOf before := by
    refine List.filterMap_congr fun place hmem => ?_
    obtain ⟨hlt, -⟩ := List.getElem?_eq_some_iff.mp (List.mem_zipIdx_iff_getElem?.mp hmem)
    rw [List.take_append_of_le_length (Nat.le_of_lt hlt)]
  show (before ++ [last]).zipIdx.filterMap (fun place =>
    place.1.record? (transposeAfter ((before ++ [last]).take place.2))) = _
  rw [List.zipIdx_append, List.filterMap_append, hbefore, Nat.zero_add, List.zipIdx_singleton,
    List.filterMap_cons, List.filterMap_nil]
  simp only [List.take_left]
  cases last.record? (transposeAfter before) <;> rfl

theorem endOnce_concat_iff {records : List Record} {last : Record} (hlast : last.IsEnd) :
    EndOnce (records ++ [last]) ↔ ¬ ∃ record ∈ records, record.IsEnd := by
  constructor
  · rintro ⟨before, last', heq, -, hnone⟩ ⟨record, hmem, hend⟩
    rw [(List.append_inj' heq rfl).1] at hmem
    exact hnone record hmem hend
  · intro hnone
    exact ⟨records, last, rfl, hlast, fun record hmem hend => hnone ⟨record, hmem, hend⟩⟩

/-- The body of a track is read back if its events and the shared ones can be written. -/
theorem readRecords?_of_made {file : File} {track : Track}
    (h : ∀ event ∈ track.events.toList ++ file.shared, event.IsMade ∧ event.Fits) :
    (∀ event ∈ file.orderedEvents track, event.channel.toNat < 16)
      ∧ readRecords? 0 (file.trackBody track).toList
        = some (recordsOf (file.orderedEvents track)) := by
  have hall : ∀ event ∈ file.orderedEvents track, event.channel.toNat < 16 ∧ event.Fits := by
    intro event hmem
    rcases mem_orderedEvents hmem with hmem | ⟨tick, rfl⟩
    · exact ⟨Event.isMade_iff.mp (h event hmem).1, (h event hmem).2⟩
    · exact ⟨Event.isMade_iff.mp ⟨tick, 0, .endOfTrack, .lowest, rfl⟩, of_decide_eq_true rfl⟩
  exact ⟨fun event hmem => (hall event hmem).1,
    readRecords?_writeEvents (fun event hmem => (hall event hmem).1)
      (fun event hmem => (hall event hmem).2) (pairwise_orderedEvents file track) [] 0
      fun event _ => UInt32.zero_le⟩

/-! ## The end of a track -/

/-- The events before the end have no end, and none of the track's or the file's is later
than it. -/
theorem File.endsOnce_iff_merged {file : File} {track : Track} :
    file.EndsOnce track
      ↔ (∀ event ∈ file.mergedEvents track, event.kind ≠ .endOfTrack)
        ∧ ∀ event ∈ track.events.toList ++ file.shared, event.time ≤ file.endTick track := by
  rw [File.EndsOnce, File.orderedEvents_eq]
  constructor
  · rintro ⟨before, last, heq, -, hnone, hlatest⟩
    obtain ⟨rfl, hlast⟩ := List.append_inj' heq rfl
    obtain rfl := List.singleton_inj.mp hlast
    exact ⟨hnone, hlatest⟩
  · rintro ⟨hnone, hlatest⟩
    exact ⟨_, _, rfl, rfl, hnone, hlatest⟩

/-- **A track ends once unless ends are shared**: in output order there is one end, which is
last, and no event is later, exactly if the file's shared events have no end, and each end
that the track holds is reached by the cursor or by an event that is not an end. The body is
read back with one end, which is last, exactly if the shared events have none. -/
theorem endsOnce_iff (file : File) (track : Track) :
    (file.EndsOnce track
      ↔ (∀ event ∈ file.shared, event.kind ≠ .endOfTrack)
        ∧ ∀ event ∈ track.events.toList, event.kind = .endOfTrack →
            event.time ≤ track.cursor
              ∨ ∃ other ∈ track.events.toList ++ file.shared,
                  other.kind ≠ .endOfTrack ∧ event.time ≤ other.time)
      ∧ ((∀ event ∈ track.events.toList ++ file.shared, event.IsMade ∧ event.Fits) →
          ∃ records, readRecords? 0 (file.trackBody track).toList = some records
            ∧ (EndOnce records ↔ ∀ event ∈ file.shared, event.kind ≠ .endOfTrack)) := by
  constructor
  · rw [File.endsOnce_iff_merged, File.forall_mergedEvents_iff]
    refine and_congr_right fun hshared => ?_
    constructor
    · intro hlatest event hmem _
      refine (le_endTick_iff.mp (hlatest event (List.mem_append_left _ hmem))).imp_right ?_
      rintro ⟨other, hother, hle⟩
      rcases File.mem_mergedEvents.mp hother with ⟨hown, hkind⟩ | hmemShared
      · exact ⟨other, List.mem_append_left _ hown, hkind, hle⟩
      · exact ⟨other, List.mem_append_right _ hmemShared, hshared other hmemShared, hle⟩
    · intro hends event hmem
      rw [le_endTick_iff]
      by_cases hmerged : event ∈ file.mergedEvents track
      · exact .inr ⟨event, hmerged, UInt32.le_refl _⟩
      · -- what is left out is an end that the track holds
        rw [File.mem_mergedEvents, not_or, not_and, not_not] at hmerged
        have hown := (List.mem_append.mp hmem).resolve_right hmerged.2
        refine (hends event hown (hmerged.1 hown)).imp_right ?_
        rintro ⟨other, hother, hkind, hle⟩
        exact ⟨other, File.mem_mergedEvents.mpr
          ((List.mem_append.mp hother).imp_left fun h => ⟨h, hkind⟩), hle⟩
  · intro hmade
    obtain ⟨hchannel, hread⟩ := readRecords?_of_made hmade
    have hmerged : (∀ event ∈ file.mergedEvents track, event.kind ≠ .endOfTrack) ↔ _ :=
      File.forall_mergedEvents_iff
    refine ⟨_, hread, ?_⟩
    rw [← hmerged, File.orderedEvents_eq, recordsOf_concat]
    refine (endOnce_concat_iff ⟨rfl, rfl⟩).trans ?_
    rw [exists_isEnd_iff fun event hmem => hchannel event (List.mem_append_left _ hmem), not_exists]
    exact forall_congr' fun event => not_and

/-- A file of one shared end at its start. -/
def sharedEnd : File := ⟨48, [], [Event.at 0 0 .endOfTrack]⟩

/-- Without the shared end the body of a track with a late end of its own ends once; with it
the body ends twice. -/
theorem endsOnce_iff_sharedEnd :
    ∃ records, readRecords? 0 (sharedEnd.trackBody ⟨#[Event.at 9 3 .endOfTrack], 4, []⟩).toList
        = some records
      ∧ (EndOnce records ↔ ∀ event ∈ sharedEnd.shared, event.kind ≠ .endOfTrack) :=
  (endsOnce_iff sharedEnd ⟨#[Event.at 9 3 .endOfTrack], 4, []⟩).2 (by decide)

/-- The empty track of a file that shares an end has two ends. -/
theorem not_endsOnce_sharedEnd : ¬ sharedEnd.EndsOnce .empty := by
  rw [File.endsOnce_iff_merged, File.forall_mergedEvents_iff]
  rintro ⟨hnone, -⟩
  exact hnone _ List.mem_cons_self rfl

end ConsoleSound.Midi

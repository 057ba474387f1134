import ConsoleSound.Proofs.Midi.Building
import ConsoleSound.Proofs.Midi.Ending
/-! # The end that a track tells

A track tells its end (`Track.endTime`), and a file works it out again when it writes the track
(`File.endTick`). The file looks at the shared events as well, but not at the ends that the track
holds. So the two agree exactly if each of those is reached without it, by the cursor or by an
event that is written (`endTick_eq_iff`). Tracks that are built by their calls hold no end, and
for them they always agree (`getLast?_orderedEvents_build`). -/

namespace ConsoleSound.Midi

/-- The latest tick of some events is the least one that is not before any of them. -/
theorem latest_le_iff {events : List Event} {bound : UInt32} :
    Track.latest events ≤ bound ↔ ∀ event ∈ events, event.time ≤ bound := by
  constructor
  · intro h event hmem
    exact UInt32.le_trans (UInt32.le_iff_toNat_le.mpr (time_le_latest hmem)) h
  · intro h
    rcases foldl_max_eq events 0 with hzero | ⟨event, hmem, hlatest⟩
    · rw [Track.latest, hzero]
      exact UInt32.zero_le
    · rw [Track.latest, hlatest]
      exact h event hmem

theorem max_le_iff_of_ticks {first second bound : UInt32} :
    max first second ≤ bound ↔ first ≤ bound ∧ second ≤ bound := by
  simp only [UInt32.le_iff_toNat_le, toNat_max]
  exact Nat.max_le

theorem Track.endTime_le_iff {track : Track} {bound : UInt32} :
    track.endTime ≤ bound
      ↔ (∀ event ∈ track.events.toList, event.time ≤ bound) ∧ track.cursor ≤ bound := by
  rw [Track.endTime, max_le_iff_of_ticks, latest_le_iff]

/-- The end that a track and its file tell: that of the track, or a later shared event. -/
def File.toldEnd (file : File) (track : Track) : UInt32 :=
  max track.endTime (Track.latest file.shared)

variable {file : File} {track : Track}

theorem toldEnd_le_iff {bound : UInt32} :
    file.toldEnd track ≤ bound
      ↔ ((∀ event ∈ track.events.toList, event.time ≤ bound) ∧ track.cursor ≤ bound)
        ∧ ∀ event ∈ file.shared, event.time ≤ bound := by
  rw [File.toldEnd, max_le_iff_of_ticks, Track.endTime_le_iff, latest_le_iff]

/-- The end that is written is never later than the one that is told. -/
theorem endTick_le_toldEnd (file : File) (track : Track) :
    file.endTick track ≤ file.toldEnd track := by
  obtain ⟨⟨hown, hcursor⟩, hshared⟩ := toldEnd_le_iff.mp (UInt32.le_refl (file.toldEnd track))
  rw [File.endTick, max_le_iff_of_ticks, latest_le_iff]
  refine ⟨?_, hcursor⟩
  intro event hmem
  rcases File.mem_mergedEvents.mp hmem with ⟨hevent, -⟩ | hevent
  · exact hown event hevent
  · exact hshared event hevent

/-- The end that is written is the one that is told exactly if every end that the track holds is
reached by the cursor or by an event that is written. -/
theorem endTick_eq_iff :
    file.endTick track = file.toldEnd track
      ↔ ∀ event ∈ track.events.toList, event.kind = .endOfTrack →
          event.time ≤ track.cursor
            ∨ ∃ other ∈ file.mergedEvents track, event.time ≤ other.time := by
  constructor
  · intro h event hmem _
    rw [← le_endTick_iff, h]
    exact (toldEnd_le_iff.mp (UInt32.le_refl _)).1.1 event hmem
  · intro h
    refine UInt32.le_antisymm (endTick_le_toldEnd file track) ?_
    rw [toldEnd_le_iff]
    refine ⟨⟨?_, le_endTick_iff.mpr (.inl (UInt32.le_refl _))⟩, ?_⟩
    · intro event hmem
      rw [le_endTick_iff]
      by_cases hkind : event.kind = .endOfTrack
      · exact h event hmem hkind
      · -- what is no end is written itself
        exact .inr ⟨event, File.mem_mergedEvents.mpr (.inl ⟨hmem, hkind⟩), UInt32.le_refl _⟩
    · intro event hmem
      exact le_endTick_iff.mpr
        (.inr ⟨event, File.mem_mergedEvents.mpr (.inr hmem), UInt32.le_refl _⟩)

/-- The end is the last event in output order. -/
theorem getLast?_orderedEvents (file : File) (track : Track) :
    (file.orderedEvents track).getLast?
      = some (Event.at (file.endTick track) 0 .endOfTrack) := by
  rw [File.orderedEvents_eq]
  exact List.getLast?_concat

theorem at_endOfTrack_inj {tick tick' : UInt32} :
    some (Event.at tick 0 .endOfTrack) = some (Event.at tick' 0 .endOfTrack) ↔ tick = tick' := by
  constructor
  · intro h
    exact congrArg Event.time (Option.some.inj h)
  · intro h
    rw [h]

/-- **The end that is written is the one that is told unless a late end is held.** The end of a
track is written at the latest of what the track tells as its end and of the shared events,
exactly if every end that the track holds is reached by the cursor or by an event that is
written. Without shared events it is written where the track tells, exactly if every end that the
track holds is reached by the cursor or by an event that is no end. -/
theorem getLast?_orderedEvents_iff (file : File) (track : Track) :
    ((file.orderedEvents track).getLast?
        = some (Event.at (max track.endTime (Track.latest file.shared)) 0 .endOfTrack)
      ↔ ∀ event ∈ track.events.toList, event.kind = .endOfTrack →
          event.time ≤ track.cursor
            ∨ ∃ other ∈ file.mergedEvents track, event.time ≤ other.time)
      ∧ (({ file with shared := [] }.orderedEvents track).getLast?
          = some (Event.at track.endTime 0 .endOfTrack)
        ↔ ∀ event ∈ track.events.toList, event.kind = .endOfTrack →
            event.time ≤ track.cursor
              ∨ ∃ other ∈ track.events.toList,
                  other.kind ≠ .endOfTrack ∧ event.time ≤ other.time) := by
  constructor
  · rw [getLast?_orderedEvents, at_endOfTrack_inj]
    exact endTick_eq_iff
  · have htold : { file with shared := [] }.toldEnd track = track.endTime :=
      max_eq_left_of_le UInt32.zero_le
    rw [getLast?_orderedEvents, at_endOfTrack_inj, ← htold, endTick_eq_iff]
    simp only [File.mem_mergedEvents, List.not_mem_nil, or_false, and_assoc]

/-- A track whose only event is an end, later than its cursor. -/
def lateEnd : Track := Track.empty.push (Event.at 9 0 .endOfTrack)

/-- The end is written at the cursor, but told where the track holds one. -/
theorem getLast?_orderedEvents_lateEnd :
    ((File.empty defaultResolution).orderedEvents lateEnd).getLast?
      ≠ some (Event.at lateEnd.endTime 0 .endOfTrack) := by
  have hmerged : (File.empty defaultResolution).mergedEvents lateEnd = [] := List.mergeSort_nil
  rw [getLast?_orderedEvents, Ne, at_endOfTrack_inj, File.endTick, hmerged]
  decide

/-- However a track is built by its calls, its end is written where it is told. -/
theorem getLast?_orderedEvents_build (file : File) (calls : List Call) :
    (file.orderedEvents (Track.build calls)).getLast?
      = some (Event.at (file.toldEnd (Track.build calls)) 0 .endOfTrack) := by
  rw [getLast?_orderedEvents, at_endOfTrack_inj, endTick_eq_iff]
  intro event hmem hkind
  exact absurd hkind ((Track.built_build calls).plain event hmem).notEnd

end ConsoleSound.Midi

import Mathlib.Data.List.Basic
import ConsoleSound.Proofs.Midi.Balance
import ConsoleSound.Proofs.Midi.Building
import ConsoleSound.Proofs.Midi.Ending
/-! # Transposes of a whole file

Global transposes are merged into a track when it is written, and every note-on and every
note-off is moved by the transpose that was written last. Transposes come first of their
tick, so the transposition of a note event is that of its tick
(`Transposed.transposeAfter_eq`), and the records of a track are those of its events, one by
one (`Transposed.recordsOf_orderedEvents`). -/

namespace ConsoleSound.Midi

namespace File

/-- A file with transposes, each of them at its tick. -/
def withTransposes (file : File) (transposes : List (UInt32 × Int8)) : File :=
  transposes.foldl (fun file transpose => file.addTranspose transpose.1 transpose.2) file

/-- The transposition at a tick: that of the last transpose, in the order of ticks, that is
not later. -/
def transposeAt (file : File) (tick : UInt32) : Int8 :=
  transposeAfter ((inTickOrder file.shared).filter (·.time ≤ tick))

end File

/-! ## The transposes of a file -/

/-- A transpose as files make theirs. -/
def Event.IsTranspose (event : Event) : Prop :=
  ∃ tick semitones, event = Event.at tick 0 (.globalTranspose semitones)

theorem shared_withTransposes (file : File) (transposes : List (UInt32 × Int8)) :
    (file.withTransposes transposes).shared
      = file.shared ++ transposes.map fun transpose =>
          Event.at transpose.1 0 (.globalTranspose transpose.2) := by
  induction transposes generalizing file with
  | nil => exact (List.append_nil _).symm
  | cons transpose transposes ih =>
      rw [File.withTransposes, List.foldl_cons]
      exact (ih _).trans (List.append_assoc _ _ _)

theorem isTranspose_of_mem (resolution : UInt16) (transposes : List (UInt32 × Int8)) :
    ∀ event ∈ ((File.empty resolution).withTransposes transposes).shared, event.IsTranspose := by
  intro event hmem
  rw [shared_withTransposes] at hmem
  obtain ⟨transpose, -, rfl⟩ := List.mem_map.mp hmem
  exact ⟨transpose.1, transpose.2, rfl⟩

/-- Transposes rank alike, so their output order is that of their ticks. -/
theorem mergeSort_transposes {events : List Event} (h : ∀ event ∈ events, event.IsTranspose) :
    events.mergeSort File.inOrder = inTickOrder events := by
  have hmap := List.map_mergeSort (r := File.inOrder) (s := notAfter) (f := id) (l := events) ?_
  · simpa [inTickOrder] using hmap
  · intro first hfirst second hsecond
    obtain ⟨tick, semitones, rfl⟩ := h first hfirst
    obtain ⟨tick', semitones', rfl⟩ := h second hsecond
    rw [Bool.eq_iff_iff, inOrder_iff, id, id, notAfter, decide_eq_true_eq,
      UInt32.le_iff_toNat_le]
    show tick.toNat < tick'.toNat ∨ tick.toNat = tick'.toNat ∧ 0 ≤ 0 ↔ tick.toNat ≤ tick'.toNat
    omega

/-- What is made of none of a track's own events is made of the shared ones in their order. -/
theorem filterMap_mergeSort {α : Type} (make : Event → Option α) {own : List Event}
    (h : ∀ event ∈ own, make event = none) (shared : List Event) :
    ((own ++ shared).mergeSort File.inOrder).filterMap make
      = (shared.mergeSort File.inOrder).filterMap make := by
  induction own with
  | nil => rfl
  | cons event own ih =>
      obtain ⟨hevent, hown⟩ := List.forall_mem_cons.mp h
      obtain ⟨front, behind, hsorted, hrest, -⟩ :=
        List.mergeSort_cons inOrder_trans inOrder_total event (own ++ shared)
      rw [← ih hown, List.cons_append, hsorted, hrest, List.filterMap_append,
        List.filterMap_cons_none hevent, List.filterMap_append]

/-- A built track of a file that shares transposes only. -/
structure Transposed (file : File) (track : Track) : Prop where
  built : track.Built
  shared : ∀ event ∈ file.shared, event.IsTranspose

theorem transposed_build (resolution : UInt16) (transposes : List (UInt32 × Int8))
    (calls : List Call) :
    Transposed ((File.empty resolution).withTransposes transposes) (Track.build calls) :=
  ⟨Track.built_build calls, isTranspose_of_mem resolution transposes⟩

namespace Transposed

variable {file : File} {track : Track}

/-- What is merged can be written. -/
theorem made (h : Transposed file track) :
    ∀ event ∈ track.events.toList ++ file.shared, event.IsMade ∧ event.Fits := by
  intro event hmem
  rcases List.mem_append.mp hmem with hown | htranspose
  · exact ⟨Event.isMade_iff.mpr (h.built.plain event hown).channel, (h.built.plain event hown).fits⟩
  · obtain ⟨tick, semitones, rfl⟩ := h.shared event htranspose
    exact ⟨Event.isMade_iff.mpr (channel_at_lt tick 0 _), one_lt_size⟩

/-- All the events of the track are merged. -/
theorem mergedEvents_eq (h : Transposed file track) :
    file.mergedEvents track = (track.events.toList ++ file.shared).mergeSort File.inOrder := by
  have hown : track.events.toList.filter (·.kind ≠ .endOfTrack) = track.events.toList :=
    List.filter_eq_self.mpr fun event hmem => decide_eq_true (h.built.plain event hmem).notEnd
  rw [File.mergedEvents, hown]

/-- A note event in output order is the track's own. -/
theorem mem_own_of_key (h : Transposed file track) {event : Event}
    (hmem : event ∈ file.orderedEvents track) (hkey : event.kind.key? ≠ none) :
    event ∈ track.events.toList := by
  rcases mem_orderedEvents hmem with hmem | ⟨tick, rfl⟩
  · rcases List.mem_append.mp hmem with hown | htranspose
    · exact hown
    · obtain ⟨tick, semitones, rfl⟩ := h.shared event htranspose
      exact absurd rfl hkey
  · exact absurd rfl hkey

end Transposed

/-! ## The transposition of an event -/

/-- The transposition that an event sets up to a tick. -/
def Event.transposeBy? (tick : UInt32) (event : Event) : Option Int8 :=
  if event.time ≤ tick then event.kind.transpose? else none

theorem transposeBy?_eq_none {event : Event} (h : event.kind.transpose? = none) (tick : UInt32) :
    event.transposeBy? tick = none := by
  rw [Event.transposeBy?, h, ite_self]

theorem transposeAt_eq (file : File) (tick : UInt32) :
    file.transposeAt tick
      = ((inTickOrder file.shared).filterMap (Event.transposeBy? tick)).getLast?.getD 0 := by
  rw [File.transposeAt, transposeAfter, List.filterMap_filter]
  simp only [decide_eq_true_eq]
  rfl

/-- A transpose behind a note in output order is later, because it would be in front if it were
of the same tick. -/
theorem transposeBy?_of_inOrder {event transpose : Event} (hrank : event.priority = .lower)
    (htranspose : transpose.IsTranspose) (h : File.inOrder event transpose = true) :
    transpose.transposeBy? event.time = none := by
  obtain ⟨tick, semitones, rfl⟩ := htranspose
  have horder := inOrder_iff.mp h
  rw [hrank, show (Event.at tick 0 (.globalTranspose semitones)).priority.rank = 0 from rfl,
    show Priority.lower.rank = 5 from rfl] at horder
  refine if_neg ?_
  rw [UInt32.le_iff_toNat_le]
  omega

/-- The transposition that a note event is written with is that of its tick. -/
theorem Transposed.transposeAfter_eq {file : File} {track : Track} (h : Transposed file track)
    {before behind : List Event} {event : Event}
    (hmerged : file.mergedEvents track = before ++ event :: behind)
    (hrank : event.priority = .lower) (hevent : event.kind.transpose? = none) :
    transposeAfter before = file.transposeAt event.time := by
  rw [h.mergedEvents_eq] at hmerged
  have hsorted := List.pairwise_mergeSort inOrder_trans inOrder_total
    (track.events.toList ++ file.shared)
  rw [hmerged, List.pairwise_append, List.pairwise_cons] at hsorted
  obtain ⟨-, ⟨hbehind, -⟩, hbefore⟩ := hsorted
  have hfront : before.filterMap (Event.transposeBy? event.time)
      = before.filterMap fun event => event.kind.transpose? := by
    refine List.filterMap_congr fun other hother => if_pos ?_
    have horder := inOrder_iff.mp (hbefore other hother event List.mem_cons_self)
    rw [UInt32.le_iff_toNat_le]
    omega
  have hback : behind.filterMap (Event.transposeBy? event.time) = [] := by
    refine List.filterMap_eq_nil_iff.mpr fun other hother => ?_
    have hmem : other ∈ (track.events.toList ++ file.shared).mergeSort File.inOrder := by
      rw [hmerged]
      simp [hother]
    rcases List.mem_append.mp (List.mem_mergeSort.mp hmem) with hown | htranspose
    · exact transposeBy?_eq_none (h.built.plain other hown).noTranspose _
    · exact transposeBy?_of_inOrder hrank (h.shared other htranspose) (hbehind other hother)
  have hlist : (before.filterMap fun event => event.kind.transpose?)
      = (inTickOrder file.shared).filterMap (Event.transposeBy? event.time) := by
    calc before.filterMap (fun event => event.kind.transpose?)
        = (before ++ event :: behind).filterMap (Event.transposeBy? event.time) := by
          rw [List.filterMap_append, List.filterMap_cons_none (transposeBy?_eq_none hevent _),
            hback, hfront, List.append_nil]
      _ = (file.shared.mergeSort File.inOrder).filterMap (Event.transposeBy? event.time) := by
          rw [← hmerged]
          refine filterMap_mergeSort _ (fun other hown => ?_) file.shared
          exact transposeBy?_eq_none (h.built.plain other hown).noTranspose _
      _ = _ := by rw [mergeSort_transposes h.shared]
  rw [transposeAt_eq, ← hlist]
  rfl

/-! ## The records of a track -/

/-- A message that is about no key is the same after every transposition. -/
theorem record?_of_message {event : Event} (h : event.kind.key? = none) (transpose other : Int8) :
    event.record? transpose = event.record? other := by
  obtain ⟨time, channel, priority, kind⟩ := event
  cases kind with
  | noteOn key velocity => exact nomatch h
  | noteOff key => exact nomatch h
  | _ => rfl

/-- Records are made one by one if each event knows its transposition. -/
theorem recordsOf_eq_filterMap {events : List Event} (transpose : Event → Int8)
    (h : ∀ before event behind, events = before ++ event :: behind →
      event.record? (transposeAfter before) = event.record? (transpose event)) :
    recordsOf events = events.filterMap fun event => event.record? (transpose event) := by
  calc recordsOf events
      = events.zipIdx.filterMap fun place => place.1.record? (transpose place.1) := by
        refine List.filterMap_congr ?_
        rintro ⟨event, index⟩ hmem
        obtain ⟨hlt, heq⟩ := List.getElem?_eq_some_iff.mp (List.mem_zipIdx_iff_getElem?.mp hmem)
        refine h _ event (events.drop (index + 1)) ?_
        have hdrop := List.drop_eq_getElem_cons hlt
        rw [heq] at hdrop
        rw [← hdrop, List.take_append_drop]
    _ = (events.zipIdx.map Prod.fst).filterMap fun event => event.record? (transpose event) := by
        rw [List.filterMap_map]
        rfl
    _ = _ := by rw [List.zipIdx_map_fst]

/-- A note event in output order stands before the end. -/
theorem exists_split_merged {file : File} {track : Track} {before behind : List Event}
    {event : Event} (h : file.orderedEvents track = before ++ event :: behind)
    (hkey : event.kind.key? ≠ none) :
    ∃ behind', file.mergedEvents track = before ++ event :: behind' := by
  rw [File.orderedEvents_eq] at h
  have hnotEnd : event ≠ Event.at (file.endTick track) 0 .endOfTrack := by
    rintro rfl
    exact hkey rfl
  rcases List.append_eq_append_iff.mp h with ⟨more, -, hend⟩ | ⟨more, hmerged, hmore⟩
  · cases more with
    | nil => exact absurd (List.cons.inj hend).1.symm hnotEnd
    | cons first more => exact absurd (List.cons.inj hend).2.symm (by simp)
  · cases more with
    | nil => exact absurd (List.cons.inj hmore).1 hnotEnd
    | cons first more =>
        obtain rfl := (List.cons.inj hmore).1
        exact ⟨more, hmerged⟩

/-- The records of a track are those of its events, each after the transposition of its tick. -/
theorem Transposed.recordsOf_orderedEvents {file : File} {track : Track}
    (h : Transposed file track) :
    recordsOf (file.orderedEvents track)
      = (file.orderedEvents track).filterMap fun event =>
          event.record? (file.transposeAt event.time) := by
  refine recordsOf_eq_filterMap (fun event => file.transposeAt event.time) ?_
  intro before event behind hsplit
  by_cases hkey : event.kind.key? = none
  · exact record?_of_message hkey _ _
  · have hown := h.mem_own_of_key (by rw [hsplit]; simp) hkey
    obtain ⟨behind', hmerged⟩ := exists_split_merged hsplit hkey
    have hplain := h.built.plain event hown
    rw [h.transposeAfter_eq hmerged (hplain.noteRank hkey) hplain.noTranspose]

end ConsoleSound.Midi

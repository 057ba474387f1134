import Mathlib.Data.List.Basic
import ConsoleSound.Proofs.Midi.Alternation
import ConsoleSound.Proofs.Midi.Balance
/-! # Output order

A sort is stable: items that may stand either way round keep the order in which they came
(`pairwise_mergeSort_stable`). So output order can be told without a sort. Every event takes
along its place among the events that are merged (`File.places`), and one event stands in front
of another one for its tick, for its rank, or, if both are the same, for its place
(`Precedes`). Of two events only one can stand in front of the other, which leaves a single
order (`eq_of_precedes`) however it is reached: by one sort, by a sort for ranks and then one
for ticks, or by leaving some events out of a longer order. -/

namespace ConsoleSound.Midi

/-! ## Stable sorts -/

section Sorting

variable {α : Type}

/-- Items that a sort may leave either way round stay related as they came. -/
theorem pairwise_mergeSort_stable (le : α → α → Bool)
    (trans : ∀ first second third, le first second = true → le second third = true →
      le first third = true)
    (total : ∀ first second, (le first second || le second first) = true)
    {related : α → α → Prop} {items : List α} (h : items.Pairwise related) :
    (items.mergeSort le).Pairwise fun first second =>
      le first second = true ∧ (le second first = true → related first second) := by
  induction h with
  | nil =>
      rw [List.mergeSort_nil]
      exact .nil
  | @cons item items hitem _ ih =>
      obtain ⟨front, behind, hsort, hitems, hfront⟩ :=
        List.mergeSort_cons trans total item items
      have hsorted := List.pairwise_mergeSort trans total (item :: items)
      have hmem : ∀ other ∈ front ++ behind, other ∈ items := by
        intro other hother
        rw [← hitems] at hother
        exact List.mem_mergeSort.mp hother
      rw [hitems, List.pairwise_append] at ih
      rw [hsort, List.pairwise_append, List.pairwise_cons] at hsorted
      rw [hsort, List.pairwise_append, List.pairwise_cons]
      refine ⟨ih.1, ⟨?_, ih.2.1⟩, ?_⟩
      · intro other hother
        exact ⟨hsorted.2.1.1 other hother,
          fun _ => hitem other (hmem other (List.mem_append_right _ hother))⟩
      · intro first hfirst second hsecond
        rcases List.mem_cons.mp hsecond with rfl | hsecond
        · -- what the sort puts in front of the first item may not stand behind it
          refine ⟨hsorted.2.2 first hfirst second List.mem_cons_self, ?_⟩
          intro hback
          have hstrict := hfront first hfirst
          rw [hback] at hstrict
          exact nomatch hstrict
        · exact ih.2.2 first hfirst second hsecond

/-- Items that are numbered stand in the order of their numbers. -/
theorem pairwise_zipIdx (items : List α) :
    items.zipIdx.Pairwise fun first second => first.2 < second.2 := by
  rw [List.pairwise_iff_getElem]
  intro i j hi hj hij
  simpa using hij

end Sorting

/-! ## Places -/

theorem Priority.rank_inj {first second : Priority} :
    first.rank = second.rank ↔ first = second := by
  cases first <;> cases second <;> simp [rank]

/-- The events of a track that are written: ends are left out. -/
def Track.ownEvents (track : Track) : List Event :=
  track.events.toList.filter (·.kind ≠ .endOfTrack)

/-- Whether an event stands in front of another one in output order, each with its place among
the events that are merged: at an earlier tick, at the same tick with a lower rank, or with the
same rank at an earlier place. -/
def Precedes (first second : Event × Nat) : Prop :=
  first.1.time < second.1.time
    ∨ first.1.time = second.1.time
      ∧ (first.1.priority.rank < second.1.priority.rank
        ∨ first.1.priority = second.1.priority ∧ first.2 < second.2)

theorem precedes_iff {first second : Event × Nat} :
    Precedes first second
      ↔ first.1.time.toNat < second.1.time.toNat
        ∨ first.1.time.toNat = second.1.time.toNat
          ∧ (first.1.priority.rank < second.1.priority.rank
            ∨ first.1.priority.rank = second.1.priority.rank ∧ first.2 < second.2) := by
  rw [Precedes, UInt32.lt_iff_toNat_lt, ← UInt32.toNat_inj, Priority.rank_inj]

/-- Of two events only one precedes the other. -/
theorem Precedes.asymm {first second : Event × Nat} (h : Precedes first second) :
    ¬ Precedes second first := by
  rw [precedes_iff] at h ⊢
  omega

/-- There is only one way to put events with their places in order. -/
theorem eq_of_precedes {events events' : List (Event × Nat)} (hperm : events.Perm events')
    (h : events.Pairwise Precedes) (h' : events'.Pairwise Precedes) : events = events' :=
  hperm.eq_of_pairwise (fun _ _ _ _ hfirst hsecond => absurd hsecond hfirst.asymm) h h'

/-- Whether the rank of an event is not higher than that of another one. -/
def rankNotAbove (first second : Event) : Bool := first.priority.rank ≤ second.priority.rank

theorem rankNotAbove_trans (first second third : Event) (h : rankNotAbove first second = true)
    (h' : rankNotAbove second third = true) : rankNotAbove first third = true := by
  simp only [rankNotAbove, decide_eq_true_eq] at h h' ⊢
  exact Nat.le_trans h h'

theorem rankNotAbove_total (first second : Event) :
    (rankNotAbove first second || rankNotAbove second first) = true := by
  simp only [rankNotAbove, Bool.or_eq_true, decide_eq_true_eq]
  exact Nat.le_total first.priority.rank second.priority.rank

/-- Comparing events with their places by the events alone. -/
def onEvents (le : Event → Event → Bool) (first second : Event × Nat) : Bool := le first.1 second.1

/-- Events with their places are sorted as the events are. -/
theorem map_mergeSort_onEvents (le : Event → Event → Bool) (events : List (Event × Nat)) :
    (events.mergeSort (onEvents le)).map Prod.fst = (events.map Prod.fst).mergeSort le :=
  List.map_mergeSort fun _ _ _ _ => rfl

namespace File

/-- The events that are merged for a track: its own in the order they were made, and the shared
ones behind them. -/
def unordered (file : File) (track : Track) : List Event := track.ownEvents ++ file.shared

/-- The merged events in output order, each with its place among those that are merged. -/
def places (file : File) (track : Track) : List (Event × Nat) :=
  (file.unordered track).zipIdx.mergeSort (onEvents inOrder)

/-- The places of a track's own events in output order. -/
def ownPlaces (file : File) (track : Track) : List (Event × Nat) :=
  (file.places track).filter (·.2 < track.ownEvents.length)

variable (file : File) (track : Track)

theorem map_fst_places : (file.places track).map Prod.fst = file.mergedEvents track := by
  rw [places, map_mergeSort_onEvents, List.zipIdx_map_fst]
  rfl

theorem perm_places : (file.places track).Perm (file.unordered track).zipIdx :=
  List.mergeSort_perm _ _

/-- In output order every event precedes those behind it. -/
theorem pairwise_places : (file.places track).Pairwise Precedes := by
  refine (pairwise_mergeSort_stable (onEvents inOrder) (fun _ _ _ => inOrder_trans _ _ _)
    (fun _ _ => inOrder_total _ _) (pairwise_zipIdx (file.unordered track))).imp ?_
  rintro first second ⟨hle, hback⟩
  rw [precedes_iff]
  rw [onEvents, inOrder_iff] at hle hback
  omega

/-- A sort for ranks and then one for ticks give output order too. -/
theorem mergeSort_mergeSort_unordered :
    ((file.unordered track).mergeSort rankNotAbove).mergeSort notAfter
      = file.mergedEvents track := by
  have hranks := pairwise_mergeSort_stable (onEvents rankNotAbove)
    (fun _ _ _ => rankNotAbove_trans _ _ _) (fun _ _ => rankNotAbove_total _ _)
    (pairwise_zipIdx (file.unordered track))
  have hticks := pairwise_mergeSort_stable (onEvents notAfter)
    (fun _ _ _ => notAfter_trans _ _ _) (fun _ _ => notAfter_total _ _) hranks
  have hprecedes : (((file.unordered track).zipIdx.mergeSort (onEvents rankNotAbove)).mergeSort
      (onEvents notAfter)).Pairwise Precedes := by
    refine hticks.imp ?_
    rintro first second ⟨hle, hback⟩
    rw [precedes_iff]
    simp only [onEvents, notAfter, rankNotAbove, decide_eq_true_eq, UInt32.le_iff_toNat_le]
      at hle hback
    omega
  have hperm := ((List.mergeSort_perm ((file.unordered track).zipIdx.mergeSort
    (onEvents rankNotAbove)) (onEvents notAfter)).trans (List.mergeSort_perm _ _)).trans
      (file.perm_places track).symm
  have hsame := eq_of_precedes hperm hprecedes (file.pairwise_places track)
  rw [← map_fst_places, ← hsame, map_mergeSort_onEvents, map_mergeSort_onEvents,
    List.zipIdx_map_fst]

/-- The own events of a track come first among those that are merged. -/
theorem filter_zipIdx_unordered :
    (file.unordered track).zipIdx.filter (·.2 < track.ownEvents.length)
      = track.ownEvents.zipIdx := by
  rw [unordered, List.zipIdx_append, List.filter_append, List.filter_eq_self.mpr ?_,
    List.filter_eq_nil_iff.mpr ?_, List.append_nil]
  · rintro ⟨event, place⟩ hmem
    simpa using (List.mem_zipIdx hmem).1
  · rintro ⟨event, place⟩ hmem
    simpa using (List.mem_zipIdx hmem).2.1

/-- Whatever is shared, the own events of a track are in the same order. -/
theorem ownPlaces_eq (shared : List Event) :
    { file with shared }.ownPlaces track = file.ownPlaces track := by
  have hperm : ∀ file : File, (file.ownPlaces track).Perm track.ownEvents.zipIdx := by
    intro file
    rw [← file.filter_zipIdx_unordered track]
    exact (file.perm_places track).filter _
  exact eq_of_precedes ((hperm _).trans (hperm file).symm)
    (({ file with shared }.pairwise_places track).filter _)
    ((file.pairwise_places track).filter _)

/-- **Output order is the stable order of ticks and ranks.** The events before the end are those
that are merged, each one once, and every event precedes those behind it; a sort for ranks and
then one for ticks give the same. Shared events, however many and whichever they are, leave the
own events of a track in their order. -/
theorem orderedEvents_stable :
    (file.orderedEvents track).dropLast = (file.places track).map Prod.fst
      ∧ (file.orderedEvents track).dropLast
        = ((track.ownEvents ++ file.shared).mergeSort rankNotAbove).mergeSort notAfter
      ∧ (file.places track).Perm (track.ownEvents ++ file.shared).zipIdx
      ∧ (file.places track).Pairwise Precedes
      ∧ ∀ shared, { file with shared }.ownPlaces track = file.ownPlaces track := by
  have hevents : (file.orderedEvents track).dropLast = file.mergedEvents track :=
    List.dropLast_concat
  refine ⟨?_, ?_, file.perm_places track, file.pairwise_places track, file.ownPlaces_eq track⟩
  · rw [hevents, map_fst_places]
  · rw [hevents]
    exact (file.mergeSort_mergeSort_unordered track).symm

end File

end ConsoleSound.Midi

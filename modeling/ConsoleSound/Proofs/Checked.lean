import Mathlib.Data.List.Forall2
import ConsoleSound.Error
/-! # Computations that succeed

Readers of containers are chains of computations that may fail. A chain succeeds exactly
if each of its links does, and the lemmas here take a chain apart: one link
(`bind_eq_ok_iff`), a function of the result (`map_eq_ok_iff`), or the same computation
for every element of a list (`mapM_eq_ok_iff`) or for every number below a bound
(`mapM_range_eq_ok_iff`). -/

namespace ConsoleSound

namespace Checked

variable {ε α β : Type}

theorem bind_eq_ok_iff {first : Except ε α} {next : α → Except ε β} {result : β} :
    (first >>= next) = .ok result ↔ ∃ value, first = .ok value ∧ next value = .ok result := by
  cases first with
  | error error =>
      constructor
      · intro h
        exact nomatch h
      · rintro ⟨value, h, -⟩
        exact nomatch h
  | ok value =>
      constructor
      · intro h
        exact ⟨value, rfl, h⟩
      · rintro ⟨value', h, hnext⟩
        rw [Except.ok.inj h]
        exact hnext

theorem map_eq_ok_iff {first : Except ε α} {f : α → β} {result : β} :
    (f <$> first) = .ok result ↔ ∃ value, first = .ok value ∧ f value = result := by
  cases first with
  | error error =>
      constructor
      · intro h
        exact nomatch h
      · rintro ⟨value, h, -⟩
        exact nomatch h
  | ok value =>
      constructor
      · intro h
        exact ⟨value, rfl, Except.ok.inj h⟩
      · rintro ⟨value', h, rfl⟩
        rw [Except.ok.inj h]
        rfl

/-- A chain fails where its first link does, or else where the rest of it does. -/
theorem bind_eq_error_iff {first : Except ε α} {next : α → Except ε β} {error : ε} :
    (first >>= next) = .error error
      ↔ first = .error error ∨ ∃ value, first = .ok value ∧ next value = .error error := by
  cases first with
  | error other =>
      constructor
      · intro h
        exact Or.inl (congrArg Except.error (Except.error.inj h))
      · rintro (h | ⟨value, h, -⟩)
        · rw [Except.error.inj h]
          rfl
        · exact nomatch h
  | ok value =>
      constructor
      · intro h
        exact Or.inr ⟨value, rfl, h⟩
      · rintro (h | ⟨value', h, hnext⟩)
        · exact nomatch h
        · rw [Except.ok.inj h]
          exact hnext

/-- A chain does not fail with what none of its links fails with. -/
theorem bind_ne_error {first : Except ε α} {next : α → Except ε β} {error : ε}
    (hfirst : first ≠ .error error) (hnext : ∀ value, next value ≠ .error error) :
    (first >>= next) ≠ .error error := by
  intro h
  obtain h | ⟨value, -, h⟩ := bind_eq_error_iff.mp h
  · exact hfirst h
  · exact hnext value h

/-- A computation has no result but its own. -/
theorem exists_ok_iff {first : Except ε α} {value : α} (h : first = .ok value) {p : α → Prop} :
    (∃ other, first = .ok other ∧ p other) ↔ p value := by
  constructor
  · rintro ⟨other, hother, hp⟩
    rw [Except.ok.inj (h.symm.trans hother)]
    exact hp
  · intro hp
    exact ⟨value, h, hp⟩

/-- A computation for every element of a list succeeds exactly if it does for each. -/
theorem mapM_eq_ok_iff {f : α → Except ε β} {items : List α} {results : List β} :
    items.mapM f = .ok results
      ↔ List.Forall₂ (fun item result => f item = .ok result) items results := by
  induction items generalizing results with
  | nil =>
      rw [List.mapM_nil, List.forall₂_nil_left_iff]
      exact ⟨fun h => (Except.ok.inj h).symm, fun h => by rw [h]; rfl⟩
  | cons item items ih =>
      rw [List.mapM_cons, bind_eq_ok_iff, List.forall₂_cons_left_iff]
      constructor
      · rintro ⟨first, hfirst, h⟩
        obtain ⟨rest, hrest, h⟩ := bind_eq_ok_iff.mp h
        exact ⟨first, rest, hfirst, ih.mp hrest, (Except.ok.inj h).symm⟩
      · rintro ⟨first, rest, hfirst, hrest, rfl⟩
        exact ⟨first, hfirst, bind_eq_ok_iff.mpr ⟨rest, ih.mpr hrest, rfl⟩⟩

/-- Every result comes from an element. -/
theorem exists_of_mapM {f : α → Except ε β} {items : List α} {results : List β}
    (h : items.mapM f = .ok results) {result : β} (hmem : result ∈ results) :
    ∃ item ∈ items, f item = .ok result := by
  have hall := mapM_eq_ok_iff.mp h
  clear h
  induction hall with
  | nil => exact nomatch hmem
  | @cons item first items rest hfirst _ ih =>
      rcases List.mem_cons.mp hmem with heq | hmem
      · exact ⟨item, List.mem_cons_self, by rw [heq]; exact hfirst⟩
      · obtain ⟨other, hother, heq⟩ := ih hmem
        exact ⟨other, List.mem_cons_of_mem _ hother, heq⟩

/-- There are results exactly if there is one for each element. -/
theorem exists_mapM_iff {f : α → Except ε β} {items : List α} :
    (∃ results, items.mapM f = .ok results) ↔ ∀ item ∈ items, ∃ result, f item = .ok result := by
  induction items with
  | nil => exact ⟨fun _ _ hmem => (nomatch hmem), fun _ => ⟨[], rfl⟩⟩
  | cons item items ih =>
      rw [List.forall_mem_cons, ← ih]
      constructor
      · rintro ⟨results, h⟩
        obtain ⟨first, rest, hfirst, hrest, -⟩ :=
          List.forall₂_cons_left_iff.mp (mapM_eq_ok_iff.mp h)
        exact ⟨⟨first, hfirst⟩, ⟨rest, mapM_eq_ok_iff.mpr hrest⟩⟩
      · rintro ⟨⟨first, hfirst⟩, ⟨rest, hrest⟩⟩
        exact ⟨first :: rest, mapM_eq_ok_iff.mpr (.cons hfirst (mapM_eq_ok_iff.mp hrest))⟩

/-- Every result stands where its element does. -/
theorem getElem?_of_mapM {f : α → Except ε β} {items : List α} {results : List β}
    (h : items.mapM f = .ok results) {index : Nat} {item : α} (hitem : items[index]? = some item) :
    ∃ result, f item = .ok result ∧ results[index]? = some result := by
  have hall := mapM_eq_ok_iff.mp h
  clear h
  induction hall generalizing index with
  | nil => exact nomatch hitem
  | @cons first result items results hfirst _ ih =>
      cases index with
      | zero =>
          obtain rfl : first = item := Option.some.inj hitem
          exact ⟨result, hfirst, rfl⟩
      | succ index => exact ih hitem

theorem length_of_mapM {f : α → Except ε β} {items : List α} {results : List β}
    (h : items.mapM f = .ok results) : results.length = items.length :=
  (mapM_eq_ok_iff.mp h).length_eq.symm

/-- A computation for every number below a bound succeeds exactly if there is a result for
each of them, in order. -/
theorem mapM_range_eq_ok_iff {f : Nat → Except ε β} {count : Nat} {results : List β} :
    (List.range count).mapM f = .ok results
      ↔ results.length = count
        ∧ ∀ index result, results[index]? = some result → f index = .ok result := by
  rw [mapM_eq_ok_iff, List.forall₂_iff_get]
  constructor
  · rintro ⟨hlength, hresults⟩
    refine ⟨hlength.symm.trans List.length_range, ?_⟩
    intro index result hresult
    obtain ⟨hindex, rfl⟩ := List.getElem?_eq_some_iff.mp hresult
    have h := hresults index (by rw [hlength]; exact hindex) hindex
    rw [List.get_eq_getElem, List.getElem_range] at h
    exact h
  · rintro ⟨hlength, hresults⟩
    refine ⟨List.length_range.trans hlength.symm, ?_⟩
    intro index hrange hindex
    rw [List.get_eq_getElem, List.getElem_range]
    exact hresults index _ (List.getElem?_eq_getElem hindex)

/-- Numbered elements that are kept beside their results. -/
theorem mapM_zipIdx_eq_ok_iff {f : Nat → Except ε β} {items : List α} {pairs : List (α × β)} :
    (items.zipIdx.mapM fun (item, index) => do return (item, ← f index)) = .ok pairs
      ↔ pairs.map Prod.fst = items
        ∧ (List.range items.length).mapM f = .ok (pairs.map Prod.snd) := by
  suffices h : ∀ start,
      ((items.zipIdx start).mapM fun (item, index) => do return (item, ← f index)) = .ok pairs
        ↔ pairs.map Prod.fst = items
          ∧ (List.range' start items.length).mapM f = .ok (pairs.map Prod.snd) by
    rw [List.range_eq_range']
    exact h 0
  induction items generalizing pairs with
  | nil =>
      intro start
      show Except.ok [] = Except.ok pairs ↔ _ ∧ Except.ok [] = Except.ok (pairs.map Prod.snd)
      cases pairs with
      | nil => exact ⟨fun _ => ⟨rfl, rfl⟩, fun _ => rfl⟩
      | cons pair pairs => exact ⟨fun h => (nomatch h), fun h => (nomatch h.1)⟩
  | cons item items ih =>
      intro start
      rw [List.zipIdx_cons, List.mapM_cons, List.length_cons, List.range'_succ, List.mapM_cons,
        bind_eq_ok_iff, bind_eq_ok_iff]
      constructor
      · rintro ⟨pair, hpair, h⟩
        obtain ⟨rest, hrest, h⟩ := bind_eq_ok_iff.mp h
        obtain ⟨result, hresult, hpair⟩ := bind_eq_ok_iff.mp hpair
        obtain ⟨hitems, hresults⟩ := (ih (start + 1)).mp hrest
        obtain rfl := Except.ok.inj hpair
        obtain rfl := Except.ok.inj h
        exact ⟨congrArg (item :: ·) hitems, result, hresult,
          bind_eq_ok_iff.mpr ⟨_, hresults, rfl⟩⟩
      · rintro ⟨hitems, result, hresult, h⟩
        obtain ⟨results, hresults, h⟩ := bind_eq_ok_iff.mp h
        cases pairs with
        | nil => exact nomatch hitems
        | cons pair pairs =>
            obtain ⟨rfl, htail⟩ := List.cons.inj hitems
            obtain ⟨rfl, rfl⟩ := List.cons.inj (Except.ok.inj h)
            exact ⟨pair, bind_eq_ok_iff.mpr ⟨_, hresult, rfl⟩,
              bind_eq_ok_iff.mpr ⟨_, (ih (start + 1)).mpr ⟨htail, hresults⟩, rfl⟩⟩

/-- A vector of computations that all succeed. -/
theorem ofFnM_eq_ok {count : Nat} {f : Fin count → Except ε β} {g : Fin count → β}
    (h : ∀ index, f index = .ok (g index)) : Vector.ofFnM f = .ok (Vector.ofFn g) := by
  induction count with
  | zero =>
      rw [Vector.ofFnM_zero]
      rfl
  | succ count ih =>
      rw [Vector.ofFnM_succ, ih fun index => h index.castSucc, Vector.ofFn_succ]
      exact bind_eq_ok_iff.mpr ⟨_, rfl, bind_eq_ok_iff.mpr ⟨_, h (Fin.last count), rfl⟩⟩

end Checked

end ConsoleSound

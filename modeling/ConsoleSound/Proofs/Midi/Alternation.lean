import ConsoleSound.Midi.Track
/-! # Alternating notes

A synthesizer that plays the events of a key one after the other expects them to
alternate: on, off, on, off. Tracks make a note-on and its note-off together, so in
the order in which they are made the events of a key alternate by themselves
(`InTurn`). In the order of ticks they alternate exactly if sorting moves none of them
(`alternates_inTickOrder`): a note that ends after a later one has begun is enough to
spoil the order. -/

namespace ConsoleSound.Midi

/-- The key that a note event is about. -/
def EventKind.key? : EventKind → Option UInt8
  | noteOn key _ => some key
  | noteOff key => some key
  | _ => none

namespace Event

/-- Whether an event starts a note. -/
def isOn (event : Event) : Bool :=
  match event.kind with
  | .noteOn .. => true
  | _ => false

/-- Whether an event ends a note. -/
def isOff (event : Event) : Bool :=
  match event.kind with
  | .noteOff _ => true
  | _ => false

/-- Whether an event starts or ends a note of a channel and a key. -/
def isNoteOf (channel key : UInt8) (event : Event) : Bool :=
  event.channel = channel && event.kind.key? = some key

variable {event : Event} {key velocity : UInt8}

theorem isOn_of_kind (h : event.kind = .noteOn key velocity) : event.isOn = true := by
  rw [isOn, h]

theorem isOff_of_kind (h : event.kind = .noteOff key) : event.isOff = true := by
  rw [isOff, h]

theorem isOff_eq_false_of_on (h : event.kind = .noteOn key velocity) : event.isOff = false := by
  rw [isOff, h]

/-- What is about no key ends no note. -/
theorem isOff_eq_false_of_message (h : event.kind.key? = none) : event.isOff = false := by
  cases hkind : event.kind with
  | noteOff key => rw [hkind] at h; exact nomatch h
  | _ => rw [isOff, hkind]

/-- An event that ends a note is the note-off of some key. -/
theorem exists_kind_of_isOff (h : event.isOff = true) : ∃ key, event.kind = .noteOff key := by
  cases hkind : event.kind with
  | noteOff key => exact ⟨key, rfl⟩
  | _ => rw [isOff, hkind] at h; exact nomatch h

theorem isOn_eq_false_of_isOff (h : event.isOff = true) : event.isOn = false := by
  obtain ⟨key, hkind⟩ := exists_kind_of_isOff h
  rw [isOn, hkind]

end Event

/-- Whether events start and end notes in turn. -/
def alternates : List Event → Bool
  | [] => true
  | [_] => false
  | on :: off :: rest => on.isOn && off.isOff && alternates rest

/-- Whether one event is not after another. -/
def notAfter (first second : Event) : Bool := first.time ≤ second.time

/-- Events in the order of their ticks, those of one tick in the order they were made. -/
def inTickOrder (events : List Event) : List Event := events.mergeSort notAfter

/-! ## Sorting by ticks -/

theorem notAfter_trans (first second third : Event) (h : notAfter first second = true)
    (h' : notAfter second third = true) : notAfter first third = true := by
  simp only [notAfter, decide_eq_true_eq] at h h' ⊢
  exact UInt32.le_trans h h'

theorem notAfter_total (first second : Event) :
    (notAfter first second || notAfter second first) = true := by
  simp only [notAfter, Bool.or_eq_true, decide_eq_true_eq]
  exact UInt32.le_total first.time second.time

/-- An event that is not after the others stays in front. -/
theorem inTickOrder_cons {first : Event} {rest : List Event}
    (h : ∀ event ∈ rest, notAfter first event = true) :
    inTickOrder (first :: rest) = first :: inTickOrder rest := by
  obtain ⟨before, behind, hcons, hrest, hbefore⟩ :=
    List.mergeSort_cons notAfter_trans notAfter_total first rest
  cases before with
  | nil =>
      rw [inTickOrder, inTickOrder, hcons, hrest]
      rfl
  | cons event before =>
      -- an event that sorting puts in front would have to be earlier
      have hmem : event ∈ rest := by
        have hperm := List.mergeSort_perm rest notAfter
        rw [hrest] at hperm
        exact hperm.mem_iff.mp (by simp)
      have hlate := hbefore event List.mem_cons_self
      rw [h event hmem] at hlate
      exact nomatch hlate

/-- The first event after sorting is the first one, or the one that led the others. -/
theorem inTickOrder_cons_head {first second : Event} {rest sorted : List Event}
    (h : inTickOrder rest = second :: sorted) :
    (notAfter first second = true ∧ inTickOrder (first :: rest) = first :: second :: sorted)
      ∨ ∃ others, inTickOrder (first :: rest) = second :: others := by
  obtain ⟨before, behind, hcons, hrest, -⟩ :=
    List.mergeSort_cons notAfter_trans notAfter_total first rest
  rw [inTickOrder] at h ⊢
  rw [h] at hrest
  cases before with
  | nil =>
      have hsorted := List.pairwise_mergeSort notAfter_trans notAfter_total (first :: rest)
      have hbehind : second :: sorted = behind := hrest
      rw [hcons, List.nil_append, ← hbehind] at hsorted ⊢
      exact Or.inl ⟨(List.pairwise_cons.mp hsorted).1 second List.mem_cons_self, rfl⟩
  | cons event before =>
      have hevent : second = event := (List.cons.inj hrest).1
      exact Or.inr ⟨before ++ first :: behind, by rw [hcons, hevent]; rfl⟩

/-! ## Notes made in turn -/

/-- Notes of a key in the order they are made: each ends no earlier than it starts, and
starts no later than those after it. -/
inductive InTurn : List Event → Prop where
  | nil : InTurn []
  | note {on off : Event} {rest : List Event} :
      on.isOn = true → off.isOff = true → notAfter on off = true →
      (∀ event ∈ rest, notAfter on event = true) → InTurn rest →
      InTurn (on :: off :: rest)

theorem InTurn.alternates {events : List Event} (h : InTurn events) :
    alternates events = true := by
  induction h with
  | nil => rfl
  | note hon hoff _ _ _ ih => simp [Midi.alternates, hon, hoff, ih]

/-- **Sorting spoils what it moves**: notes made in turn alternate in the order of ticks
exactly if they are in that order already. -/
theorem alternates_inTickOrder {events : List Event} (h : InTurn events) :
    alternates (inTickOrder events) = true
      ↔ events.Pairwise fun first second => notAfter first second = true := by
  constructor
  · intro halternates
    induction h with
    | nil => exact List.Pairwise.nil
    | @note on off rest hon hoff hle hrest hturn ih =>
        have hon_le : ∀ event ∈ off :: rest, notAfter on event = true := by
          intro event hmem
          rcases List.mem_cons.mp hmem with heq | hmem
          · rw [heq]; exact hle
          · exact hrest event hmem
        rw [inTickOrder_cons hon_le] at halternates
        cases hturn with
        | nil => simp [hle]
        | @note on' off' rest' hon' hoff' hle' hrest' hturn' =>
            have hhead : inTickOrder (on' :: off' :: rest')
                = on' :: inTickOrder (off' :: rest') := by
              refine inTickOrder_cons ?_
              intro event hmem
              rcases List.mem_cons.mp hmem with heq | hmem
              · rw [heq]; exact hle'
              · exact hrest' event hmem
            rcases inTickOrder_cons_head hhead with ⟨hoff_le, hsorted⟩ | ⟨others, hsorted⟩
            · -- the first note ends in time, so the others have to alternate alone
              rw [hsorted, ← hhead] at halternates
              have hothers : alternates (inTickOrder (on' :: off' :: rest')) = true := by
                simpa [Midi.alternates, hon, hoff] using halternates
              have hpairwise := ih hothers
              refine List.pairwise_cons.mpr ⟨hon_le, List.pairwise_cons.mpr ⟨?_, hpairwise⟩⟩
              intro event hmem
              rcases List.mem_cons.mp hmem with heq | hmem
              · rw [heq]; exact hoff_le
              · exact notAfter_trans _ _ _ hoff_le ((List.pairwise_cons.mp hpairwise).1 event hmem)
            · -- otherwise two notes start before one ends
              rw [hsorted] at halternates
              have hends : on'.isOff = true := by
                simp only [Midi.alternates, Bool.and_eq_true] at halternates
                exact halternates.1.2
              rw [Event.isOn_eq_false_of_isOff hends] at hon'
              exact nomatch hon'
  · intro hsorted
    rw [inTickOrder, List.mergeSort_of_pairwise hsorted]
    exact h.alternates

end ConsoleSound.Midi

import ConsoleSound.Proofs.Midi.Notes
import ConsoleSound.Proofs.Midi.RoundTrip
/-! # Notes in balance

A player counts the notes that sound: one more where something starts, one less where
something ends, and never an end when nothing sounds (`sounding?`). It stops at zero exactly
if as many end as start and never more before (`InBalance`, `sounding?_zero_iff`).

Notes that are made in pairs stay in balance when they are put in output order
(`sounding?_mergeSort`): sorting from the back, a note-on and its note-off are inserted into
what is sorted already, the note-on in front of the note-off (`mergeSort_note`), and between
the two there is one more note that sounds (`sounding?_insert`). What has to agree is only
how the two are counted. -/

namespace ConsoleSound.Midi

section Counting

variable {α β : Type} (starts ends : α → Bool)

/-- How many sound after some items, if nothing ends when none does. -/
def sounding? : (count : Nat) → List α → Option Nat
  | count, [] => some count
  | count, item :: items =>
    if starts item then sounding? (count + 1) items
    else if ends item then
      if count = 0 then none else sounding? (count - 1) items
    else sounding? count items

/-- Whether as many items end as start, and never more before. -/
def InBalance (items : List α) : Prop :=
  items.countP ends = items.countP starts
    ∧ ∀ before, before <+: items → before.countP ends ≤ before.countP starts

variable {starts ends}

theorem sounding?_cons_start {item : α} (hstart : starts item = true) (count : Nat)
    (items : List α) :
    sounding? starts ends count (item :: items) = sounding? starts ends (count + 1) items := by
  rw [sounding?, if_pos hstart]

theorem sounding?_cons_end {item : α} (hstart : starts item = false) (hend : ends item = true)
    (count : Nat) (items : List α) :
    sounding? starts ends (count + 1) (item :: items) = sounding? starts ends count items := by
  rw [sounding?, hstart, if_neg Bool.false_ne_true, if_pos hend, if_neg (Nat.succ_ne_zero count),
    Nat.add_sub_cancel]

theorem sounding?_cons_end_zero {item : α} (hstart : starts item = false)
    (hend : ends item = true) (items : List α) :
    sounding? starts ends 0 (item :: items) = none := by
  rw [sounding?, hstart, if_neg Bool.false_ne_true, if_pos hend, if_pos rfl]

theorem sounding?_cons_other {item : α} (hstart : starts item = false) (hend : ends item = false)
    (count : Nat) (items : List α) :
    sounding? starts ends count (item :: items) = sounding? starts ends count items := by
  rw [sounding?, hstart, hend, if_neg Bool.false_ne_true, if_neg Bool.false_ne_true]

/-! ## What is counted -/

/-- A property of the front parts of a list, from its first item on. -/
theorem forall_prefix_cons_iff {property : List α → Prop} {item : α} {items : List α} :
    (∀ before, before <+: item :: items → property before)
      ↔ property [] ∧ ∀ before, before <+: items → property (item :: before) := by
  constructor
  · intro h
    exact ⟨h [] List.nil_prefix, fun before hbefore =>
      h _ (List.cons_prefix_cons.mpr ⟨rfl, hbefore⟩)⟩
  · rintro ⟨hnil, hcons⟩ before hbefore
    rcases List.prefix_cons_iff.mp hbefore with rfl | ⟨rest, rfl, hrest⟩
    · exact hnil
    · exact hcons rest hrest

/-- What a player counts, told by the numbers of starts and ends. -/
theorem sounding?_eq_some_iff (hstarts : ∀ item, starts item = true → ends item = false)
    {count rest : Nat} {items : List α} :
    sounding? starts ends count items = some rest
      ↔ items.countP ends + rest = items.countP starts + count
        ∧ ∀ before, before <+: items → before.countP ends ≤ before.countP starts + count := by
  induction items generalizing count with
  | nil => simp [sounding?, eq_comm]
  | cons item items ih =>
      rw [forall_prefix_cons_iff]
      simp only [List.countP_cons, List.countP_nil, Nat.zero_le, true_and]
      cases hstart : starts item with
      | true =>
          rw [sounding?_cons_start hstart, ih, hstarts item hstart]
          simp only [Bool.false_eq_true, if_false, if_true, Nat.add_zero, Nat.add_assoc,
            Nat.add_comm 1 count]
      | false =>
          cases hend : ends item with
          | false =>
              rw [sounding?_cons_other hstart hend, ih]
              simp only [Bool.false_eq_true, if_false, Nat.add_zero]
          | true =>
              cases count with
              | zero =>
                  rw [sounding?_cons_end_zero hstart hend]
                  refine iff_of_false nofun ?_
                  rintro ⟨-, hbefore⟩
                  exact absurd (hbefore [] List.nil_prefix) (by simp)
              | succ count =>
                  rw [sounding?_cons_end hstart hend, ih]
                  simp only [Bool.false_eq_true, if_false, if_true]
                  exact and_congr (by omega) (forall₂_congr fun before _ => by omega)

/-- A player comes out at zero exactly if what it counts is in balance. -/
theorem sounding?_zero_iff (hstarts : ∀ item, starts item = true → ends item = false)
    {items : List α} :
    sounding? starts ends 0 items = some 0 ↔ InBalance starts ends items :=
  sounding?_eq_some_iff hstarts

/-- Items that neither start nor end anything are not counted. -/
theorem sounding?_others {items : List α}
    (h : ∀ item ∈ items, starts item = false ∧ ends item = false) (count : Nat) :
    sounding? starts ends count items = some count := by
  induction items with
  | nil => rfl
  | cons item items ih =>
      obtain ⟨⟨hstart, hend⟩, hitems⟩ := List.forall_mem_cons.mp h
      rw [sounding?_cons_other hstart hend, ih hitems]

/-- Items that are made of others are counted as these are. -/
theorem sounding?_filterMap {starts ends : β → Bool} (make : α → Option β) (count : Nat)
    (items : List α) :
    sounding? starts ends count (items.filterMap make)
      = sounding? (fun item => (make item).any starts) (fun item => (make item).any ends) count
          items := by
  induction items generalizing count with
  | nil => rfl
  | cons item items ih =>
      rw [List.filterMap_cons, sounding?]
      cases make item with
      | none => simp [ih]
      | some made => simp [sounding?, ih]

/-! ## What is inserted -/

theorem sounding?_append (count : Nat) (front behind : List α) :
    sounding? starts ends count (front ++ behind)
      = (sounding? starts ends count front).bind fun rest =>
          sounding? starts ends rest behind := by
  induction front generalizing count with
  | nil => rfl
  | cons item front ih =>
      rw [List.cons_append, sounding?, sounding?]
      split
      · exact ih _
      · split
        · split
          · rfl
          · exact ih _
        · exact ih _

/-- One note more that sounds before is one more after. -/
theorem sounding?_succ {count rest : Nat} {items : List α}
    (h : sounding? starts ends count items = some rest) :
    sounding? starts ends (count + 1) items = some (rest + 1) := by
  induction items generalizing count with
  | nil => rw [sounding?, Option.some.inj h]
  | cons item items ih =>
      cases hstart : starts item with
      | true =>
          rw [sounding?_cons_start hstart] at h ⊢
          exact ih h
      | false =>
          cases hend : ends item with
          | false =>
              rw [sounding?_cons_other hstart hend] at h ⊢
              exact ih h
          | true =>
              cases count with
              | zero =>
                  rw [sounding?_cons_end_zero hstart hend] at h
                  exact nomatch h
              | succ count =>
                  rw [sounding?_cons_end hstart hend] at h ⊢
                  exact ih h

/-- An item that is not counted may stand anywhere. -/
theorem sounding?_insertOther {item : α} (hstart : starts item = false)
    (hend : ends item = false) (count : Nat) (front behind : List α) :
    sounding? starts ends count (front ++ item :: behind)
      = sounding? starts ends count (front ++ behind) := by
  rw [sounding?_append, sounding?_append]
  exact congrArg _ (funext fun rest => sounding?_cons_other hstart hend rest behind)

/-- Two items that are counted against each other may be inserted, the one that starts in front. -/
theorem sounding?_insert {on off : α} (hsame : starts on = ends off) (hon : ends on = false)
    (hoff : starts off = false) {count rest : Nat} {front between behind : List α}
    (h : sounding? starts ends count (front ++ (between ++ behind)) = some rest) :
    sounding? starts ends count (front ++ on :: (between ++ off :: behind)) = some rest := by
  cases hstart : starts on with
  | false =>
      rw [sounding?_insertOther hstart hon, ← List.append_assoc,
        sounding?_insertOther hoff (hsame ▸ hstart), List.append_assoc]
      exact h
  | true =>
      rw [sounding?_append] at h ⊢
      obtain ⟨before, hfront, h⟩ := Option.bind_eq_some_iff.mp h
      rw [sounding?_append] at h
      obtain ⟨middle, hbetween, h⟩ := Option.bind_eq_some_iff.mp h
      -- between the two one more sounds
      rw [hfront, Option.bind_some, sounding?_cons_start hstart, sounding?_append,
        sounding?_succ hbetween, Option.bind_some,
        sounding?_cons_end hoff (hsame ▸ hstart)]
      exact h

end Counting

/-! ## Output order -/

theorem inOrder_trans (first second third : Event) (h : File.inOrder first second = true)
    (h' : File.inOrder second third = true) : File.inOrder first third = true := by
  rw [inOrder_iff] at h h' ⊢
  omega

theorem inOrder_total (first second : Event) :
    (File.inOrder first second || File.inOrder second first) = true := by
  rw [Bool.or_eq_true, inOrder_iff, inOrder_iff]
  omega

/-- Two events in order that are put in front of others are inserted in order. -/
theorem mergeSort_note {on off : Event} (h : File.inOrder on off = true) (rest : List Event) :
    ∃ front between behind,
      (on :: off :: rest).mergeSort File.inOrder = front ++ on :: (between ++ off :: behind)
        ∧ rest.mergeSort File.inOrder = front ++ (between ++ behind) := by
  obtain ⟨offFront, offBehind, hoff, hrest, -⟩ :=
    List.mergeSort_cons inOrder_trans inOrder_total off rest
  obtain ⟨front, onBehind, hon, hsplit, hfront⟩ :=
    List.mergeSort_cons inOrder_trans inOrder_total on (off :: rest)
  rw [hoff] at hsplit
  rcases List.append_eq_append_iff.mp hsplit with ⟨more, hmore, hoffs⟩ | ⟨between, hbetween, hons⟩
  · -- the first one is not behind the second one
    cases more with
    | nil =>
        rw [List.append_nil] at hmore
        rw [List.nil_append] at hoffs
        exact ⟨offFront, [], offBehind, by rw [hon, hmore, ← hoffs]; rfl, hrest⟩
    | cons first more =>
        obtain rfl : off = first := (List.cons.inj hoffs).1
        have hbefore := hfront off (by rw [hmore]; simp)
        rw [h] at hbefore
        exact nomatch hbefore
  · exact ⟨front, between, offBehind, by rw [hon, hons],
      by rw [hrest, hbetween, List.append_assoc]⟩

/-! ## Paired events -/

/-- The notes among events that are paired: each note-on with what stands behind it. -/
def notePairs : List Event → List (Event × Event)
  | on :: off :: rest => if on.isOn then (on, off) :: notePairs rest else notePairs (off :: rest)
  | _ => []

theorem notePairs_message {event : Event} (h : event.isOn = false) (rest : List Event) :
    notePairs (event :: rest) = notePairs rest := by
  cases rest with
  | nil => rfl
  | cons next rest => rw [notePairs, h, if_neg Bool.false_ne_true]

theorem notePairs_note {on : Event} (h : on.isOn = true) (off : Event) (rest : List Event) :
    notePairs (on :: off :: rest) = (on, off) :: notePairs rest := by
  rw [notePairs, if_pos h]

/-- What is about no key starts no note. -/
theorem Event.isOn_eq_false_of_message {event : Event} (h : event.kind.key? = none) :
    event.isOn = false := by
  cases hkind : event.kind with
  | noteOn key velocity => rw [hkind] at h; exact nomatch h
  | _ => rw [isOn, hkind]

/-- The two events of a note that is made in a pair. -/
theorem Paired.notePairs {tick : UInt32} {events : List Event} (h : Paired tick events) :
    ∀ note ∈ notePairs events, note.1 ∈ events ∧ note.2 ∈ events ∧ ∃ key velocity,
      note.1.kind = .noteOn key velocity ∧ note.2.kind = .noteOff key
        ∧ note.2.channel = note.1.channel := by
  induction h with
  | nil => exact fun _ hmem => nomatch hmem
  | @message tick event rest hkind _ _ ih =>
      rw [notePairs_message (Event.isOn_eq_false_of_message hkind)]
      intro note hmem
      obtain ⟨hon, hoff, hnote⟩ := ih note hmem
      exact ⟨List.mem_cons_of_mem _ hon, List.mem_cons_of_mem _ hoff, hnote⟩
  | @note tick on off rest key velocity hon hoff hchannel _ _ _ ih =>
      rw [notePairs_note (Event.isOn_of_kind hon)]
      intro note hmem
      rcases List.mem_cons.mp hmem with rfl | hmem
      · exact ⟨by simp, by simp, key, velocity, hon, hoff, hchannel⟩
      · obtain ⟨hfirst, hsecond, hnote⟩ := ih note hmem
        exact ⟨by simp [hfirst], by simp [hsecond], hnote⟩

/-- Whether an event is counted as what it is: only a note-on may start, and only a note-off
may end. -/
structure Counted (starts ends : Event → Bool) (event : Event) : Prop where
  notOn : event.isOn = false → starts event = false
  notOff : event.isOff = false → ends event = false

/-- A message is not counted. -/
theorem Counted.message {starts ends : Event → Bool} {event : Event}
    (h : Counted starts ends event) (hkey : event.kind.key? = none) :
    starts event = false ∧ ends event = false :=
  ⟨h.notOn (Event.isOn_eq_false_of_message hkey), h.notOff (Event.isOff_eq_false_of_message hkey)⟩

/-- **Paired notes stay in balance in output order.** Events of which a player counts each
note-on against its own note-off leave nothing that sounds, whatever messages are merged in. -/
theorem sounding?_mergeSort {starts ends : Event → Bool} {tick : UInt32}
    {own shared : List Event} (h : Paired tick own)
    (hcounted : ∀ event ∈ own ++ shared, Counted starts ends event)
    (hrank : ∀ event ∈ own, event.kind.key? ≠ none → event.priority = .lower)
    (hshared : ∀ event ∈ shared, event.kind.key? = none)
    (hsame : ∀ note ∈ notePairs own, starts note.1 = ends note.2) :
    sounding? starts ends 0 ((own ++ shared).mergeSort File.inOrder) = some 0 := by
  induction h with
  | nil =>
      refine sounding?_others ?_ 0
      intro event hmem
      have hmem : event ∈ shared := List.mem_mergeSort.mp hmem
      exact (hcounted event hmem).message (hshared event hmem)
  | @message tick event rest hkind _ _ ih =>
      obtain ⟨hevent, hcounted⟩ := List.forall_mem_cons.mp hcounted
      obtain ⟨hstart, hend⟩ := hevent.message hkind
      rw [notePairs_message (Event.isOn_eq_false_of_message hkind)] at hsame
      obtain ⟨front, behind, hsorted, hrest, -⟩ :=
        List.mergeSort_cons inOrder_trans inOrder_total event (rest ++ shared)
      rw [List.cons_append, hsorted, sounding?_insertOther hstart hend, ← hrest]
      exact ih hcounted (List.forall_mem_cons.mp hrank).2 hsame
  | @note tick on off rest key velocity hon hoff _ _ hends _ ih =>
      obtain ⟨hcountedOn, hcounted⟩ := List.forall_mem_cons.mp hcounted
      obtain ⟨hcountedOff, hcounted⟩ := List.forall_mem_cons.mp hcounted
      obtain ⟨hrankOn, hrank⟩ := List.forall_mem_cons.mp hrank
      obtain ⟨hrankOff, hrank⟩ := List.forall_mem_cons.mp hrank
      rw [notePairs_note (Event.isOn_of_kind hon)] at hsame
      obtain ⟨hsameNote, hsame⟩ := List.forall_mem_cons.mp hsame
      -- notes rank alike, so the note-on comes first even if both are at one tick
      have horder : File.inOrder on off = true := by
        rw [inOrder_iff, hrankOn (by rw [hon]; nofun), hrankOff (by rw [hoff]; nofun)]
        have hle := UInt32.le_iff_toNat_le.mp hends
        omega
      obtain ⟨front, between, behind, hsorted, hrest⟩ := mergeSort_note horder (rest ++ shared)
      rw [List.cons_append, List.cons_append, hsorted]
      refine sounding?_insert hsameNote (hcountedOn.notOff (Event.isOff_eq_false_of_on hon))
        (hcountedOff.notOn (Event.isOn_eq_false_of_isOff (Event.isOff_of_kind hoff))) ?_
      rw [← hrest]
      exact ih hcounted hrank hsame

end ConsoleSound.Midi

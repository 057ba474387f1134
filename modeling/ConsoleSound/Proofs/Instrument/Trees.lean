import Mathlib.Logic.Relation
import ConsoleSound.Proofs.Instrument.Layout
/-! # The trees that are read

Reading accepts exactly the trees that the buffer lays out with at most eight levels below
the root (`read_accepts_layouts`). A layout is finite, so no reference that leads back to
itself has one (`not_laidOut_of_cycle`), and it tells of a field only which number the view
stores there, so a view that stores the same numbers in the other order lays out the same
tree (`LaidOut.transfer`). -/

namespace ConsoleSound

open Checked Relation

namespace Region

/-! ## Cycles -/

/-- Where the references to the children of a tree stand. -/
inductive Entry (view : View) (base : Nat) (reference : Reference) : (pos : Nat) → Prop where
  | ranges {pos start index : Nat} {count : UInt8} :
      reference.LeadsTo base pos → reference.tag = rangesTag → view.Holds pos [count] →
      NextAligned (1 + count.toNat) start → index < count.toNat →
      Entry view base reference (pos + start + index * Reference.size)
  | indexed {pos index : Nat} {min max : UInt8} :
      reference.LeadsTo base pos → reference.tag = indexedTag → view.Holds pos [min, max] →
      index < max.toNat - min.toNat →
      Entry view base reference (pos + 4 + index * Reference.size)

/-- Whether the record behind a reference holds another reference. -/
def Child (view : View) (base : Nat) (parent child : Reference) : Prop :=
  ∃ entry, Entry view base parent entry ∧ view.HoldsReference entry child

variable {view : View} {base : Nat} {reference : Reference} {region : Region}

/-- Each reference in the record of a tree that is laid out lays out a child. -/
theorem LaidOut.exists_subtree (h : LaidOut view base reference region) {child : Reference}
    (hchild : Child view base reference child) :
    ∃ subtree ∈ region.subtrees, LaidOut view base child subtree := by
  -- a child that is one of the references in a row, of which there is one for each subtree
  have hrow {pos index count : Nat} {children : List Region} (hlength : children.length = count)
      (hlaid : LaysOut view base pos children) (hindex : index < count)
      (hchild : view.HoldsReference (pos + index * Reference.size) child) :
      ∃ subtree ∈ children, LaidOut view base child subtree := by
    obtain ⟨references, hreferences, hholds, hlaid⟩ := hlaid
    obtain ⟨found, hfound⟩ : ∃ found, references[index]? = some found :=
      ⟨_, List.getElem?_eq_getElem (by omega)⟩
    obtain ⟨subtree, hsubtree⟩ : ∃ subtree, children[index]? = some subtree :=
      ⟨_, List.getElem?_eq_getElem (by omega)⟩
    obtain rfl := (hholds index found hfound).unique hchild
    exact ⟨subtree, List.mem_of_getElem? hsubtree, hlaid index found subtree hfound hsubtree⟩
  obtain ⟨entry, hentry, hchild⟩ := hchild
  cases hentry with
  | ranges hpos htag hcount hstart hindex =>
      obtain ⟨count, children, hbounds, hlength, hlaid, rfl⟩ :=
        (laidOut_iff_of_ranges hpos htag).mp h
      obtain rfl := nextAligned_iff.mp hstart
      obtain ⟨rfl⟩ := (View.holds_cons.mp hbounds).1.unique hcount rfl
      exact hrow ((List.length_map _).trans hlength) hlaid hindex hchild
  | indexed hpos htag hkeys hindex =>
      obtain ⟨min, max, children, hkeys', hlength, hlaid, rfl⟩ :=
        (laidOut_iff_of_indexed hpos htag).mp h
      obtain ⟨rfl⟩ := hkeys'.unique hkeys rfl
      exact hrow hlength hlaid hindex hchild

/-- From a tree that is laid out no path leads on without end. -/
theorem acc_child_of_laidOut {levels : Nat} (hlevels : region.NestsWithin levels)
    (h : LaidOut view base reference region) :
    Acc (fun child parent => Child view base parent child) reference := by
  induction levels generalizing reference region with
  | zero =>
      refine .intro _ ?_
      intro child hchild
      obtain ⟨subtree, hmem, -⟩ := h.exists_subtree hchild
      rw [show region.subtrees = [] from hlevels] at hmem
      exact nomatch hmem
  | succ levels ih =>
      refine .intro _ ?_
      intro child hchild
      obtain ⟨subtree, hmem, hsubtree⟩ := h.exists_subtree hchild
      exact ih (hlevels subtree hmem) hsubtree

/-- A reference from which another one is reached that leads back to itself lays out no tree
of bounded depth. -/
theorem not_laidOut_of_cycle {levels : Nat} {reached : Reference}
    (hreached : ReflTransGen (Child view base) reference reached)
    (hcycle : TransGen (Child view base) reached reached) (hlevels : region.NestsWithin levels) :
    ¬ LaidOut view base reference region := by
  intro h
  have hacc := acc_child_of_laidOut hlevels h
  have hreach : Acc (fun child parent => Child view base parent child) reached := by
    clear hcycle
    induction hreached with
    | refl => exact hacc
    | tail _ hchild ih => exact ih.inv hchild
  clear hreached
  induction hreach with
  | intro reached _ ih =>
      obtain ⟨next, hchild, hback⟩ := TransGen.head'_iff.mp hcycle
      exact ih next hchild (TransGen.tail' hback hchild)

/-! ## Both byte orders -/

/-- The fields of the record behind a reference and of the references in it, each with its
position and its width. -/
inductive Field (view : View) (base : Nat) (reference : Reference) : (pos width : Nat) → Prop where
  | wave {pos : Nat} :
      reference.LeadsTo base pos → reference.tag = leafTag → Field view base reference pos 4
  | setting {pos index : Nat} :
      reference.LeadsTo base pos → reference.tag = leafTag → index < 12 →
      Field view base reference (pos + 4 + index) 1
  | pitch {pos : Nat} :
      reference.LeadsTo base pos → reference.tag = leafTag →
      Field view base reference (pos + 16) 4
  | count {pos : Nat} :
      reference.LeadsTo base pos → reference.tag = rangesTag → Field view base reference pos 1
  | bound {pos index : Nat} {count : UInt8} :
      reference.LeadsTo base pos → reference.tag = rangesTag → view.Holds pos [count] →
      index < count.toNat → Field view base reference (pos + 1 + index) 1
  | key {pos index : Nat} :
      reference.LeadsTo base pos → reference.tag = indexedTag → index < 2 →
      Field view base reference (pos + index) 1
  | kind {entry : Nat} : Entry view base reference entry → Field view base reference entry 1
  | tag {entry : Nat} : Entry view base reference entry → Field view base reference (entry + 1) 1
  | distance {entry : Nat} :
      Entry view base reference entry → Field view base reference (entry + 4) 4

/-- Whether another view stores the same number in every field of the records that are
reached from a reference. -/
def SameFields (view other : View) (base : Nat) (reference : Reference) : Prop :=
  ∀ reached, ReflTransGen (Child view base) reference reached →
    ∀ pos width, Field view base reached pos width →
      other.number pos width = view.number pos width

variable {other : View}

theorem SameFields.child (h : SameFields view other base reference) {child : Reference}
    (hchild : Child view base reference child) : SameFields view other base child :=
  fun reached hreached => h reached (.head hchild hreached)

theorem SameFields.of_field (h : SameFields view other base reference) {pos width : Nat}
    (hfield : Field view base reference pos width) :
    other.number pos width = view.number pos width :=
  h reference .refl pos width hfield

theorem HoldsReferences.transfer {pos : Nat} {references : List Reference}
    (h : HoldsReferences view pos references) (hsame : SameFields view other base reference)
    (hentry : ∀ index < references.length,
      Entry view base reference (pos + index * Reference.size)) :
    HoldsReferences other pos references := by
  intro index found hfound
  obtain ⟨hindex, -⟩ := List.getElem?_eq_some_iff.mp hfound
  have hentry := hentry index hindex
  obtain ⟨hkind, htag, hdistance⟩ := View.holdsReference_iff.mp (h index found hfound)
  exact View.holdsReference_iff.mpr ⟨hkind.of_byte_eq (hsame.of_field (.kind hentry)),
    htag.of_byte_eq (hsame.of_field (.tag hentry)),
    hdistance.of_number_eq found.distance.toNat_lt (hsame.of_field (.distance hentry))⟩

/-- A view that stores the same numbers lays out the same tree. -/
theorem LaidOut.transfer (h : LaidOut view base reference region)
    (hsame : SameFields view other base reference) : LaidOut other base reference region := by
  induction h with
  | nowhere hnowhere => exact .nowhere hnowhere
  | other htag => exact .other htag
  | @leaf reference pos params hpos htag hparams =>
      refine .leaf hpos htag ?_
      rw [InstrumentParams.stored, View.holds_append, View.holds_append] at hparams ⊢
      obtain ⟨⟨hwave, hsettings⟩, hpitch⟩ := hparams
      refine ⟨⟨?_, ?_⟩, ?_⟩
      · exact hwave.of_number_eq params.waveIndex.toUInt32.toNat_lt
          (hsame.of_field (.wave hpos htag))
      · rw [ByteOrder.spell_length] at hsettings ⊢
        exact hsettings.of_bytes_eq fun index hindex =>
          hsame.of_field (.setting hpos htag (Nat.lt_succ_of_le hindex))
      · rw [List.length_append, ByteOrder.spell_length] at hpitch ⊢
        exact hpitch.of_number_eq params.pitch.toNat_lt (hsame.of_field (.pitch hpos htag))
  | @ranges reference pos start count references children hpos htag hbounds hcount hstart
      hreferences hlength _ ih =>
      have hfirst := (View.holds_cons.mp hbounds).1
      have hentry (index : Nat) (hindex : index < references.length) :
          Entry view base reference (pos + start + index * Reference.size) :=
        .ranges hpos htag hfirst hstart (by omega)
      refine .ranges hpos htag ?_ hcount hstart (hreferences.transfer hsame hentry) hlength ?_
      · refine hbounds.of_bytes_eq ?_
        rintro (_ | index) hindex
        · exact hsame.of_field (.count hpos htag)
        · rw [List.length_map, hcount] at hindex
          rw [Nat.add_comm index, ← Nat.add_assoc]
          exact hsame.of_field (.bound hpos htag hfirst hindex)
      · intro index child entry hchild hmem
        obtain ⟨hindex, -⟩ := List.getElem?_eq_some_iff.mp hchild
        exact ih index child entry hchild hmem
          (hsame.child ⟨_, hentry index hindex, hreferences index child hchild⟩)
  | @indexed reference pos min max references children hpos htag hkeys hcount hreferences
      hlength _ ih =>
      have hentry (index : Nat) (hindex : index < references.length) :
          Entry view base reference (pos + 4 + index * Reference.size) :=
        .indexed hpos htag hkeys (by omega)
      refine .indexed hpos htag ?_ hcount (hreferences.transfer hsame hentry) hlength ?_
      · exact hkeys.of_bytes_eq fun index hindex =>
          hsame.of_field (.key hpos htag (Nat.lt_succ_of_le hindex))
      · intro index child subtree hchild hmem
        obtain ⟨hindex, -⟩ := List.getElem?_eq_some_iff.mp hchild
        exact ih index child subtree hchild hmem
          (hsame.child ⟨_, hentry index hindex, hreferences index child hchild⟩)

/-! ## What reading accepts -/

/-- Reading accepts exactly the trees that the buffer lays out with at most eight levels
below the root, and reports a malformed container otherwise. So it does where references run
in a circle; every index region that is read has a child for each of its keys, and the tree
does not depend on the order that its numbers are stored in. -/
theorem read_accepts_layouts (view : View) (reference : Reference) (base : Nat) :
    (∀ region, read view reference base = .ok region
      ↔ region.NestsWithin 8 ∧ LaidOut view base reference region)
    ∧ ((∃ region, read view reference base = .ok region)
      ∨ ∃ position fault, read view reference base = .error (.malformed position fault))
    ∧ (∀ reached, ReflTransGen (Child view base) reference reached →
      TransGen (Child view base) reached reached →
      ∃ position fault, read view reference base = .error (.malformed position fault))
    ∧ (∀ region, read view reference base = .ok region → region.Filled)
    ∧ ∀ other region, SameFields view other base reference →
      read view reference base = .ok region → read other reference base = .ok region := by
  have haccepts (view : View) (region : Region) : read view reference base = .ok region
      ↔ region.NestsWithin 8 ∧ LaidOut view base reference region := readWithin_eq_ok_iff
  have hends : (∃ region, read view reference base = .ok region)
      ∨ ∃ position fault, read view reference base = .error (.malformed position fault) := by
    cases hread : read view reference base with
    | ok region => exact .inl ⟨region, rfl⟩
    | error error =>
        obtain ⟨position, fault, rfl⟩ := failsMalformed_readWithin view base _ reference error hread
        exact .inr ⟨position, fault, rfl⟩
  refine ⟨haccepts view, hends, ?_, fun region hread => filled_of_readWithin hread, ?_⟩
  · intro reached hreached hcycle
    refine hends.resolve_left ?_
    rintro ⟨region, hread⟩
    obtain ⟨hlevels, hlaid⟩ := (haccepts view region).mp hread
    exact not_laidOut_of_cycle hreached hcycle hlevels hlaid
  · intro other region hsame hread
    obtain ⟨hlevels, hlaid⟩ := (haccepts view region).mp hread
    exact (haccepts other region).mpr ⟨hlevels, hlaid.transfer hsame⟩

/-- A reference to a parameter record at the start of a file. -/
def leafReference : Reference := ⟨.offset, leafTag, 0⟩

/-- A file that holds nothing but a parameter record. -/
def leafFile (order : ByteOrder) : View :=
  ⟨(InstrumentParams.stored order { (default : InstrumentParams) with
    waveIndex := 0x01020304, originalKey := 60, pitch := 0x3f800000 }).toArray, order⟩

/-- A reference to an index region at the start of a file. -/
def loopReference : Reference := ⟨.offset, indexedTag, 0⟩

/-- An index region for one key whose child is the region itself. -/
def loopFile : View := ⟨#[60, 61, 0, 0, 1, 3, 0, 0, 0, 0, 0, 0], .big⟩

theorem read_accepts_layouts_leafFile :
    (∃ region, read (leafFile .big) leafReference 0 = .ok region ∧ region.NestsWithin 8
      ∧ LaidOut (leafFile .big) 0 leafReference region
      ∧ read (leafFile .little) leafReference 0 = .ok region)
    ∧ ∃ position fault, read loopFile loopReference 0 = .error (.malformed position fault) := by
  have hstart : leafReference.LeadsTo 0 0 := .offset (by decide)
  have hsettings : ∀ index < 12, (leafFile .little).number (0 + 4 + index) 1
      = (leafFile .big).number (0 + 4 + index) 1 := by decide
  -- a parameter record holds no references, so no other record is reached
  have hentry (pos : Nat) : ¬ Entry (leafFile .big) 0 leafReference pos := by
    rintro (⟨-, htag, -⟩ | ⟨-, htag, -⟩)
    · exact absurd htag (by decide)
    · exact absurd htag (by decide)
  have hsame : SameFields (leafFile .big) (leafFile .little) 0 leafReference := by
    intro reached hreached pos width hfield
    obtain rfl : leafReference = reached := by
      rcases ReflTransGen.cases_head hreached with heq | ⟨child, ⟨entry, h, -⟩, -⟩
      · exact heq
      · exact absurd h (hentry entry)
    cases hfield with
    | wave hpos =>
        obtain rfl := hstart.unique hpos
        rfl
    | setting hpos _ hindex =>
        obtain rfl := hstart.unique hpos
        exact hsettings _ hindex
    | pitch hpos =>
        obtain rfl := hstart.unique hpos
        rfl
    | count _ htag => exact absurd htag (by decide)
    | bound _ htag => exact absurd htag (by decide)
    | key _ htag => exact absurd htag (by decide)
    | kind h => exact absurd h (hentry _)
    | tag h => exact absurd h (hentry _)
    | distance h => exact absurd h (hentry _)
  have hloop : Child loopFile 0 loopReference loopReference := by
    have hkeys : loopFile.Holds 0 [60, 61] := ⟨[], [0, 0, 1, 3, 0, 0, 0, 0, 0, 0], rfl, rfl⟩
    refine ⟨0 + 4 + 0 * Reference.size, .indexed (.offset (by decide)) rfl hkeys (by decide), ?_⟩
    exact ⟨[0, 0], rfl, [60, 61, 0, 0], [], rfl, rfl⟩
  obtain ⟨haccepts, -, -, -, horder⟩ := read_accepts_layouts (leafFile .big) leafReference 0
  obtain ⟨-, -, hcycle, -, -⟩ := read_accepts_layouts loopFile loopReference 0
  obtain ⟨region, hread⟩ : ∃ region, read (leafFile .big) leafReference 0 = .ok region := ⟨_, rfl⟩
  obtain ⟨hlevels, hlaid⟩ := (haccepts region).mp hread
  exact ⟨⟨region, hread, hlevels, hlaid, horder _ region hsame hread⟩,
    hcycle loopReference .refl (.single hloop)⟩

end Region

end ConsoleSound

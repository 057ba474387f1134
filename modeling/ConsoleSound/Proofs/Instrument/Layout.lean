import ConsoleSound.Proofs.Container.Holding
import ConsoleSound.Proofs.Instrument.Reading
/-! # The trees that a buffer lays out

`Region.LaidOut` says what it means for the bytes of a view to lay out a tree at a
reference: which record stands where, and that the references in it lay out the children.
Nothing in it is about reading. Reading with some number of levels accepts exactly the trees
that are laid out and have no more levels (`readWithin_eq_ok_iff`).

The proof goes one level at a time: what a tag makes of the bytes behind a reference is said
once of layouts (`laidOut_iff_of_ranges`) and once of reading (`readWithin_of_ranges`), and
the two agree on the children by induction. -/

namespace ConsoleSound

open Checked

/-! ## Records -/

/-- Where a reference leads: an address counts from the start of the file, and zero leads
nowhere; a distance counts from a base and has to end at a position. -/
inductive Reference.LeadsTo (base : Nat) : Reference → Nat → Prop where
  | address {tag : UInt8} {distance : UInt32} :
      distance ≠ 0 → LeadsTo base ⟨.address, tag, distance⟩ distance.toNat
  | offset {tag : UInt8} {distance : UInt32} :
      base + distance.toNat < positionLimit →
      LeadsTo base ⟨.offset, tag, distance⟩ (base + distance.toNat)

theorem Reference.target?_eq_some_iff {base pos : Nat} {reference : Reference} :
    reference.target? base = some pos ↔ reference.LeadsTo base pos := by
  obtain ⟨kind, tag, distance⟩ := reference
  cases kind with
  | address =>
      by_cases hzero : distance.toNat = 0
      · rw [target?, if_pos hzero]
        constructor
        · intro h
          exact nomatch h
        · rintro ⟨hne⟩
          exact absurd (UInt32.toNat_inj.mp hzero) hne
      · rw [target?, if_neg hzero]
        constructor
        · intro h
          rw [← Option.some.inj h]
          exact .address fun heq => hzero (congrArg UInt32.toNat heq)
        · rintro ⟨-⟩
          rfl
  | offset =>
      by_cases hlimit : base + distance.toNat < positionLimit
      · rw [target?, if_pos hlimit]
        constructor
        · intro h
          rw [← Option.some.inj h]
          exact .offset hlimit
        · rintro ⟨-⟩
          rfl
      · rw [target?, if_neg hlimit]
        constructor
        · intro h
          exact nomatch h
        · rintro ⟨⟩
          contradiction

theorem Reference.LeadsTo.unique {base first second : Nat} {reference : Reference}
    (hfirst : reference.LeadsTo base first) (hsecond : reference.LeadsTo base second) :
    first = second :=
  Option.some.inj ((target?_eq_some_iff.mpr hfirst).symm.trans (target?_eq_some_iff.mpr hsecond))

/-- The bytes of a parameter record up to its last field. -/
def InstrumentParams.stored (order : ByteOrder) (params : InstrumentParams) : List UInt8 :=
  order.spell 4 params.waveIndex.toUInt32.toNat
    ++ [params.attack, params.decay, params.sustain, params.release, params.hold,
      params.waveLocation, params.noteOffType, params.alternateAssign, params.originalKey,
      params.volume, params.pan, params.surroundPan]
    ++ order.spell 4 params.pitch.toNat

theorem InstrumentParams.read_eq_ok_iff {view : View} {pos : Nat} {params : InstrumentParams} :
    InstrumentParams.read view pos = .ok params ↔ view.Holds pos (params.stored view.order) := by
  simp only [InstrumentParams.read, bind_eq_ok_iff, View.i32_eq_ok_iff, View.u8_eq_ok_iff,
    View.u32_eq_ok_iff, stored, View.holds_append, View.holds_cons_cons, List.length_append,
    List.length_cons, List.length_nil, ByteOrder.spell_length, Nat.add_assoc, Nat.reduceAdd]
  constructor
  · rintro ⟨_, -, waveIndex, hwave, attack, hattack, decay, hdecay, sustain, hsustain,
      release, hrelease, hold, hhold, waveLocation, hlocation, noteOffType, hoff,
      alternateAssign, hassign, originalKey, hkey, volume, hvolume, pan, hpan,
      surroundPan, hsurround, pitch, hpitch, h⟩
    obtain rfl := Except.ok.inj h
    exact ⟨⟨hwave, hattack, hdecay, hsustain, hrelease, hhold, hlocation, hoff, hassign, hkey,
      hvolume, hpan, hsurround⟩, hpitch⟩
  · rintro ⟨⟨hwave, hattack, hdecay, hsustain, hrelease, hhold, hlocation, hoff, hassign, hkey,
      hvolume, hpan, hsurround⟩, hpitch⟩
    -- the twelve bytes are checked to be there before any of them is read
    obtain ⟨hfits, -⟩ := View.holds_iff.mp hsurround
    rw [List.length_singleton] at hfits
    exact ⟨_, View.bytes_of_le (by omega), _, hwave, _, hattack, _, hdecay,
      _, hsustain, _, hrelease, _, hhold, _, hlocation, _, hoff, _, hassign, _, hkey,
      _, hvolume, _, hpan, _, hsurround, _, hpitch, rfl⟩

theorem InstrumentParams.failsMalformed_read (view : View) (pos : Nat) :
    FailsMalformed (InstrumentParams.read view pos) := by
  refine .bind (view.failsMalformed_bytes _ _) fun _ => ?_
  refine .bind (view.failsMalformed_i32 _) fun _ => ?_
  iterate 12 refine .bind (view.failsMalformed_u8 _) fun _ => ?_
  exact .bind (view.failsMalformed_u32 _) fun _ => .ok _

namespace Region

/-! ## Layouts -/

/-- The children of a region, without the keys that they cover. -/
def subtrees : Region → List Region
  | ranges children => children.map Prod.snd
  | indexed _ _ children => children
  | leaf _ | silent => []

/-- Whether a tree has at most `levels` levels of nesting below its root. -/
def NestsWithin : (levels : Nat) → Region → Prop
  | 0, region => region.subtrees = []
  | levels + 1, region => ∀ child ∈ region.subtrees, child.NestsWithin levels

/-- The first distance from `length` on that is aligned to four bytes. -/
def NextAligned (length start : Nat) : Prop := 4 ∣ start ∧ length ≤ start ∧ start < length + 4

/-- Whether references stand in a row. -/
def HoldsReferences (view : View) (pos : Nat) (references : List Reference) : Prop :=
  ∀ (index : Nat) reference, references[index]? = some reference →
    view.HoldsReference (pos + index * Reference.size) reference

/-- Whether the bytes of a view lay out a tree at a reference. The references inside it are
measured from `base`. -/
inductive LaidOut (view : View) (base : Nat) : Reference → Region → Prop where
  /-- No instrument behind a reference that leads nowhere. -/
  | nowhere {reference : Reference} :
      (∀ pos, ¬ reference.LeadsTo base pos) → LaidOut view base reference silent
  /-- No instrument behind a reference with any other tag. -/
  | other {reference : Reference} :
      reference.tag ∉ [leafTag, rangesTag, indexedTag] → LaidOut view base reference silent
  /-- A parameter record. -/
  | leaf {reference : Reference} {pos : Nat} {params : InstrumentParams} :
      reference.LeadsTo base pos → reference.tag = leafTag →
      view.Holds pos (params.stored view.order) → LaidOut view base reference (leaf params)
  /-- A count, as many bounds, and from the next aligned distance on as many references. -/
  | ranges {reference : Reference} {pos start : Nat} {count : UInt8}
      {references : List Reference} {children : List (UInt8 × Region)} :
      reference.LeadsTo base pos → reference.tag = rangesTag →
      view.Holds pos (count :: children.map Prod.fst) → children.length = count.toNat →
      NextAligned (1 + count.toNat) start →
      HoldsReferences view (pos + start) references → references.length = children.length →
      (∀ (index : Nat) reference (entry : UInt8 × Region), references[index]? = some reference →
        children[index]? = some entry → LaidOut view base reference entry.2) →
      LaidOut view base reference (ranges children)
  /-- The first key and the key behind the last, then a reference for each key. -/
  | indexed {reference : Reference} {pos : Nat} {min max : UInt8}
      {references : List Reference} {children : List Region} :
      reference.LeadsTo base pos → reference.tag = indexedTag →
      view.Holds pos [min, max] → children.length = max.toNat - min.toNat →
      HoldsReferences view (pos + 4) references → references.length = children.length →
      (∀ (index : Nat) reference child, references[index]? = some reference →
        children[index]? = some child → LaidOut view base reference child) →
      LaidOut view base reference (indexed min max children)

theorem nextAligned_iff {count start : Nat} :
    NextAligned (1 + count) start ↔ start = rangesReferences count := by
  rw [NextAligned, rangesReferences]
  omega

section Reading

variable {view : View} {base levels pos : Nat} {reference : Reference} {region : Region}

/-! ## The layout behind each tag -/

theorem laidOut_iff_of_nowhere (h : ∀ pos, ¬ reference.LeadsTo base pos) :
    LaidOut view base reference region ↔ silent = region := by
  constructor
  · intro hlaid
    cases hlaid with
    | nowhere => rfl
    | other => rfl
    | leaf hpos => exact absurd hpos (h _)
    | ranges hpos => exact absurd hpos (h _)
    | indexed hpos => exact absurd hpos (h _)
  · rintro rfl
    exact .nowhere h

theorem laidOut_iff_of_other (h : reference.tag ∉ [leafTag, rangesTag, indexedTag]) :
    LaidOut view base reference region ↔ silent = region := by
  constructor
  · intro hlaid
    cases hlaid with
    | nowhere => rfl
    | other => rfl
    | leaf _ htag => exact absurd (by rw [htag]; decide) h
    | ranges _ htag => exact absurd (by rw [htag]; decide) h
    | indexed _ htag => exact absurd (by rw [htag]; decide) h
  · rintro rfl
    exact .other h

theorem laidOut_iff_of_leaf (hpos : reference.LeadsTo base pos) (htag : reference.tag = leafTag) :
    LaidOut view base reference region
      ↔ ∃ params, view.Holds pos (params.stored view.order) ∧ leaf params = region := by
  constructor
  · intro hlaid
    cases hlaid with
    | nowhere h => exact absurd hpos (h pos)
    | other h => exact absurd (by rw [htag]; decide) h
    | leaf hpos' _ hparams =>
        obtain rfl := hpos.unique hpos'
        exact ⟨_, hparams, rfl⟩
    | ranges _ htag' => exact absurd (htag.symm.trans htag') (by decide)
    | indexed _ htag' => exact absurd (htag.symm.trans htag') (by decide)
  · rintro ⟨params, hparams, rfl⟩
    exact .leaf hpos htag hparams

/-- The references from a position on lay out some trees, one each. -/
def LaysOut (view : View) (base pos : Nat) (children : List Region) : Prop :=
  ∃ references : List Reference, references.length = children.length ∧
    HoldsReferences view pos references ∧
    ∀ (index : Nat) reference child, references[index]? = some reference →
      children[index]? = some child → LaidOut view base reference child

theorem laidOut_iff_of_ranges (hpos : reference.LeadsTo base pos)
    (htag : reference.tag = rangesTag) :
    LaidOut view base reference region
      ↔ ∃ (count : UInt8) (children : List (UInt8 × Region)),
          view.Holds pos (count :: children.map Prod.fst) ∧ children.length = count.toNat
            ∧ LaysOut view base (pos + rangesReferences count.toNat) (children.map Prod.snd)
            ∧ ranges children = region := by
  constructor
  · intro hlaid
    cases hlaid with
    | nowhere h => exact absurd hpos (h pos)
    | other h => exact absurd (by rw [htag]; decide) h
    | leaf _ htag' => exact absurd (htag.symm.trans htag') (by decide)
    | @ranges _ _ start count references children hpos' _ hbounds hcount hstart hreferences
        hlength hchildren =>
        obtain rfl := hpos.unique hpos'
        obtain rfl := nextAligned_iff.mp hstart
        refine ⟨count, children, hbounds, hcount, ⟨references, ?_, hreferences, ?_⟩, rfl⟩
        · rw [hlength, List.length_map]
        · intro index reference child hreference hchild
          rw [List.getElem?_map, Option.map_eq_some_iff] at hchild
          obtain ⟨entry, hentry, rfl⟩ := hchild
          exact hchildren index reference entry hreference hentry
    | indexed _ htag' => exact absurd (htag.symm.trans htag') (by decide)
  · rintro ⟨count, children, hbounds, hcount, ⟨references, hlength, hreferences, hchildren⟩, rfl⟩
    refine .ranges hpos htag hbounds hcount (nextAligned_iff.mpr rfl) hreferences ?_ ?_
    · rw [hlength, List.length_map]
    · intro index reference entry hreference hentry
      refine hchildren index reference entry.2 hreference ?_
      rw [List.getElem?_map, hentry]
      rfl

theorem laidOut_iff_of_indexed (hpos : reference.LeadsTo base pos)
    (htag : reference.tag = indexedTag) :
    LaidOut view base reference region
      ↔ ∃ (min max : UInt8) (children : List Region),
          view.Holds pos [min, max] ∧ children.length = max.toNat - min.toNat
            ∧ LaysOut view base (pos + 4) children ∧ indexed min max children = region := by
  constructor
  · intro hlaid
    cases hlaid with
    | nowhere h => exact absurd hpos (h pos)
    | other h => exact absurd (by rw [htag]; decide) h
    | leaf _ htag' => exact absurd (htag.symm.trans htag') (by decide)
    | ranges _ htag' => exact absurd (htag.symm.trans htag') (by decide)
    | indexed hpos' _ hkeys hcount hreferences hlength hchildren =>
        obtain rfl := hpos.unique hpos'
        exact ⟨_, _, _, hkeys, hcount, ⟨_, hlength, hreferences, hchildren⟩, rfl⟩
  · rintro ⟨min, max, children, hkeys, hcount, ⟨references, hlength, hreferences, hchildren⟩, rfl⟩
    exact .indexed hpos htag hkeys hcount hreferences hlength hchildren

/-! ## Reading one level -/

/-- The tree behind the reference stored at a position. -/
def readChild (view : View) (base levels entry : Nat) : Except Error Region := do
  readWithin view base levels (← Reference.read view entry)

theorem readWithin_of_nowhere (h : ∀ pos, ¬ reference.LeadsTo base pos) :
    readWithin view base (levels + 1) reference = .ok silent := by
  have htarget : reference.target? base = none :=
    Option.eq_none_iff_forall_ne_some.mpr fun pos hpos =>
      h pos (Reference.target?_eq_some_iff.mp hpos)
  rw [readWithin, htarget]

theorem readWithin_of_other (hpos : reference.LeadsTo base pos)
    (h : reference.tag ∉ [leafTag, rangesTag, indexedTag]) :
    readWithin view base (levels + 1) reference = .ok silent := by
  rw [List.mem_cons, List.mem_cons, List.mem_singleton, not_or, not_or] at h
  rw [readWithin, Reference.target?_eq_some_iff.mpr hpos]
  simp only [if_neg h.1, if_neg h.2.1, if_neg h.2.2]

theorem readWithin_of_leaf (hpos : reference.LeadsTo base pos) (htag : reference.tag = leafTag) :
    readWithin view base (levels + 1) reference = leaf <$> InstrumentParams.read view pos := by
  rw [readWithin, Reference.target?_eq_some_iff.mpr hpos]
  exact if_pos htag

theorem readWithin_of_ranges (hpos : reference.LeadsTo base pos)
    (htag : reference.tag = rangesTag) :
    readWithin view base (levels + 1) reference = .ok region
      ↔ ∃ (count : UInt8) (children : List (UInt8 × Region)),
          view.Holds pos (count :: children.map Prod.fst) ∧ children.length = count.toNat
            ∧ ((List.range count.toNat).mapM fun index => readChild view base levels
              (pos + rangesReferences count.toNat + index * Reference.size))
              = .ok (children.map Prod.snd)
            ∧ ranges children = region := by
  have hleaf : reference.tag ≠ leafTag := by
    rw [htag]
    decide
  have hzip (count : UInt8) {keys : List UInt8} {children : List (UInt8 × Region)} :=
    @mapM_zipIdx_eq_ok_iff Error _ _ (fun index => readChild view base levels
      (pos + rangesReferences count.toNat + index * Reference.size)) keys children
  rw [readWithin, Reference.target?_eq_some_iff.mpr hpos]
  simp only [if_neg hleaf, if_pos htag]
  constructor
  · intro h
    obtain ⟨count, hcount, h⟩ := bind_eq_ok_iff.mp h
    obtain ⟨keys, hkeys, h⟩ := bind_eq_ok_iff.mp h
    obtain ⟨children, hchildren, rfl⟩ := map_eq_ok_iff.mp h
    obtain ⟨hsize, hkeys⟩ := View.bytes_eq_ok_iff.mp hkeys
    obtain ⟨hbounds, hchildren⟩ := (hzip count).mp hchildren
    rw [Array.length_toList, hsize] at hchildren
    refine ⟨count, children, View.holds_cons.mpr ⟨View.u8_eq_ok_iff.mp hcount, ?_⟩, ?_,
      hchildren, rfl⟩
    · rw [hbounds]
      exact hkeys
    · rw [← hsize, ← Array.length_toList, ← hbounds, List.length_map]
  · rintro ⟨count, children, hbounds, hlength, hchildren, rfl⟩
    obtain ⟨hcount, hbounds⟩ := View.holds_cons.mp hbounds
    have hkeys : view.bytes (pos + 1) count.toNat = .ok (children.map Prod.fst).toArray := by
      refine View.bytes_eq_ok_iff.mpr ⟨?_, hbounds⟩
      rw [List.size_toArray, List.length_map, hlength]
    refine bind_eq_ok_iff.mpr ⟨count, View.u8_eq_ok_iff.mpr hcount,
      bind_eq_ok_iff.mpr ⟨_, hkeys, map_eq_ok_iff.mpr ⟨children, ?_, rfl⟩⟩⟩
    refine (hzip count).mpr ⟨rfl, ?_⟩
    rw [List.length_map, hlength]
    exact hchildren

theorem readWithin_of_indexed (hpos : reference.LeadsTo base pos)
    (htag : reference.tag = indexedTag) :
    readWithin view base (levels + 1) reference = .ok region
      ↔ ∃ (min max : UInt8) (children : List Region),
          view.Holds pos [min, max]
            ∧ ((List.range (max.toNat - min.toNat)).mapM fun index =>
              readChild view base levels (pos + 4 + index * Reference.size)) = .ok children
            ∧ indexed min max children = region := by
  have hleaf : reference.tag ≠ leafTag := by
    rw [htag]
    decide
  have hranges : reference.tag ≠ rangesTag := by
    rw [htag]
    decide
  have hread : readWithin view base (levels + 1) reference = (do
      let min ← view.u8 pos
      let max ← view.u8 (pos + 1)
      indexed min max <$> (List.range (max.toNat - min.toNat)).mapM fun index =>
        readChild view base levels (pos + 4 + index * Reference.size)) := by
    rw [readWithin, Reference.target?_eq_some_iff.mpr hpos]
    exact (if_neg hleaf).trans ((if_neg hranges).trans (if_pos htag))
  rw [hread]
  constructor
  · intro h
    obtain ⟨min, hmin, h⟩ := bind_eq_ok_iff.mp h
    obtain ⟨max, hmax, h⟩ := bind_eq_ok_iff.mp h
    obtain ⟨children, hchildren, rfl⟩ := map_eq_ok_iff.mp h
    exact ⟨min, max, children, View.holds_cons.mpr ⟨View.u8_eq_ok_iff.mp hmin,
      View.u8_eq_ok_iff.mp hmax⟩, hchildren, rfl⟩
  · rintro ⟨min, max, children, hkeys, hchildren, rfl⟩
    obtain ⟨hmin, hmax⟩ := View.holds_cons.mp hkeys
    exact bind_eq_ok_iff.mpr ⟨min, View.u8_eq_ok_iff.mpr hmin, bind_eq_ok_iff.mpr
      ⟨max, View.u8_eq_ok_iff.mpr hmax, map_eq_ok_iff.mpr ⟨children, hchildren, rfl⟩⟩⟩

/-! ## Reading accepts what is laid out -/

/-- If some levels accept the trees of some kind, they accept rows of children that are laid
out and all of this kind. -/
theorem mapM_readChild_eq_ok_iff {kind : Region → Prop}
    (h : ∀ reference region, readWithin view base levels reference = .ok region
      ↔ kind region ∧ LaidOut view base reference region)
    {count : Nat} {children : List Region} :
    ((List.range count).mapM fun index =>
        readChild view base levels (pos + index * Reference.size)) = .ok children
      ↔ children.length = count ∧ (∀ child ∈ children, kind child)
        ∧ LaysOut view base pos children := by
  rw [mapM_range_eq_ok_iff]
  constructor
  · rintro ⟨rfl, hchildren⟩
    have hchild : ∀ index child, children[index]? = some child → ∃ reference,
        Reference.read view (pos + index * Reference.size) = .ok reference
          ∧ kind child ∧ LaidOut view base reference child := by
      intro index child hmem
      obtain ⟨reference, hreference, hread⟩ := bind_eq_ok_iff.mp (hchildren index child hmem)
      exact ⟨reference, hreference, (h reference child).mp hread⟩
    obtain ⟨references, hreferences⟩ : ∃ references, (List.range children.length).mapM
        (fun index => Reference.read view (pos + index * Reference.size)) = .ok references := by
      rw [exists_mapM_iff]
      intro index hindex
      obtain ⟨reference, hreference, -⟩ :=
        hchild index _ (List.getElem?_eq_getElem (List.mem_range.mp hindex))
      exact ⟨reference, hreference⟩
    rw [mapM_range_eq_ok_iff] at hreferences
    refine ⟨rfl, ?_, references, hreferences.1, ?_, ?_⟩
    · intro child hmem
      obtain ⟨index, hindex⟩ := List.getElem?_of_mem hmem
      obtain ⟨-, -, hkind, -⟩ := hchild index child hindex
      exact hkind
    · intro index reference hreference
      exact View.read_reference_eq_ok_iff.mp (hreferences.2 index reference hreference)
    · intro index reference child hreference hmem
      obtain ⟨reference', hread, -, hlaid⟩ := hchild index child hmem
      obtain rfl := Except.ok.inj ((hreferences.2 index reference hreference).symm.trans hread)
      exact hlaid
  · rintro ⟨hcount, hkind, references, hlength, hreferences, hlaid⟩
    refine ⟨hcount, ?_⟩
    intro index child hchild
    obtain ⟨hindex, -⟩ := List.getElem?_eq_some_iff.mp hchild
    obtain ⟨reference, hreference⟩ : ∃ reference, references[index]? = some reference :=
      ⟨_, List.getElem?_eq_getElem (by rw [hlength]; exact hindex)⟩
    refine bind_eq_ok_iff.mpr ⟨reference, View.read_reference_eq_ok_iff.mpr
      (hreferences index reference hreference), (h reference child).mpr ⟨?_, ?_⟩⟩
    · exact hkind child (List.mem_of_getElem? hchild)
    · exact hlaid index reference child hreference hchild

/-- If some levels accept the trees of some kind, one level more accepts the trees whose
children are of this kind. -/
theorem readWithin_succ_eq_ok_iff {kind : Region → Prop}
    (h : ∀ reference region, readWithin view base levels reference = .ok region
      ↔ kind region ∧ LaidOut view base reference region) :
    readWithin view base (levels + 1) reference = .ok region
      ↔ (∀ child ∈ region.subtrees, kind child) ∧ LaidOut view base reference region := by
  have hsilent : silent = region
      ↔ (∀ child ∈ region.subtrees, kind child) ∧ silent = region := by
    constructor
    · rintro rfl
      exact ⟨fun child hchild => (nomatch hchild), rfl⟩
    · exact And.right
  by_cases hnowhere : ∀ pos, ¬ reference.LeadsTo base pos
  · rw [readWithin_of_nowhere hnowhere, laidOut_iff_of_nowhere hnowhere, Except.ok.injEq]
    exact hsilent
  rw [not_forall_not] at hnowhere
  obtain ⟨pos, hpos⟩ := hnowhere
  by_cases hleaf : reference.tag = leafTag
  · rw [readWithin_of_leaf hpos hleaf, laidOut_iff_of_leaf hpos hleaf, map_eq_ok_iff]
    simp only [InstrumentParams.read_eq_ok_iff]
    constructor
    · rintro ⟨params, hparams, rfl⟩
      exact ⟨fun child hchild => (nomatch hchild), params, hparams, rfl⟩
    · exact And.right
  by_cases hranges : reference.tag = rangesTag
  · rw [readWithin_of_ranges hpos hranges, laidOut_iff_of_ranges hpos hranges]
    simp only [mapM_readChild_eq_ok_iff h, List.length_map]
    constructor
    · rintro ⟨count, children, hbounds, hlength, ⟨-, hkind, hlaid⟩, rfl⟩
      exact ⟨hkind, count, children, hbounds, hlength, hlaid, rfl⟩
    · rintro ⟨hkind, count, children, hbounds, hlength, hlaid, rfl⟩
      exact ⟨count, children, hbounds, hlength, ⟨hlength, hkind, hlaid⟩, rfl⟩
  by_cases hindexed : reference.tag = indexedTag
  · rw [readWithin_of_indexed hpos hindexed, laidOut_iff_of_indexed hpos hindexed]
    simp only [mapM_readChild_eq_ok_iff h]
    constructor
    · rintro ⟨min, max, children, hkeys, ⟨hlength, hkind, hlaid⟩, rfl⟩
      exact ⟨hkind, min, max, children, hkeys, hlength, hlaid, rfl⟩
    · rintro ⟨hkind, min, max, children, hkeys, hlength, hlaid, rfl⟩
      exact ⟨min, max, children, hkeys, ⟨hlength, hkind, hlaid⟩, rfl⟩
  · have hother : reference.tag ∉ [leafTag, rangesTag, indexedTag] := by
      rw [List.mem_cons, List.mem_cons, List.mem_singleton, not_or, not_or]
      exact ⟨hleaf, hranges, hindexed⟩
    rw [readWithin_of_other hpos hother, laidOut_iff_of_other hother, Except.ok.injEq]
    exact hsilent

/-- Reading accepts exactly the trees that are laid out with no more levels than allowed. -/
theorem readWithin_eq_ok_iff :
    readWithin view base (levels + 1) reference = .ok region
      ↔ region.NestsWithin levels ∧ LaidOut view base reference region := by
  induction levels generalizing reference region with
  | zero =>
      have hnone (reference : Reference) (region : Region) :
          readWithin view base 0 reference = .ok region
            ↔ False ∧ LaidOut view base reference region := by
        constructor
        · intro h
          exact nomatch h
        · rintro ⟨h, -⟩
          exact h.elim
      rw [readWithin_succ_eq_ok_iff hnone, NestsWithin, List.eq_nil_iff_forall_not_mem]
  | succ levels ih => exact readWithin_succ_eq_ok_iff fun reference region => ih

/-- Every failure is that of a malformed container. -/
theorem failsMalformed_readWithin (view : View) (base levels : Nat) (reference : Reference) :
    FailsMalformed (readWithin view base levels reference) := by
  induction levels generalizing reference with
  | zero => exact .malformed _ _
  | succ levels ih =>
      have hchild (entry : Nat) : FailsMalformed (readChild view base levels entry) :=
        .bind (view.failsMalformed_reference entry) ih
      rw [readWithin]
      split
      · exact .ok _
      · next pos _ =>
          dsimp only
          split
          · exact .map (InstrumentParams.failsMalformed_read view pos) _
          · split
            · refine .bind (view.failsMalformed_u8 _) fun count => ?_
              refine .bind (view.failsMalformed_bytes _ _) fun keys => ?_
              refine .map (.mapM ?_ _) _
              rintro ⟨key, index⟩
              exact .bind (hchild _) fun child => .ok _
            · split
              · refine .bind (view.failsMalformed_u8 _) fun min => ?_
                refine .bind (view.failsMalformed_u8 _) fun max => ?_
                exact .map (.mapM (fun index => hchild _) _) _
              · exact .ok _

end Reading

end Region

end ConsoleSound

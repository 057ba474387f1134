import ConsoleSound.Instrument.Region
/-! # Looking up a note and listing the leaves

`Region.resolve` walks the tree for one note, `Region.flatten` lists the leaves with the
keys and velocities that they cover. Both go through the children of a tier: one takes
the child that covers a key, the other lists each child with its span. The child is the
first one whose span contains the key (`head?_filter_subregions`), and the only one if
the bounds of ranges increase (`length_filter_subregions_le`).

Put together over two tiers, the zones that cover a note are the leaf that the note
resolves to, if its bounds increase (`filter_covers_flatten`), and begin with that leaf
in any case (`find?_covers_flatten`). -/

namespace ConsoleSound

namespace Region

/-! ## Well-formed trees -/

/-- A tree in which every index region has a child for each of its keys. -/
inductive Filled : Region → Prop where
  | leaf (params : InstrumentParams) : Filled (leaf params)
  | ranges {children : List (UInt8 × Region)} :
      (∀ entry ∈ children, Filled entry.2) → Filled (ranges children)
  | indexed {min max : UInt8} {children : List Region} :
      children.length = max.toNat - min.toNat → (∀ child ∈ children, Filled child) →
      Filled (indexed min max children)
  | silent : Filled silent

/-- A tree in which the bounds of every range region strictly increase. -/
inductive Increasing : Region → Prop where
  | leaf (params : InstrumentParams) : Increasing (leaf params)
  | ranges {children : List (UInt8 × Region)} :
      (children.map Prod.fst).Pairwise (· < ·) → (∀ entry ∈ children, Increasing entry.2) →
      Increasing (ranges children)
  | indexed {min max : UInt8} {children : List Region} :
      (∀ child ∈ children, Increasing child) → Increasing (indexed min max children)
  | silent : Increasing silent

/-! ## The spans of a tier -/

/-- Whether the span of a child contains a key. -/
def spans (key : UInt8) (sub : UInt8 × UInt8 × Region) : Bool := sub.1 ≤ key && key ≤ sub.2.1

/-- The child that covers a key, none if the key is refused. -/
def child? (region : Region) (key : UInt8) : Option Region :=
  match region.child key with
  | .ok child? => child?
  | .error _ => none

theorem toNat_saturatingAdd (left right : UInt8) :
    (saturatingAdd left right).toNat = min 255 (left.toNat + right.toNat) := by
  rw [saturatingAdd, UInt8.toNat_ofNat']
  omega

/-- One past a bound is past no key that is over the bound. -/
theorem saturatingAdd_one_le {bound key : UInt8} (h : bound < key) :
    saturatingAdd bound 1 ≤ key := by
  rw [UInt8.lt_iff_toNat_lt] at h
  rw [UInt8.le_iff_toNat_le, toNat_saturatingAdd]
  have hkey := key.toNat_lt
  show min 255 (bound.toNat + 1) ≤ key.toNat
  omega

/-- The first range that contains a key is the one with the first bound that the key does
not exceed, whatever the order of the bounds. -/
theorem head?_filter_rangeSpans (key : UInt8) (children : List (UInt8 × Region)) {lo : UInt8}
    (hlo : lo ≤ key) :
    ((rangeSpans lo children).filter (spans key)).head?.map (fun sub => sub.2.2)
      = (children.find? fun (bound, _) => key ≤ bound).map Prod.snd := by
  induction children generalizing lo with
  | nil => rfl
  | cons entry children ih =>
      obtain ⟨hi, child⟩ := entry
      by_cases hkey : key ≤ hi
      · simp [rangeSpans, spans, hlo, hkey]
      · -- this range ends below the key, and the next one starts no later than at the key
        have hnext := saturatingAdd_one_le (UInt8.not_le.mp hkey)
        have hspans : spans key (lo, hi, child) = false := by simp [spans, hkey]
        rw [rangeSpans, List.filter_cons_of_neg (by rw [hspans]; exact Bool.false_ne_true),
          List.find?_cons_of_neg (by simpa using hkey)]
        exact ih hnext

/-- With increasing bounds no range starts below the first. -/
theorem le_of_mem_rangeSpans {children : List (UInt8 × Region)} {lo : UInt8}
    (hbounds : (children.map Prod.fst).Pairwise (· < ·))
    (hlo : ∀ bound ∈ children.map Prod.fst, lo ≤ bound) :
    ∀ sub ∈ rangeSpans lo children, lo ≤ sub.1 := by
  induction children generalizing lo with
  | nil => intro sub hmem; exact nomatch hmem
  | cons entry children ih =>
      obtain ⟨hi, child⟩ := entry
      rw [List.map_cons, List.pairwise_cons] at hbounds
      intro sub hmem
      rcases List.mem_cons.mp hmem with heq | hmem
      · rw [heq]
        exact UInt8.le_refl lo
      · have hnext := ih hbounds.2 (fun bound hbound => saturatingAdd_one_le
          (hbounds.1 bound hbound)) sub hmem
        have hlohi : lo ≤ hi := hlo hi (by simp)
        have hstep : lo ≤ saturatingAdd hi 1 := by
          rw [UInt8.le_iff_toNat_le] at hlohi ⊢
          have hhi := hi.toNat_lt
          have hone := toNat_saturatingAdd hi 1
          have htoNat : (1 : UInt8).toNat = 1 := rfl
          omega
        exact UInt8.le_trans hstep hnext

/-- With increasing bounds at most one range contains a key. -/
theorem length_filter_rangeSpans_le (key : UInt8) {children : List (UInt8 × Region)}
    (hbounds : (children.map Prod.fst).Pairwise (· < ·)) (lo : UInt8) :
    ((rangeSpans lo children).filter (spans key)).length ≤ 1 := by
  induction children generalizing lo with
  | nil => exact Nat.zero_le 1
  | cons entry children ih =>
      obtain ⟨hi, child⟩ := entry
      rw [List.map_cons, List.pairwise_cons] at hbounds
      rw [rangeSpans]
      by_cases hspans : spans key (lo, hi, child) = true
      · -- the ranges behind start over the bound of this one
        have hbehind : (rangeSpans (saturatingAdd hi 1) children).filter (spans key) = [] := by
          rw [List.filter_eq_nil_iff]
          intro sub hmem hsub
          have hstart := le_of_mem_rangeSpans hbounds.2
            (fun bound hbound => saturatingAdd_one_le (hbounds.1 bound hbound)) sub hmem
          simp only [spans, Bool.and_eq_true, decide_eq_true_eq] at hspans hsub
          have hnonempty : children ≠ [] := by
            rintro rfl
            exact nomatch hmem
          obtain ⟨⟨bound, first⟩, rest, hchildren⟩ := List.exists_cons_of_ne_nil hnonempty
          have hlt := hbounds.1 bound (by rw [hchildren]; simp)
          simp only [UInt8.le_iff_toNat_le, UInt8.lt_iff_toNat_lt, toNat_saturatingAdd]
            at hspans hsub hstart hlt
          have htoNat : (1 : UInt8).toNat = 1 := rfl
          have hbound := bound.toNat_lt
          omega
        rw [List.filter_cons_of_pos hspans, hbehind]
        exact Nat.le_refl 1
      · rw [List.filter_cons_of_neg hspans]
        exact ih hbounds.2 _

/-- The children of an index region that contain a key: the one at its place. -/
theorem filter_indexSpans (key min : UInt8) (children : List Region) (start : Nat)
    (hfit : min.toNat + start + children.length ≤ 255) :
    ((children.zipIdx start).map fun (child, index) =>
        let lo := saturatingAdd min (UInt8.ofNat index)
        (lo, lo, child)).filter (spans key)
      = if min.toNat + start ≤ key.toNat then
          (children[key.toNat - (min.toNat + start)]?.map fun child => (key, key, child)).toList
        else [] := by
  induction children generalizing start with
  | nil => simp
  | cons child children ih =>
      rw [List.length_cons] at hfit
      have hlo : (saturatingAdd min (UInt8.ofNat start)).toNat = min.toNat + start := by
        rw [toNat_saturatingAdd, UInt8.toNat_ofNat']
        omega
      have hspans : spans key (saturatingAdd min (UInt8.ofNat start),
          saturatingAdd min (UInt8.ofNat start), child) = true ↔ key.toNat = min.toNat + start := by
        simp only [spans, Bool.and_eq_true, decide_eq_true_eq, UInt8.le_iff_toNat_le, hlo]
        omega
      rw [List.zipIdx_cons, List.map_cons]
      -- the keys count up from `min + start`, so at most one of them is the key
      by_cases hkey : key.toNat = min.toNat + start
      · have hsame : saturatingAdd min (UInt8.ofNat start) = key := by
          rw [← UInt8.toNat_inj, hlo, hkey]
        rw [List.filter_cons_of_pos (hspans.mpr hkey), ih (start + 1) (by omega),
          if_neg (by omega), if_pos (by omega), hkey, Nat.sub_self, hsame]
        rfl
      · rw [List.filter_cons_of_neg (fun h => hkey (hspans.mp h)), ih (start + 1) (by omega)]
        by_cases hle : min.toNat + start ≤ key.toNat
        · rw [if_pos (by omega), if_pos hle, show key.toNat - (min.toNat + start)
            = key.toNat - (min.toNat + (start + 1)) + 1 by omega, List.getElem?_cons_succ]
        · rw [if_neg (by omega), if_neg hle]

variable {region : Region} {key velocity : UInt8}

theorem child?_indexed (min max : UInt8) (children : List Region) (key : UInt8) :
    (indexed min max children).child? key
      = if key < min ∨ max ≤ key then none else children[key.toNat - min.toNat]? := by
  by_cases hrefused : key < min ∨ max ≤ key
  · rw [child?, child, if_pos hrefused, if_pos hrefused]
  · rw [child?, child, if_neg hrefused, if_neg hrefused]

theorem filter_subregions_indexed {min max : UInt8} {children : List Region}
    (hfilled : children.length = max.toNat - min.toNat) (key : UInt8) :
    (indexed min max children).subregions.filter (spans key)
      = (((indexed min max children).child? key).map fun child => (key, key, child)).toList := by
  have hmax := max.toNat_lt
  have hmin := min.toNat_lt
  have hspans := filter_indexSpans key min children 0 (by omega)
  rw [Nat.add_zero] at hspans
  refine hspans.trans ?_
  rw [child?_indexed]
  by_cases hrefused : key < min ∨ max ≤ key
  · -- a refused key is before the first child or after the last one
    rw [if_pos hrefused]
    rw [UInt8.lt_iff_toNat_lt, UInt8.le_iff_toNat_le] at hrefused
    split
    · rw [List.getElem?_eq_none (by omega)]
    · rfl
  · rw [if_neg hrefused]
    rw [UInt8.lt_iff_toNat_lt, UInt8.le_iff_toNat_le] at hrefused
    rw [if_pos (by omega)]

/-- The child that covers a key is the first one whose span contains it. -/
theorem head?_filter_subregions (hfilled : region.Filled) (hkey : key ≤ 127) :
    (region.subregions.filter (spans key)).head?.map (fun sub => sub.2.2)
      = region.child? key := by
  cases hfilled with
  | leaf params =>
      have hspans : spans key (0, 0x7f, leaf params) = true := by simp [spans, hkey]
      rw [subregions, List.filter_cons_of_pos hspans]
      rfl
  | ranges _ => exact head?_filter_rangeSpans key _ UInt8.zero_le
  | indexed hlength _ =>
      rw [filter_subregions_indexed hlength]
      cases (indexed _ _ _).child? key <;> rfl
  | silent => rfl

/-- With increasing bounds only one child has a span that contains a key. -/
theorem length_filter_subregions_le (hfilled : region.Filled) (hincreasing : region.Increasing)
    (key : UInt8) : (region.subregions.filter (spans key)).length ≤ 1 := by
  cases hfilled with
  | leaf params => exact List.length_filter_le _ _
  | ranges _ =>
      cases hincreasing with
      | ranges hbounds _ => exact length_filter_rangeSpans_le key hbounds 0
  | indexed hlength _ =>
      rw [filter_subregions_indexed hlength]
      cases (indexed _ _ _).child? key <;> simp
  | silent => exact Nat.zero_le 1

/-! ## Two tiers -/

/-- The instrument of a leaf. -/
def leaf? : Region → Option InstrumentParams
  | leaf params => some params
  | _ => none

/-- What a tree resolves to, none if it refuses a key. -/
def resolved? (region : Region) (keys : List UInt8) : Option InstrumentParams :=
  match region.resolve keys with
  | .ok params? => params?
  | .error _ => none

/-- Without a key left only a leaf resolves. -/
theorem resolved?_nil (region : Region) : region.resolved? [] = region.leaf? := by
  cases region <;> rfl

/-- A key leads to the child that covers it. A leaf is its own child. -/
theorem resolve_cons (region : Region) (key : UInt8) (keys : List UInt8) :
    region.resolve (key :: keys) = (region.child key).bind fun child? =>
      child?.elim (.ok none) fun child => child.resolve keys := by
  cases region with
  | leaf params => cases keys <;> rfl
  | silent => rfl
  | ranges children =>
      simp only [resolve]
      cases (ranges children).child key with
      | error error => rfl
      | ok child? => cases child? <;> rfl
  | indexed min max children =>
      simp only [resolve]
      cases (indexed min max children).child key with
      | error error => rfl
      | ok child? => cases child? <;> rfl

theorem resolved?_cons (region : Region) (key : UInt8) (keys : List UInt8) :
    region.resolved? (key :: keys)
      = (region.child? key).bind fun child => child.resolved? keys := by
  rw [resolved?, child?, resolve_cons]
  cases region.child key with
  | error error => rfl
  | ok child? => cases child? <;> rfl

/-- A tree resolves by the child for the key and the leaf for the velocity. -/
theorem resolved?_pair (region : Region) (key velocity : UInt8) :
    region.resolved? [key, velocity]
      = (region.child? key).bind fun tier => (tier.child? velocity).bind leaf? := by
  rw [resolved?_cons]
  congr 1
  funext tier
  rw [resolved?_cons]
  congr 1
  funext child
  exact resolved?_nil child

/-- The zone of a leaf in its spans. -/
def zone? (keys velocities : UInt8 × UInt8 × Region) : Option Zone :=
  match velocities with
  | (velocityLo, velocityHi, leaf params) =>
    some ⟨keys.1, keys.2.1, velocityLo, velocityHi, params⟩
  | _ => none

theorem zone?_covers {keys velocities : UInt8 × UInt8 × Region} {zone : Zone}
    (h : zone? keys velocities = some zone) (key velocity : UInt8) :
    zone.covers key velocity = (spans key keys && spans velocity velocities) := by
  obtain ⟨velocityLo, velocityHi, region⟩ := velocities
  cases region with
  | leaf params =>
      rw [← Option.some.inj h]
      simp [Zone.covers, spans, Bool.and_assoc]
  | _ => exact nomatch h

theorem zone?_params (keys velocities : UInt8 × UInt8 × Region) :
    (zone? keys velocities).map Zone.params = velocities.2.2.leaf? := by
  obtain ⟨velocityLo, velocityHi, region⟩ := velocities
  cases region <;> rfl

theorem flatten_eq (region : Region) :
    region.flatten = region.subregions.flatMap fun keys =>
      keys.2.2.subregions.filterMap (zone? keys) := by
  refine congrArg (fun zones => region.subregions.flatMap zones) ?_
  funext keys
  obtain ⟨keyLo, keyHi, tier⟩ := keys
  refine congrArg (fun zone => tier.subregions.filterMap zone) ?_
  funext velocities
  obtain ⟨velocityLo, velocityHi, child⟩ := velocities
  cases child <;> rfl

/-- The zones that cover a note come from the children that span its key, and from their
children that span its velocity. -/
theorem filter_covers_flatten (region : Region) (key velocity : UInt8) :
    region.flatten.filter (fun zone => zone.covers key velocity)
      = (region.subregions.filter (spans key)).flatMap fun keys =>
          (keys.2.2.subregions.filter (spans velocity)).filterMap (zone? keys) := by
  have htier : ∀ keys : UInt8 × UInt8 × Region,
      (keys.2.2.subregions.filterMap (zone? keys)).filter (fun zone => zone.covers key velocity)
        = if spans key keys then
            (keys.2.2.subregions.filter (spans velocity)).filterMap (zone? keys)
          else [] := by
    intro keys
    induction keys.2.2.subregions with
    | nil => simp
    | cons velocities subs ih =>
        cases hzone : zone? keys velocities with
        | none =>
            rw [List.filterMap_cons_none hzone, ih, List.filter_cons]
            cases spans velocity velocities with
            | true => rw [if_pos rfl, List.filterMap_cons_none hzone]
            | false => rw [if_neg Bool.false_ne_true]
        | some zone =>
            rw [List.filterMap_cons_some hzone, List.filter_cons, List.filter_cons, ih,
              zone?_covers hzone key velocity]
            cases spans key keys with
            | false => rfl
            | true =>
                cases spans velocity velocities with
                | true =>
                    rw [if_pos (Bool.and_self true), if_pos rfl, if_pos rfl, if_pos rfl,
                      List.filterMap_cons_some hzone]
                | false => rfl
  rw [flatten_eq, List.filter_flatMap]
  induction region.subregions with
  | nil => rfl
  | cons keys subs ih =>
      rw [List.flatMap_cons, htier, ih]
      by_cases hspans : spans key keys = true
      · rw [if_pos hspans, List.filter_cons_of_pos hspans, List.flatMap_cons]
      · rw [if_neg hspans, List.filter_cons_of_neg hspans, List.nil_append]

/-! ## Down the tree -/

/-- A span keeps its bound and its child. -/
theorem mem_rangeSpans {children : List (UInt8 × Region)} {lo : UInt8}
    {sub : UInt8 × UInt8 × Region} (h : sub ∈ rangeSpans lo children) : sub.2 ∈ children := by
  induction children generalizing lo with
  | nil => exact nomatch h
  | cons entry children ih =>
      obtain ⟨hi, child⟩ := entry
      rcases List.mem_cons.mp h with heq | hmem
      · rw [heq]
        exact List.mem_cons_self
      · exact List.mem_cons_of_mem _ (ih hmem)

/-- What lies below a tier: a leaf itself, or a child. -/
theorem mem_subregions {sub : UInt8 × UInt8 × Region} (h : sub ∈ region.subregions) :
    (∃ params, region = leaf params ∧ sub.2.2 = leaf params)
      ∨ (∃ children, region = ranges children ∧ sub.2 ∈ children)
      ∨ ∃ min max children, region = indexed min max children ∧ sub.2.2 ∈ children := by
  cases region with
  | leaf params =>
      rw [List.mem_singleton.mp h]
      exact Or.inl ⟨params, rfl, rfl⟩
  | ranges children => exact Or.inr (Or.inl ⟨children, rfl, mem_rangeSpans h⟩)
  | indexed min max children =>
      obtain ⟨⟨child, index⟩, hmem, rfl⟩ := List.mem_map.mp h
      exact Or.inr (Or.inr ⟨min, max, children, rfl, List.fst_mem_of_mem_zipIdx hmem⟩)
  | silent => exact nomatch h

theorem Filled.of_mem_subregions (h : region.Filled) {sub : UInt8 × UInt8 × Region}
    (hmem : sub ∈ region.subregions) : sub.2.2.Filled := by
  rcases mem_subregions hmem with ⟨params, -, heq⟩ | ⟨children, rfl, hentry⟩
    | ⟨min, max, children, rfl, hchild⟩
  · rw [heq]
    exact .leaf params
  · cases h with
    | ranges hchildren => exact hchildren sub.2 hentry
  · cases h with
    | indexed _ hchildren => exact hchildren _ hchild

theorem Increasing.of_mem_subregions (h : region.Increasing) {sub : UInt8 × UInt8 × Region}
    (hmem : sub ∈ region.subregions) : sub.2.2.Increasing := by
  rcases mem_subregions hmem with ⟨params, -, heq⟩ | ⟨children, rfl, hentry⟩
    | ⟨min, max, children, rfl, hchild⟩
  · rw [heq]
    exact .leaf params
  · cases h with
    | ranges _ hchildren => exact hchildren sub.2 hentry
  · cases h with
    | indexed hchildren => exact hchildren _ hchild

/-- With increasing bounds a span that ends at zero starts there. -/
theorem Increasing.lo_eq_zero (h : region.Increasing) {sub : UInt8 × UInt8 × Region}
    (hmem : sub ∈ region.subregions) (hzero : sub.2.1 = 0) : sub.1 = 0 := by
  cases region with
  | leaf params =>
      rw [List.mem_singleton.mp hmem] at hzero
      exact nomatch hzero
  | ranges children =>
      cases h with
      | ranges hbounds _ =>
          cases children with
          | nil => exact nomatch hmem
          | cons entry children =>
              obtain ⟨hi, child⟩ := entry
              rcases List.mem_cons.mp hmem with heq | hmem
              · rw [heq]
              · rw [List.map_cons, List.pairwise_cons] at hbounds
                have hlt := hbounds.1 sub.2.1 (List.mem_map_of_mem (mem_rangeSpans hmem))
                rw [hzero] at hlt
                exact absurd hlt (UInt8.not_lt.mpr UInt8.zero_le)
  | indexed min max children =>
      obtain ⟨⟨child, index⟩, -, rfl⟩ := List.mem_map.mp hmem
      exact hzero
  | silent => exact nomatch hmem

theorem mem_flatten {zone : Zone} :
    zone ∈ region.flatten ↔ ∃ keys ∈ region.subregions, ∃ velocities ∈ keys.2.2.subregions,
      zone? keys velocities = some zone := by
  rw [flatten_eq, List.mem_flatMap]
  exact exists_congr fun keys => and_congr_right fun _ => List.mem_filterMap

/-- With increasing bounds a zone whose velocities end at zero has no other velocity. -/
theorem Increasing.velocityLo_eq_zero (h : region.Increasing) {zone : Zone}
    (hmem : zone ∈ region.flatten) (hzero : zone.velocityHi = 0) : zone.velocityLo = 0 := by
  obtain ⟨keys, hkeys, ⟨velocityLo, velocityHi, child⟩, hvelocities, hzone⟩ := mem_flatten.mp hmem
  have htier := h.of_mem_subregions hkeys
  cases child with
  | leaf params =>
      rw [← Option.some.inj hzone] at hzero ⊢
      exact htier.lo_eq_zero hvelocities hzero
  | _ => exact nomatch hzone

/-- The child for a key leads the children that span it. -/
theorem filter_subregions_of_child? (hfilled : region.Filled) (hkey : key ≤ 127) {child : Region}
    (h : region.child? key = some child) :
    ∃ lo hi others, region.subregions.filter (spans key) = (lo, hi, child) :: others := by
  rw [← head?_filter_subregions hfilled hkey] at h
  cases hsubs : region.subregions.filter (spans key) with
  | nil => rw [hsubs] at h; exact nomatch h
  | cons sub others =>
      rw [hsubs] at h
      obtain ⟨lo, hi, child'⟩ := sub
      exact ⟨lo, hi, others, by rw [← show child' = child from Option.some.inj h]⟩

/-- With increasing bounds there is no other. -/
theorem filter_subregions_eq (hfilled : region.Filled) (hincreasing : region.Increasing)
    (hkey : key ≤ 127) :
    (region.child? key = none ∧ region.subregions.filter (spans key) = [])
      ∨ ∃ lo hi child, region.child? key = some child
        ∧ region.subregions.filter (spans key) = [(lo, hi, child)] := by
  have hlength := length_filter_subregions_le hfilled hincreasing key
  have hhead := head?_filter_subregions hfilled hkey
  cases hsubs : region.subregions.filter (spans key) with
  | nil =>
      rw [hsubs] at hhead
      exact Or.inl ⟨hhead.symm, rfl⟩
  | cons sub others =>
      rw [hsubs] at hhead hlength
      obtain ⟨lo, hi, child⟩ := sub
      have hothers : others = [] := List.eq_nil_of_length_eq_zero (by
        rw [List.length_cons] at hlength
        omega)
      exact Or.inr ⟨lo, hi, child, hhead.symm, by rw [hothers]⟩

/-! ## The two agree -/

/-- A note that resolves to a leaf is covered first of all by the zone of that leaf. -/
theorem find?_covers_flatten (hfilled : region.Filled) (hkey : key ≤ 127)
    (hvelocity : velocity ≤ 127) {params : InstrumentParams}
    (h : region.resolved? [key, velocity] = some params) :
    ∃ zone, region.flatten.find? (fun zone => zone.covers key velocity) = some zone
      ∧ zone.params = params := by
  rw [resolved?_pair] at h
  obtain ⟨tier, htier, h⟩ := Option.bind_eq_some_iff.mp h
  obtain ⟨child, hchild, hleaf⟩ := Option.bind_eq_some_iff.mp h
  obtain ⟨keyLo, keyHi, others, hkeys⟩ := filter_subregions_of_child? hfilled hkey htier
  have htierFilled : tier.Filled := hfilled.of_mem_subregions
    (List.mem_filter.mp (hkeys ▸ List.mem_cons_self)).1
  obtain ⟨velocityLo, velocityHi, others', hvelocities⟩ :=
    filter_subregions_of_child? htierFilled hvelocity hchild
  rw [← zone?_params (keyLo, keyHi, tier) (velocityLo, velocityHi, child)] at hleaf
  obtain ⟨zone, hzone, hparams⟩ := Option.map_eq_some_iff.mp hleaf
  refine ⟨zone, ?_, hparams⟩
  rw [← List.head?_filter, filter_covers_flatten, hkeys, List.flatMap_cons, hvelocities,
    List.filterMap_cons_some hzone]
  rfl

/-- With increasing bounds a note is covered by the zone of the leaf that it resolves to
and by no other. -/
theorem map_params_filter_covers (hfilled : region.Filled) (hincreasing : region.Increasing)
    (hkey : key ≤ 127) (hvelocity : velocity ≤ 127) :
    (region.flatten.filter fun zone => zone.covers key velocity).map Zone.params
      = (region.resolved? [key, velocity]).toList := by
  rw [filter_covers_flatten, resolved?_pair]
  rcases filter_subregions_eq hfilled hincreasing hkey
    with ⟨hnone, hkeys⟩ | ⟨keyLo, keyHi, tier, htier, hkeys⟩
  · rw [hnone, hkeys]
    rfl
  · have hmem : (keyLo, keyHi, tier) ∈ region.subregions :=
      (List.mem_filter.mp (hkeys ▸ List.mem_cons_self)).1
    rw [htier, hkeys, Option.bind_some, List.flatMap_singleton]
    -- one child has the key; below it none or one has the velocity
    rcases filter_subregions_eq (hfilled.of_mem_subregions hmem)
      (hincreasing.of_mem_subregions hmem) hvelocity
      with ⟨hnone, hvelocities⟩ | ⟨velocityLo, velocityHi, child, hchild, hvelocities⟩
    · rw [hnone, hvelocities]
      rfl
    · rw [hchild, hvelocities, Option.bind_some,
        ← zone?_params (keyLo, keyHi, tier) (velocityLo, velocityHi, child)]
      cases hzone : zone? (keyLo, keyHi, tier) (velocityLo, velocityHi, child) with
      | none => rw [List.filterMap_cons_none hzone]; rfl
      | some zone => rw [List.filterMap_cons_some hzone]; rfl

/-- Only a key outside of an index region is refused. -/
theorem child_error {error : Error} (h : region.child key = .error error) :
    ∃ min max, error = .keyOutOfDomain key min max := by
  cases region with
  | indexed min max children =>
      rw [child] at h
      split at h
      · exact ⟨min, max, (Except.error.inj h).symm⟩
      · exact nomatch h
  | _ => exact nomatch h

theorem resolve_error {keys : List UInt8} {error : Error}
    (h : region.resolve keys = .error error) :
    ∃ key min max, error = .keyOutOfDomain key min max := by
  induction keys generalizing region with
  | nil => cases region <;> cases h
  | cons key keys ih =>
      rw [resolve_cons] at h
      cases hchild : region.child key with
      | error refusal =>
          rw [hchild] at h
          obtain rfl := Except.error.inj h
          exact ⟨key, child_error hchild⟩
      | ok child? =>
          rw [hchild] at h
          cases child? with
          | none => cases h
          | some child => exact ih h

theorem resolved?_eq_some_iff {keys : List UInt8} {params : InstrumentParams} :
    region.resolved? keys = some params ↔ region.resolve keys = .ok (some params) := by
  rw [resolved?]
  cases region.resolve keys with
  | error error => simp
  | ok params? => simp

/-- A note resolves to nothing if there is no instrument for it or a key is refused. -/
theorem resolved?_eq_none_iff {keys : List UInt8} :
    region.resolved? keys = none
      ↔ region.resolve keys = .ok none
        ∨ ∃ key min max, region.resolve keys = .error (.keyOutOfDomain key min max) := by
  rw [resolved?]
  cases hresolve : region.resolve keys with
  | error error =>
      obtain ⟨key, min, max, heq⟩ := resolve_error hresolve
      simp [heq]
  | ok params? => simp

/-- **The resolver and the list of zones agree.** The first zone that covers a note is
that of the leaf it resolves to. If the bounds of ranges increase it is the only one, and
a note that resolves to nothing or is refused is covered by none. -/
theorem resolve_agrees_flatten (region : Region) (key velocity : UInt8)
    (hfilled : region.Filled) (hkey : key ≤ 127) (hvelocity : velocity ≤ 127) :
    (∀ params, region.resolve [key, velocity] = .ok (some params) →
        ∃ zone, region.flatten.find? (fun zone => zone.covers key velocity) = some zone
          ∧ zone.params = params)
      ∧ (region.Increasing →
        (∀ params, region.resolve [key, velocity] = .ok (some params)
          ↔ ∃ zone, region.flatten.filter (fun zone => zone.covers key velocity) = [zone]
              ∧ zone.params = params)
        ∧ ((region.resolve [key, velocity] = .ok none
            ∨ ∃ refused min max,
                region.resolve [key, velocity] = .error (.keyOutOfDomain refused min max))
          ↔ ∀ zone ∈ region.flatten, zone.covers key velocity = false)) := by
  refine ⟨?_, ?_⟩
  · intro params hresolve
    exact find?_covers_flatten hfilled hkey hvelocity (resolved?_eq_some_iff.mpr hresolve)
  · intro hincreasing
    have hmap := map_params_filter_covers hfilled hincreasing hkey hvelocity
    refine ⟨?_, ?_⟩
    · intro params
      rw [← resolved?_eq_some_iff]
      constructor
      · intro hresolved
        rw [hresolved] at hmap
        exact List.map_eq_singleton_iff.mp hmap
      · rintro ⟨zone, hzones, hparams⟩
        rw [hzones, List.map_singleton, hparams] at hmap
        exact (Option.toList_eq_singleton_iff.mp hmap.symm)
    · rw [← resolved?_eq_none_iff]
      constructor
      · intro hresolved
        rw [hresolved] at hmap
        have hnone := List.filter_eq_nil_iff.mp (List.map_eq_nil_iff.mp hmap)
        intro zone hzone
        exact Bool.eq_false_iff.mpr (hnone zone hzone)
      · intro hnone
        have hnil : region.flatten.filter (fun zone => zone.covers key velocity) = [] := by
          refine List.filter_eq_nil_iff.mpr ?_
          intro zone hzone
          rw [hnone zone hzone]
          exact Bool.false_ne_true
        rw [hnil] at hmap
        exact Option.toList_eq_nil_iff.mp hmap.symm

/-- An instrument that plays one wave. -/
def playing (wave : Int32) : InstrumentParams :=
  { (default : InstrumentParams) with waveIndex := wave }

/-- A keyboard with two ranges of velocities below and two single velocities above. -/
def splitKeyboard : Region :=
  ranges [
    (47, ranges [(63, leaf (playing 0)), (127, leaf (playing 1))]),
    (127, indexed 64 66 [leaf (playing 2), silent])]

theorem filled_splitKeyboard : splitKeyboard.Filled := by
  refine .ranges ?_
  simp only [List.forall_mem_cons, List.not_mem_nil, false_implies, implies_true, and_true]
  refine ⟨.ranges ?_, .indexed rfl ?_⟩
  · simpa using ⟨.leaf (playing 0), .leaf (playing 1)⟩
  · simpa using ⟨.leaf (playing 2), .silent⟩

theorem increasing_splitKeyboard : splitKeyboard.Increasing := by
  refine .ranges (by decide) ?_
  simp only [List.forall_mem_cons, List.not_mem_nil, false_implies, implies_true, and_true]
  refine ⟨.ranges (by decide) ?_, .indexed ?_⟩
  · simpa using ⟨.leaf (playing 0), .leaf (playing 1)⟩
  · simpa using ⟨.leaf (playing 2), .silent⟩

/-- A loud note on the lower half, and one that the upper half refuses. -/
theorem resolve_agrees_flatten_splitKeyboard :
    (∃ zone, splitKeyboard.flatten.filter (fun zone => zone.covers 40 100) = [zone]
        ∧ zone.params = playing 1)
      ∧ ∀ zone ∈ splitKeyboard.flatten, zone.covers 90 100 = false :=
  ⟨(((resolve_agrees_flatten splitKeyboard 40 100 filled_splitKeyboard (by decide) (by decide)).2
      increasing_splitKeyboard).1 (playing 1)).mp rfl,
    ((resolve_agrees_flatten splitKeyboard 90 100 filled_splitKeyboard (by decide) (by decide)).2
      increasing_splitKeyboard).2.mp (Or.inr ⟨100, 64, 66, rfl⟩)⟩

end Region

end ConsoleSound

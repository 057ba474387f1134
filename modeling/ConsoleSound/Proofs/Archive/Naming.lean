import Mathlib.Data.FinEnum
import ConsoleSound.Proofs.Acyclic
import ConsoleSound.Proofs.Archive.Walking
/-! # Names in a well-formed tree

A name tree is well formed for the strings of its archive (`NameTree.IsTrie`) if what its
root reaches is a binary tree, every leaf has a string, and every branch divides the strings
below it by the bit that it tests.

In such a tree the walk for any name comes to a leaf (`NameTree.IsTrie.exists_ends`), but the
branches on the way look at some bits of the name only, so that leaf may have another string.
If a leaf has the name for its string, every branch above it sends the walk to its side
(`NameTree.IsTrie.ends_of_leafBelow`). So a lookup finds the names of the leaves and no other
(`NameTree.lookup_findsLeaves`). -/

namespace ConsoleSound

open Relation

/-! ## Bits of a name -/

/-- The bits of a byte, the top bit first. -/
def byteBits (byte : UInt8) : List Bool :=
  (List.range 8).map fun place => byte.toNat.testBit (7 - place)

/-- The bits of a name, byte after byte. -/
def nameBits (name : Bytes) : List Bool := name.toList.flatMap byteBits

theorem getElem?_byteBits (byte : UInt8) {bit : Nat} (h : bit < 8) :
    (byteBits byte)[bit]? = some (byte.toNat.testBit (7 - bit)) := by
  rw [byteBits, List.getElem?_map, List.getElem?_range h, Option.map_some]

theorem getElem?_flatMap_byteBits (bytes : List UInt8) (bit : Nat) :
    (bytes.flatMap byteBits)[bit]?
      = bytes[bit / 8]?.map fun byte => byte.toNat.testBit (7 - bit % 8) := by
  induction bytes generalizing bit with
  | nil => rfl
  | cons byte bytes ih =>
      have hlength : (byteBits byte).length = 8 := by
        rw [byteBits, List.length_map, List.length_range]
      rw [List.flatMap_cons]
      rcases Nat.lt_or_ge bit 8 with hfirst | hlater
      · rw [List.getElem?_append_left (by omega), getElem?_byteBits byte hfirst,
          Nat.div_eq_of_lt hfirst, Nat.mod_eq_of_lt hfirst]
        rfl
      · have hplace : bit / 8 = (bit - 8) / 8 + 1 := by omega
        have hbit : bit % 8 = (bit - 8) % 8 := by omega
        rw [List.getElem?_append_right (by omega), hlength, ih, hplace, hbit,
          List.getElem?_cons_succ]

/-- The bit that a branch looks at is one of the bits of the name, and clear behind them. -/
theorem nameBit_eq_getD (name : Bytes) (bit : Nat) :
    nameBit name bit = (nameBits name).getD bit false := by
  have hbyte : name.getD (bit / 8) 0 = (name.toList[bit / 8]?).getD 0 := by
    rw [Array.getElem?_toList, Array.getD_eq_getD_getElem?]
  rw [nameBit, nameBits, List.getD_eq_getElem?_getD, getElem?_flatMap_byteBits, hbyte]
  cases name.toList[bit / 8]? with
  | none => exact Nat.zero_testBit _
  | some byte => rfl

namespace NameTree

variable {tree : NameTree} {string : Int32 → Option String} {index : UInt32} {leaf : NameNode}

/-! ## What a node reaches -/

/-- The child of a branch on the side for a clear or for a set bit; a leaf has none. -/
def child? (tree : NameTree) (index : UInt32) (side : Bool) : Option UInt32 := do
  let node ← tree.nodes[index.toNat]?
  if node.isLeaf then none else some (if side then node.right else node.left)

/-- Whether a node is a branch with a given child. -/
def IsChild (tree : NameTree) (parent child : UInt32) : Prop :=
  ∃ side, tree.child? parent side = some child

/-- Whether a node is reached from another one by going from parents to children. -/
def Reaches (tree : NameTree) : UInt32 → UInt32 → Prop := ReflTransGen tree.IsChild

/-- Whether a leaf is reached from a node. -/
def LeafBelow (tree : NameTree) (index : UInt32) (leaf : NameNode) : Prop :=
  ∃ place, tree.Reaches index place ∧ tree.nodes[place.toNat]? = some leaf ∧ leaf.isLeaf = true

theorem child?_branch {node : NameNode} (hnode : tree.nodes[index.toNat]? = some node)
    (hbranch : node.isLeaf = false) (side : Bool) :
    tree.child? index side = some (if side then node.right else node.left) := by
  rw [child?, hnode, Option.bind_eq_bind, Option.bind_some, hbranch]
  rfl

theorem exists_branch_of_child? {side : Bool} {child : UInt32}
    (h : tree.child? index side = some child) :
    ∃ node, tree.nodes[index.toNat]? = some node ∧ node.isLeaf = false
      ∧ child = if side then node.right else node.left := by
  obtain ⟨node, hnode, h⟩ := Option.bind_eq_some_iff.mp h
  cases hkind : node.isLeaf with
  | true =>
      rw [hkind] at h
      exact nomatch h
  | false =>
      rw [hkind] at h
      exact ⟨node, hnode, hkind, (Option.some.inj h).symm⟩

theorem child?_next {node : NameNode} (hnode : tree.nodes[index.toNat]? = some node)
    (hbranch : node.isLeaf = false) (name : Bytes) :
    tree.child? index (nameBit name node.bit.toNat) = some (node.next name) :=
  child?_branch hnode hbranch _

/-- A walk ends at a leaf that is reached from where it starts. -/
theorem leafBelow_of_ends {name : Bytes} {branches : Nat}
    (h : tree.Ends name branches index (some leaf)) : tree.LeafBelow index leaf := by
  generalize hfound : some leaf = found at h
  induction h with
  | outside => exact nomatch hfound
  | leaf hnode hleaf =>
      obtain rfl := Option.some.inj hfound
      exact ⟨_, .refl, hnode, hleaf⟩
  | branch hnode hbranch _ ih =>
      obtain ⟨place, hreach, hplace⟩ := ih hfound
      exact ⟨place, .head ⟨_, child?_next hnode hbranch name⟩ hreach, hplace⟩

/-- A leaf reaches itself only. -/
theorem eq_of_leafBelow_leaf {node : NameNode} (hnode : tree.nodes[index.toNat]? = some node)
    (hkind : node.isLeaf = true) (h : tree.LeafBelow index leaf) : leaf = node := by
  obtain ⟨place, hreach, hleaf, -⟩ := h
  rcases ReflTransGen.cases_head hreach with rfl | ⟨child, ⟨side, hside⟩, -⟩
  · exact Option.some.inj (hleaf.symm.trans hnode)
  · obtain ⟨branch, hbranch, hfalse, -⟩ := exists_branch_of_child? hside
    obtain rfl := Option.some.inj (hnode.symm.trans hbranch)
    exact nomatch hkind.symm.trans hfalse

/-- What is below a branch is below one of its children. -/
theorem leafBelow_of_branch {node : NameNode} (hnode : tree.nodes[index.toNat]? = some node)
    (hkind : node.isLeaf = false) (h : tree.LeafBelow index leaf) :
    tree.LeafBelow node.left leaf ∨ tree.LeafBelow node.right leaf := by
  obtain ⟨place, hreach, hleaf⟩ := h
  rcases ReflTransGen.cases_head hreach with rfl | ⟨child, ⟨side, hside⟩, hrest⟩
  · obtain rfl := Option.some.inj (hnode.symm.trans hleaf.1)
    exact nomatch hkind.symm.trans hleaf.2
  · rw [child?_branch hnode hkind, Option.some.injEq] at hside
    subst hside
    cases side with
    | false => exact Or.inl ⟨place, hrest, hleaf⟩
    | true => exact Or.inr ⟨place, hrest, hleaf⟩

/-! ## Well-formed trees -/

/-- What makes a table of nodes a tree of names for some strings. -/
structure IsTrie (tree : NameTree) (string : Int32 → Option String) : Prop where
  /-- No child is outside the table. The root may be, so that a table without nodes is a tree
  without names. -/
  inRange : ∀ index, tree.Reaches tree.root index → ∀ child, tree.IsChild index child →
    child.toNat < tree.nodes.size
  root_unshared : ∀ index, tree.Reaches tree.root index → ¬ tree.IsChild index tree.root
  /-- A node is the child of one branch and on one side of it. -/
  unshared : ∀ first second, tree.Reaches tree.root first → tree.Reaches tree.root second →
    ∀ side side' child, tree.child? first side = some child →
      tree.child? second side' = some child → first = second ∧ side = side'
  resolves : ∀ leaf, tree.LeafBelow tree.root leaf → ∃ text, string leaf.stringIndex = some text
  /-- The bit that a branch tests is clear in the strings on the left and set in those on the
  right. -/
  separates : ∀ index, tree.Reaches tree.root index →
    ∀ node, tree.nodes[index.toNat]? = some node →
      ∀ side child, tree.child? index side = some child →
        ∀ leaf text, tree.LeafBelow child leaf → string leaf.stringIndex = some text →
          (nameBits text.toUTF8.data).getD node.bit.toNat false = side

namespace IsTrie

/-- No node of a tree is below itself: its only parent would be below itself too, and so on up
to the root, which has none. -/
theorem acyclic (h : tree.IsTrie string) (hreach : tree.Reaches tree.root index) :
    ¬ TransGen tree.IsChild index index := by
  induction hreach with
  | refl =>
      intro hcycle
      obtain ⟨last, hlast, hchild⟩ := TransGen.tail'_iff.mp hcycle
      exact h.root_unshared last hlast hchild
  | @tail parent index hparent hchild ih =>
      intro hcycle
      obtain ⟨last, hlast, hside⟩ := TransGen.tail'_iff.mp hcycle
      have hreached : tree.Reaches tree.root last := (hparent.tail hchild).trans hlast
      obtain ⟨side, hparentSide⟩ := hchild
      obtain ⟨side', hlastSide⟩ := hside
      obtain ⟨rfl, -⟩ := h.unshared parent last hparent hreached side side' index hparentSide
        hlastSide
      exact ih (TransGen.head' ⟨side, hparentSide⟩ hlast)

/-- The walk for any name comes to a leaf, if there is a root. -/
theorem exists_ends (h : tree.IsTrie string) (hroot : tree.root.toNat < tree.nodes.size)
    (name : Bytes) : ∃ branches leaf, tree.Ends name branches tree.root (some leaf) := by
  have hwf : WellFounded fun next place =>
      ReflTransGen tree.IsChild tree.root place ∧ TransGen tree.IsChild place next :=
    wellFounded_of_acyclic fun _ hreach => h.acyclic hreach
  have hmain : ∀ index, tree.Reaches tree.root index → index.toNat < tree.nodes.size →
      ∃ branches leaf, tree.Ends name branches index (some leaf) := by
    intro index
    induction index using hwf.induction with
    | _ index ih =>
        intro hreach hindex
        have hnode := Array.getElem?_eq_getElem hindex
        cases hkind : tree.nodes[index.toNat].isLeaf with
        | true => exact ⟨0, _, .leaf hnode hkind⟩
        | false =>
            have hchild : tree.IsChild index (tree.nodes[index.toNat].next name) :=
              ⟨_, child?_next hnode hkind name⟩
            obtain ⟨branches, leaf, hends⟩ := ih _ ⟨hreach, .single hchild⟩
              (hreach.tail hchild) (h.inRange index hreach _ hchild)
            exact ⟨branches + 1, leaf, .branch hnode hkind hends⟩
  exact hmain tree.root .refl hroot

/-- The walk for the string of a leaf comes to that leaf. -/
theorem ends_of_leafBelow (h : tree.IsTrie string) {name : String}
    (hbelow : tree.LeafBelow tree.root leaf) (hname : string leaf.stringIndex = some name) :
    ∃ branches, tree.Ends name.toUTF8.data branches tree.root (some leaf) := by
  obtain ⟨place, hplace, hnode, hleaf⟩ := hbelow
  have hmain : ∀ index, tree.Reaches index place → tree.Reaches tree.root index →
      ∃ branches, tree.Ends name.toUTF8.data branches index (some leaf) := by
    intro index hreach
    induction hreach using ReflTransGen.head_induction_on with
    | refl => exact fun _ => ⟨0, .leaf hnode hleaf⟩
    | @head index child hchild hrest ih =>
        intro hroot
        obtain ⟨branches, hends⟩ := ih (hroot.tail hchild)
        obtain ⟨side, hside⟩ := hchild
        obtain ⟨node, hbranch, hkind, hnext⟩ := exists_branch_of_child? hside
        -- the leaf is below the child, so the branch finds the bit of this side in the name
        have hbit := h.separates index hroot node hbranch side child hside leaf name
          ⟨place, hrest, hnode, hleaf⟩ hname
        rw [← nameBit_eq_getD] at hbit
        have hway : child = node.next name.toUTF8.data := by
          rw [hnext, NameNode.next, hbit]
        rw [hway] at hends
        exact ⟨branches + 1, .branch hbranch hkind hends⟩
  exact hmain tree.root hplace .refl

end IsTrie

/-! ## Lookups -/

theorem verdict_eq_some_iff {name : String} {id : Int32} :
    verdict string name leaf = some id ↔ string leaf.stringIndex = some name ∧ leaf.id = id := by
  rw [verdict]
  split
  · next hname => simp [hname]
  · next hother => simp [hother]

/-- What a lookup has to give if it is to find the names of the leaves. -/
structure FindsLeaves (tree : NameTree) (string : Int32 → Option String) (name : String) :
    Prop where
  /-- The name is compared with the string of a leaf, whether it is in the tree or not. -/
  arrives : tree.root.toNat < tree.nodes.size →
    ∃ branches leaf text, tree.Ends name.toUTF8.data branches tree.root (some leaf)
      ∧ string leaf.stringIndex = some text
  found_iff : ∀ id, tree.lookup string name = some id
    ↔ ∃ leaf, tree.LeafBelow tree.root leaf ∧ string leaf.stringIndex = some name ∧ leaf.id = id

/-- **A well-formed tree finds its names and no other**: a lookup gives an id exactly if it is
the id of a leaf with the name for its string. -/
theorem lookup_findsLeaves (h : tree.IsTrie string) (name : String) :
    tree.FindsLeaves string name := by
  refine { arrives := ?_, found_iff := ?_ }
  · intro hroot
    obtain ⟨branches, leaf, hends⟩ := h.exists_ends hroot name.toUTF8.data
    obtain ⟨text, htext⟩ := h.resolves leaf (leafBelow_of_ends hends)
    exact ⟨branches, leaf, text, hends, htext⟩
  · intro id
    constructor
    · intro hlookup
      obtain ⟨branches, leaf, hends, hverdict⟩ := exists_ends_of_lookup hlookup
      exact ⟨leaf, leafBelow_of_ends hends, verdict_eq_some_iff.mp hverdict⟩
    · rintro ⟨leaf, hbelow, hname, hid⟩
      obtain ⟨branches, hends⟩ := h.ends_of_leafBelow hbelow hname
      rw [lookup_of_ends hends, verdict_eq_some_iff]
      exact ⟨hname, hid⟩

/-! ## A tree of three names -/

/-- A leaf for a string. -/
def leafOf (stringIndex id : Int32) : NameNode :=
  ⟨true, 0, 0xffffffff, 0xffffffff, stringIndex, id⟩

/-- The names of three sounds, one of which is the start of another. -/
def soundNames : NameTree where
  root := 0
  nodes := #[⟨false, 3, 1, 2, -1, -1⟩, leafOf 0 30, ⟨false, 17, 3, 4, -1, -1⟩, leafOf 1 10,
    leafOf 2 20]

/-- Their strings. -/
def soundString (index : Int32) : Option String :=
  if index < 0 then none else ["BGM", "SE", "SE_LONG"][index.toInt.toNat]?

theorem child?_soundNames {index child : UInt32} {side : Bool}
    (h : soundNames.child? index side = some child) :
    (index = 0 ∧ side = false ∧ child = 1) ∨ (index = 0 ∧ side = true ∧ child = 2)
      ∨ (index = 2 ∧ side = false ∧ child = 3) ∨ (index = 2 ∧ side = true ∧ child = 4) := by
  have htable : ∀ place < 5, ∀ side, (soundNames.child? (UInt32.ofNat place) side).all
      (fun child => (UInt32.ofNat place, side, child)
        ∈ [(0, false, 1), (0, true, 2), (2, false, 3), (2, true, 4)]) = true := by decide
  obtain ⟨node, hnode, -⟩ := exists_branch_of_child? h
  have hedge := htable index.toNat (Array.getElem?_eq_some_iff.mp hnode).1 side
  rw [UInt32.ofNat_toNat, h] at hedge
  simpa using hedge

/-- The leaves on the two sides of the two branches. -/
theorem leafBelow_soundNames {index child : UInt32} {side : Bool} {leaf : NameNode}
    (hchild : soundNames.child? index side = some child) (hleaf : soundNames.LeafBelow child leaf) :
    (index = 0 ∧ side = false ∧ leaf = leafOf 0 30)
      ∨ (index = 0 ∧ side = true ∧ (leaf = leafOf 1 10 ∨ leaf = leafOf 2 20))
      ∨ (index = 2 ∧ side = false ∧ leaf = leafOf 1 10)
      ∨ (index = 2 ∧ side = true ∧ leaf = leafOf 2 20) := by
  rcases child?_soundNames hchild with
    ⟨rfl, rfl, rfl⟩ | ⟨rfl, rfl, rfl⟩ | ⟨rfl, rfl, rfl⟩ | ⟨rfl, rfl, rfl⟩
  · exact Or.inl ⟨rfl, rfl, eq_of_leafBelow_leaf rfl rfl hleaf⟩
  · refine Or.inr (Or.inl ⟨rfl, rfl, ?_⟩)
    rcases leafBelow_of_branch rfl rfl hleaf with hshort | hlong
    · exact Or.inl (eq_of_leafBelow_leaf rfl rfl hshort)
    · exact Or.inr (eq_of_leafBelow_leaf rfl rfl hlong)
  · exact Or.inr (Or.inr (Or.inl ⟨rfl, rfl, eq_of_leafBelow_leaf rfl rfl hleaf⟩))
  · exact Or.inr (Or.inr (Or.inr ⟨rfl, rfl, eq_of_leafBelow_leaf rfl rfl hleaf⟩))

/-- The third bit tells one of the names from the two others, the seventeenth tells these. -/
theorem isTrie_soundNames : soundNames.IsTrie soundString := by
  refine { inRange := ?_, root_unshared := ?_, unshared := ?_, resolves := ?_, separates := ?_ }
  · rintro index - child ⟨side, hchild⟩
    rcases child?_soundNames hchild with ⟨-, -, rfl⟩ | ⟨-, -, rfl⟩ | ⟨-, -, rfl⟩ | ⟨-, -, rfl⟩
    all_goals decide
  · rintro index - ⟨side, hchild⟩
    rcases child?_soundNames hchild with ⟨-, -, h⟩ | ⟨-, -, h⟩ | ⟨-, -, h⟩ | ⟨-, -, h⟩
    all_goals exact absurd h (by decide)
  · intro first second _ _ side side' child hfirst hsecond
    have hfirst := child?_soundNames hfirst
    have hsecond := child?_soundNames hsecond
    grind
  · intro leaf hleaf
    have hside : ∃ side child, soundNames.child? 0 side = some child
        ∧ soundNames.LeafBelow child leaf := by
      rcases leafBelow_of_branch rfl rfl hleaf with hleft | hright
      · exact ⟨false, 1, rfl, hleft⟩
      · exact ⟨true, 2, rfl, hright⟩
    obtain ⟨side, child, hchild, hbelow⟩ := hside
    rcases leafBelow_soundNames hchild hbelow with
      ⟨-, -, rfl⟩ | ⟨-, -, rfl | rfl⟩ | ⟨-, -, rfl⟩ | ⟨-, -, rfl⟩
    all_goals exact ⟨_, rfl⟩
  · intro index _ node hnode side child hchild leaf text hleaf htext
    rcases leafBelow_soundNames hchild hleaf with
      ⟨rfl, rfl, rfl⟩ | ⟨rfl, rfl, rfl | rfl⟩ | ⟨rfl, rfl, rfl⟩ | ⟨rfl, rfl, rfl⟩
    all_goals
      obtain rfl := Option.some.inj hnode
      obtain rfl := Option.some.inj htext
      decide

/-- A name that is the start of another one is found, and the start of that name is not. -/
theorem lookup_findsLeaves_soundNames :
    soundNames.IsTrie soundString ∧ soundNames.FindsLeaves soundString "SE"
      ∧ soundNames.FindsLeaves soundString "S"
      ∧ soundNames.lookup soundString "SE" = some 10
      ∧ soundNames.lookup soundString "S" = none :=
  ⟨isTrie_soundNames, lookup_findsLeaves isTrie_soundNames "SE",
    lookup_findsLeaves isTrie_soundNames "S", by decide, by decide⟩

end NameTree

end ConsoleSound

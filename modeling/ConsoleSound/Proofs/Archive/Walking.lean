import Mathlib.Data.Fintype.Card
import Mathlib.Tactic.Choose
import ConsoleSound.Archive.NameTree
/-! # Walks through a name tree

A name decides which way to go at every branch, so from any node there is one walk, which
comes to a leaf, leaves the table of nodes or goes on for ever (`NameTree.Ends`). A lookup
takes only as many nodes of it as there are in the table, and one more.

That is always enough (`NameTree.lookup_followsWalk`). A walk that comes to a leaf is at
another node at every step, because from one node there is only one number of branches to
that leaf. So it visits no more nodes than there are (`NameTree.Ends.lt_size`). -/

namespace ConsoleSound.NameTree

variable {tree : NameTree} {name : Bytes} {index : UInt32} {leaf : NameNode}
  {found : Option NameNode} {branches limit : Nat} {string : Int32 → Option String}

/-! ## Walks without a limit -/

/-- Whether the walk for a name from node `index` ends after a number of branches, however
many: at a leaf, or at no node if the index is outside the table. -/
inductive Ends (tree : NameTree) (name : Bytes) :
    (branches : Nat) → (index : UInt32) → (found : Option NameNode) → Prop where
  | outside {index : UInt32} (hnode : tree.nodes[index.toNat]? = none) :
      Ends tree name 0 index none
  | leaf {index : UInt32} {node : NameNode} (hnode : tree.nodes[index.toNat]? = some node)
      (hleaf : node.isLeaf = true) : Ends tree name 0 index (some node)
  | branch {branches : Nat} {index : UInt32} {node : NameNode} {found : Option NameNode}
      (hnode : tree.nodes[index.toNat]? = some node) (hbranch : node.isLeaf = false)
      (hrest : Ends tree name branches (node.next name) found) :
      Ends tree name (branches + 1) index found

/-- There is only one walk. -/
theorem Ends.unique {branches' : Nat} {found' : Option NameNode}
    (h : tree.Ends name branches index found) (h' : tree.Ends name branches' index found') :
    branches = branches' ∧ found = found' := by
  induction h generalizing branches' found' with
  | outside hnode =>
      cases h' with
      | outside => exact ⟨rfl, rfl⟩
      | leaf hnode' => exact nomatch hnode.symm.trans hnode'
      | branch hnode' => exact nomatch hnode.symm.trans hnode'
  | leaf hnode hleaf =>
      cases h' with
      | outside hnode' => exact nomatch hnode.symm.trans hnode'
      | leaf hnode' => exact ⟨rfl, hnode.symm.trans hnode'⟩
      | branch hnode' hbranch =>
          obtain rfl := Option.some.inj (hnode.symm.trans hnode')
          exact nomatch hleaf.symm.trans hbranch
  | branch hnode hbranch _ ih =>
      cases h' with
      | outside hnode' => exact nomatch hnode.symm.trans hnode'
      | leaf hnode' hleaf =>
          obtain rfl := Option.some.inj (hnode.symm.trans hnode')
          exact nomatch hleaf.symm.trans hbranch
      | branch hnode' _ hrest =>
          obtain rfl := Option.some.inj (hnode.symm.trans hnode')
          obtain ⟨hbranches, hfound⟩ := ih hrest
          exact ⟨congrArg (· + 1) hbranches, hfound⟩

/-! ## The number of branches -/

/-- A walk to a leaf comes to nodes from which any smaller number of branches is left. -/
theorem Ends.exists_place (h : tree.Ends name branches index (some leaf)) :
    ∀ rest ≤ branches, ∃ place : UInt32,
      place.toNat < tree.nodes.size ∧ tree.Ends name rest place (some leaf) := by
  generalize hfound : some leaf = found at h
  induction h with
  | outside => exact nomatch hfound
  | leaf hnode hleaf =>
      intro rest hrest
      obtain rfl := Nat.le_zero.mp hrest
      exact ⟨_, (Array.getElem?_eq_some_iff.mp hnode).1, .leaf hnode hleaf⟩
  | branch hnode hbranch hbelow ih =>
      intro rest hrest
      rcases Nat.lt_or_eq_of_le hrest with hless | rfl
      · exact ih hfound rest (Nat.le_of_lt_succ hless)
      · exact ⟨_, (Array.getElem?_eq_some_iff.mp hnode).1, .branch hnode hbranch hbelow⟩

/-- A walk that comes to a leaf visits no more nodes than there are: those from which
different numbers of branches are left are different. -/
theorem Ends.lt_size (h : tree.Ends name branches index (some leaf)) :
    branches < tree.nodes.size := by
  have hplaces : ∀ rest : Fin (branches + 1), ∃ place : UInt32,
      place.toNat < tree.nodes.size ∧ tree.Ends name rest.val place (some leaf) :=
    fun rest => h.exists_place rest.val (Nat.le_of_lt_succ rest.isLt)
  choose place hlt hends using hplaces
  let visited (rest : Fin (branches + 1)) : Fin tree.nodes.size :=
    ⟨(place rest).toNat, hlt rest⟩
  have hinjective : Function.Injective visited := by
    intro first second heq
    have hplace : place first = place second := UInt32.toNat_inj.mp (Fin.mk.inj heq)
    have hsecond := hends second
    rw [← hplace] at hsecond
    exact Fin.ext ((hends first).unique hsecond).1
  have hcard := Fintype.card_le_of_injective visited hinjective
  rw [Fintype.card_fin, Fintype.card_fin] at hcard
  exact hcard

/-! ## Walks with a limit -/

/-- With enough nodes to visit, a limited walk ends as the walk without a limit does. -/
theorem walk_of_ends (h : tree.Ends name branches index found) (hlimit : branches < limit) :
    tree.walk name limit index = found := by
  induction h generalizing limit with
  | outside hnode =>
      obtain ⟨limit, rfl⟩ := Nat.exists_eq_succ_of_ne_zero (Nat.ne_of_gt hlimit)
      simp only [walk, hnode, Option.bind_eq_bind, Option.bind_none]
  | leaf hnode hleaf =>
      obtain ⟨limit, rfl⟩ := Nat.exists_eq_succ_of_ne_zero (Nat.ne_of_gt hlimit)
      simp only [walk, hnode, Option.bind_eq_bind, Option.bind_some, hleaf, if_true]
      rfl
  | branch hnode hbranch hrest ih =>
      cases limit with
      | zero => exact nomatch hlimit
      | succ limit =>
          simp only [walk, hnode, Option.bind_eq_bind, Option.bind_some, hbranch]
          exact ih (Nat.lt_of_succ_lt_succ hlimit)

/-- A leaf that a limited walk comes to is where the walk without a limit ends. -/
theorem exists_ends_of_walk (h : tree.walk name limit index = some leaf) :
    ∃ branches, tree.Ends name branches index (some leaf) := by
  induction limit generalizing index with
  | zero => exact nomatch h
  | succ limit ih =>
      obtain ⟨node, hnode, h⟩ := Option.bind_eq_some_iff.mp h
      cases hkind : node.isLeaf with
      | true =>
          rw [hkind] at h
          obtain rfl := Option.some.inj h
          exact ⟨0, .leaf hnode hkind⟩
      | false =>
          rw [hkind] at h
          obtain ⟨branches, hrest⟩ := ih h
          exact ⟨branches + 1, .branch hnode hkind hrest⟩

/-! ## Lookups -/

/-- What a leaf says of a name: its id, if its string is that name. -/
def verdict (string : Int32 → Option String) (name : String) (leaf : NameNode) : Option Int32 :=
  if string leaf.stringIndex = some name then some leaf.id else none

/-- What a lookup has to give if it is to follow the walk for a name to its end. -/
structure FollowsWalk (tree : NameTree) (string : Int32 → Option String) (name : String) :
    Prop where
  /-- The lookup does not give up before a leaf, and visits no more nodes than there are. -/
  arrives : ∀ branches leaf, tree.Ends name.toUTF8.data branches tree.root (some leaf) →
    branches < tree.nodes.size ∧ tree.lookup string name = verdict string name leaf
  leaves : ∀ branches, tree.Ends name.toUTF8.data branches tree.root none →
    tree.lookup string name = none
  /-- A walk without a leaf may go on for ever. -/
  never_arrives : (∀ branches leaf,
      ¬ tree.Ends name.toUTF8.data branches tree.root (some leaf)) →
    tree.lookup string name = none

theorem lookup_eq_bind (string : Int32 → Option String) (name : String) :
    tree.lookup string name
      = (tree.walk name.toUTF8.data (tree.nodes.size + 1) tree.root).bind (verdict string name) :=
  rfl

/-- An id comes from the leaf that the walk comes to. -/
theorem exists_ends_of_lookup {name : String} {id : Int32}
    (h : tree.lookup string name = some id) :
    ∃ branches leaf, tree.Ends name.toUTF8.data branches tree.root (some leaf)
      ∧ verdict string name leaf = some id := by
  rw [lookup_eq_bind] at h
  obtain ⟨leaf, hwalk, hverdict⟩ := Option.bind_eq_some_iff.mp h
  obtain ⟨branches, hends⟩ := exists_ends_of_walk hwalk
  exact ⟨branches, leaf, hends, hverdict⟩

/-- A lookup gives the verdict of the leaf that the walk comes to. -/
theorem lookup_of_ends {name : String}
    (h : tree.Ends name.toUTF8.data branches tree.root (some leaf)) :
    tree.lookup string name = verdict string name leaf := by
  rw [lookup_eq_bind, walk_of_ends h (Nat.lt_succ_of_lt h.lt_size), Option.bind_some]

/-- **The limit of a lookup never shows**: a lookup gives what the walk without a limit
would give, in every table of nodes. -/
theorem lookup_followsWalk (tree : NameTree) (string : Int32 → Option String) (name : String) :
    tree.FollowsWalk string name := by
  have hnever : (∀ branches leaf,
      ¬ tree.Ends name.toUTF8.data branches tree.root (some leaf)) →
        tree.lookup string name = none := by
    intro hends
    rw [Option.eq_none_iff_forall_ne_some]
    intro id hlookup
    obtain ⟨branches, leaf, harrives, -⟩ := exists_ends_of_lookup hlookup
    exact hends branches leaf harrives
  refine { arrives := ?_, leaves := ?_, never_arrives := hnever }
  · intro branches leaf hends
    exact ⟨hends.lt_size, lookup_of_ends hends⟩
  · intro branches hends
    refine hnever ?_
    intro branches' leaf hleaf
    exact nomatch (hends.unique hleaf).2

/-- The leaf at the end of a chain is the last of all nodes to be visited. -/
example : (NameTree.mk 0 #[⟨false, 3, 1, 1, -1, -1⟩, ⟨false, 9, 2, 2, -1, -1⟩,
    ⟨true, 0, 0, 0, 4, 7⟩]).lookup (fun _ => some "SE") "SE" = some 7 := by decide

end ConsoleSound.NameTree

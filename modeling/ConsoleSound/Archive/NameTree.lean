import ConsoleSound.View
/-! # Name trees

An archive finds the number of a name in a tree that tests one bit of the name at
every branch, bits being counted from the top bit of the first byte. A leaf names a
string of the archive, which settles whether the name was the right one: branches
look at some of its bits only. -/

namespace ConsoleSound

/-- A branch or a leaf of a name tree. -/
structure NameNode where
  isLeaf : Bool
  /-- The bit that a branch tests. -/
  bit : UInt16
  /-- The child for names with the bit clear. -/
  left : UInt32
  /-- The child for names with the bit set. -/
  right : UInt32
  /-- The string of a leaf. -/
  stringIndex : Int32
  /-- What a leaf's string is the name of. -/
  id : Int32
  deriving DecidableEq, Repr

/-- The node stored at `pos`. -/
def NameNode.read (view : View) (pos : Nat) : Except Error NameNode := do
  let flags ← view.u16 pos
  let bit ← view.u16 (pos + 2)
  let left ← view.u32 (pos + 4)
  let right ← view.u32 (pos + 8)
  let stringIndex ← view.i32 (pos + 0x0c)
  let id ← view.i32 (pos + 0x10)
  return { isLeaf := flags.toNat % 2 = 1, bit, left, right, stringIndex, id }

/-- Whether a bit of a name is set; bits past its end are clear. -/
def nameBit (name : Bytes) (bit : Nat) : Bool :=
  (name.getD (bit / 8) 0).toNat.testBit (7 - bit % 8)

/-- The child of a branch on the way to a name. -/
def NameNode.next (node : NameNode) (name : Bytes) : UInt32 :=
  if nameBit name node.bit.toNat then node.right else node.left

/-- A tree of names, kept as a table of nodes. -/
structure NameTree where
  root : UInt32
  nodes : Array NameNode
  deriving DecidableEq, Repr

namespace NameTree

/-- The tree without names. -/
def empty : NameTree := ⟨0, #[]⟩

/-- The tree stored at `pos`. -/
def read (view : View) (pos : Nat) : Except Error NameTree := do
  let root ← view.u32 pos
  let nodes ← view.table (pos + 4) 0x14 (NameNode.read view)
  return { root, nodes := nodes.toArray }

/-- The leaf reached from node `index` within `steps` nodes, if there is one. -/
def walk (tree : NameTree) (name : Bytes) : (steps : Nat) → (index : UInt32) → Option NameNode
  | 0, _ => none
  | steps + 1, index => do
    let node ← tree.nodes[index.toNat]?
    if node.isLeaf then return node
    else tree.walk name steps (node.next name)

/-- The id of a name, given the strings that leaves refer to. No walk without a
repetition visits more nodes than there are. -/
def lookup (tree : NameTree) (string : Int32 → Option String) (name : String) : Option Int32 := do
  let leaf ← tree.walk name.toUTF8.data (tree.nodes.size + 1) tree.root
  if string leaf.stringIndex = some name then return leaf.id else none

end NameTree

end ConsoleSound

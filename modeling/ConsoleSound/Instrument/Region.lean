import ConsoleSound.Instrument.Params
import ConsoleSound.Reference
/-! # Regions

The program of a bank is a tree. Its first tier divides the keys, its second the
velocities, and its leaves are instrument parameters. `resolve` walks the tree for
one note; `flatten` lists the leaves with the keys and velocities that they cover. -/

namespace ConsoleSound

/-- A tree of keys and velocities with instruments at its leaves. -/
inductive Region where
  /-- One instrument for everything. -/
  | leaf (params : InstrumentParams)
  /-- Children with the highest key of each. -/
  | ranges (children : List (UInt8 × Region))
  /-- One child for every key from `min` up to but not including `max`. -/
  | indexed (min max : UInt8) (children : List Region)
  /-- No instrument. -/
  | silent
  deriving Repr, Inhabited

namespace Region

/-! ## Reading -/

/-- The tags that references to regions bear. -/
def leafTag : UInt8 := 1

/-- The tag of a region that divides by highest keys. -/
def rangesTag : UInt8 := 2

/-- The tag of a region with a child for every key. -/
def indexedTag : UInt8 := 3

/-- Levels of nesting below the root; deeper trees are taken for cycles. -/
def maxDepth : Nat := 8

/-- The distance from a range region to its references, which follow a count and as
many keys and are aligned to four bytes. -/
def rangesReferences (count : Nat) : Nat := (1 + count + 3) / 4 * 4

/-- The tree behind a reference, with at most `levels` levels. -/
def readWithin (view : View) (base : Nat) : (levels : Nat) → Reference → Except Error Region
  | 0, _ => malformed base .deepRegion
  | levels + 1, reference =>
    match reference.target? base with
    | none => .ok silent
    | some pos =>
      let child (entry : Nat) : Except Error Region := do
        readWithin view base levels (← Reference.read view entry)
      if reference.tag = leafTag then
        leaf <$> InstrumentParams.read view pos
      else if reference.tag = rangesTag then do
        let count ← view.u8 pos
        let keys ← view.bytes (pos + 1) count.toNat
        let references := pos + rangesReferences count.toNat
        ranges <$> keys.toList.zipIdx.mapM fun (key, index) => do
          return (key, ← child (references + index * Reference.size))
      else if reference.tag = indexedTag then do
        let min ← view.u8 pos
        let max ← view.u8 (pos + 1)
        indexed min max <$> (List.range (max.toNat - min.toNat)).mapM fun index =>
          child (pos + 4 + index * Reference.size)
      else .ok silent

/-- The tree behind a reference. References inside it are measured from `base`. -/
def read (view : View) (reference : Reference) (base : Nat) : Except Error Region :=
  readWithin view base (maxDepth + 1) reference

/-! ## Looking up a note -/

/-- The child that covers a key: a leaf covers every key by itself, and an index
region refuses keys that it has no child for. -/
def child (region : Region) (key : UInt8) : Except Error (Option Region) :=
  match region with
  | leaf _ => .ok (some region)
  | ranges children => .ok ((children.find? fun (bound, _) => key ≤ bound).map Prod.snd)
  | indexed min max children =>
    if key < min ∨ max ≤ key then .error (.keyOutOfDomain key min max)
    else .ok children[key.toNat - min.toNat]?
  | silent => .ok none

/-- The instrument reached by one key per tier, if there is one. -/
def resolve (region : Region) (keys : List UInt8) : Except Error (Option InstrumentParams) :=
  match region, keys with
  | leaf params, _ => .ok (some params)
  | silent, _ => .ok none
  | _, [] => .ok none
  | _, key :: keys => do
    match ← region.child key with
    | some child => child.resolve keys
    | none => return none

/-! ## Listing the leaves -/

/-- The sum of two bytes, at most 255. -/
def saturatingAdd (left right : UInt8) : UInt8 := UInt8.ofNat (min 255 (left.toNat + right.toNat))

/-- A tier's children that divide by highest keys, each from one past the key before it. -/
def rangeSpans : (lo : UInt8) → List (UInt8 × Region) → List (UInt8 × UInt8 × Region)
  | _, [] => []
  | lo, (hi, child) :: children => (lo, hi, child) :: rangeSpans (saturatingAdd hi 1) children

/-- The children of a tier with the lowest and the highest key of each. -/
def subregions (region : Region) : List (UInt8 × UInt8 × Region) :=
  match region with
  | leaf _ => [(0, 0x7f, region)]
  | ranges children => rangeSpans 0 children
  | indexed min _ children => children.zipIdx.map fun (child, index) =>
    let key := saturatingAdd min (UInt8.ofNat index)
    (key, key, child)
  | silent => []

end Region

/-- An instrument with the keys and velocities that play it. -/
structure Zone where
  keyLo : UInt8
  keyHi : UInt8
  velocityLo : UInt8
  velocityHi : UInt8
  params : InstrumentParams
  deriving DecidableEq, Repr

/-- Whether a note of some key and velocity plays a zone. -/
def Zone.covers (zone : Zone) (key velocity : UInt8) : Bool :=
  zone.keyLo ≤ key && key ≤ zone.keyHi && zone.velocityLo ≤ velocity && velocity ≤ zone.velocityHi

/-- Every leaf below a tier of keys and a tier of velocities. -/
def Region.flatten (region : Region) : List Zone :=
  region.subregions.flatMap fun (keyLo, keyHi, tier) =>
    tier.subregions.filterMap fun (velocityLo, velocityHi, region) =>
      match region with
      | .leaf params => some { keyLo, keyHi, velocityLo, velocityHi, params }
      | _ => none

end ConsoleSound

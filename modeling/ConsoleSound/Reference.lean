import ConsoleSound.View
/-! # References inside a container

Records point at one another by references of eight bytes: how the target is
measured, a tag that the target's reader may use, and the distance. -/

namespace ConsoleSound

/-- From where a reference is measured. -/
inductive ReferenceKind where
  /-- From the start of the file; zero points nowhere. -/
  | address
  /-- From a base that the reader of the record knows. -/
  | offset
  deriving DecidableEq, Repr

/-- A tagged pointer to another record. -/
structure Reference where
  kind : ReferenceKind
  tag : UInt8
  distance : UInt32
  deriving DecidableEq, Repr

namespace Reference

/-- The bytes that a stored reference takes. -/
def size : Nat := 8

/-- The reference stored at `pos`. -/
def read (view : View) (pos : Nat) : Except Error Reference := do
  let kind ← match ← view.u8 pos with
    | 0 => pure ReferenceKind.address
    | 1 => pure ReferenceKind.offset
    | other => malformed pos (.unknownReference other)
  let tag ← view.u8 (pos + 1)
  let distance ← view.u32 (pos + 4)
  return { kind, tag, distance }

/-- Whether a reference points nowhere. -/
def isNull (reference : Reference) : Bool :=
  reference.kind = .address && reference.distance = 0

/-- The position that a reference points at, measured from `base`. A distance that leads
beyond every position points nowhere. -/
def target? (reference : Reference) (base : Nat) : Option Nat :=
  let distance := reference.distance.toNat
  match reference.kind with
  | .address => if distance = 0 then none else some distance
  | .offset => if base + distance < positionLimit then some (base + distance) else none

/-- The position that a reference points at, where the format asks for one. -/
def target (reference : Reference) (base : Nat) (what : String) : Except Error Nat :=
  match reference.target? base with
  | some pos => .ok pos
  | none => malformed base (.nullReference what)

end Reference

namespace View

/-- Where the reference stored at `pos` points, measured from `base`. -/
def follow? (view : View) (pos base : Nat) : Except Error (Option Nat) :=
  (Reference.read view pos).map fun reference => reference.target? base

/-- Where the reference stored at `pos` points, where the format asks for a target. -/
def follow (view : View) (pos base : Nat) (what : String) : Except Error Nat := do
  (← Reference.read view pos).target base what

/-- The targets of the table of references at `pos`, null references included. -/
def targets (view : View) (pos base : Nat) : Except Error (List (Option Nat)) :=
  view.table pos Reference.size fun entry => view.follow? entry base

/-- The records behind the table of references at `pos`, null references left out. -/
def records {α : Type} (view : View) (pos base : Nat) (read : Nat → Except Error α) :
    Except Error (List α) := do
  ((← view.targets pos base).filterMap id).mapM read

end View

end ConsoleSound

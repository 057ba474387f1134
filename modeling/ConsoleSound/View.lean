import ConsoleSound.ByteOrder
import ConsoleSound.Text.Utf8
/-! # Checked views of container bytes

A view is the bytes of a file together with their byte order. Every read names
a position and either gives the value stored there or says that the buffer ends
too early, so readers of containers are chains of reads. -/

namespace ConsoleSound

/-- File contents that are read at arbitrary positions. -/
abbrev Bytes := Array UInt8

/-- The bytes of a file with their byte order. -/
structure View where
  data : Bytes
  order : ByteOrder
  deriving DecidableEq, Repr

/-- Positions are 64 bits wide, so a table or a reference that leads beyond has no end at
all. -/
def positionLimit : Nat := UInt64.size

namespace View

/-- The number of bytes of a view. -/
def size (view : View) : Nat := view.data.size

/-- The size and the order of a view, as a log shows them. -/
def describe (view : View) : String :=
  "View \x7b len: " ++ toString view.size ++ ", endian: " ++ view.order.name ++ " \x7d"

/-! ## Plain values -/

/-- The `length` bytes from `pos` on. -/
def bytes (view : View) (pos length : Nat) : Except Error Bytes :=
  if pos + length ≤ view.data.size then
    .ok (view.data.extract pos (pos + length))
  else
    malformed pos (.readPastEnd length view.data.size)

/-- The number that the `width` bytes from `pos` on spell. -/
def number (view : View) (pos width : Nat) : Except Error Nat :=
  (view.bytes pos width).map fun bytes => view.order.value bytes.toList

/-- The byte at `pos`. -/
def u8 (view : View) (pos : Nat) : Except Error UInt8 :=
  match view.data[pos]? with
  | some byte => .ok byte
  | none => malformed pos (.readPastEnd 1 view.data.size)

/-- The signed byte at `pos`. -/
def i8 (view : View) (pos : Nat) : Except Error Int8 := (view.u8 pos).map UInt8.toInt8

/-- The 16-bit word at `pos`. -/
def u16 (view : View) (pos : Nat) : Except Error UInt16 := (view.number pos 2).map UInt16.ofNat

/-- The signed 16-bit word at `pos`. -/
def i16 (view : View) (pos : Nat) : Except Error Int16 := (view.u16 pos).map UInt16.toInt16

/-- The 32-bit word at `pos`. -/
def u32 (view : View) (pos : Nat) : Except Error UInt32 := (view.number pos 4).map UInt32.ofNat

/-- The signed 32-bit word at `pos`. -/
def i32 (view : View) (pos : Nat) : Except Error Int32 := (view.u32 pos).map UInt32.toInt32

/-- The 32-bit word at `pos`, as a distance in bytes. -/
def offset (view : View) (pos : Nat) : Except Error Nat := (view.u32 pos).map UInt32.toNat

/-- The four-character code at `pos`. -/
def magic (view : View) (pos : Nat) : Except Error Magic := do
  Magic.ofFront (← view.bytes pos 4)

/-! ## Strings -/

/-- The bytes from `pos` up to the next zero byte, if there is one. -/
def beforeZero? (data : Bytes) (pos : Nat) : Option (List UInt8) :=
  if h : pos < data.size then
    if data[pos] = 0 then some [] else (beforeZero? data (pos + 1)).map (data[pos] :: ·)
  else none
termination_by data.size - pos

/-- The text from `pos` up to the next zero byte. -/
def cstr (view : View) (pos : Nat) : Except Error String :=
  if view.data.size < pos then malformed pos .stringPastEnd
  else match beforeZero? view.data pos with
    | some bytes => .ok (Text.decodeUtf8 bytes)
    | none => malformed pos .unterminatedString

/-! ## Tables -/

/-- The positions of the entries of the table at `pos`: a count, then entries
`stride` bytes apart. -/
def entries (view : View) (pos stride : Nat) : Except Error (List Nat) := do
  let count ← view.offset pos
  let first := pos + 4
  let last := count * stride + first
  if positionLimit ≤ last then
    malformed pos .tableOverflow
  else if view.data.size < last then
    malformed pos (.tableTooLong count)
  else
    return (List.range count).map fun index => first + index * stride

/-- The table at `pos`, each entry read by `read` at its position. -/
def table {α : Type} (view : View) (pos stride : Nat) (read : Nat → Except Error α) :
    Except Error (List α) := do
  (← view.entries pos stride).mapM read

end View

end ConsoleSound

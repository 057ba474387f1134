import ConsoleSound.Text.Byte
/-! # Four-character codes

Containers, their blocks and RIFF chunks are named by four bytes. A code
prints one character per byte, so bytes above 127 print as the characters
U+0080 to U+00FF. -/

namespace ConsoleSound

/-- The four bytes that name a container, a block or a chunk. -/
structure Magic where
  first : UInt8
  second : UInt8
  third : UInt8
  fourth : UInt8
  deriving DecidableEq, Repr, Inhabited

namespace Magic

/-- The bytes of a code in file order. -/
def bytes (magic : Magic) : List UInt8 :=
  [magic.first, magic.second, magic.third, magic.fourth]

/-- The code that exactly four bytes spell. -/
def ofBytes? : List UInt8 → Option Magic
  | [a, b, c, d] => some ⟨a, b, c, d⟩
  | _ => none

theorem ofBytes?_bytes (magic : Magic) : ofBytes? magic.bytes = some magic := rfl

/-- The code at the front of some data. -/
def front? (data : Array UInt8) : Option Magic := do
  return ⟨← data[0]?, ← data[1]?, ← data[2]?, ← data[3]?⟩

/-- The code that four ASCII characters spell. -/
def ofChars (a b c d : Char) : Magic :=
  ⟨UInt8.ofNat a.toNat, UInt8.ofNat b.toNat, UInt8.ofNat c.toNat, UInt8.ofNat d.toNat⟩

/-- The text of a code, one character per byte. -/
def text (magic : Magic) : String := Text.ofBytes magic.bytes

/-- A code as a log shows it. -/
def describe (magic : Magic) : String := "ID(" ++ magic.text ++ ")"

/-- The lower-case text of a code, as file extensions use it. -/
def lowerText (magic : Magic) : String := Text.lowerOfBytes magic.bytes

end Magic

end ConsoleSound

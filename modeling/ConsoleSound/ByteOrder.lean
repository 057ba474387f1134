import ConsoleSound.Error
/-! # Byte order

Numbers of several bytes are stored with the most or the least significant byte
first. The same two functions read and write them: `value` takes bytes to the
number that they spell, `spell` takes a number to its bytes. -/

namespace ConsoleSound

/-- Which end of a number is stored first. -/
inductive ByteOrder where
  | big
  | little
  deriving DecidableEq, Repr, Inhabited

namespace ByteOrder

/-- The order that a byte order mark announces. -/
def ofMark (first second : UInt8) : Except Error ByteOrder :=
  if first = 0xfe ∧ second = 0xff then .ok .big
  else if first = 0xff ∧ second = 0xfe then .ok .little
  else .error (.badByteOrder first second)

/-- The mark that announces an order: U+FEFF stored in it. -/
def mark : ByteOrder → List UInt8
  | big => [0xfe, 0xff]
  | little => [0xff, 0xfe]

/-- The console stores numbers with the most significant byte first. -/
def isNative : ByteOrder → Bool
  | big => true
  | little => false

/-- The name of an order. -/
def name : ByteOrder → String
  | big => "Big"
  | little => "Little"

/-- The number that bytes spell, most significant byte first. -/
def bigValue (bytes : List UInt8) : Nat :=
  bytes.foldl (fun value byte => value * 256 + byte.toNat) 0

/-- The number that bytes spell in an order. -/
def value : ByteOrder → List UInt8 → Nat
  | big, bytes => bigValue bytes
  | little, bytes => bigValue bytes.reverse

/-- The lowest `width` bytes of a number, least significant byte first. -/
def littleSpell : (width value : Nat) → List UInt8
  | 0, _ => []
  | width + 1, value => UInt8.ofNat (value % 256) :: littleSpell width (value / 256)

/-- The lowest `width` bytes of a number in an order. -/
def spell : ByteOrder → (width value : Nat) → List UInt8
  | big, width, value => (littleSpell width value).reverse
  | little, width, value => littleSpell width value

@[simp] theorem littleSpell_length (width value : Nat) :
    (littleSpell width value).length = width := by
  induction width generalizing value with
  | zero => rfl
  | succ width ih => simp [littleSpell, ih]

@[simp] theorem spell_length (order : ByteOrder) (width value : Nat) :
    (order.spell width value).length = width := by
  cases order <;> simp [spell]

/-- A number with its two bytes exchanged. -/
def swap16 (value : UInt16) : UInt16 :=
  UInt16.ofNat (bigValue (littleSpell 2 value.toNat))

/-- A number with its four bytes in reverse. -/
def swap32 (value : UInt32) : UInt32 :=
  UInt32.ofNat (bigValue (littleSpell 4 value.toNat))

end ByteOrder

end ConsoleSound

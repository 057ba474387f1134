/-! # Bytes shown as characters

Four-character codes and file extensions show each byte as one character;
case and letters are those of ASCII. -/

namespace ConsoleSound.Text

/-- The character U+0000 to U+00FF that shows a byte. -/
def byteChar (byte : UInt8) : Char := Char.ofNat byte.toNat

/-- The lower-case form of an ASCII letter; any other byte is kept. -/
def lowerByte (byte : UInt8) : UInt8 :=
  if 0x41 ≤ byte ∧ byte ≤ 0x5a then byte + 0x20 else byte

/-- ASCII letters and digits. -/
def isAlphanumeric (byte : UInt8) : Bool :=
  (0x30 ≤ byte && byte ≤ 0x39) || (0x41 ≤ byte && byte ≤ 0x5a) || (0x61 ≤ byte && byte ≤ 0x7a)

/-- One character per byte. -/
def ofBytes (bytes : List UInt8) : String := String.ofList (bytes.map byteChar)

/-- One character per byte, letters in lower case. -/
def lowerOfBytes (bytes : List UInt8) : String :=
  String.ofList (bytes.map fun byte => byteChar (lowerByte byte))

end ConsoleSound.Text

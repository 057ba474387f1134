/-! # Hexadecimal text

Positions and opcodes are shown in lower-case hexadecimal, padded on the left
with zeros to a least width. -/

namespace ConsoleSound.Text

/-- The lower-case hexadecimal digits of `value`, without leading zeros. -/
def hex (value : Nat) : String := String.ofList (Nat.toDigits 16 value)

/-- The hexadecimal digits of `value`, with zeros in front up to `width` digits. -/
def hexPadded (width value : Nat) : String :=
  let digits := Nat.toDigits 16 value
  String.ofList (List.replicate (width - digits.length) '0' ++ digits)

end ConsoleSound.Text

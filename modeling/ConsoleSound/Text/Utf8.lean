import ConsoleSound.Text.Byte
/-! # Text stored as UTF-8

Names are stored as bytes that ought to be UTF-8. Decoding never fails: each
longest run of bytes that starts a character but cannot finish it, and each
byte that cannot start one, becomes one replacement character. -/

namespace ConsoleSound.Text

/-- The character that stands for bytes that are not UTF-8. -/
def replacement : Char := Char.ofNat 0xfffd

/-- Whether a byte continues a character of several bytes. -/
def isContinuation (byte : UInt8) : Bool := 0x80 ≤ byte && byte ≤ 0xbf

/-- The low six bits that a continuation byte carries. -/
def continuationBits (byte : UInt8) : Nat := byte.toNat % 64

/-- The number of bytes that a lead byte announces, one for a byte that leads nothing. -/
def announcedLength (lead : UInt8) : Nat :=
  if 0xc2 ≤ lead && lead ≤ 0xdf then 2
  else if 0xe0 ≤ lead && lead ≤ 0xef then 3
  else if 0xf0 ≤ lead && lead ≤ 0xf4 then 4
  else 1

/-- The second bytes allowed after a lead byte: neither overlong forms, nor
surrogates, nor values above U+10FFFF. -/
def allowsSecond (lead second : UInt8) : Bool :=
  if lead = 0xe0 then 0xa0 ≤ second && second ≤ 0xbf
  else if lead = 0xed then 0x80 ≤ second && second ≤ 0x9f
  else if lead = 0xf0 then 0x90 ≤ second && second ≤ 0xbf
  else if lead = 0xf4 then 0x80 ≤ second && second ≤ 0x8f
  else isContinuation second

/-- The first character of the bytes `lead :: rest`, and the number of bytes of
`rest` that belong to it. -/
def firstChar (lead : UInt8) (rest : List UInt8) : Char × Nat :=
  if lead < 0x80 then (byteChar lead, 0)
  else match announcedLength lead, rest with
    | 2, b :: _ =>
      if isContinuation b then
        (Char.ofNat (lead.toNat % 32 * 64 + continuationBits b), 1)
      else (replacement, 0)
    | 3, b :: more =>
      if allowsSecond lead b then
        match more with
        | c :: _ =>
          if isContinuation c then
            (Char.ofNat (lead.toNat % 16 * 4096 + continuationBits b * 64 + continuationBits c), 2)
          else (replacement, 1)
        | [] => (replacement, 1)
      else (replacement, 0)
    | 4, b :: more =>
      if allowsSecond lead b then
        match more with
        | c :: more =>
          if isContinuation c then
            match more with
            | d :: _ =>
              if isContinuation d then
                (Char.ofNat (lead.toNat % 8 * 262144 + continuationBits b * 4096
                  + continuationBits c * 64 + continuationBits d), 3)
              else (replacement, 2)
            | [] => (replacement, 2)
          else (replacement, 1)
        | [] => (replacement, 1)
      else (replacement, 0)
    | _, _ => (replacement, 0)

/-- The characters that a byte sequence spells. -/
def decodeChars : List UInt8 → List Char
  | [] => []
  | lead :: rest =>
    let (char, taken) := firstChar lead rest
    char :: decodeChars (rest.drop taken)
termination_by bytes => bytes.length
decreasing_by simp only [List.length_drop, List.length_cons]; omega

/-- The text that a byte sequence spells. -/
def decodeUtf8 (bytes : List UInt8) : String := String.ofList (decodeChars bytes)

end ConsoleSound.Text

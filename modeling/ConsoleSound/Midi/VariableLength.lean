/-! # Variable-length quantities

MIDI files write a number seven bits at a time, most significant group first;
every byte but the last has its top bit set. Numbers of 32 bits take at most five
bytes, and no shorter form exists for any of them. -/

namespace ConsoleSound.Midi

/-- The groups of a number that come before its last one, at most `groups` of them. -/
def leadingGroups : (groups rest : Nat) → List UInt8
  | 0, _ => []
  | groups + 1, rest =>
    if rest = 0 then []
    else leadingGroups groups (rest / 128) ++ [UInt8.ofNat (rest % 128 + 128)]

/-- The variable-length form of a number. -/
def variableLength (value : UInt32) : List UInt8 :=
  leadingGroups 4 (value.toNat / 128) ++ [UInt8.ofNat (value.toNat % 128)]

end ConsoleSound.Midi

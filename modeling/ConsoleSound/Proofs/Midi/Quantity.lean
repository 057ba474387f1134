import Mathlib.Algebra.Group.Nat.Defs
import ConsoleSound.Midi.VariableLength
/-! # Quantities read back

A quantity of variable length is read front to back: every byte adds seven bits to what
the bytes before it spelled, and the first byte below 128 is the last one. Reading what
`variableLength` wrote gives the number back and leaves what follows it alone
(`readQuantity?_variableLength`). So no quantity is the start of another one
(`eq_of_prefix_variableLength`), and none is longer than the groups of its number
(`length_variableLength_le`). -/

namespace ConsoleSound.Midi

/-- The number that at most `groups` bytes spell behind those that spelled `value`, and
the bytes after them. -/
def readGroups? : (groups value : Nat) → List UInt8 → Option (Nat × List UInt8)
  | 0, _, _ => none
  | _ + 1, _, [] => none
  | groups + 1, value, byte :: bytes =>
    let value := value * 128 + byte.toNat % 128
    if byte < 0x80 then some (value, bytes) else readGroups? groups value bytes

/-- The quantity at the front of some bytes, of five bytes at most, and the bytes after it. -/
def readQuantity? (bytes : List UInt8) : Option (Nat × List UInt8) := readGroups? 5 0 bytes

/-- Reading a quantity takes a byte at least. -/
theorem readGroups?_length {groups value number : Nat} {bytes rest : List UInt8}
    (h : readGroups? groups value bytes = some (number, rest)) : rest.length < bytes.length := by
  induction groups generalizing value bytes with
  | zero => exact nomatch h
  | succ groups ih =>
      cases bytes with
      | nil => exact nomatch h
      | cons byte bytes =>
          rw [readGroups?] at h
          split at h
          · rw [(Prod.mk.inj (Option.some.inj h)).2]
            exact Nat.lt_succ_self _
          · exact Nat.lt_succ_of_lt (ih h)

/-! ## What was written -/

theorem length_leadingGroups_le (groups rest : Nat) :
    (leadingGroups groups rest).length ≤ groups := by
  induction groups generalizing rest with
  | zero => exact Nat.le_refl 0
  | succ groups ih =>
      rw [leadingGroups]
      split
      · exact Nat.zero_le _
      · rw [List.length_append]
        exact Nat.succ_le_succ (ih (rest / 128))

/-- The leading groups of a number spell it. -/
theorem readGroups?_leadingGroups {groups rest : Nat} (hrest : rest < 128 ^ groups)
    (more : Nat) (bytes : List UInt8) :
    readGroups? (more + (leadingGroups groups rest).length) 0 (leadingGroups groups rest ++ bytes)
      = readGroups? more rest bytes := by
  induction groups generalizing rest more bytes with
  | zero =>
      obtain rfl : rest = 0 := Nat.lt_one_iff.mp hrest
      rfl
  | succ groups ih =>
      rw [leadingGroups]
      split
      · next hzero => rw [hzero]; rfl
      · -- the last of the leading groups comes after those of the quotient
        have hquotient : rest / 128 < 128 ^ groups :=
          Nat.div_lt_of_lt_mul (Nat.pow_succ' ▸ hrest)
        have hbyte : (UInt8.ofNat (rest % 128 + 128)).toNat = rest % 128 + 128 :=
          UInt8.toNat_ofNat_of_lt' (by show _ < 256; omega)
        have hcontinues : ¬ UInt8.ofNat (rest % 128 + 128) < 0x80 := by
          rw [UInt8.lt_iff_toNat_lt, hbyte]
          show ¬ rest % 128 + 128 < 128
          omega
        rw [List.length_append, List.length_singleton, List.append_assoc, ← Nat.add_assoc,
          Nat.add_right_comm, ih hquotient, List.singleton_append, readGroups?, if_neg hcontinues,
          hbyte]
        congr 1
        omega

/-- **A quantity is read back**, whatever follows it. -/
theorem readQuantity?_variableLength (value : UInt32) (bytes : List UInt8) :
    readQuantity? (variableLength value ++ bytes) = some (value.toNat, bytes) := by
  have hvalue : value.toNat / 128 < 128 ^ 4 := by
    have hlt := value.toNat_lt
    omega
  have hlength := length_leadingGroups_le 4 (value.toNat / 128)
  -- at least one of the five bytes is left for the last group
  obtain ⟨more, hmore⟩ : ∃ more, 5 = more + 1 + (leadingGroups 4 (value.toNat / 128)).length :=
    ⟨4 - (leadingGroups 4 (value.toNat / 128)).length, by omega⟩
  have hbyte : (UInt8.ofNat (value.toNat % 128)).toNat = value.toNat % 128 :=
    UInt8.toNat_ofNat_of_lt' (by show _ < 256; omega)
  have hlast : UInt8.ofNat (value.toNat % 128) < 0x80 := by
    rw [UInt8.lt_iff_toNat_lt, hbyte]
    exact Nat.mod_lt _ (by decide)
  rw [readQuantity?, variableLength, List.append_assoc, hmore, readGroups?_leadingGroups hvalue,
    List.singleton_append, readGroups?, if_pos hlast, hbyte]
  congr 2
  omega

/-- A quantity ends where it says, so it is not the start of another one. -/
theorem eq_of_prefix_variableLength {value other : UInt32}
    (h : variableLength value <+: variableLength other) : value = other := by
  obtain ⟨bytes, hbytes⟩ := h
  have hvalue := readQuantity?_variableLength value bytes
  have hother := readQuantity?_variableLength other []
  rw [List.append_nil, ← hbytes, hvalue] at hother
  exact UInt32.toNat_inj.mp (Prod.mk.inj (Option.some.inj hother)).1

/-! ## The length of what was written -/

/-- There is no leading group in front of the first digit of the number. -/
theorem length_leadingGroups_le_of_lt {groups rest width : Nat} (h : rest < 128 ^ width) :
    (leadingGroups groups rest).length ≤ width := by
  induction groups generalizing rest width with
  | zero => exact Nat.zero_le width
  | succ groups ih =>
      rw [leadingGroups]
      split
      · exact Nat.zero_le width
      · next hpositive =>
          obtain ⟨width, rfl⟩ : ∃ fewer, width = fewer + 1 := by
            refine Nat.exists_eq_succ_of_ne_zero ?_
            rintro rfl
            exact hpositive (Nat.lt_one_iff.mp h)
          rw [List.length_append]
          exact Nat.succ_le_succ (ih (Nat.div_lt_of_lt_mul (Nat.pow_succ' ▸ h)))

theorem length_variableLength (value : UInt32) :
    (variableLength value).length = (leadingGroups 4 (value.toNat / 128)).length + 1 := by
  rw [variableLength, List.length_append, List.length_singleton]

/-- A number below a power of 128 takes no more bytes than the exponent says. -/
theorem length_variableLength_le {value : UInt32} {width : Nat}
    (h : value.toNat < 128 ^ (width + 1)) : (variableLength value).length ≤ width + 1 := by
  rw [length_variableLength]
  exact Nat.succ_le_succ
    (length_leadingGroups_le_of_lt (Nat.div_lt_of_lt_mul (Nat.pow_succ' ▸ h)))

end ConsoleSound.Midi

import Mathlib.Algebra.Group.Nat.Defs
import ConsoleSound.ByteOrder
/-! # Numbers read back from their bytes

`ByteOrder.spell` keeps the lowest bytes of a number, and `ByteOrder.value` reads
bytes in the same order, so what was written comes back modulo `256 ^ width`
(`value_spell`), and what was read is written as before (`spell_value`). -/

namespace ConsoleSound

namespace ByteOrder

theorem bigValue_append (bytes : List UInt8) (byte : UInt8) :
    bigValue (bytes ++ [byte]) = bigValue bytes * 256 + byte.toNat := by
  simp [bigValue]

theorem bigValue_littleSpell_reverse (width value : Nat) :
    bigValue (littleSpell width value).reverse = value % 256 ^ width := by
  induction width generalizing value with
  | zero => simp [littleSpell, bigValue, Nat.mod_one]
  | succ width ih =>
    -- the last byte holds the remainder, the bytes before it hold the quotient
    rw [littleSpell, List.reverse_cons, bigValue_append, ih, UInt8.toNat_ofNat', Nat.mod_mod,
      Nat.pow_succ', Nat.mod_mul, Nat.add_comm, Nat.mul_comm]

/-- Reading what was written gives the number back, less what the width cuts off. -/
theorem value_spell (order : ByteOrder) (width value : Nat) :
    order.value (order.spell width value) = value % 256 ^ width := by
  cases order with
  | big => exact bigValue_littleSpell_reverse width value
  | little => exact bigValue_littleSpell_reverse width value

theorem bigValue_reverse_lt (bytes : List UInt8) :
    bigValue bytes.reverse < 256 ^ bytes.length := by
  induction bytes with
  | nil => exact Nat.one_pos
  | cons byte bytes ih =>
    have hbyte : byte.toNat < 256 := byte.toNat_lt
    rw [List.reverse_cons, bigValue_append, List.length_cons, Nat.pow_succ]
    omega

theorem value_lt (order : ByteOrder) (bytes : List UInt8) :
    order.value bytes < 256 ^ bytes.length := by
  cases order with
  | big =>
    have h := bigValue_reverse_lt bytes.reverse
    rw [List.reverse_reverse, List.length_reverse] at h
    exact h
  | little => exact bigValue_reverse_lt bytes

theorem littleSpell_bigValue_reverse (bytes : List UInt8) :
    littleSpell bytes.length (bigValue bytes.reverse) = bytes := by
  induction bytes with
  | nil => rfl
  | cons byte bytes ih =>
    have hbyte : byte.toNat < 256 := byte.toNat_lt
    have hlast : (bigValue bytes.reverse * 256 + byte.toNat) % 256 = byte.toNat := by omega
    have hrest : (bigValue bytes.reverse * 256 + byte.toNat) / 256 = bigValue bytes.reverse := by
      omega
    rw [List.reverse_cons, bigValue_append, List.length_cons, littleSpell, hlast, hrest, ih,
      UInt8.ofNat_toNat]

/-- Writing what was read gives the bytes back. -/
theorem spell_value (order : ByteOrder) (bytes : List UInt8) :
    order.spell bytes.length (order.value bytes) = bytes := by
  cases order with
  | big =>
    have h := littleSpell_bigValue_reverse bytes.reverse
    rw [List.reverse_reverse, List.length_reverse] at h
    show (littleSpell bytes.length (bigValue bytes)).reverse = bytes
    rw [h, List.reverse_reverse]
  | little => exact littleSpell_bigValue_reverse bytes

theorem spell_one (order : ByteOrder) (byte : UInt8) : order.spell 1 byte.toNat = [byte] := by
  have hlow : littleSpell 1 byte.toNat = [byte] := by
    rw [littleSpell, littleSpell, Nat.mod_eq_of_lt byte.toNat_lt, UInt8.ofNat_toNat]
  cases order with
  | big => exact congrArg List.reverse hlow
  | little => exact hlow

end ByteOrder

end ConsoleSound

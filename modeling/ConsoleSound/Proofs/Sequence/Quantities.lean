import ConsoleSound.Proofs.Midi.Quantity
import ConsoleSound.Proofs.Sequence.Readers
/-! # Quantities in bytecode

Tracks store numbers as MIDI files do, but read them more freely: no more than five bytes are looked
at, whether or not the fifth of them ends the number, and what does not fit 32 bits is lost. Where a
MIDI file has a number, a track reads what is left of it (`quantityFrom_of_readGroups?`), so what
was written is read back (`quantity_variableLength`).

A number does not get shorter by being read so freely. No byte makes it more than 128 times as large
(`exists_width_of_quantityFrom`), so it takes at least the bytes that are written for it
(`quantity_shortestWritten`). -/

namespace ConsoleSound

namespace Bytecode

open Midi (variableLength readGroups? readQuantity?_variableLength)

/-- One byte of a quantity, which ends it or not. -/
theorem quantityFrom_succ {code : Bytes} {pos : Nat} {group : UInt8}
    (h : byte code pos = .ok group) (groups : Nat) (value : UInt32) :
    quantityFrom code (groups + 1) value pos
      = if group < 0x80 then .ok (UInt32.ofNat (value.toNat * 128 + group.toNat % 128), pos + 1)
        else quantityFrom code groups (UInt32.ofNat (value.toNat * 128 + group.toNat % 128))
          (pos + 1) := by
  rw [quantityFrom, h]
  rfl

/-! ## Reading what was written -/

theorem byte_append_cons (front bytes : List UInt8) (group : UInt8) :
    byte (front ++ group :: bytes).toArray front.length = .ok group :=
  byte_eq_ok_iff.mpr (by simp)

/-- What does not fit 32 bits is lost at the end as well as at each group. -/
theorem ofNat_toNat_mul_add (value group : Nat) :
    UInt32.ofNat ((UInt32.ofNat value).toNat * 128 + group)
      = UInt32.ofNat (value * 128 + group) := by
  apply UInt32.toNat_inj.mp
  simp only [UInt32.toNat_ofNat']
  omega

/-- Where some bytes hold a number, a track reads what is left of it in 32 bits. -/
theorem quantityFrom_of_readGroups? {groups value number : Nat} {bytes rest : List UInt8}
    (h : readGroups? groups value bytes = some (number, rest)) (front : List UInt8) :
    ∃ next, quantityFrom (front ++ bytes).toArray groups (UInt32.ofNat value) front.length
        = .ok (UInt32.ofNat number, next)
      ∧ next + rest.length = front.length + bytes.length := by
  induction groups generalizing value bytes front with
  | zero => exact nomatch h
  | succ groups ih =>
      cases bytes with
      | nil => exact nomatch h
      | cons group bytes =>
          rw [quantityFrom_succ (byte_append_cons front bytes group), ofNat_toNat_mul_add]
          rw [readGroups?] at h
          split at h
          · next hlast =>
              obtain ⟨rfl, rfl⟩ := Prod.mk.inj (Option.some.inj h)
              refine ⟨front.length + 1, if_pos hlast, ?_⟩
              rw [List.length_cons, Nat.add_assoc, Nat.add_comm 1]
          · next hcontinues =>
              -- the byte that has been read stands in front of the others
              obtain ⟨next, hnext, hlength⟩ := ih h (front ++ [group])
              rw [List.append_assoc, List.singleton_append, List.length_append,
                List.length_singleton] at hnext
              rw [List.length_append, List.length_singleton] at hlength
              refine ⟨next, (if_neg hcontinues).trans hnext, ?_⟩
              rw [hlength, List.length_cons, Nat.add_assoc, Nat.add_comm 1]

/-- A number that was written is read back, whatever stands around it. -/
theorem quantity_variableLength (value : UInt32) (front rest : Bytes) :
    quantity (front ++ (variableLength value).toArray ++ rest) front.size
      = .ok (value, front.size + (variableLength value).length) := by
  obtain ⟨next, hnext, hlength⟩ := quantityFrom_of_readGroups?
    (readQuantity?_variableLength value rest.toList) front.toList
  have hcode : (front.toList ++ (variableLength value ++ rest.toList)).toArray
      = front ++ (variableLength value).toArray ++ rest := by simp
  rw [List.length_append, Array.length_toList, Array.length_toList] at hlength
  rw [hcode, Array.length_toList, UInt32.ofNat_toNat] at hnext
  obtain rfl : next = front.size + (variableLength value).length := by omega
  exact hnext

/-! ## The length of what is read -/

/-- With each byte that is read a number gets 128 times as large at most. -/
theorem exists_width_of_quantityFrom {code : Bytes} {groups : Nat} {value number : UInt32}
    {pos next : Nat} (h : quantityFrom code groups value pos = .ok (number, next)) :
    ∃ width, next = pos + width ∧ (0 < groups → 0 < width)
      ∧ number.toNat < (value.toNat + 1) * 128 ^ width := by
  induction groups generalizing value pos with
  | zero =>
      obtain ⟨rfl, rfl⟩ := Prod.mk.inj (Except.ok.inj h)
      refine ⟨0, rfl, fun hgroups => hgroups, ?_⟩
      rw [Nat.pow_zero, Nat.mul_one]
      exact Nat.lt_succ_self _
  | succ groups ih =>
      obtain ⟨group, hgroup, -⟩ := Checked.bind_eq_ok_iff.mp h
      rw [quantityFrom_succ hgroup] at h
      have hvalue : (UInt32.ofNat (value.toNat * 128 + group.toNat % 128)).toNat + 1
          ≤ (value.toNat + 1) * 128 := by
        have hleft := Nat.mod_le (value.toNat * 128 + group.toNat % 128) (2 ^ 32)
        have hlow := Nat.mod_lt group.toNat (show 0 < 128 by decide)
        rw [UInt32.toNat_ofNat']
        omega
      split at h
      · obtain ⟨rfl, rfl⟩ := Prod.mk.inj (Except.ok.inj h)
        exact ⟨1, rfl, fun _ => Nat.one_pos, by rwa [Nat.pow_one]⟩
      · obtain ⟨width, rfl, -, hnumber⟩ := ih h
        refine ⟨width + 1, by rw [Nat.add_assoc, Nat.add_comm 1], fun _ => Nat.succ_pos width, ?_⟩
        calc number.toNat
            < _ * 128 ^ width := hnumber
          _ ≤ (value.toNat + 1) * 128 * 128 ^ width := Nat.mul_le_mul_right _ hvalue
          _ = (value.toNat + 1) * 128 ^ (width + 1) := by rw [Nat.mul_assoc, Nat.pow_succ']

/-- No number is read from fewer bytes than are written for it. -/
theorem length_variableLength_le_of_quantity {code : Bytes} {pos next : Nat} {value : UInt32}
    (h : quantity code pos = .ok (value, next)) :
    pos + (variableLength value).length ≤ next := by
  obtain ⟨width, rfl, hpositive, hvalue⟩ := exists_width_of_quantityFrom h
  obtain ⟨fewer, rfl⟩ := Nat.exists_eq_add_of_lt (hpositive (by decide))
  rw [Nat.zero_add] at hvalue ⊢
  rw [UInt32.toNat_zero, Nat.zero_add, Nat.one_mul] at hvalue
  exact Nat.add_le_add_left (Midi.length_variableLength_le hvalue) pos

/-- **A number that was written is read back, and no shorter form of it would be.** Whatever stands
before and behind the one to five bytes that are written for a number, reading at their place gives
the number and ends right behind them. Wherever else the number is read, it takes as many bytes at
least. And what is written for a number never starts with what is written for another one. -/
theorem quantity_shortestWritten (value : UInt32) :
    (∀ front rest : Bytes,
      quantity (front ++ (variableLength value).toArray ++ rest) front.size
        = .ok (value, front.size + (variableLength value).length))
    ∧ 1 ≤ (variableLength value).length ∧ (variableLength value).length ≤ 5
    ∧ (∀ (code : Bytes) (pos next : Nat), quantity code pos = .ok (value, next) →
        pos + (variableLength value).length ≤ next)
    ∧ ∀ other, other ≠ value → ¬variableLength other <+: variableLength value := by
  have hlt : value.toNat < 128 ^ (4 + 1) := Nat.lt_trans value.toNat_lt (by decide)
  refine ⟨quantity_variableLength value, ?_, Midi.length_variableLength_le hlt,
    fun code pos next h => length_variableLength_le_of_quantity h,
    fun other hne hstart => hne (Midi.eq_of_prefix_variableLength hstart)⟩
  rw [Midi.length_variableLength]
  exact Nat.succ_pos _

/-- Five bytes can be read as 128, for which two are written: all that the first of them says is
lost, and the last is read although it does not end the number. -/
theorem quantity_shortestWritten_lostBits :
    quantity #[0xf0, 0x80, 0x80, 0x81, 0x80] 0 = .ok (0x80, 5)
    ∧ variableLength 0x80 = [0x81, 0x00]
    ∧ 0 + (variableLength 0x80).length ≤ 5
    ∧ ¬variableLength 0x01 <+: variableLength 0x80 := by
  have hread : quantity #[0xf0, 0x80, 0x80, 0x81, 0x80] 0 = .ok (0x80, 5) := by rfl
  obtain ⟨-, -, -, hshortest, hapart⟩ := quantity_shortestWritten 0x80
  exact ⟨hread, by decide, hshortest _ 0 5 hread, hapart 0x01 (by decide)⟩

end Bytecode

end ConsoleSound

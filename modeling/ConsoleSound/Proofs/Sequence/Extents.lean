import Mathlib.Logic.ExistsUnique
import ConsoleSound.Proofs.Sequence.Reading
/-! # The extent of an instruction

An instruction is read from the bytes up to the offset after it, and from all of them, by a reader
of at most seven bytes (`Instruction.isReader_readIn`). So its extent is the same in every code that
has these bytes there (`Instruction.read_agree`), and a code that is cut short within it is
truncated (`Instruction.read_cut`).

Extents do not meet: the lines of a listing that ends without an error tile the code
(`Instruction.tiles_list`), and every byte of it belongs to exactly one of them
(`Instruction.Tiles.existsUnique`). -/

namespace ConsoleSound

namespace Instruction

open Bytecode

variable {code : Bytes} {offset next : Nat} {register register' : ArgumentRegister}
  {instruction : Instruction}

theorem length_le (h : read code offset register = (.ok (instruction, next), register')) :
    next - offset ≤ 7 := by
  have hwidth := ((isReader_readIn _).needsAll (readIn_of_read h)).1
  omega

/-- An instruction is the same in every code that has its bytes at its offset. -/
theorem read_agree (h : read code offset register = (.ok (instruction, next), register'))
    {other : Bytes} (hagree : Agree code offset next other offset) :
    read other offset register = (.ok (instruction, next), register') := by
  obtain ⟨hle, -, hmoved⟩ := (isReader_readIn _).isLocal (readIn_of_read h)
  have hother := hmoved other offset hagree
  rw [Nat.add_sub_cancel' hle] at hother
  rw [read_of_readIn hother, register_of_read h]

/-- An instruction that the code ends in is truncated. -/
theorem read_cut (h : read code offset register = (.ok (instruction, next), register')) {cut : Nat}
    (hoffset : offset ≤ cut) (hcut : cut < next) :
    ∃ place, offset ≤ place ∧ place ≤ cut
      ∧ (read (code.extract 0 cut) offset register).1 = .error (.truncated place) := by
  obtain ⟨place, hge, hle, herror⟩ :=
    ((isReader_readIn _).needsAll (readIn_of_read h)).2 cut hoffset hcut
  exact ⟨place, hge, hle, by rw [fst_read, herror]⟩

/-! ## Listings -/

/-- Lines that tile a code from an offset up to its end: each shows the instruction that is read
at its offset, under the override that the line before leaves, and the next line starts where this
instruction ends. -/
inductive Tiles (code : Bytes) : Nat → ArgumentRegister → List Line → Prop where
  | done (register : ArgumentRegister) : Tiles code code.size register []
  | line {offset next : Nat} {register register' : ArgumentRegister} {instruction : Instruction}
      {lines : List Line} :
      read code offset register = (.ok (instruction, next), register') →
      Tiles code next register' lines →
      Tiles code offset register (⟨offset, instruction, register'⟩ :: lines)

/-- There are never more instructions than bytes, so a listing ends with the code. -/
theorem tiles_listFrom {count : Nat} {lines : List Line} (hstart : offset ≤ code.size)
    (hcount : code.size ≤ offset + count)
    (h : listFrom code count offset register = (lines, none)) :
    Tiles code offset register lines := by
  induction count generalizing offset register lines with
  | zero =>
      obtain rfl : offset = code.size := by omega
      cases h
      exact .done register
  | succ count ih =>
      rw [listFrom] at h
      split at h
      · obtain rfl : offset = code.size := by omega
        cases h
        exact .done register
      · split at h
        · exact nomatch h
        · next instruction next register' hread =>
            rcases hrest : listFrom code count next register' with ⟨rest, error?⟩
            rw [hrest] at h
            cases h
            obtain ⟨hlt, hle⟩ := read_bounds hread
            exact .line hread (ih hle (by omega) hrest)

theorem tiles_list {lines : List Line} (hstart : offset ≤ code.size)
    (h : list code offset = (lines, none)) : Tiles code offset none lines :=
  tiles_listFrom hstart (Nat.le_add_left _ _) h

/-- Where the lines of a listing start, and where the code ends. -/
def borders (code : Bytes) (lines : List Line) : List Nat := lines.map Line.offset ++ [code.size]

/-- Whether a place lies between the start of the line of an index and the border behind it. -/
def StandsOn (code : Bytes) (lines : List Line) (index place : Nat) : Prop :=
  ∃ start stop, (borders code lines)[index]? = some start
    ∧ (borders code lines)[index + 1]? = some stop ∧ start ≤ place ∧ place < stop

namespace Tiles

variable {lines : List Line}

theorem borders_zero (h : Tiles code offset register lines) :
    (borders code lines)[0]? = some offset := by
  cases h <;> rfl

theorem le_of_border (h : Tiles code offset register lines) {index border : Nat}
    (hborder : (borders code lines)[index]? = some border) : offset ≤ border := by
  induction h generalizing index with
  | done register =>
      obtain ⟨-, rfl⟩ := List.getElem?_eq_some_iff.mp hborder
      simp [borders]
  | line hread hrest ih =>
      cases index with
      | zero => exact Nat.le_of_eq (Option.some.inj hborder)
      | succ index => exact Nat.le_trans (Nat.le_of_lt (read_bounds hread).1) (ih hborder)

/-- Every byte belongs to exactly one line. -/
theorem existsUnique (h : Tiles code offset register lines) {place : Nat} (hplace : offset ≤ place)
    (hend : place < code.size) : ∃! index, StandsOn code lines index place := by
  induction h with
  | done register => omega
  | @line offset next register register' instruction lines hread hrest ih =>
      by_cases hfirst : place < next
      · refine ⟨0, ⟨offset, next, rfl, hrest.borders_zero, hplace, hfirst⟩, ?_⟩
        rintro (_ | index) ⟨start, stop, hstart, -, hle, -⟩
        · rfl
        · have hlater := hrest.le_of_border hstart
          omega
      · obtain ⟨index, ⟨start, stop, hstart, hstop, hle, hlt⟩, hunique⟩ := ih (Nat.not_lt.mp hfirst)
        refine ⟨index + 1, ⟨start, stop, hstart, hstop, hle, hlt⟩, ?_⟩
        rintro (_ | other) ⟨start', stop', hstart', hstop', hle', hlt'⟩
        · have hnext : next = stop' := Option.some.inj (hrest.borders_zero.symm.trans hstop')
          omega
        · rw [hunique other ⟨start', stop', hstart', hstop', hle', hlt'⟩]

end Tiles

/-- The extent of an instruction is what it needs: at least one byte and at most seven, inside the
code, the same in every code with these bytes, and none to spare. So a code that can be listed
without an error is divided among the instructions of the listing. -/
theorem extent_exact (code : Bytes) :
    (∀ offset register instruction next register',
      read code offset register = (.ok (instruction, next), register') →
      offset < next ∧ next ≤ code.size ∧ next - offset ≤ 7
        ∧ (∀ other, Agree code offset next other offset →
            read other offset register = (.ok (instruction, next), register'))
        ∧ ∀ cut, offset ≤ cut → cut < next →
            ∃ place, offset ≤ place ∧ place ≤ cut
              ∧ (read (code.extract 0 cut) offset register).1 = .error (.truncated place))
    ∧ ∀ lines, list code 0 = (lines, none) →
        Tiles code 0 none lines
          ∧ ∀ place < code.size, ∃! index, StandsOn code lines index place := by
  refine ⟨fun offset register instruction next register' h => ?_, fun lines h => ?_⟩
  · obtain ⟨hlt, hle⟩ := read_bounds h
    exact ⟨hlt, hle, length_le h, fun other hagree => read_agree h hagree,
      fun cut hoffset hcut => read_cut h hoffset hcut⟩
  · have htiles := tiles_list (Nat.zero_le _) h
    exact ⟨htiles, fun place hplace => htiles.existsUnique (Nat.zero_le _) hplace⟩

/-- A note whose duration is a range, behind its prefix: seven bytes that make two instructions, the
second of which is not there before its last byte is. -/
theorem extent_exact_rangedNote :
    (list #[0xa0, 0x3c, 0x64, 0x00, 0x0a, 0x00, 0x14] 0).2 = none
      ∧ (read #[0xa0, 0x3c, 0x64, 0x00, 0x0a, 0x00, 0x14] 1 (some ⟨.range, 1⟩)).1
          = .ok (note 0x3c 0x64 15, 7)
      ∧ (∃! index, StandsOn #[0xa0, 0x3c, 0x64, 0x00, 0x0a, 0x00, 0x14]
          (list #[0xa0, 0x3c, 0x64, 0x00, 0x0a, 0x00, 0x14] 0).1 index 4)
      ∧ ∃ place, 1 ≤ place ∧ place ≤ 6
        ∧ (read (#[0xa0, 0x3c, 0x64, 0x00, 0x0a, 0x00, 0x14].extract 0 6) 1 (some ⟨.range, 1⟩)).1
            = .error (.truncated place) := by
  have hlist : (list #[0xa0, 0x3c, 0x64, 0x00, 0x0a, 0x00, 0x14] 0).2 = none := by decide
  have hread : read #[0xa0, 0x3c, 0x64, 0x00, 0x0a, 0x00, 0x14] 1 (some ⟨.range, 1⟩)
      = (.ok (note 0x3c 0x64 15, 7), none) := by decide
  obtain ⟨hextent, htiled⟩ := extent_exact #[0xa0, 0x3c, 0x64, 0x00, 0x0a, 0x00, 0x14]
  obtain ⟨-, -, -, -, hcut⟩ := hextent 1 (some ⟨.range, 1⟩) _ 7 none hread
  refine ⟨hlist, by rw [hread], ?_, hcut 6 (by decide) (by decide)⟩
  exact (htiled _ (by rw [← hlist])).2 4 (by decide)

end Instruction

end ConsoleSound

import ConsoleSound.Instrument.Bank
import ConsoleSound.Proofs.Checked
import ConsoleSound.Proofs.Instrument.Lookup
/-! # The trees of a bank

A region is read with one child for each reference that its record holds, so an index
region has a child for each of its keys. The trees of a bank that was read are `Filled`
all the way down. -/

namespace ConsoleSound

open Checked

namespace Region

/-- A tree that has been read is filled, however many levels it has. -/
theorem filled_of_readWithin {view : View} {base levels : Nat} {reference : Reference}
    {region : Region} (h : readWithin view base levels reference = .ok region) :
    region.Filled := by
  induction levels generalizing reference region with
  | zero => exact nomatch h
  | succ levels ih =>
      have hchild : ∀ {entry : Nat} {child : Region},
          (do readWithin view base levels (← Reference.read view entry)) = Except.ok child →
          child.Filled := by
        intro entry child hread
        obtain ⟨reference, -, hread⟩ := bind_eq_ok_iff.mp hread
        exact ih hread
      rw [readWithin] at h
      split at h
      · obtain rfl := Except.ok.inj h
        exact .silent
      · next pos _ =>
          dsimp only at h
          split at h
          · obtain ⟨params, -, rfl⟩ := map_eq_ok_iff.mp h
            exact .leaf params
          · split at h
            · obtain ⟨count, -, h⟩ := bind_eq_ok_iff.mp h
              obtain ⟨keys, -, h⟩ := bind_eq_ok_iff.mp h
              obtain ⟨children, hchildren, rfl⟩ := map_eq_ok_iff.mp h
              refine .ranges ?_
              intro entry hentry
              obtain ⟨⟨key, index⟩, -, hread⟩ := exists_of_mapM hchildren hentry
              obtain ⟨child, hread, heq⟩ := bind_eq_ok_iff.mp hread
              rw [← Except.ok.inj heq]
              exact hchild hread
            · split at h
              · obtain ⟨min, -, h⟩ := bind_eq_ok_iff.mp h
                obtain ⟨max, -, h⟩ := bind_eq_ok_iff.mp h
                obtain ⟨children, hchildren, rfl⟩ := map_eq_ok_iff.mp h
                refine .indexed ?_ ?_
                · rw [length_of_mapM hchildren, List.length_range]
                · intro child hmem
                  obtain ⟨index, -, hread⟩ := exists_of_mapM hchildren hmem
                  exact hchild hread
              · obtain rfl := Except.ok.inj h
                exact .silent

end Region

namespace Bank

/-- Every program of a bank that has been read is filled. -/
theorem filled_of_read {file : Bytes} {bank : Bank} (h : read file = .ok bank) :
    ∀ region ∈ bank.programs, region.Filled := by
  obtain ⟨⟨header, view⟩, -, h⟩ := bind_eq_ok_iff.mp h
  obtain ⟨data, -, h⟩ := bind_eq_ok_iff.mp h
  obtain ⟨programs, hprograms, h⟩ := bind_eq_ok_iff.mp h
  obtain ⟨entries, -, hprograms⟩ := bind_eq_ok_iff.mp hprograms
  have hbank : bank.programs = programs := by
    obtain ⟨offset, -, h⟩ := bind_eq_ok_iff.mp h
    dsimp only at h
    split at h
    · rw [← Except.ok.inj h]
    · obtain ⟨block, -, h⟩ := bind_eq_ok_iff.mp h
      obtain ⟨waves?, -, h⟩ := bind_eq_ok_iff.mp h
      rw [← Except.ok.inj h]
  rw [hbank]
  intro region hmem
  obtain ⟨entry, -, hread⟩ := exists_of_mapM hprograms hmem
  obtain ⟨reference, -, hread⟩ := bind_eq_ok_iff.mp hread
  exact Region.filled_of_readWithin hread

end Bank

end ConsoleSound

import ConsoleSound.Container.Block
import ConsoleSound.Proofs.Container.Holding
/-! # Blocks of a file

A block that was found lies in its file from its header to its end (`Block.Inside`), so its
contents can be taken out of the file. -/

namespace ConsoleSound.Container

open Checked

/-- A block holds at least its own header, and the file holds all of the block. -/
structure Block.Inside (block : Block) (view : View) : Prop where
  header : headerSize ≤ block.length
  small : block.length < UInt32.size
  stop : block.stop ≤ view.data.size

namespace Block

variable {view : View} {magic : Magic} {block : Block}

theorem inside_of_read {start : Nat} (h : read view start magic = .ok block) :
    block.Inside view := by
  obtain ⟨found, -, h⟩ := bind_eq_ok_iff.mp h
  dsimp only at h
  split at h
  · exact nomatch h
  · obtain ⟨length, hlength, h⟩ := bind_eq_ok_iff.mp h
    split at h
    · exact nomatch h
    · next hheader =>
        split at h
        · exact nomatch h
        · next hfits =>
            rw [← Except.ok.inj h]
            exact ⟨Nat.not_lt.mp hheader, (View.offset_eq_ok_iff.mp hlength).1,
              Nat.not_lt.mp hfits⟩

theorem inside_of_locate {entry : Nat} (h : locate view entry magic = .ok block) :
    block.Inside view := by
  obtain ⟨start, -, h⟩ := bind_eq_ok_iff.mp h
  exact inside_of_read h

theorem Inside.exists_body (h : block.Inside view) :
    ∃ bytes, block.body view = .ok bytes ∧ bytes.size = block.length - headerSize := by
  have hstop : block.base + (block.length - headerSize) ≤ view.data.size := by
    have hheader := h.header
    have hfits := h.stop
    rw [Block.stop] at hfits
    rw [Block.base]
    omega
  have hbody := View.bytes_of_le hstop
  exact ⟨_, hbody, View.size_of_bytes hbody⟩

end Block

theorem view_of_openAs {file : Bytes} {magic : Magic} {header : Header} {view : View}
    (h : openAs file magic = .ok (header, view)) : view = ⟨file, header.order⟩ := by
  obtain ⟨found, -, h⟩ := bind_eq_ok_iff.mp h
  split at h
  · obtain ⟨rfl, rfl⟩ := Prod.mk.inj (Except.ok.inj h)
    rfl
  · exact nomatch h

end ConsoleSound.Container

import ConsoleSound.Container.Block
import ConsoleSound.Proofs.Container.Holding
/-! # Containers of two blocks

`Contents.stored` lays out a container of two blocks: the header with the position and the
length of each block, then the blocks, each padded to four bytes. A container that is stored
so opens again (`openAs_stored`), and both of its blocks are located (`locate_first_stored`,
`locate_second_stored`) and hold what was put in (`Contents.Fields`). -/

namespace ConsoleSound.Container

open Checked

/-- Some bytes with zeros behind them up to a multiple of four. -/
def padded (bytes : List UInt8) : List UInt8 :=
  bytes ++ List.replicate ((4 - bytes.length % 4) % 4) 0

@[simp] theorem length_padded (bytes : List UInt8) :
    (padded bytes).length = bytes.length + (4 - bytes.length % 4) % 4 := by
  rw [padded, List.length_append, List.length_replicate]

/-- A block: its code, its length, and its padded contents. -/
def Block.stored (order : ByteOrder) (code : Magic) (contents : List UInt8) : List UInt8 :=
  code.bytes ++ order.spell 4 (headerSize + (padded contents).length) ++ padded contents

/-- What goes into a container of two blocks. -/
structure Contents where
  code : Magic
  version : UInt16
  firstCode : Magic
  first : List UInt8
  secondCode : Magic
  second : List UInt8

namespace Contents

variable (contents : Contents) (order : ByteOrder)

/-- The length of the first block. -/
def firstLength : Nat := Block.headerSize + (padded contents.first).length

/-- The length of the second block. -/
def secondLength : Nat := Block.headerSize + (padded contents.second).length

/-- The length of the container, whose header takes 32 bytes. -/
def length : Nat := 0x20 + contents.firstLength + contents.secondLength

/-- The bytes of a container. -/
def stored : List UInt8 :=
  contents.code.bytes ++ order.mark ++ order.spell 2 contents.version.toNat
    ++ order.spell 4 contents.length ++ order.spell 2 0x20 ++ order.spell 2 2
    ++ order.spell 4 0x20 ++ order.spell 4 contents.firstLength
    ++ order.spell 4 (0x20 + contents.firstLength) ++ order.spell 4 contents.secondLength
    ++ Block.stored order contents.firstCode contents.first
    ++ Block.stored order contents.secondCode contents.second

theorem le_firstLength : Block.headerSize + contents.first.length ≤ contents.firstLength := by
  rw [firstLength, length_padded]
  omega

theorem le_secondLength : Block.headerSize + contents.second.length ≤ contents.secondLength := by
  rw [secondLength, length_padded]
  omega

/-- A view of a stored container. -/
def view : View := ⟨(contents.stored order).toArray, order⟩

/-- The header of a stored container. -/
def header : Header where
  magic := contents.code
  order := order
  version := contents.version
  fileSize := UInt32.ofNat contents.length
  headerSize := 0x20
  blockCount := 2

theorem length_mark : order.mark.length = 2 := by
  cases order <;> rfl

@[simp] theorem length_stored : (contents.stored order).length = contents.length := by
  simp only [stored, Block.stored, List.length_append, ByteOrder.spell_length, length_mark,
    Magic.bytes, List.length_cons, List.length_nil, length, firstLength, secondLength,
    Block.headerSize]

/-- Where everything stands in a stored container. -/
structure Fields : Prop where
  code : (contents.view order).Holds 0 contents.code.bytes
  mark : (contents.view order).Holds 4 order.mark
  version : (contents.view order).Holds 6 (order.spell 2 contents.version.toNat)
  length : (contents.view order).Holds 8 (order.spell 4 contents.length)
  headerSize : (contents.view order).Holds 12 (order.spell 2 0x20)
  blockCount : (contents.view order).Holds 14 (order.spell 2 2)
  firstStart : (contents.view order).Holds 16 (order.spell 4 0x20)
  secondStart : (contents.view order).Holds 24 (order.spell 4 (0x20 + contents.firstLength))
  firstCode : (contents.view order).Holds 32 contents.firstCode.bytes
  firstLength : (contents.view order).Holds 36 (order.spell 4 contents.firstLength)
  first : (contents.view order).Holds 40 (padded contents.first)
  secondCode : (contents.view order).Holds (32 + contents.firstLength) contents.secondCode.bytes
  secondLength :
    (contents.view order).Holds (32 + contents.firstLength + 4)
      (order.spell 4 contents.secondLength)
  second : (contents.view order).Holds (32 + contents.firstLength + 8) (padded contents.second)

theorem fields : contents.Fields order := by
  have h : (contents.view order).Holds 0 (contents.stored order) := View.holds_zero _ order
  have hsecond : 0 + (32 + (8 + (padded contents.first).length)) = 32 + contents.firstLength :=
    Nat.zero_add _
  simp only [stored, Block.stored, View.holds_append, List.length_append, ByteOrder.spell_length,
    length_mark, Magic.bytes, List.length_cons, List.length_nil, Nat.reduceAdd, hsecond] at h
  obtain ⟨⟨hheader, ⟨hfirstCode, hfirstLength⟩, hfirst⟩, ⟨hsecondCode, hsecondLength⟩, hsecond⟩ := h
  obtain ⟨⟨⟨⟨hheader, hfirstStart⟩, -⟩, hsecondStart⟩, -⟩ := hheader
  obtain ⟨⟨⟨⟨⟨hcode, hmark⟩, hversion⟩, hlength⟩, hheaderSize⟩, hblockCount⟩ := hheader
  exact ⟨hcode, hmark, hversion, hlength, hheaderSize, hblockCount, hfirstStart, hsecondStart,
    hfirstCode, hfirstLength, hfirst, hsecondCode, hsecondLength, hsecond⟩

end Contents

/-! ## Reading back -/

theorem Header.read_of_holds {view : View} {code : Magic} {version : UInt16} {fileSize : UInt32}
    {headerSize blockCount : UInt16} (hcode : view.Holds 0 code.bytes)
    (hmark : view.Holds 4 view.order.mark)
    (hversion : view.Holds 6 (view.order.spell 2 version.toNat))
    (hfile : view.Holds 8 (view.order.spell 4 fileSize.toNat))
    (hheader : view.Holds 12 (view.order.spell 2 headerSize.toNat))
    (hblocks : view.Holds 14 (view.order.spell 2 blockCount.toNat)) :
    Header.read view.data
      = .ok ⟨code, view.order, version, fileSize, headerSize, blockCount⟩ := by
  have hsize : 16 ≤ view.data.size := by
    have hfits := (View.holds_iff.mp hblocks).1
    rw [ByteOrder.spell_length] at hfits
    exact hfits
  have hbyte {pos : Nat} {byte : UInt8} (h : view.Holds pos [byte]) (hpos : pos < view.data.size) :
      view.data[pos] = byte :=
    (Array.getElem?_eq_some_iff.mp (View.holds_byte_iff.mp h)).2
  have horder : ByteOrder.ofMark view.data[4] view.data[5] = .ok view.order := by
    cases hcase : view.order with
    | big =>
        rw [hcase] at hmark
        obtain ⟨hfirst, hsecond⟩ := View.holds_cons_cons.mp hmark
        rw [hbyte hfirst, hbyte hsecond]
        rfl
    | little =>
        rw [hcase] at hmark
        obtain ⟨hfirst, hsecond⟩ := View.holds_cons_cons.mp hmark
        rw [hbyte hfirst, hbyte hsecond]
        rfl
  simp only [Magic.bytes, View.holds_cons_cons] at hcode
  obtain ⟨hfirst, hsecond, hthird, hfourth⟩ := hcode
  refine (dif_pos hsize).trans ?_
  refine bind_eq_ok_iff.mpr ⟨_, horder, bind_eq_ok_iff.mpr ⟨_, View.u16_eq_ok_iff.mpr hversion,
    bind_eq_ok_iff.mpr ⟨_, View.u32_eq_ok_iff.mpr hfile, bind_eq_ok_iff.mpr
    ⟨_, View.u16_eq_ok_iff.mpr hheader, bind_eq_ok_iff.mpr
    ⟨_, View.u16_eq_ok_iff.mpr hblocks, ?_⟩⟩⟩⟩⟩
  rw [hbyte hfirst, hbyte hsecond, hbyte hthird, hbyte hfourth]
  rfl

theorem Block.read_of_holds {view : View} {start length : Nat} {code : Magic}
    (hcode : view.Holds start code.bytes)
    (hlength : view.Holds (start + 4) (view.order.spell 4 length)) (hlimit : length < UInt32.size)
    (hheader : headerSize ≤ length) (hfits : start + length ≤ view.data.size) :
    Block.read view start code = .ok ⟨code, start, length⟩ := by
  rw [Block.read, View.magic_of_holds hcode]
  have hoffset := View.offset_eq_ok_iff.mpr ⟨hlimit, hlength⟩
  show (do
    if code ≠ code then throw (.badMagic code code)
    let length ← view.offset (start + 4)
    if length < headerSize then
      malformed start .shortBlock
    else if view.data.size < start + length then
      malformed start (.blockOverrun code)
    else
      return ⟨code, start, length⟩ : Except Error Block) = _
  rw [if_neg (not_not_intro rfl), hoffset]
  show (if length < headerSize then _ else if view.data.size < start + length then _ else _) = _
  rw [if_neg (Nat.not_lt.mpr hheader), if_neg (Nat.not_lt.mpr hfits)]
  rfl

namespace Contents

variable {contents : Contents} {order : ByteOrder}

theorem size_view : (contents.view order).data.size = contents.length :=
  contents.length_stored order

/-- A stored container opens again. -/
theorem openAs_stored (hlength : contents.length < UInt32.size) :
    openAs (contents.stored order).toArray contents.code
      = .ok (contents.header order, contents.view order) := by
  have h := contents.fields order
  have hfile : (contents.view order).Holds 8
      (order.spell 4 (UInt32.ofNat contents.length).toNat) := by
    rw [UInt32.toNat_ofNat_of_lt' hlength]
    exact h.length
  have hread : Header.read (contents.view order).data = .ok (contents.header order) :=
    Header.read_of_holds h.code h.mark h.version hfile h.headerSize h.blockCount
  exact bind_eq_ok_iff.mpr ⟨contents.header order, hread, if_pos rfl⟩

theorem locate_first_stored (hlength : contents.length < UInt32.size) :
    Block.locate (contents.view order) 0x10 contents.firstCode
      = .ok ⟨contents.firstCode, 0x20, contents.firstLength⟩ := by
  have h := contents.fields order
  have hfits : contents.length = 0x20 + contents.firstLength + contents.secondLength := rfl
  have hstart := View.offset_eq_ok_iff.mpr ⟨by decide, h.firstStart⟩
  refine bind_eq_ok_iff.mpr ⟨_, hstart, ?_⟩
  refine Block.read_of_holds h.firstCode h.firstLength (by omega) (Nat.le_add_right _ _) ?_
  rw [size_view]
  omega

theorem locate_second_stored (hlength : contents.length < UInt32.size) :
    Block.locate (contents.view order) 0x18 contents.secondCode
      = .ok ⟨contents.secondCode, 0x20 + contents.firstLength, contents.secondLength⟩ := by
  have h := contents.fields order
  have hfits : contents.length = 0x20 + contents.firstLength + contents.secondLength := rfl
  have hstart := View.offset_eq_ok_iff.mpr ⟨by omega, h.secondStart⟩
  refine bind_eq_ok_iff.mpr ⟨_, hstart, ?_⟩
  refine Block.read_of_holds h.secondCode h.secondLength (by omega) (Nat.le_add_right _ _) ?_
  rw [size_view]
  omega

end Contents

end ConsoleSound.Container

import ConsoleSound.ByteOrder.Spelling
import ConsoleSound.Proofs.Checked
import ConsoleSound.Reference
/-! # What stands where in a view

`View.Holds` says of some bytes that they stand at a position of a view. A read succeeds
exactly if what it gives stands where it looks: the bytes themselves (`bytes_eq_ok_iff`), or
those that spell a number in the order of the view (`number_eq_ok_iff`). Bytes in a row may
be split anywhere (`holds_append`), so a record is there exactly if its fields are. -/

namespace ConsoleSound

open Checked

/-- The byte that says how a reference is measured. -/
def ReferenceKind.code : ReferenceKind → UInt8
  | address => 0
  | offset => 1

namespace View

variable {view : View} {pos : Nat}

/-- Whether some bytes stand at a position of a view. -/
def Holds (view : View) (pos : Nat) (part : List UInt8) : Prop :=
  ∃ before behind, view.data.toList = before ++ part ++ behind ∧ before.length = pos

theorem holds_iff {part : List UInt8} :
    view.Holds pos part
      ↔ pos + part.length ≤ view.data.size
        ∧ (view.data.toList.drop pos).take part.length = part := by
  rw [← Array.length_toList]
  constructor
  · rintro ⟨before, behind, hdata, rfl⟩
    rw [hdata, List.append_assoc, List.length_append, List.length_append, List.drop_left,
      List.take_left]
    exact ⟨by omega, rfl⟩
  · rintro ⟨hfits, hpart⟩
    have hbehind := List.take_append_drop part.length (view.data.toList.drop pos)
    rw [hpart, List.drop_drop] at hbehind
    refine ⟨view.data.toList.take pos, view.data.toList.drop (pos + part.length), ?_, ?_⟩
    · rw [List.append_assoc, hbehind, List.take_append_drop]
    · rw [List.length_take]
      omega

/-- Bytes stand in a row exactly if the first ones do and the others stand behind them. -/
theorem holds_append {first second : List UInt8} :
    view.Holds pos (first ++ second)
      ↔ view.Holds pos first ∧ view.Holds (pos + first.length) second := by
  constructor
  · rintro ⟨before, behind, hdata, rfl⟩
    refine ⟨⟨before, second ++ behind, ?_, rfl⟩, ⟨before ++ first, behind, ?_, ?_⟩⟩
    · rw [hdata, List.append_assoc, List.append_assoc, List.append_assoc]
    · rw [hdata, List.append_assoc, List.append_assoc, List.append_assoc, List.append_assoc]
    · exact List.length_append
  · rintro ⟨hfirst, hsecond⟩
    obtain ⟨hfits, hsecond⟩ := holds_iff.mp hsecond
    obtain ⟨-, hfirst⟩ := holds_iff.mp hfirst
    rw [holds_iff, List.length_append, List.take_add, hfirst, List.drop_drop, hsecond]
    exact ⟨by omega, rfl⟩

theorem holds_cons {byte : UInt8} {bytes : List UInt8} :
    view.Holds pos (byte :: bytes) ↔ view.Holds pos [byte] ∧ view.Holds (pos + 1) bytes := by
  rw [← List.singleton_append, holds_append, List.length_singleton]

/-- This form of `holds_cons` takes a row of bytes apart down to its last one. -/
theorem holds_cons_cons {first second : UInt8} {bytes : List UInt8} :
    view.Holds pos (first :: second :: bytes)
      ↔ view.Holds pos [first] ∧ view.Holds (pos + 1) (second :: bytes) := holds_cons

/-- A file stands at its own start. -/
theorem holds_zero (file : List UInt8) (order : ByteOrder) :
    (View.mk file.toArray order).Holds 0 file := by
  refine ⟨[], [], ?_, rfl⟩
  rw [List.append_nil, List.nil_append]

/-- Parts in a row, divided before and behind one of them. -/
theorem flatMap_eq_append {α β : Type} {encode : α → List β} {items : List α} {index : Nat}
    {item : α} (hitem : items[index]? = some item) :
    items.flatMap encode = (items.take index).flatMap encode
      ++ (encode item ++ (items.drop (index + 1)).flatMap encode) := by
  obtain ⟨hindex, rfl⟩ := List.getElem?_eq_some_iff.mp hitem
  rw [← List.flatMap_cons, ← List.drop_eq_getElem_cons hindex, ← List.flatMap_append,
    List.take_append_drop]

/-- One of several parts in a row stands behind those before it. -/
theorem holds_flatMap {α : Type} {encode : α → List UInt8} {items : List α} {index : Nat}
    {item : α} (h : view.Holds pos (items.flatMap encode)) (hitem : items[index]? = some item) :
    view.Holds (pos + ((items.take index).flatMap encode).length) (encode item) := by
  rw [flatMap_eq_append hitem, holds_append, holds_append] at h
  exact h.2.1

/-- Two runs of bytes of one length that stand at one position are the same. -/
theorem Holds.unique {first second : List UInt8} (hfirst : view.Holds pos first)
    (hsecond : view.Holds pos second) (hlength : first.length = second.length) :
    first = second := by
  rw [← (holds_iff.mp hfirst).2, ← (holds_iff.mp hsecond).2, hlength]

/-- There is a run of bytes of any length that stays within the view. -/
theorem exists_holds {length : Nat} (h : pos + length ≤ view.data.size) :
    ∃ part, part.length = length ∧ view.Holds pos part := by
  have hlength : ((view.data.toList.drop pos).take length).length = length := by
    rw [List.length_take, List.length_drop, Array.length_toList]
    omega
  exact ⟨_, hlength, holds_iff.mpr ⟨by rw [hlength]; exact h, by rw [hlength]⟩⟩

/-! ## Reads that succeed -/

theorem bytes_of_le {length : Nat} (h : pos + length ≤ view.data.size) :
    view.bytes pos length = .ok (view.data.extract pos (pos + length)) := if_pos h

theorem bytes_eq_ok_iff {length : Nat} {bytes : Bytes} :
    view.bytes pos length = .ok bytes ↔ bytes.size = length ∧ view.Holds pos bytes.toList := by
  rw [View.bytes, holds_iff, Array.length_toList]
  split
  · next hfits =>
      have hextract : (view.data.extract pos (pos + length)).toList
          = (view.data.toList.drop pos).take length := by
        rw [Array.toList_extract, List.extract_eq_take_drop, Nat.add_sub_cancel_left]
      have hsize : (view.data.extract pos (pos + length)).size = length := by
        rw [Array.size_extract]
        omega
      constructor
      · intro h
        rw [← Except.ok.inj h, hextract, hsize]
        exact ⟨rfl, hfits, rfl⟩
      · rintro ⟨rfl, -, hbytes⟩
        exact congrArg Except.ok (Array.toList_inj.mp (hextract.trans hbytes))
  · next hfits =>
      constructor
      · intro h
        exact nomatch h
      · rintro ⟨rfl, h, -⟩
        exact absurd h hfits

theorem size_of_bytes {length : Nat} {bytes : Bytes} (h : view.bytes pos length = .ok bytes) :
    bytes.size = length := (bytes_eq_ok_iff.mp h).1

theorem u8_eq_ok_iff {byte : UInt8} : view.u8 pos = .ok byte ↔ view.Holds pos [byte] := by
  rw [u8, holds_iff, List.length_singleton, ← Array.getElem?_toList, List.take_one,
    List.head?_drop]
  cases hfound : view.data.toList[pos]? with
  | none =>
      constructor
      · intro h
        exact nomatch h
      · rintro ⟨-, h⟩
        exact nomatch h
  | some found =>
      obtain ⟨hpos, -⟩ := List.getElem?_eq_some_iff.mp hfound
      constructor
      · intro h
        rw [Except.ok.inj h]
        exact ⟨hpos, rfl⟩
      · rintro ⟨-, h⟩
        exact congrArg Except.ok (List.singleton_inj.mp h)

/-- A number is read where the bytes stand that spell it. -/
theorem number_eq_ok_iff {width value : Nat} :
    view.number pos width = .ok value
      ↔ value < 256 ^ width ∧ view.Holds pos (view.order.spell width value) := by
  rw [number]
  refine map_eq_ok_iff.trans ⟨?_, ?_⟩
  · rintro ⟨bytes, hbytes, rfl⟩
    obtain ⟨rfl, hholds⟩ := bytes_eq_ok_iff.mp hbytes
    rw [← Array.length_toList, ByteOrder.spell_value]
    exact ⟨ByteOrder.value_lt _ _, hholds⟩
  · rintro ⟨hvalue, hholds⟩
    refine ⟨(view.order.spell width value).toArray, bytes_eq_ok_iff.mpr ⟨?_, hholds⟩, ?_⟩
    · rw [List.size_toArray, ByteOrder.spell_length]
    · rw [ByteOrder.value_spell, Nat.mod_eq_of_lt hvalue]

theorem u16_eq_ok_iff {value : UInt16} :
    view.u16 pos = .ok value ↔ view.Holds pos (view.order.spell 2 value.toNat) := by
  rw [u16]
  refine map_eq_ok_iff.trans ⟨?_, ?_⟩
  · rintro ⟨number, hnumber, rfl⟩
    obtain ⟨hlt, hholds⟩ := number_eq_ok_iff.mp hnumber
    rw [UInt16.toNat_ofNat_of_lt' hlt]
    exact hholds
  · intro hholds
    exact ⟨value.toNat, number_eq_ok_iff.mpr ⟨value.toNat_lt, hholds⟩, UInt16.ofNat_toNat⟩

theorem u32_eq_ok_iff {value : UInt32} :
    view.u32 pos = .ok value ↔ view.Holds pos (view.order.spell 4 value.toNat) := by
  rw [u32]
  refine map_eq_ok_iff.trans ⟨?_, ?_⟩
  · rintro ⟨number, hnumber, rfl⟩
    obtain ⟨hlt, hholds⟩ := number_eq_ok_iff.mp hnumber
    rw [UInt32.toNat_ofNat_of_lt' hlt]
    exact hholds
  · intro hholds
    exact ⟨value.toNat, number_eq_ok_iff.mpr ⟨value.toNat_lt, hholds⟩, UInt32.ofNat_toNat⟩

theorem i32_eq_ok_iff {value : Int32} :
    view.i32 pos = .ok value ↔ view.Holds pos (view.order.spell 4 value.toUInt32.toNat) := by
  rw [i32]
  refine map_eq_ok_iff.trans ⟨?_, ?_⟩
  · rintro ⟨word, hword, rfl⟩
    exact u32_eq_ok_iff.mp hword
  · intro hholds
    exact ⟨value.toUInt32, u32_eq_ok_iff.mpr hholds, rfl⟩

theorem offset_eq_ok_iff {distance : Nat} :
    view.offset pos = .ok distance
      ↔ distance < UInt32.size ∧ view.Holds pos (view.order.spell 4 distance) := by
  rw [offset]
  refine map_eq_ok_iff.trans ⟨?_, ?_⟩
  · rintro ⟨word, hword, rfl⟩
    exact ⟨word.toNat_lt, u32_eq_ok_iff.mp hword⟩
  · rintro ⟨hlt, hholds⟩
    have hword : (UInt32.ofNat distance).toNat = distance := UInt32.toNat_ofNat_of_lt' hlt
    exact ⟨UInt32.ofNat distance, u32_eq_ok_iff.mpr (by rw [hword]; exact hholds), hword⟩

theorem holds_byte_iff {byte : UInt8} : view.Holds pos [byte] ↔ view.data[pos]? = some byte := by
  rw [← u8_eq_ok_iff, u8]
  cases view.data[pos]? with
  | none => exact ⟨fun h => (nomatch h), fun h => (nomatch h)⟩
  | some found => rw [Except.ok.injEq, Option.some.injEq]

theorem magic_of_holds {magic : Magic} (h : view.Holds pos magic.bytes) :
    view.magic pos = .ok magic :=
  bind_eq_ok_iff.mpr ⟨magic.bytes.toArray, bytes_eq_ok_iff.mpr ⟨rfl, h⟩, rfl⟩

/-- A table whose entries all lie in the view is read entry by entry. -/
theorem table_of_holds {α : Type} {count stride : Nat} {read : Nat → Except Error α}
    (hcount : view.Holds pos (view.order.spell 4 count)) (hlimit : count < UInt32.size)
    (hfits : pos + 4 + count * stride ≤ view.data.size) (hsize : view.data.size < positionLimit) :
    view.table pos stride read
      = (List.range count).mapM fun index => read (pos + 4 + index * stride) := by
  have hentries : view.entries pos stride
      = .ok ((List.range count).map fun index => pos + 4 + index * stride) := by
    refine bind_eq_ok_iff.mpr ⟨count, offset_eq_ok_iff.mpr ⟨hlimit, hcount⟩, ?_⟩
    dsimp only
    rw [if_neg (by omega), if_neg (by omega)]
    rfl
  rw [table, hentries]
  exact List.mapM_map

/-! ## The same numbers in another view -/

/-- A view that stores the same number at a position may store it in another order. -/
theorem Holds.of_number_eq {other : View} {width value : Nat}
    (h : view.Holds pos (view.order.spell width value)) (hvalue : value < 256 ^ width)
    (hsame : other.number pos width = view.number pos width) :
    other.Holds pos (other.order.spell width value) :=
  (number_eq_ok_iff.mp (hsame.trans (number_eq_ok_iff.mpr ⟨hvalue, h⟩))).2

theorem Holds.of_byte_eq {other : View} {byte : UInt8} (h : view.Holds pos [byte])
    (hsame : other.number pos 1 = view.number pos 1) : other.Holds pos [byte] := by
  rw [← ByteOrder.spell_one view.order] at h
  rw [← ByteOrder.spell_one other.order]
  exact h.of_number_eq byte.toNat_lt hsame

theorem Holds.of_bytes_eq {other : View} {byte : UInt8} {bytes : List UInt8}
    (h : view.Holds pos (byte :: bytes))
    (hsame : ∀ index ≤ bytes.length, other.number (pos + index) 1 = view.number (pos + index) 1) :
    other.Holds pos (byte :: bytes) := by
  induction bytes generalizing byte pos with
  | nil => exact h.of_byte_eq (hsame 0 (Nat.le_refl 0))
  | cons next bytes ih =>
      obtain ⟨hbyte, hbytes⟩ := holds_cons_cons.mp h
      refine holds_cons_cons.mpr ⟨hbyte.of_byte_eq (hsame 0 (Nat.zero_le _)), ih hbytes ?_⟩
      intro index hindex
      rw [Nat.add_assoc, Nat.add_comm 1]
      exact hsame (index + 1) (Nat.succ_le_succ hindex)

/-! ## Stored references -/

/-- Whether a reference is stored at a position. Of its eight bytes two are not read. -/
def HoldsReference (view : View) (pos : Nat) (reference : Reference) : Prop :=
  ∃ filler : List UInt8, filler.length = 2 ∧
    view.Holds pos ([reference.kind.code, reference.tag] ++ filler
      ++ view.order.spell 4 reference.distance.toNat)

theorem holdsReference_iff {reference : Reference} :
    view.HoldsReference pos reference
      ↔ view.Holds pos [reference.kind.code] ∧ view.Holds (pos + 1) [reference.tag]
        ∧ view.Holds (pos + 4) (view.order.spell 4 reference.distance.toNat) := by
  constructor
  · rintro ⟨filler, hfiller, h⟩
    rw [holds_append, holds_append, List.length_append, hfiller, holds_cons] at h
    exact ⟨h.1.1.1, h.1.1.2, h.2⟩
  · rintro ⟨hkind, htag, hdistance⟩
    obtain ⟨hfits, -⟩ := holds_iff.mp hdistance
    rw [ByteOrder.spell_length] at hfits
    obtain ⟨filler, hlength, hfiller⟩ : ∃ part, part.length = 2 ∧ view.Holds (pos + 2) part :=
      exists_holds (by omega)
    refine ⟨filler, hlength, ?_⟩
    rw [holds_append, holds_append, List.length_append, hlength, holds_cons]
    exact ⟨⟨⟨hkind, htag⟩, hfiller⟩, hdistance⟩

theorem read_reference_eq_ok_iff {reference : Reference} :
    Reference.read view pos = .ok reference ↔ view.HoldsReference pos reference := by
  rw [Reference.read, holdsReference_iff, bind_eq_ok_iff]
  extract_lets next
  have hnext (kind : ReferenceKind) : next kind = .ok reference
      ↔ kind = reference.kind ∧ view.Holds (pos + 1) [reference.tag]
        ∧ view.Holds (pos + 4) (view.order.spell 4 reference.distance.toNat) := by
    constructor
    · intro h
      obtain ⟨tag, htag, h⟩ := bind_eq_ok_iff.mp h
      obtain ⟨distance, hdistance, h⟩ := bind_eq_ok_iff.mp h
      obtain rfl := Except.ok.inj h
      exact ⟨rfl, u8_eq_ok_iff.mp htag, u32_eq_ok_iff.mp hdistance⟩
    · rintro ⟨rfl, htag, hdistance⟩
      exact bind_eq_ok_iff.mpr ⟨_, u8_eq_ok_iff.mpr htag,
        bind_eq_ok_iff.mpr ⟨_, u32_eq_ok_iff.mpr hdistance, rfl⟩⟩
  constructor
  · rintro ⟨code, hcode, h⟩
    rw [u8_eq_ok_iff] at hcode
    split at h
    · obtain ⟨hkind, hrest⟩ := (hnext .address).mp h
      rw [← hkind]
      exact ⟨hcode, hrest⟩
    · obtain ⟨hkind, hrest⟩ := (hnext .offset).mp h
      rw [← hkind]
      exact ⟨hcode, hrest⟩
    · exact nomatch h
  · rintro ⟨hkind, hrest⟩
    refine ⟨_, u8_eq_ok_iff.mpr hkind, ?_⟩
    have h := (hnext reference.kind).mpr ⟨rfl, hrest⟩
    cases hcase : reference.kind with
    | address =>
        rw [hcase] at h
        exact h
    | offset =>
        rw [hcase] at h
        exact h

/-- A position stores one reference at most. -/
theorem HoldsReference.unique {first second : Reference} (hfirst : view.HoldsReference pos first)
    (hsecond : view.HoldsReference pos second) : first = second :=
  Except.ok.inj ((read_reference_eq_ok_iff.mpr hfirst).symm.trans
    (read_reference_eq_ok_iff.mpr hsecond))

end View

/-! ## Reads that fail -/

/-- Whether a read that fails reports a malformed container. -/
def FailsMalformed {α : Type} (result : Except Error α) : Prop :=
  ∀ error, result = .error error → ∃ position fault, error = .malformed position fault

namespace FailsMalformed

variable {α β : Type}

theorem ok (value : α) : FailsMalformed (.ok value) := by
  intro error h
  exact nomatch h

theorem malformed (position : Nat) (fault : Fault) :
    FailsMalformed (malformed position fault : Except Error α) := by
  intro error h
  exact ⟨position, fault, (Except.error.inj h).symm⟩

theorem bind {first : Except Error α} {next : α → Except Error β} (hfirst : FailsMalformed first)
    (hnext : ∀ value, FailsMalformed (next value)) : FailsMalformed (first >>= next) := by
  intro error h
  rcases bind_eq_error_iff.mp h with h | ⟨value, -, h⟩
  · exact hfirst error h
  · exact hnext value error h

theorem map {first : Except Error α} (hfirst : FailsMalformed first) (change : α → β) :
    FailsMalformed (change <$> first) := by
  cases first with
  | ok value => exact ok _
  | error error =>
      intro error' h
      exact hfirst error' (congrArg Except.error (Except.error.inj h))

theorem mapM {next : α → Except Error β} (hnext : ∀ value, FailsMalformed (next value))
    (values : List α) : FailsMalformed (values.mapM next) := by
  induction values with
  | nil => exact ok []
  | cons value values ih =>
      rw [List.mapM_cons]
      exact (hnext value).bind fun _ => ih.bind fun _ => ok _

end FailsMalformed

namespace View

variable (view : View) (pos : Nat)

theorem failsMalformed_bytes (length : Nat) : FailsMalformed (view.bytes pos length) := by
  rw [bytes]
  split
  · exact .ok _
  · exact .malformed _ _

theorem failsMalformed_u8 : FailsMalformed (view.u8 pos) := by
  rw [u8]
  split
  · exact .ok _
  · exact .malformed _ _

theorem failsMalformed_u32 : FailsMalformed (view.u32 pos) :=
  ((view.failsMalformed_bytes pos 4).map _).map _

theorem failsMalformed_i32 : FailsMalformed (view.i32 pos) := (view.failsMalformed_u32 pos).map _

theorem failsMalformed_reference : FailsMalformed (Reference.read view pos) := by
  refine .bind (view.failsMalformed_u8 pos) fun code => ?_
  extract_lets next
  have hnext (kind : ReferenceKind) : FailsMalformed (next kind) :=
    .bind (view.failsMalformed_u8 _) fun tag =>
      .bind (view.failsMalformed_u32 _) fun distance => .ok _
  split
  · exact hnext .address
  · exact hnext .offset
  · exact .malformed _ _

end View

end ConsoleSound

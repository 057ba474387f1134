import ConsoleSound.ByteOrder.Spelling
import ConsoleSound.Riff
/-! # Tables of records

The tables of a SoundFont are bytes in records of a fixed size, which refer to one
another by number. `records` cuts a table into its records and `wordAt` reads a number
in one. A table that is divided by another one gives the bounds of its parts, and
`slices` cuts it at them. -/

namespace ConsoleSound.SoundFont

open Riff (word long)

/-! ## Records -/

/-- The records of a table. -/
def records (size : Nat) (bytes : List UInt8) : List (List UInt8) :=
  (List.range (bytes.length / size)).map fun index => (bytes.drop (index * size)).take size

@[simp] theorem records_nil (size : Nat) : records size [] = [] := by
  simp [records]

theorem records_append {size : Nat} {record : List UInt8} (hsize : 0 < size)
    (hrecord : record.length = size) (rest : List UInt8) :
    records size (record ++ rest) = record :: records size rest := by
  have hcount : (record ++ rest).length / size = rest.length / size + 1 := by
    rw [List.length_append, hrecord, Nat.add_comm, Nat.add_div_right _ hsize]
  rw [records, hcount, List.range_succ_eq_map, List.map_cons, List.map_map, Nat.zero_mul,
    List.drop_zero, List.take_left' hrecord]
  -- the other records stand one record further back
  refine congrArg (record :: ·) (List.map_congr_left ?_)
  intro index _
  show (List.drop ((index + 1) * size) (record ++ rest)).take size = _
  rw [Nat.succ_mul, Nat.add_comm, ← List.drop_drop, List.drop_left' hrecord]

/-- Records of one size at the front of a table are cut into them. -/
theorem records_flatMap_append {α : Type} {size : Nat} (hsize : 0 < size)
    (encode : α → List UInt8) (hencode : ∀ item, (encode item).length = size) (items : List α)
    (rest : List UInt8) :
    records size (items.flatMap encode ++ rest) = items.map encode ++ records size rest := by
  induction items with
  | nil => rfl
  | cons item items ih =>
      rw [List.flatMap_cons, List.append_assoc, records_append hsize (hencode item) _, ih]
      rfl

/-- A table of records of one size is cut into them. -/
theorem records_flatMap {α : Type} {size : Nat} (hsize : 0 < size) (encode : α → List UInt8)
    (hencode : ∀ item, (encode item).length = size) (items : List α) :
    records size (items.flatMap encode) = items.map encode := by
  have hrecords := records_flatMap_append hsize encode hencode items []
  rw [List.append_nil, records_nil, List.append_nil] at hrecords
  exact hrecords

theorem length_flatMap_of_length {α β : Type} {size : Nat} {encode : α → List β}
    (hencode : ∀ item, (encode item).length = size) (items : List α) :
    (items.flatMap encode).length = items.length * size := by
  induction items with
  | nil => rw [List.flatMap_nil, List.length_nil, List.length_nil, Nat.zero_mul]
  | cons item items ih =>
      rw [List.flatMap_cons, List.length_append, hencode, ih, List.length_cons, Nat.succ_mul,
        Nat.add_comm]

/-- The 16-bit number at a place of some bytes. -/
def wordAt (pos : Nat) (bytes : List UInt8) : Nat :=
  ByteOrder.little.value ((bytes.drop pos).take 2)

theorem length_word (value : Nat) : (word value).length = 2 :=
  ByteOrder.spell_length .little 2 value

theorem wordAt_append {pos : Nat} (before : List UInt8) (hbefore : before.length = pos)
    (value : Nat) (behind : List UInt8) :
    wordAt pos (before ++ (word value ++ behind)) = value % 65536 := by
  rw [wordAt, List.drop_left' hbefore, List.take_left' (length_word value)]
  exact ByteOrder.value_spell .little 2 value

/-- The 32-bit number at a place of some bytes. -/
def longAt (pos : Nat) (bytes : List UInt8) : Nat :=
  ByteOrder.little.value ((bytes.drop pos).take 4)

theorem length_long (value : Nat) : (long value).length = 4 :=
  ByteOrder.spell_length .little 4 value

/-! ## Parts -/

/-- The parts of a table between consecutive bounds. -/
def slices {α : Type} (bounds : List Nat) (items : List α) : List (List α) :=
  (bounds.zip bounds.tail).map fun (first, next) => (items.take next).drop first

/-- The bounds of the parts of a table that starts at `first`. -/
def boundsFrom {α : Type} (first : Nat) : List (List α) → List Nat
  | [] => [first]
  | part :: parts => first :: boundsFrom (first + part.length) parts

theorem boundsFrom_eq_cons {α : Type} (first : Nat) (parts : List (List α)) :
    boundsFrom first parts = first :: (boundsFrom first parts).tail := by
  cases parts <;> rfl

/-- Bounds only depend on the lengths of the parts. -/
theorem boundsFrom_map {α β : Type} (f : α → β) (first : Nat) (parts : List (List α)) :
    boundsFrom first (parts.map (List.map f)) = boundsFrom first parts := by
  induction parts generalizing first with
  | nil => rfl
  | cons part parts ih => rw [List.map_cons, boundsFrom, boundsFrom, ih, List.length_map]

/-- No bound is beyond the end. -/
theorem le_of_mem_boundsFrom {α : Type} {first bound : Nat} {parts : List (List α)}
    (h : bound ∈ boundsFrom first parts) : bound ≤ first + parts.flatten.length := by
  induction parts generalizing first with
  | nil =>
      rw [List.mem_singleton.mp h]
      exact Nat.le_refl first
  | cons part parts ih =>
      rw [List.flatten_cons, List.length_append]
      rcases List.mem_cons.mp h with heq | hmem
      · omega
      · have hle := ih hmem
        omega

/-- Cutting a table at the bounds of its parts gives the parts. -/
theorem slices_boundsFrom {α : Type} (before : List α) (parts : List (List α))
    (behind : List α) :
    slices (boundsFrom before.length parts) (before ++ parts.flatten ++ behind) = parts := by
  induction parts generalizing before with
  | nil => rfl
  | cons part parts ih =>
      have hrest := ih (before ++ part)
      rw [List.length_append] at hrest
      have htable : before ++ (part :: parts).flatten ++ behind
          = before ++ part ++ parts.flatten ++ behind := by simp
      have hpart : ((before ++ part ++ parts.flatten ++ behind).take
          (before.length + part.length)).drop before.length = part := by
        rw [List.append_assoc (before ++ part), List.take_left' (List.length_append),
          List.drop_left]
      rw [htable]
      rw [slices] at hrest ⊢
      rw [boundsFrom, List.tail_cons]
      -- the second bound is both the end of this part and the start of the next one
      have hbounds := boundsFrom_eq_cons (before.length + part.length) parts
      generalize boundsFrom (before.length + part.length) parts = bounds at hrest hbounds ⊢
      cases bounds with
      | nil => exact nomatch hbounds
      | cons bound bounds =>
          rw [(List.cons.inj hbounds).1] at hrest ⊢
          rw [List.zip_cons_cons, List.map_cons]
          exact congrArg₂ List.cons hpart hrest

/-- A part of a row of parts of one size is found at a multiple of the size. -/
theorem take_drop_flatMap {α β : Type} {size : Nat} {encode : α → List β}
    (hencode : ∀ item, (encode item).length = size) {items : List α} {index : Nat} {item : α}
    (hitem : items[index]? = some item) (rest : List β) :
    ((items.flatMap encode ++ rest).drop (index * size)).take size = encode item := by
  induction items generalizing index with
  | nil => exact nomatch hitem
  | cons first items ih =>
      rw [List.flatMap_cons, List.append_assoc]
      cases index with
      | zero =>
          obtain rfl : first = item := Option.some.inj hitem
          rw [Nat.zero_mul, List.drop_zero, List.take_left' (hencode first)]
      | succ index =>
          rw [Nat.succ_mul, Nat.add_comm, ← List.drop_drop, List.drop_left' (hencode first)]
          exact ih hitem

/-- A 32-bit number in a row of them is read back. -/
theorem longAt_flatMap {pos place value : Nat} {values : List Nat} {before : List UInt8}
    (hbefore : before.length = pos) (hplace : values[place]? = some value)
    (hvalue : value < UInt32.size) (behind : List UInt8) :
    longAt (pos + place * 4) (before ++ (values.flatMap long ++ behind)) = value := by
  rw [longAt, ← List.drop_drop, List.drop_left' hbefore, take_drop_flatMap length_long hplace]
  exact (ByteOrder.value_spell .little 4 value).trans (Nat.mod_eq_of_lt hvalue)

/-- A bound is the length of all parts before it. -/
theorem getElem?_boundsFrom {α : Type} {first index : Nat} {parts : List (List α)}
    (h : index ≤ parts.length) :
    (boundsFrom first parts)[index]? = some (first + (parts.take index).flatten.length) := by
  induction parts generalizing first index with
  | nil =>
      obtain rfl : index = 0 := Nat.le_zero.mp h
      rfl
  | cons part parts ih =>
      cases index with
      | zero => rfl
      | succ index =>
          rw [List.length_cons] at h
          rw [boundsFrom, List.getElem?_cons_succ, ih (Nat.le_of_succ_le_succ h),
            List.take_succ_cons, List.flatten_cons, List.length_append, Nat.add_assoc]

/-- Cutting a part into its parts comes to the same before and after translating it. -/
theorem slices_map {α β : Type} (f : α → β) (bounds : List Nat) (items : List α) :
    slices bounds (items.map f) = (slices bounds items).map (List.map f) := by
  simp [slices, List.map_take, List.map_drop]

end ConsoleSound.SoundFont

import ConsoleSound.Container.Block
import ConsoleSound.Reference
/-! # Reading a file cut short

A reader of a file that ends early either runs into the end or never gets there. The
relation `CutShort` says so of two results, of which the first comes from the shorter
file: they are the same, or the first one reports a malformed container. Chains of
reads keep it (`CutShort.bind`, `CutShort.mapM`), so that one lemma for every primitive
read of a view is enough for all readers of containers.

Only the checks against the end of the buffer ask for its size, and each of them fails
as a malformed container; that is the case `CutShort.cut` below. -/

namespace ConsoleSound

variable {α β γ : Type}

/-- How the result of a reader on a shorter file may differ from that on the whole file:
it may report a malformed container. -/
inductive CutShort : (short whole : Except Error α) → Prop where
  | same (result : Except Error α) : CutShort result result
  | cut (position : Nat) (fault : Fault) (whole : Except Error α) :
    CutShort (.error (.malformed position fault)) whole

/-! ## Chains of reads -/

namespace CutShort

theorem bind {short whole : Except Error α} {next next' : α → Except Error β}
    (h : CutShort short whole) (hnext : ∀ value, CutShort (next value) (next' value)) :
    CutShort (short >>= next) (whole >>= next') := by
  cases h with
  | same =>
      cases short with
      | ok value => exact hnext value
      | error error => exact .same (.error error)
  | cut position fault => exact .cut position fault _

theorem map {short whole : Except Error α} (h : CutShort short whole) (change : α → β) :
    CutShort (change <$> short) (change <$> whole) := by
  cases h with
  | same => exact .same _
  | cut position fault => exact .cut position fault _

/-- A change of the final value passes over the reads before it. -/
theorem map_bind {short whole : Except Error α} {next : α → Except Error β}
    {next' : α → Except Error γ} {change : β → γ} (h : CutShort short whole)
    (hnext : ∀ value, CutShort (change <$> next value) (next' value)) :
    CutShort (change <$> (short >>= next)) (whole >>= next') := by
  cases h with
  | same =>
      cases short with
      | ok value => exact hnext value
      | error error => exact .same (.error error)
  | cut position fault => exact .cut position fault _

theorem mapM {next next' : α → Except Error β} (h : ∀ value, CutShort (next value) (next' value))
    (values : List α) : CutShort (values.mapM next) (values.mapM next') := by
  induction values with
  | nil => exact .same _
  | cons value values ih =>
      rw [List.mapM_cons, List.mapM_cons]
      exact .bind (h value) fun _ => .bind ih fun _ => .same _

theorem ofFnM {count : Nat} {next next' : Fin count → Except Error β}
    (h : ∀ index, CutShort (next index) (next' index)) :
    CutShort (Vector.ofFnM next) (Vector.ofFnM next') := by
  induction count with
  | zero =>
      rw [Vector.ofFnM_zero, Vector.ofFnM_zero]
      exact .same _
  | succ count ih =>
      rw [Vector.ofFnM_succ, Vector.ofFnM_succ]
      exact .bind (ih fun index => h _) fun _ => .bind (h _) fun _ => .same _

theorem eq_of_ok {value : α} {whole : Except Error α} (h : CutShort (.ok value) whole) :
    whole = .ok value := by
  cases h with
  | same => rfl

theorem malformed_of_ok {error : Error} {value : α} (h : CutShort (.error error) (.ok value)) :
    ∃ position fault, error = .malformed position fault := by
  cases h with
  | cut position fault => exact ⟨position, fault, rfl⟩

end CutShort

namespace View

/-- A view of the same file with some bytes more at its end. -/
def extend (view : View) (more : Bytes) : View := { view with data := view.data ++ more }

variable (view : View) (more : Bytes)

/-! ## Plain values -/

@[simp] theorem size_extend : (view.extend more).data.size = view.data.size + more.size :=
  Array.size_append

theorem cutShort_bytes (pos length : Nat) :
    CutShort (view.bytes pos length) ((view.extend more).bytes pos length) := by
  rw [bytes, bytes]
  split
  · next hfits =>
      have hsame : (view.extend more).data.extract pos (pos + length)
          = view.data.extract pos (pos + length) := by
        show (view.data ++ more).extract pos (pos + length) = _
        rw [Array.extract_append, Nat.sub_eq_zero_of_le hfits, Array.extract_zero,
          Array.append_empty]
      rw [size_extend, if_pos (Nat.le_add_right_of_le hfits), hsame]
      exact .same _
  · exact .cut _ _ _

theorem cutShort_u8 (pos : Nat) : CutShort (view.u8 pos) ((view.extend more).u8 pos) := by
  rw [u8, u8]
  cases h : view.data[pos]? with
  | some byte =>
      have hbyte : (view.extend more).data[pos]? = some byte := by
        obtain ⟨hpos, -⟩ := Array.getElem?_eq_some_iff.mp h
        show (view.data ++ more)[pos]? = some byte
        rw [Array.getElem?_append_left hpos, h]
      rw [hbyte]
      exact .same _
  | none => exact .cut _ _ _

theorem cutShort_number (pos width : Nat) :
    CutShort (view.number pos width) ((view.extend more).number pos width) :=
  .map (view.cutShort_bytes more pos width) _

theorem cutShort_i8 (pos : Nat) : CutShort (view.i8 pos) ((view.extend more).i8 pos) :=
  .map (view.cutShort_u8 more pos) _

theorem cutShort_u16 (pos : Nat) : CutShort (view.u16 pos) ((view.extend more).u16 pos) :=
  .map (view.cutShort_number more pos 2) _

theorem cutShort_i16 (pos : Nat) : CutShort (view.i16 pos) ((view.extend more).i16 pos) :=
  .map (view.cutShort_u16 more pos) _

theorem cutShort_u32 (pos : Nat) : CutShort (view.u32 pos) ((view.extend more).u32 pos) :=
  .map (view.cutShort_number more pos 4) _

theorem cutShort_i32 (pos : Nat) : CutShort (view.i32 pos) ((view.extend more).i32 pos) :=
  .map (view.cutShort_u32 more pos) _

theorem cutShort_offset (pos : Nat) : CutShort (view.offset pos) ((view.extend more).offset pos) :=
  .map (view.cutShort_u32 more pos) _

theorem cutShort_magic (pos : Nat) : CutShort (view.magic pos) ((view.extend more).magic pos) :=
  .bind (view.cutShort_bytes more pos 4) fun _ => .same _

/-! ## Strings -/

/-- The first zero byte stays the first one. -/
theorem beforeZero?_append {data : Bytes} {pos : Nat} {text : List UInt8}
    (h : beforeZero? data pos = some text) : beforeZero? (data ++ more) pos = some text := by
  have hsize {pos : Nat} (hpos : pos < data.size) : pos < (data ++ more).size := by
    rw [Array.size_append]
    exact Nat.lt_add_right _ hpos
  fun_induction beforeZero? data pos generalizing text with
  | case1 pos hpos hzero =>
      rw [beforeZero?, dif_pos (hsize hpos), Array.getElem_append_left hpos, if_pos hzero]
      exact h
  | case2 pos hpos hzero ih =>
      obtain ⟨rest, hrest, rfl⟩ := Option.map_eq_some_iff.mp h
      rw [beforeZero?, dif_pos (hsize hpos), Array.getElem_append_left hpos, if_neg hzero,
        ih hrest]
      rfl
  | case3 pos hpos => exact nomatch h

theorem cutShort_cstr (pos : Nat) : CutShort (view.cstr pos) ((view.extend more).cstr pos) := by
  rw [cstr, cstr]
  split
  · exact .cut _ _ _
  · next hstart =>
      cases htext : beforeZero? view.data pos with
      | none => exact .cut _ _ _
      | some text =>
          have htext' : beforeZero? (view.extend more).data pos = some text :=
            beforeZero?_append more htext
          rw [size_extend, if_neg (by omega), htext']
          exact .same _

/-! ## Tables -/

theorem cutShort_entries (pos stride : Nat) :
    CutShort (view.entries pos stride) ((view.extend more).entries pos stride) := by
  rw [entries, entries]
  refine .bind (view.cutShort_offset more pos) fun count => ?_
  dsimp only
  split
  · exact .same _
  · split
    · exact .cut _ _ _
    · next hlimit hfits =>
        rw [size_extend, if_neg (by omega)]
        exact .same _

theorem cutShort_table {read read' : Nat → Except Error α} (pos stride : Nat)
    (h : ∀ entry, CutShort (read entry) (read' entry)) :
    CutShort (view.table pos stride read) ((view.extend more).table pos stride read') :=
  .bind (view.cutShort_entries more pos stride) fun _ => .mapM h _

/-! ## References -/

theorem cutShort_reference (pos : Nat) :
    CutShort (Reference.read view pos) (Reference.read (view.extend more) pos) := by
  refine .bind (view.cutShort_u8 more pos) fun kind => ?_
  extract_lets next next'
  have hnext (kind : ReferenceKind) : CutShort (next kind) (next' kind) := by
    refine .bind (view.cutShort_u8 more _) fun tag => ?_
    exact .bind (view.cutShort_u32 more _) fun distance => .same _
  split
  all_goals exact .bind (.same _) hnext

theorem cutShort_follow? (pos base : Nat) :
    CutShort (view.follow? pos base) ((view.extend more).follow? pos base) :=
  .map (view.cutShort_reference more pos) _

theorem cutShort_follow (pos base : Nat) (what : String) :
    CutShort (view.follow pos base what) ((view.extend more).follow pos base what) :=
  .bind (view.cutShort_reference more pos) fun _ => .same _

theorem cutShort_targets (pos base : Nat) :
    CutShort (view.targets pos base) ((view.extend more).targets pos base) :=
  view.cutShort_table more pos _ fun entry => view.cutShort_follow? more entry base

theorem cutShort_records {read read' : Nat → Except Error α} (pos base : Nat)
    (h : ∀ entry, CutShort (read entry) (read' entry)) :
    CutShort (view.records pos base read) ((view.extend more).records pos base read') :=
  .bind (view.cutShort_targets more pos base) fun _ => .mapM h _

end View

/-! ## Blocks and headers -/

namespace Container

open View

theorem Block.cutShort_read (view : View) (more : Bytes) (start : Nat) (magic : Magic) :
    CutShort (read view start magic) (read (view.extend more) start magic) := by
  refine .bind (view.cutShort_magic more start) fun found => ?_
  dsimp only
  split
  · exact .same _
  · refine .bind (view.cutShort_offset more _) fun length => ?_
    split
    · exact .same _
    · split
      · exact .cut _ _ _
      · next hlength hfits =>
          rw [size_extend, if_neg (by omega)]
          exact .same _

theorem Block.cutShort_locate (view : View) (more : Bytes) (entry : Nat) (magic : Magic) :
    CutShort (locate view entry magic) (locate (view.extend more) entry magic) :=
  .bind (view.cutShort_offset more entry) fun start => Block.cutShort_read view more start magic

theorem Header.cutShort_read (file more : Bytes) :
    CutShort (read file) (read (file ++ more)) := by
  rw [read, read]
  split
  · next hsize =>
      have hfront : 16 ≤ file.size := hsize
      have hsize' : size ≤ (file ++ more).size := by
        rw [Array.size_append]
        exact Nat.le_add_right_of_le hsize
      rw [dif_pos hsize']
      refine .bind ?_ fun order => ?_
      · rw [Array.getElem_append_left (by omega), Array.getElem_append_left (by omega)]
        exact .same _
      · refine .bind (cutShort_u16 ⟨file, order⟩ more 6) fun version => ?_
        refine .bind (cutShort_u32 ⟨file, order⟩ more 8) fun fileSize => ?_
        refine .bind (cutShort_u16 ⟨file, order⟩ more 12) fun headerSize => ?_
        refine .bind (cutShort_u16 ⟨file, order⟩ more 14) fun blockCount => ?_
        simp only [Array.getElem_append_left (show 0 < file.size by omega),
          Array.getElem_append_left (show 1 < file.size by omega),
          Array.getElem_append_left (show 2 < file.size by omega),
          Array.getElem_append_left (show 3 < file.size by omega)]
        exact .same _
  · exact .cut _ _ _

/-- A container opened on the shorter file goes on with a view that lacks the bytes cut off. -/
theorem cutShort_openAs {next : Header × View → Except Error α}
    {next' : Header × View → Except Error α} {change : α → α} (file more : Bytes) (magic : Magic)
    (h : ∀ header view,
      CutShort (change <$> next (header, view)) (next' (header, view.extend more))) :
    CutShort (change <$> (openAs file magic >>= next)) (openAs (file ++ more) magic >>= next') := by
  rw [openAs, openAs, bind_assoc, bind_assoc]
  refine .map_bind (Header.cutShort_read file more) fun header => ?_
  split
  · exact h header ⟨file, header.order⟩
  · exact .same _

end Container

/-! ## Readers of whole files -/

/-- **What becomes of a file that is cut short or goes on.** If a file is read, then every
shorter one is read with the same result or is malformed, and every longer one is read with
the same result; `extend` gives a result the bytes that its view lacks. -/
def SurvivesCuts (read : Bytes → Except Error α) (extend : Bytes → α → α) : Prop :=
  ∀ file found, read file = .ok found →
    (∀ count ≤ file.size,
      (∃ foundShort, read (file.extract 0 count) = .ok foundShort
          ∧ extend (file.extract count file.size) foundShort = found)
        ∨ ∃ position fault, read (file.extract 0 count) = .error (.malformed position fault))
    ∧ ∀ more, read (file ++ more) = .ok (extend more found)

/-- Files that are cut short give results cut short, and that is all it takes. -/
theorem survivesCuts_of_cutShort {read : Bytes → Except Error α} {extend : Bytes → α → α}
    (h : ∀ file more, CutShort (extend more <$> read file) (read (file ++ more))) :
    SurvivesCuts read extend := by
  intro file found hfound
  constructor
  · intro count hcount
    have hwhole : file.extract 0 count ++ file.extract count file.size = file := by
      rw [Array.extract_append_extract, Nat.zero_min, Nat.max_eq_right hcount, Array.extract_size]
    have hcut := h (file.extract 0 count) (file.extract count file.size)
    rw [hwhole, hfound] at hcut
    cases hshort : read (file.extract 0 count) with
    | ok foundShort =>
        rw [hshort] at hcut
        exact .inl ⟨foundShort, rfl, (Except.ok.inj hcut.eq_of_ok).symm⟩
    | error error =>
        rw [hshort] at hcut
        obtain ⟨position, fault, rfl⟩ := hcut.malformed_of_ok
        exact .inr ⟨position, fault, rfl⟩
  · intro more
    have hcut := h file more
    rw [hfound] at hcut
    exact hcut.eq_of_ok

end ConsoleSound

import ConsoleSound.Sequence.Argument
import ConsoleSound.Proofs.Checked
/-! # Readers of bytecode

A reader takes a value from the bytes at a place of some code. Three things can be said of all
readers here, and `Bytecode.IsReader` says them at once. A reader looks at nothing but the bytes
that it passes over (`IsLocal`), so it gives the same wherever these stand. It passes over no more
than some number of bytes, and misses each of them if the code ends too early (`NeedsAll`). And
what it cannot read fails for its own reason, not because a track has played too long.

Chains of readers are readers if their links are (`IsReader.bind`), so it is enough to look at the
readers of bytes and of numbers. -/

namespace ConsoleSound

namespace Bytecode

variable {α β : Type}

/-- A reader of a value at a place of some code, with the place after the value. -/
abbrev Reader (α : Type) := Bytes → Nat → Except SequenceError (α × Nat)

/-- Whether the bytes of one code between two places stand at a place of another code. -/
def Agree (code : Bytes) (pos next : Nat) (other : Bytes) (place : Nat) : Prop :=
  ∀ index, pos + index < next → other[place + index]? = code[pos + index]?

/-- Whether a reader looks at nothing but the bytes that it passes over. -/
def IsLocal (read : Reader α) : Prop :=
  ∀ ⦃code : Bytes⦄ ⦃pos : Nat⦄ ⦃value : α⦄ ⦃next : Nat⦄, read code pos = .ok (value, next) →
    pos ≤ next ∧ next ≤ max pos code.size
      ∧ ∀ other place, Agree code pos next other place →
          read other place = .ok (value, place + (next - pos))

/-- Whether a reader takes at most `width` bytes, and reports the end of a code that ends before
the last of them. -/
def NeedsAll (width : Nat) (read : Reader α) : Prop :=
  ∀ ⦃code : Bytes⦄ ⦃pos : Nat⦄ ⦃value : α⦄ ⦃next : Nat⦄, read code pos = .ok (value, next) →
    next ≤ pos + width ∧ ∀ cut, pos ≤ cut → cut < next →
      ∃ place, pos ≤ place ∧ place ≤ cut ∧ read (code.extract 0 cut) pos = .error (.truncated place)

/-- What can be relied on of a reader of at most `width` bytes. -/
structure IsReader (width : Nat) (read : Reader α) : Prop where
  isLocal : IsLocal read
  needsAll : NeedsAll width read
  ne_tooManySteps : ∀ code pos, read code pos ≠ .error .tooManySteps

/-! ## Codes that agree -/

/-- What agrees up to the end of a second part agrees up to the end of the first. -/
theorem Agree.first {code other : Bytes} {pos middle next place : Nat}
    (h : Agree code pos next other place) (hle : middle ≤ next) :
    Agree code pos middle other place :=
  fun index hindex => h index (by omega)

/-- What agrees agrees from a second part on. -/
theorem Agree.second {code other : Bytes} {pos middle next place : Nat}
    (h : Agree code pos next other place) (hle : pos ≤ middle) :
    Agree code middle next other (place + (middle - pos)) := by
  intro index hindex
  have hsame := h (middle - pos + index) (by omega)
  rw [show pos + (middle - pos + index) = middle + index by omega] at hsame
  rw [← hsame, Nat.add_assoc]

/-- A code agrees with itself up to where it is cut. -/
theorem agree_cut (code : Bytes) {pos next cut : Nat} (hcut : next ≤ cut) :
    Agree code pos next (code.extract 0 cut) pos := by
  intro index hindex
  rw [Array.getElem?_extract, Nat.zero_add]
  split
  · rfl
  · rw [Array.getElem?_eq_none (by omega)]

/-! ## Chains of readers -/

theorem IsReader.mono {read : Reader α} {width more : Nat} (h : IsReader width read)
    (hle : width ≤ more) : IsReader more read where
  isLocal := h.isLocal
  needsAll _ _ _ _ hread :=
    ⟨Nat.le_trans (h.needsAll hread).1 (Nat.add_le_add_left hle _), (h.needsAll hread).2⟩
  ne_tooManySteps := h.ne_tooManySteps

theorem isReader_pure (value : α) : IsReader 0 fun _ pos => .ok (value, pos) where
  isLocal := by
    intro code pos value' next h
    cases h
    exact ⟨Nat.le_refl _, Nat.le_max_left _ _, fun other place _ => by rw [Nat.sub_self]; rfl⟩
  needsAll := by
    intro code pos value' next h
    cases h
    exact ⟨Nat.le_refl _, fun cut hle hlt => absurd hlt (Nat.not_lt.mpr hle)⟩
  ne_tooManySteps _ _ h := by cases h

theorem isReader_error {error : Nat → SequenceError} (h : ∀ pos, error pos ≠ .tooManySteps) :
    IsReader 0 fun _ pos => (.error (error pos) : Except SequenceError (α × Nat)) where
  isLocal _ _ _ _ hread := by cases hread
  needsAll _ _ _ _ hread := by cases hread
  ne_tooManySteps _ pos hread := h pos (Except.error.inj hread)

theorem IsLocal.bind {first : Reader α} {second : α × Nat → Bytes → Except SequenceError (β × Nat)}
    (hfirst : IsLocal first) (hsecond : ∀ value, IsLocal fun code pos => second (value, pos) code) :
    IsLocal fun code pos => first code pos >>= fun result => second result code := by
  intro code pos value next h
  obtain ⟨⟨middle, place⟩, hmiddle, hnext⟩ := Checked.bind_eq_ok_iff.mp h
  obtain ⟨hle, hmax, hmoved⟩ := hfirst hmiddle
  obtain ⟨hle', hmax', hmoved'⟩ := hsecond middle hnext
  refine ⟨by omega, by omega, ?_⟩
  intro other there hagree
  have hmoved'' : second (middle, there + (place - pos)) other
      = .ok (value, there + (place - pos) + (next - place)) :=
    hmoved' other _ (hagree.second hle)
  refine Checked.bind_eq_ok_iff.mpr ⟨_, hmoved other there (hagree.first hle'), ?_⟩
  rw [hmoved'', show there + (place - pos) + (next - place) = there + (next - pos) by omega]

theorem NeedsAll.bind {first : Reader α} {second : α × Nat → Bytes → Except SequenceError (β × Nat)}
    {width more : Nat} (hfirst : NeedsAll width first) (hlocal : IsLocal first)
    (hsecond : ∀ value, NeedsAll more fun code pos => second (value, pos) code) :
    NeedsAll (width + more) fun code pos =>
      first code pos >>= fun result => second result code := by
  intro code pos value next h
  obtain ⟨⟨middle, place⟩, hmiddle, hnext⟩ := Checked.bind_eq_ok_iff.mp h
  obtain ⟨hwidth, hshort⟩ := hfirst hmiddle
  obtain ⟨hmore, hshort'⟩ := hsecond middle hnext
  obtain ⟨hle, -, hmoved⟩ := hlocal hmiddle
  refine ⟨by omega, fun cut hpos hcut => ?_⟩
  by_cases hearly : cut < place
  · obtain ⟨there, hge, hthere, herror⟩ := hshort cut hpos hearly
    exact ⟨there, hge, hthere, Checked.bind_eq_error_iff.mpr (.inl herror)⟩
  · -- the first part is there, so it is the second one that misses a byte
    have hread := hmoved _ pos (agree_cut code (Nat.not_lt.mp hearly))
    rw [Nat.add_sub_cancel' hle] at hread
    obtain ⟨there, hge, hthere, herror⟩ := hshort' cut (Nat.not_lt.mp hearly) hcut
    exact ⟨there, by omega, hthere, Checked.bind_eq_error_iff.mpr (.inr ⟨_, hread, herror⟩)⟩

theorem IsReader.bind {first : Reader α}
    {second : α × Nat → Bytes → Except SequenceError (β × Nat)} {width more : Nat}
    (hfirst : IsReader width first)
    (hsecond : ∀ value, IsReader more fun code pos => second (value, pos) code) :
    IsReader (width + more) fun code pos =>
      first code pos >>= fun result => second result code where
  isLocal := hfirst.isLocal.bind fun value => (hsecond value).isLocal
  needsAll := hfirst.needsAll.bind hfirst.isLocal fun value => (hsecond value).needsAll
  ne_tooManySteps code pos := Checked.bind_ne_error (hfirst.ne_tooManySteps code pos)
    fun result => (hsecond result.1).ne_tooManySteps code result.2

/-- What is made of a value takes no more bytes. -/
theorem IsReader.map {first : Reader α} {width : Nat} (hfirst : IsReader width first)
    (make : α → β) :
    IsReader width fun code pos => first code pos >>= fun result =>
      .ok (make result.1, result.2) :=
  @IsReader.bind _ _ first (fun result _ => .ok (make result.1, result.2)) width 0 hfirst
    fun value => isReader_pure (make value)

/-! ## Bytes and numbers -/

theorem byte_eq_ok_iff {code : Bytes} {pos : Nat} {value : UInt8} :
    byte code pos = .ok value ↔ code[pos]? = some value := by
  rw [byte]
  cases code[pos]? with
  | none => exact ⟨nofun, nofun⟩
  | some other => exact ⟨fun h => congrArg some (Except.ok.inj h), fun h => by cases h; rfl⟩

theorem byte_agree {code other : Bytes} {pos next place : Nat} {value : UInt8}
    (hagree : Agree code pos next other place) (hlt : pos < next)
    (hbyte : byte code pos = .ok value) : byte other place = .ok value := by
  rw [byte_eq_ok_iff] at hbyte ⊢
  exact (hagree 0 hlt).trans hbyte

/-- A byte, and the place behind it. -/
def nextByte : Reader UInt8 := fun code pos => byte code pos >>= fun value => pure (value, pos + 1)

theorem isReader_nextByte : IsReader 1 nextByte where
  isLocal := by
    intro code pos value next h
    obtain ⟨value, hvalue, hnext⟩ := Checked.bind_eq_ok_iff.mp h
    cases hnext
    have hlt := (Array.getElem?_eq_some_iff.mp (byte_eq_ok_iff.mp hvalue)).1
    refine ⟨by omega, by omega, fun other place hagree => ?_⟩
    rw [nextByte, byte_agree hagree (by omega) hvalue, Nat.add_sub_cancel_left]
    rfl
  needsAll := by
    intro code pos value next h
    obtain ⟨value, -, hnext⟩ := Checked.bind_eq_ok_iff.mp h
    cases hnext
    refine ⟨Nat.le_refl _, fun cut hpos hcut => ⟨cut, hpos, Nat.le_refl cut, ?_⟩⟩
    obtain rfl : pos = cut := by omega
    have hnone : (code.extract 0 pos)[pos]? = none :=
      Array.getElem?_eq_none (by rw [Array.size_extract]; omega)
    rw [nextByte, byte, hnone]
    rfl
  ne_tooManySteps code pos := by
    rw [nextByte, byte]
    cases code[pos]? <;> exact nofun

/-- A byte, and what is read behind it. -/
theorem isReader_byte_bind {width : Nat} {second : UInt8 → Reader β}
    (h : ∀ value, IsReader width (second value)) :
    IsReader (width + 1) fun code pos =>
      byte code pos >>= fun value => second value code (pos + 1) := by
  have hchain : IsReader (1 + width) fun code pos =>
      nextByte code pos >>= fun result => second result.1 code result.2 :=
    isReader_nextByte.bind h
  simpa only [nextByte, bind_assoc, pure_bind, Nat.add_comm 1] using hchain

/-- The same bytes spell the same number. -/
theorem isLocal_number (width : Nat) : IsLocal fun code pos => number code pos (width + 1) := by
  intro code pos value next h
  have h : number code pos (width + 1) = .ok (value, next) := h
  rw [number] at h
  split at h
  · next hfits =>
      cases h
      refine ⟨by omega, by omega, ?_⟩
      intro other place hagree
      -- the last byte of the number stands in the other code, so the number fits there
      have hlast := hagree width (by omega)
      rw [Array.getElem?_eq_getElem (show pos + width < code.size by omega)] at hlast
      have hplace := (Array.getElem?_eq_some_iff.mp hlast).1
      have hextract : other.extract place (place + (width + 1))
          = code.extract pos (pos + (width + 1)) := by
        refine Array.ext_getElem? fun index => ?_
        rw [Array.getElem?_extract, Array.getElem?_extract]
        by_cases hindex : index < width + 1
        · rw [if_pos (by omega), if_pos (by omega)]
          exact hagree index (by omega)
        · rw [if_neg (by omega), if_neg (by omega)]
      show number other place (width + 1) = _
      rw [number, if_pos (by omega), hextract, Nat.add_sub_cancel_left]
  · cases h

theorem needsAll_number (width : Nat) : NeedsAll width fun code pos => number code pos width := by
  intro code pos value next h
  have h : number code pos width = .ok (value, next) := h
  rw [number] at h
  split at h
  · next hfits =>
      cases h
      refine ⟨Nat.le_refl _, fun cut hpos hcut => ⟨pos, Nat.le_refl _, hpos, ?_⟩⟩
      show number (code.extract 0 cut) pos width = _
      rw [number, if_neg]
      rw [Array.size_extract]
      omega
  · cases h

theorem isReader_number (width : Nat) :
    IsReader (width + 1) fun code pos => number code pos (width + 1) where
  isLocal := isLocal_number width
  needsAll := needsAll_number (width + 1)
  ne_tooManySteps code pos := by
    rw [number]
    split <;> exact nofun

theorem isReader_word : IsReader 2 word :=
  (isReader_number 1).map fun value => (UInt16.ofNat value).toInt16

theorem isReader_quantityFrom (groups : Nat) (value : UInt32) :
    IsReader groups fun code pos => quantityFrom code groups value pos := by
  induction groups generalizing value with
  | zero => exact isReader_pure value
  | succ groups ih =>
      refine @isReader_byte_bind _ groups (fun group code pos =>
        if group < 0x80 then .ok (UInt32.ofNat (value.toNat * 128 + group.toNat % 128), pos)
        else quantityFrom code groups (UInt32.ofNat (value.toNat * 128 + group.toNat % 128)) pos) ?_
      intro group
      by_cases hlast : group < 0x80
      · simp only [if_pos hlast]
        exact (isReader_pure _).mono (Nat.zero_le groups)
      · simp only [if_neg hlast]
        exact ih _

/-- No argument takes more than five bytes. -/
theorem isReader_argument (encoding : Encoding) :
    IsReader 5 fun code pos => argument code encoding pos := by
  cases encoding with
  | variableLength => exact (isReader_quantityFrom 5 0).map UInt32.toInt32
  | byte =>
      have hbyte : IsReader 1 fun code pos => argument code .byte pos :=
        isReader_byte_bind fun value => isReader_pure (Int32.ofNat value.toNat)
      exact hbyte.mono (by decide)
  | word =>
      have hword : IsReader 2 fun code pos => argument code .word pos :=
        isReader_word.map Int16.toInt32
      exact hword.mono (by decide)
  | range =>
      have hrange : IsReader (2 + 2) fun code pos => argument code .range pos :=
        isReader_word.bind fun low =>
          isReader_word.map fun high => (low.toInt32 + high.toInt32) / 2
      exact hrange.mono (by decide)

end Bytecode

end ConsoleSound

import ConsoleSound.Sequence.Instruction
import ConsoleSound.Proofs.Sequence.Readers
/-! # Where an instruction is read

The opcode of an instruction tells how to read on, but its argument is read in the encoding that
the instruction before gives, if that is a prefix. `Instruction.readIn` is a reader of
instructions in a given encoding, of at most seven bytes (`isReader_readIn`), and `Instruction.read`
is this reader together with the register that tells the encoding (`fst_read`, `register_of_read`).

This makes three facts: reading goes forward and stays inside the code
(`Instruction.read_bounds`), an instruction can be moved with its bytes
(`Instruction.read_moved`), and what cannot be read fails for its own reason, not because a
track has played too long (`Instruction.read_ne_tooManySteps`). -/

namespace ConsoleSound

/-- An override of the encoding at an offset, if there is an encoding. -/
def ArgumentRegister.at (encoding? : Option Encoding) (offset : Nat) : ArgumentRegister :=
  encoding?.map fun encoding => ⟨encoding, offset⟩

namespace Instruction

open Bytecode

/-! ## Instructions -/

theorem readWithArgument_eq_ok_iff {code : Bytes} {place pos next : Nat} {opcode : UInt8}
    {encoding : Encoding} {instruction : Instruction} :
    readWithArgument code place pos opcode encoding = .ok (instruction, next)
      ↔ ∃ value, argument code encoding pos = .ok (value, next)
        ∧ ofArgument? opcode value = some instruction := by
  rw [readWithArgument, Checked.bind_eq_ok_iff]
  constructor
  · rintro ⟨⟨value, after⟩, hargument, hmade⟩
    cases hinstruction : ofArgument? opcode value with
    | none =>
        simp only [hinstruction] at hmade
        cases hmade
    | some made =>
        simp only [hinstruction] at hmade
        cases hmade
        exact ⟨value, hargument, hinstruction⟩
  · rintro ⟨value, hargument, hinstruction⟩
    refine ⟨(value, next), hargument, ?_⟩
    simp only [hinstruction]
    rfl

/-- An instruction whose argument starts right behind its opcode ends where its argument does. -/
theorem isReader_readWithArgument (opcode : UInt8) (encoding : Encoding) :
    IsReader 5 fun code pos => readWithArgument code (pos - 1) pos opcode encoding where
  isLocal := by
    intro code pos instruction next h
    obtain ⟨value, hargument, hinstruction⟩ := readWithArgument_eq_ok_iff.mp h
    obtain ⟨hle, hmax, hmoved⟩ := (isReader_argument encoding).isLocal hargument
    refine ⟨hle, hmax, fun other place hagree => ?_⟩
    exact readWithArgument_eq_ok_iff.mpr ⟨value, hmoved other place hagree, hinstruction⟩
  needsAll := by
    intro code pos instruction next h
    obtain ⟨value, hargument, -⟩ := readWithArgument_eq_ok_iff.mp h
    obtain ⟨hwidth, hshort⟩ := (isReader_argument encoding).needsAll hargument
    refine ⟨hwidth, fun cut hpos hcut => ?_⟩
    obtain ⟨place, hge, hle, herror⟩ := hshort cut hpos hcut
    exact ⟨place, hge, hle, Checked.bind_eq_error_iff.mpr (.inl herror)⟩
  ne_tooManySteps code pos := by
    refine Checked.bind_ne_error ((isReader_argument encoding).ne_tooManySteps code pos)
      fun result => ?_
    dsimp only
    split <;> exact nofun

theorem isReader_readNote (key velocity : UInt8) (encoding : Encoding) :
    IsReader 5 fun code pos => readNote code pos key velocity encoding :=
  (isReader_argument encoding).map fun duration => note key velocity duration.toUInt32

/-- What is read behind the sub-opcode of an extended instruction. -/
def readOperand (sub : UInt8) : Reader Instruction := fun code pos => do
  let width ← match sub.toNat / 16 with
    | 0xe => pure 2
    | 0x8 | 0x9 => pure 3
    | _ => .error (.unknownExtended sub (pos - 1 - 1))
  let (operand, next) ← number code pos width
  return (extended sub (UInt32.ofNat operand), next)

theorem isReader_readExtended :
    IsReader 4 fun code pos => readExtended code (pos - 1) pos := by
  refine @isReader_byte_bind _ 3 readOperand fun sub => ?_
  have hoperand (width : Nat) : IsReader (width + 1) fun code pos =>
      number code pos (width + 1) >>= fun result =>
        .ok (extended sub (UInt32.ofNat result.1), result.2) :=
    (isReader_number width).map fun operand => extended sub (UInt32.ofNat operand)
  unfold readOperand
  split
  · exact (hoperand 1).mono (by decide)
  · exact hoperand 2
  · exact hoperand 2
  · exact IsReader.mono (isReader_error fun _ h => by cases h) (Nat.zero_le _)

theorem isReader_readPlain (opcode : UInt8) :
    IsReader 4 fun code pos => readPlain code (pos - 1) pos opcode := by
  have hmade (width : Nat) (make : Nat → Instruction) : IsReader (width + 1) fun code pos =>
      number code pos (width + 1) >>= fun result => .ok (make result.1, result.2) :=
    (isReader_number width).map make
  have hnone (instruction : Instruction) : IsReader 4 fun _ pos => .ok (instruction, pos) :=
    (isReader_pure instruction).mono (by decide)
  simp only [readPlain]
  split
  · exact isReader_byte_bind fun track =>
      hmade 2 fun target => openTrack track (UInt32.ofNat target)
  · exact (hmade 2 fun target => jump (UInt32.ofNat target)).mono (by decide)
  · exact (hmade 2 fun target => call (UInt32.ofNat target)).mono (by decide)
  · exact hnone _
  · exact hnone _
  · exact hnone _
  · exact hnone _
  · exact (hmade 1 fun mask => allocTrack (UInt16.ofNat mask)).mono (by decide)
  · exact hnone _
  · exact IsReader.mono (isReader_error fun _ h => by cases h) (Nat.zero_le _)

/-- What is read behind an opcode, in an encoding that an override may have given. -/
def readBehind (opcode : UInt8) (encoding? : Option Encoding) : Reader Instruction :=
  fun code pos =>
    if opcode < 0x80 then do
      let velocity ← byte code pos
      readNote code (pos + 1) opcode velocity (encoding?.getD .variableLength)
    else match usualEncoding? opcode with
      | some usual => readWithArgument code (pos - 1) pos opcode (encoding?.getD usual)
      | none =>
        if opcode = 0xa0 then .ok (random, pos)
        else if opcode = 0xa1 then .ok (fromVariable, pos)
        else if opcode = 0xf0 then readExtended code (pos - 1) pos
        else readPlain code (pos - 1) pos opcode

theorem isReader_readBehind (opcode : UInt8) (encoding? : Option Encoding) :
    IsReader 6 (readBehind opcode encoding?) := by
  unfold readBehind
  split
  · exact isReader_byte_bind fun velocity => isReader_readNote opcode velocity _
  · split
    · exact (isReader_readWithArgument opcode _).mono (by decide)
    · split
      · exact (isReader_pure random).mono (by decide)
      · split
        · exact (isReader_pure fromVariable).mono (by decide)
        · split
          · exact isReader_readExtended.mono (by decide)
          · exact (isReader_readPlain opcode).mono (by decide)

/-- An instruction in an encoding that an override may have given. -/
def readIn (encoding? : Option Encoding) : Reader Instruction := fun code pos =>
  byte code pos >>= fun opcode => readBehind opcode encoding? code (pos + 1)

theorem isReader_readIn (encoding? : Option Encoding) : IsReader 7 (readIn encoding?) :=
  isReader_byte_bind fun opcode => isReader_readBehind opcode encoding?

/-- An instruction depends on what the register says at its offset. -/
theorem fst_read (code : Bytes) (offset : Nat) (register : ArgumentRegister) :
    (read code offset register).1
      = readIn ((register.check offset).map Override.encoding) code offset := by
  rw [read, readIn]
  generalize register.check offset = register
  cases byte code offset with
  | error error => rfl
  | ok opcode =>
      show _ = readBehind opcode (register.map Override.encoding) code (offset + 1)
      have hencoding : ∀ usual, register.encoding usual
          = (register.map Override.encoding).getD usual := by
        intro usual
        cases register <;> rfl
      by_cases hnote : opcode < 0x80
      · simp only [readBehind, hencoding, if_pos hnote]
        cases byte code (offset + 1) <;> rfl
      · simp only [readBehind, hencoding, if_neg hnote]
        cases usualEncoding? opcode with
        | some usual => rfl
        | none =>
            by_cases hrandom : opcode = 0xa0
            · simp only [if_pos hrandom]
            · by_cases hvariable : opcode = 0xa1
              · simp only [if_neg hrandom, if_pos hvariable]
              · by_cases hextended : opcode = 0xf0
                · simp only [if_neg hrandom, if_neg hvariable, if_pos hextended]
                  rfl
                · simp only [if_neg hrandom, if_neg hvariable, if_neg hextended]
                  rfl

variable {code : Bytes} {offset next : Nat} {register register' : ArgumentRegister}
  {instruction : Instruction}

theorem readIn_of_read (h : read code offset register = (.ok (instruction, next), register')) :
    readIn ((register.check offset).map Override.encoding) code offset
      = .ok (instruction, next) := by
  rw [← fst_read, h]

/-- An instruction that is read ends behind its offset, and inside the code. -/
theorem read_bounds (h : read code offset register = (.ok (instruction, next), register')) :
    offset < next ∧ next ≤ code.size := by
  obtain ⟨opcode, hopcode, hbehind⟩ := Checked.bind_eq_ok_iff.mp (readIn_of_read h)
  have hlt := (Array.getElem?_eq_some_iff.mp (byte_eq_ok_iff.mp hopcode)).1
  obtain ⟨hle, hmax, -⟩ := (isReader_readBehind opcode _).isLocal hbehind
  omega

/-! ## Ways to read an instruction -/

/-- Whether an instruction has an argument in an encoding that can be overridden. -/
def takesArgument : Instruction → Bool
  | note .. | wait _ | program _ | set .. | setWord .. | loopStart _ => true
  | _ => false

theorem takesArgument_of_ofArgument? {opcode : UInt8} {argument : Int32}
    (h : ofArgument? opcode argument = some instruction) : instruction.takesArgument = true := by
  unfold ofArgument? at h
  split at h
  · cases h; rfl
  · cases h; rfl
  · cases h; rfl
  · cases h; rfl
  · cases h; rfl
  · rw [byteInstruction?] at h
    split at h
    · cases h; rfl
    · obtain ⟨control, -, rfl⟩ := Option.map_eq_some_iff.mp h
      rfl

theorem takesArgument_of_readWithArgument {place pos : Nat} {opcode : UInt8} {encoding : Encoding}
    (h : readWithArgument code place pos opcode encoding = .ok (instruction, next)) :
    instruction.takesArgument = true := by
  obtain ⟨value, -, hinstruction⟩ := readWithArgument_eq_ok_iff.mp h
  exact takesArgument_of_ofArgument? hinstruction

theorem exists_of_readExtended {place pos : Nat}
    (h : readExtended code place pos = .ok (instruction, next)) :
    ∃ sub operand, instruction = extended sub operand := by
  obtain ⟨sub, -, hrest⟩ := Checked.bind_eq_ok_iff.mp h
  have hmade : ∀ width, (number code (pos + 1) width >>= fun read =>
      pure (extended sub (UInt32.ofNat read.1), read.2)) = Except.ok (instruction, next) →
      ∃ sub operand, instruction = extended sub operand := by
    intro width hwidth
    obtain ⟨⟨operand, after⟩, -, hmade⟩ := Checked.bind_eq_ok_iff.mp hwidth
    cases hmade
    exact ⟨sub, _, rfl⟩
  dsimp only at hrest
  split at hrest
  · exact hmade 2 hrest
  · exact hmade 3 hrest
  · exact hmade 3 hrest
  · cases hrest

/-- The override that an instruction leaves for the next one, or none at all; nothing if it
does not touch the register. -/
def leaves? : Instruction → Option (Option Encoding)
  | random => some (some .range)
  | fromVariable => some (some .variableLength)
  | extended .. => some none
  | instruction => if instruction.takesArgument then some none else none

theorem leaves?_of_takesArgument (h : instruction.takesArgument = true) :
    instruction.leaves? = some none := by
  unfold leaves?
  split
  · cases h
  · cases h
  · rfl
  · rw [if_pos h]

/-- The register behind an instruction that ends at `next`. -/
def registerAfter (instruction : Instruction) (register : ArgumentRegister) (next : Nat) :
    ArgumentRegister :=
  match instruction.leaves? with
  | some encoding? => .at encoding? next
  | none => register

/-- The ways in which the instruction at an offset can be read. -/
inductive Decoded (code : Bytes) (offset : Nat) (register : ArgumentRegister) :
    Instruction → Nat → ArgumentRegister → Prop where
  | argument {instruction : Instruction} {next : Nat} :
      instruction.takesArgument = true → Decoded code offset register instruction next none
  | random : Decoded code offset register random (offset + 1) (some ⟨.range, offset + 1⟩)
  | fromVariable :
      Decoded code offset register fromVariable (offset + 1) (some ⟨.variableLength, offset + 1⟩)
  | extended {sub : UInt8} {operand : UInt32} {next : Nat} :
      Decoded code offset register (extended sub operand) next none
  | plain {opcode : UInt8} {instruction : Instruction} {next : Nat} :
      code[offset]? = some opcode →
      readPlain code offset (offset + 1) opcode = .ok (instruction, next) →
      Decoded code offset register instruction next (register.check offset)

theorem decoded_of_read (h : read code offset register = (.ok (instruction, next), register')) :
    Decoded code offset register instruction next register' := by
  rw [read] at h
  cases hopcode : byte code offset with
  | error error =>
      simp only [hopcode] at h
      exact nomatch h
  | ok opcode =>
      simp only [hopcode] at h
      split at h
      · cases hvelocity : byte code (offset + 1) with
        | error error =>
            simp only [hvelocity] at h
            exact nomatch h
        | ok velocity =>
            simp only [hvelocity] at h
            obtain ⟨hread, rfl⟩ := Prod.mk.inj h
            obtain ⟨⟨duration, after⟩, -, hmade⟩ := Checked.bind_eq_ok_iff.mp hread
            cases hmade
            exact .argument rfl
      · split at h
        · obtain ⟨hread, rfl⟩ := Prod.mk.inj h
          exact .argument (takesArgument_of_readWithArgument hread)
        · split at h
          · cases h
            exact .random
          · split at h
            · cases h
              exact .fromVariable
            · split at h
              · obtain ⟨hread, rfl⟩ := Prod.mk.inj h
                obtain ⟨sub, operand, rfl⟩ := exists_of_readExtended hread
                exact .extended
              · obtain ⟨hread, rfl⟩ := Prod.mk.inj h
                exact .plain (byte_eq_ok_iff.mp hopcode) hread

/-- An instruction without an argument has an opcode of its own and leaves the register alone, and a
jump is its opcode and the three bytes behind it. -/
theorem of_readPlain {place pos : Nat} {opcode : UInt8}
    (h : readPlain code place pos opcode = .ok (instruction, next)) :
    instruction.leaves? = none ∧ (¬opcode < 0x80 ∧ usualEncoding? opcode = none)
      ∧ ∀ target, instruction = jump target → opcode = 0x89
        ∧ ∃ number, Bytecode.number code pos 3 = .ok (number, next)
          ∧ target = UInt32.ofNat number := by
  unfold readPlain at h
  split at h
  · obtain ⟨track, -, hrest⟩ := Checked.bind_eq_ok_iff.mp h
    obtain ⟨⟨target, after⟩, -, hmade⟩ := Checked.bind_eq_ok_iff.mp hrest
    cases hmade
    exact ⟨rfl, by decide, nofun⟩
  · obtain ⟨⟨number, after⟩, hnumber, hmade⟩ := Checked.bind_eq_ok_iff.mp h
    cases hmade
    refine ⟨rfl, by decide, fun target htarget => ⟨rfl, number, hnumber, ?_⟩⟩
    exact (jump.inj htarget).symm
  · obtain ⟨⟨target, after⟩, -, hmade⟩ := Checked.bind_eq_ok_iff.mp h
    cases hmade
    exact ⟨rfl, by decide, nofun⟩
  · cases h; exact ⟨rfl, by decide, nofun⟩
  · cases h; exact ⟨rfl, by decide, nofun⟩
  · cases h; exact ⟨rfl, by decide, nofun⟩
  · cases h; exact ⟨rfl, by decide, nofun⟩
  · obtain ⟨⟨mask, after⟩, -, hmade⟩ := Checked.bind_eq_ok_iff.mp h
    cases hmade
    exact ⟨rfl, by decide, nofun⟩
  · cases h; exact ⟨rfl, by decide, nofun⟩
  · cases h

/-- The instruction says what becomes of an override. -/
theorem register_of_read (h : read code offset register = (.ok (instruction, next), register')) :
    register' = instruction.registerAfter (register.check offset) next := by
  cases decoded_of_read h with
  | argument htakes =>
      rw [registerAfter, leaves?_of_takesArgument htakes]
      rfl
  | random => rfl
  | fromVariable => rfl
  | extended => rfl
  | plain _ hplain => rw [registerAfter, (of_readPlain hplain).1]

theorem read_of_readIn (h : readIn ((register.check offset).map Override.encoding) code offset
      = .ok (instruction, next)) :
    read code offset register
      = (.ok (instruction, next), instruction.registerAfter (register.check offset) next) := by
  have hfst := fst_read code offset register
  rcases hpair : read code offset register with ⟨result, left⟩
  rw [hpair, h] at hfst
  obtain rfl : result = .ok (instruction, next) := hfst
  rw [register_of_read hpair]

/-- Where a jump leads is stored behind its opcode, whatever was read before it. -/
theorem read_jump {target : UInt32}
    (h : read code offset register = (.ok (jump target, next), register')) :
    code[offset]? = some 0x89
      ∧ ∃ number, Bytecode.number code (offset + 1) 3 = .ok (number, next)
        ∧ target = UInt32.ofNat number := by
  cases decoded_of_read h with
  | argument htakes => exact nomatch htakes
  | plain hopcode hplain =>
      obtain ⟨rfl, hnumber⟩ := (of_readPlain hplain).2.2 target rfl
      exact ⟨hopcode, hnumber⟩

/-! ## Moving an instruction -/

theorem check_at (encoding? : Option Encoding) (offset : Nat) :
    (ArgumentRegister.at encoding? offset).check offset = .at encoding? offset := by
  cases encoding? with
  | none => rfl
  | some encoding => simp [ArgumentRegister.at, ArgumentRegister.check]

theorem map_encoding_at (encoding? : Option Encoding) (offset : Nat) :
    (ArgumentRegister.at encoding? offset).map Override.encoding = encoding? := by
  cases encoding? <;> rfl

theorem at_inj {encoding? encoding?' : Option Encoding}
    (h : ArgumentRegister.at encoding? offset = .at encoding?' offset) :
    encoding? = encoding?' := by
  rw [← map_encoding_at encoding? offset, h, map_encoding_at]

/-- Overrides at different offsets are equal only if there are none. -/
theorem eq_none_of_at_eq {encoding? encoding?' : Option Encoding} (hne : next ≠ offset)
    (h : ArgumentRegister.at encoding? next = .at encoding?' offset) :
    encoding? = none ∧ encoding?' = none := by
  cases encoding? with
  | none =>
      cases encoding?' with
      | none => exact ⟨rfl, rfl⟩
      | some encoding => exact nomatch h
  | some encoding =>
      cases encoding?' with
      | none => exact nomatch h
      | some encoding' =>
          have hoffset := congrArg Override.offset (Option.some.inj h)
          exact absurd hoffset hne

/-- An instruction moves with its bytes: read under an override or without one, it leaves the
same register there, if the one that it leaves is for the next instruction. -/
theorem read_moved {encoding? encoding?' : Option Encoding}
    (h : read code offset (.at encoding? offset)
      = (.ok (instruction, next), .at encoding?' next))
    {other : Bytes} {place : Nat} (hagree : Agree code offset next other place) :
    read other place (.at encoding? place)
      = (.ok (instruction, place + (next - offset)), .at encoding?' (place + (next - offset))) := by
  have hlt := (read_bounds h).1
  obtain ⟨-, -, hmoved⟩ := (isReader_readIn _).isLocal (readIn_of_read h)
  have hother := hmoved other place hagree
  rw [check_at, map_encoding_at, ← map_encoding_at encoding? place, ← check_at] at hother
  rw [read_of_readIn hother]
  -- which register it leaves is told by the instruction
  have hregister := register_of_read h
  rw [check_at, registerAfter] at hregister ⊢
  cases hleaves : instruction.leaves? with
  | some left? =>
      rw [hleaves] at hregister
      rw [at_inj hregister]
  | none =>
      rw [hleaves] at hregister
      obtain ⟨rfl, rfl⟩ := eq_none_of_at_eq (by omega) hregister
      rfl

/-- What cannot be read fails for its own reason, never because a track plays too long. -/
theorem read_ne_tooManySteps (code : Bytes) (offset : Nat) (register : ArgumentRegister) :
    (read code offset register).1 ≠ .error .tooManySteps := by
  rw [fst_read]
  exact (isReader_readIn _).ne_tooManySteps code offset

end Instruction

end ConsoleSound

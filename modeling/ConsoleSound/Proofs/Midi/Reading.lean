import ConsoleSound.Proofs.Midi.Quantity
/-! # Reading tracks

A reader of MIDI files takes the body of a track apart into records: ticks since the
record before, a status byte, and data whose length the status tells. Every message has
its status byte; one that goes without, to share that of the message before it, is not
understood. Reading a record takes bytes, so that a reader comes to an end
(`readRecord?_length`). -/

namespace ConsoleSound.Midi

/-- A message of a track as a reader finds it. -/
structure Record where
  /-- The ticks from the start of the track. -/
  time : Nat
  status : UInt8
  data : List UInt8
  deriving DecidableEq, Repr

/-- The first bytes of some, and those after them, if there are as many. -/
def take? (count : Nat) (bytes : List UInt8) : Option (List UInt8 × List UInt8) :=
  if count ≤ bytes.length then some (bytes.take count, bytes.drop count) else none

/-- The number of data bytes behind the status byte of a channel message. -/
def dataLength? (status : UInt8) : Option Nat :=
  match status.toNat / 16 with
  | 0xc => some 1
  | 0x8 | 0x9 | 0xb | 0xe => some 2
  | _ => none

/-- The data behind a status byte, and the bytes after it. Meta events have a code and
counted data, system messages counted data; a message never goes without its status. -/
def readData? (status : UInt8) (bytes : List UInt8) : Option (List UInt8 × List UInt8) := do
  if status = 0xff then
    let (code, bytes) ← take? 1 bytes
    let (length, bytes) ← readQuantity? bytes
    let (data, bytes) ← take? length bytes
    return (code ++ data, bytes)
  else if status = 0xf0 then
    let (length, bytes) ← readQuantity? bytes
    take? length bytes
  else
    take? (← dataLength? status) bytes

/-- The record at the front of some bytes, after one at tick `time`, and the bytes after it. -/
def readRecord? (time : Nat) (bytes : List UInt8) : Option (Record × List UInt8) :=
  match readQuantity? bytes with
  | some (delta, status :: bytes) =>
    (readData? status bytes).map fun (data, rest) => (⟨time + delta, status, data⟩, rest)
  | _ => none

theorem take?_length {count : Nat} {bytes data rest : List UInt8}
    (h : take? count bytes = some (data, rest)) : rest.length ≤ bytes.length := by
  rw [take?] at h
  split at h
  · rw [← (Prod.mk.inj (Option.some.inj h)).2, List.length_drop]
    exact Nat.sub_le _ _
  · exact nomatch h

theorem readData?_length {status : UInt8} {bytes data rest : List UInt8}
    (h : readData? status bytes = some (data, rest)) : rest.length ≤ bytes.length := by
  rw [readData?] at h
  split at h
  · obtain ⟨⟨code, afterCode⟩, hcode, h⟩ := Option.bind_eq_some_iff.mp h
    obtain ⟨⟨length, afterLength⟩, hlength, h⟩ := Option.bind_eq_some_iff.mp h
    obtain ⟨⟨more, afterData⟩, hdata, h⟩ := Option.bind_eq_some_iff.mp h
    rw [← (Prod.mk.inj (Option.some.inj h)).2]
    exact Nat.le_trans (take?_length hdata)
      (Nat.le_trans (Nat.le_of_lt (readGroups?_length hlength)) (take?_length hcode))
  · split at h
    · obtain ⟨⟨length, afterLength⟩, hlength, h⟩ := Option.bind_eq_some_iff.mp h
      exact Nat.le_trans (take?_length h) (Nat.le_of_lt (readGroups?_length hlength))
    · obtain ⟨length, -, h⟩ := Option.bind_eq_some_iff.mp h
      exact take?_length h

/-- Reading a record takes a byte at least. -/
theorem readRecord?_length {time : Nat} {bytes rest : List UInt8} {record : Record}
    (h : readRecord? time bytes = some (record, rest)) : rest.length < bytes.length := by
  rw [readRecord?] at h
  split at h
  · next delta status behind hdelta =>
      obtain ⟨⟨data, rest'⟩, hdata, heq⟩ := Option.map_eq_some_iff.mp h
      rw [← (Prod.mk.inj heq).2]
      exact Nat.lt_of_le_of_lt (readData?_length hdata)
        (Nat.lt_of_succ_lt (readGroups?_length hdelta))
  · exact nomatch h

/-- The records that some bytes consist of, after one at tick `time`; there are none if
bytes are left that are no record. -/
def readRecords? (time : Nat) (bytes : List UInt8) : Option (List Record) :=
  if bytes = [] then some []
  else match _h : readRecord? time bytes with
    | some (record, rest) => (readRecords? record.time rest).map (record :: ·)
    | none => none
termination_by bytes.length
decreasing_by exact readRecord?_length _h

theorem readRecords?_nil (time : Nat) : readRecords? time [] = some [] := by
  rw [readRecords?, if_pos rfl]

theorem readRecords?_of_readRecord? {time : Nat} {bytes rest : List UInt8} {record : Record}
    (h : readRecord? time bytes = some (record, rest)) :
    readRecords? time bytes = (readRecords? record.time rest).map (record :: ·) := by
  have hbytes : bytes ≠ [] := by
    rintro rfl
    exact nomatch h
  rw [readRecords?, if_neg hbytes]
  split
  · next record' rest' h' =>
      rw [h] at h'
      obtain ⟨rfl, rfl⟩ := Prod.mk.inj (Option.some.inj h')
      rfl
  · next h' => exact nomatch h.symm.trans h'

end ConsoleSound.Midi

import ConsoleSound.SoundFont.File
import ConsoleSound.Proofs.Checked
import ConsoleSound.Proofs.SoundFont.Records
/-! # The instruments of a SoundFont

A synthesizer finds the zones of an instrument through three tables: the instruments
divide the bags, the bags divide the generators, and the generators of a bag are a zone
(`storedInstruments`). Read back in this way, the tables of a SoundFont give the zones
of its programs (`storedInstruments_tables`).

`Consists` says what a SoundFont consists of when there is one. -/

namespace ConsoleSound

namespace Riff.Chunk

mutual

/-- The chunks of data in a tree with their codes. -/
def leaves : Chunk → List (Magic × Array UInt8)
  | data id payload => [(id, payload)]
  | list _ _ children => leavesOf children

/-- The chunks of data in some trees. -/
def leavesOf : List Chunk → List (Magic × Array UInt8)
  | [] => []
  | child :: children => leaves child ++ leavesOf children

end

/-- The first chunk of data with a code. -/
def table? (chunk : Chunk) (id : Magic) : Option (List UInt8) :=
  (chunk.leaves.lookup id).map Array.toList

end Riff.Chunk

namespace SoundFont

open Riff (word Chunk)
open Checked

/-! ## Generators -/

/-- A generator as it is stored. -/
structure StoredGenerator where
  operator : Nat
  low : UInt8
  high : UInt8
  deriving DecidableEq, Repr

namespace StoredGenerator

/-- The generator of a record. -/
def read (record : List UInt8) : StoredGenerator :=
  ⟨wordAt 0 record, record.getD 2 0, record.getD 3 0⟩

/-- The two bytes of a generator as a number. -/
def amount (generator : StoredGenerator) : Nat := generator.low.toNat + generator.high.toNat * 256

end StoredGenerator

/-- What is stored of a generator. -/
def Generator.stored (generator : Generator) : StoredGenerator :=
  ⟨generator.operator.code, generator.low, generator.high⟩

theorem length_bytes (generator : Generator) : generator.bytes.length = 4 := by
  rw [Generator.bytes, List.length_append, length_word]
  rfl

theorem read_bytes (generator : Generator) :
    StoredGenerator.read generator.bytes = generator.stored := by
  have hcode : wordAt 0 generator.bytes = generator.operator.code := by
    have hword := wordAt_append [] rfl generator.operator.code [generator.low, generator.high]
    have hsmall : generator.operator.code < 65536 := by
      cases generator.operator <;> decide
    rw [Nat.mod_eq_of_lt hsmall] at hword
    exact hword
  rw [StoredGenerator.read, Generator.stored, hcode]
  rfl

/-- A number keeps its value if it fits into two bytes. -/
theorem amount_number (operator : Operator) {value : Nat} (h : value < 65536) :
    (Generator.number operator value).stored.amount = value := by
  simp only [Generator.number, Generator.stored, StoredGenerator.amount, UInt8.toNat_ofNat']
  omega

/-- The generators of a zone as they are stored. -/
def storedZone (waves : Array Audio) (zone : Zone) : List StoredGenerator :=
  (zoneGenerators waves zone).map Generator.stored

theorem length_storedZone (waves : Array Audio) (zone : Zone) :
    (storedZone waves zone).length = zoneSize zone := by
  rw [storedZone, List.length_map, zoneGenerators, zoneSize]
  split <;> rfl

/-! ## Tables -/

/-- The zones of each instrument, found through the tables of a SoundFont. -/
def storedInstruments (instruments bags generators : List UInt8) :
    List (List (List StoredGenerator)) :=
  slices ((records 22 instruments).map (wordAt 20))
    (slices ((records 4 bags).map (wordAt 0)) ((records 4 generators).map StoredGenerator.read))

theorem length_nameField (name : String) : (nameField name).length = 20 := by
  simp only [nameField, List.length_append, List.length_take, List.length_replicate]
  omega

theorem length_instrument (name : String) (bagIndex : Nat) :
    (instrument name bagIndex).length = 22 := by
  rw [instrument, List.length_append, length_nameField, length_word]

theorem wordAt_instrument (name : String) (bagIndex : Nat) :
    wordAt 20 (instrument name bagIndex) = bagIndex % 65536 := by
  have hword := wordAt_append (nameField name) (length_nameField name) bagIndex []
  rw [List.append_nil] at hword
  exact hword

/-- Each instrument holds the number of its first bag, less what two bytes cut off. -/
theorem firstBags_instrumentsFrom (index bagIndex : Nat) (programs : List (List Zone)) :
    (records 22 (instrumentsFrom index bagIndex programs)).map (wordAt 20)
      = (boundsFrom bagIndex programs).map (· % 65536) := by
  induction programs generalizing index bagIndex with
  | nil =>
      have hrecords := records_append (by decide) (length_instrument "EOI" bagIndex) []
      rw [List.append_nil, records_nil] at hrecords
      rw [instrumentsFrom, hrecords, List.map_singleton, wordAt_instrument]
      rfl
  | cons zones programs ih =>
      rw [instrumentsFrom, records_append (by decide) (length_instrument _ bagIndex) _,
        List.map_cons, wordAt_instrument, ih]
      rfl

theorem length_bag (firstGenerator : Nat) : (bag firstGenerator).length = 4 := by
  rw [bag, List.length_append, length_word, length_word]

theorem wordAt_bag (firstGenerator : Nat) :
    wordAt 0 (bag firstGenerator) = firstGenerator % 65536 :=
  wordAt_append [] rfl firstGenerator (word 0)

/-- Each bag holds the number of its first generator, less what two bytes cut off. -/
theorem firstGenerators_bagsFrom (waves : Array Audio) (generator : Nat) (zones : List Zone) :
    (records 4 (bagsFrom generator zones)).map (wordAt 0)
      = (boundsFrom generator (zones.map (storedZone waves))).map (· % 65536) := by
  induction zones generalizing generator with
  | nil =>
      have hrecords := records_append (by decide) (length_bag generator) []
      rw [List.append_nil, records_nil] at hrecords
      rw [bagsFrom, hrecords, List.map_singleton, wordAt_bag]
      rfl
  | cons zone zones ih =>
      rw [bagsFrom, records_append (by decide) (length_bag generator) _, List.map_cons, wordAt_bag,
        ih, List.map_cons, boundsFrom, length_storedZone]
      rfl

/-- Bounds that fit into two bytes are stored as they are. -/
theorem map_mod_boundsFrom {α : Type} (parts : List (List α))
    (h : parts.flatten.length < 65536) :
    (boundsFrom 0 parts).map (· % 65536) = boundsFrom 0 parts := by
  refine (List.map_congr_left ?_).trans (List.map_id _)
  intro bound hmem
  have hle := le_of_mem_boundsFrom hmem
  exact Nat.mod_eq_of_lt (by omega)

theorem length_storedZones_le (waves : Array Audio) (zones : List Zone) :
    (zones.map (storedZone waves)).flatten.length ≤ zones.length * 12 := by
  induction zones with
  | nil => exact Nat.le_refl 0
  | cons zone zones ih =>
      have hzone : zoneSize zone ≤ 12 := by
        rw [zoneSize]
        split <;> decide
      rw [List.map_cons, List.flatten_cons, List.length_append, length_storedZone,
        List.length_cons]
      omega

/-- The generators that are written are those of all zones in a row, and the terminal one. -/
theorem read_instrumentGenerators (programs : List (List Zone)) (waves : Array Audio) :
    (records 4 ((instrumentGenerators programs waves).flatMap Generator.bytes)).map
        StoredGenerator.read
      = (programs.flatten.map (storedZone waves)).flatten ++ [Generator.terminal.stored] := by
  have hread : StoredGenerator.read ∘ Generator.bytes = Generator.stored := funext read_bytes
  rw [records_flatMap (by decide) Generator.bytes length_bytes, List.map_map, hread,
    instrumentGenerators, List.map_append, List.map_flatMap, List.flatMap_def]
  rfl

/-- The bags that are written are the bounds of the zones. -/
theorem firstGenerators_instrumentBags (programs : List (List Zone)) (waves : Array Audio)
    (hcount : programs.flatten.length * 12 < 65535) :
    (records 4 (instrumentBags programs)).map (wordAt 0)
      = boundsFrom 0 (programs.flatten.map (storedZone waves)) := by
  have hle := length_storedZones_le waves programs.flatten
  rw [instrumentBags, firstGenerators_bagsFrom waves, map_mod_boundsFrom _ (by omega)]

/-- The instruments that are written are the bounds of the programs. -/
theorem firstBags_instruments (programs : List (List Zone))
    (hcount : programs.flatten.length * 12 < 65535) :
    (records 22 (instruments programs)).map (wordAt 20) = boundsFrom 0 programs := by
  rw [instruments, firstBags_instrumentsFrom, map_mod_boundsFrom _ (by omega)]

/-- **The tables lead to the zones**: the instruments that are found through the tables
have the generators of the zones of each program. -/
theorem storedInstruments_tables (programs : List (List Zone)) (waves : Array Audio)
    (hcount : programs.flatten.length * 12 < 65535) :
    storedInstruments (instruments programs) (instrumentBags programs)
        ((instrumentGenerators programs waves).flatMap Generator.bytes)
      = programs.map (List.map (storedZone waves)) := by
  -- the bags cut the generators into zones, the instruments cut the zones into programs
  have hbags := slices_boundsFrom [] (programs.flatten.map (storedZone waves))
    [Generator.terminal.stored]
  have hinstruments := slices_boundsFrom [] programs []
  rw [List.length_nil, List.nil_append] at hbags hinstruments
  rw [List.append_nil] at hinstruments
  rw [storedInstruments, read_instrumentGenerators,
    firstGenerators_instrumentBags programs waves hcount, firstBags_instruments programs hcount,
    hbags, slices_map, hinstruments]

/-! ## The file -/

theorem checkWaves_ok {count program : Nat} {programs : List (List Zone)}
    (h : checkWaves count program programs = .ok ()) :
    ∀ zone ∈ programs.flatten,
      0 ≤ zone.params.waveIndex ∧ zone.params.waveIndex.toInt.toNat < count := by
  induction programs generalizing program with
  | nil => intro zone hmem; exact nomatch hmem
  | cons zones programs ih =>
      rw [checkWaves] at h
      split at h
      · exact nomatch h
      · next hnone =>
          intro zone hmem
          rw [List.flatten_cons] at hmem
          rcases List.mem_append.mp hmem with hzone | hrest
          · have hsound := List.find?_eq_none.mp hnone zone hzone
            simp only [Bool.or_eq_true, decide_eq_true_eq, not_or] at hsound
            exact ⟨Int32.not_lt.mp hsound.1, Nat.not_le.mp hsound.2⟩
          · exact ih h zone hrest

theorem checkCount_ok {what : Countable} {count : Nat} (h : checkCount what count = .ok ()) :
    count < 65535 := by
  rw [checkCount] at h
  split at h
  · exact nomatch h
  · omega

/-- What a SoundFont consists of, and what was checked before it was made. -/
structure Consists (programs : List (List Zone)) (waves : List Audio) (file : Chunk) : Prop where
  waves_present : ∀ zone ∈ programs.flatten,
    0 ≤ zone.params.waveIndex ∧ zone.params.waveIndex.toInt.toNat < waves.length
  programs_lt : programs.length < 65535
  waves_lt : waves.length < 65535
  generators_lt : programs.flatten.length * 12 < 65535
  presets : file.table? (.ofChars 'p' 'h' 'd' 'r') = some (presets programs.length)
  presetBags : file.table? (.ofChars 'p' 'b' 'a' 'g') = some (presetBags programs.length)
  presetGenerators : file.table? (.ofChars 'p' 'g' 'e' 'n')
    = some ((allPresetGenerators programs.length).flatMap Generator.bytes)
  instruments : file.table? (.ofChars 'i' 'n' 's' 't') = some (instruments programs)
  instrumentBags : file.table? (.ofChars 'i' 'b' 'a' 'g') = some (instrumentBags programs)
  instrumentGenerators : file.table? (.ofChars 'i' 'g' 'e' 'n')
    = some ((instrumentGenerators programs waves.toArray).flatMap Generator.bytes)
  samples : ∃ frames headers,
    samplesFrom programs.flatten 0 0 waves (#[], #[]) = .ok (frames, headers)
      ∧ file.table? (.ofChars 's' 'm' 'p' 'l') = some frames.toList
      ∧ file.table? (.ofChars 's' 'h' 'd' 'r') = some headers.toList

theorem consists_of_ofPrograms {programs : List (List Zone)} {waves : List Audio} {name : String}
    {file : Chunk} (h : ofPrograms programs waves name = .ok file) :
    Consists programs waves file := by
  obtain ⟨⟨⟩, hwaves, h⟩ := bind_eq_ok_iff.mp h
  obtain ⟨⟨⟩, hprograms, h⟩ := bind_eq_ok_iff.mp h
  obtain ⟨⟨⟩, hcount, h⟩ := bind_eq_ok_iff.mp h
  obtain ⟨⟨⟩, -, h⟩ := bind_eq_ok_iff.mp h
  obtain ⟨⟨⟩, hgenerators, h⟩ := bind_eq_ok_iff.mp h
  obtain ⟨⟨frames, headers⟩, hsamples, h⟩ := bind_eq_ok_iff.mp h
  obtain rfl := Except.ok.inj h
  exact {
    waves_present := checkWaves_ok hwaves
    programs_lt := checkCount_ok hprograms
    waves_lt := checkCount_ok hcount
    generators_lt := checkCount_ok hgenerators
    presets := rfl
    presetBags := rfl
    presetGenerators := rfl
    instruments := rfl
    instrumentBags := rfl
    instrumentGenerators := rfl
    samples := ⟨frames, headers, hsamples, rfl, rfl⟩ }

end SoundFont

end ConsoleSound

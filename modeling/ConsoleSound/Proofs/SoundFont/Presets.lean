import ConsoleSound.Proofs.SoundFont.Instruments
/-! # The presets of a SoundFont

A synthesizer finds the instrument of a preset through three tables: the preset names its
bag, the bag names its first generator, and two generators from there on leave the reverb
off and name the instrument. Every number in the tables takes two bytes.

Before a SoundFont is made its programs are counted, but not the generators of their
presets, of which there are twice as many. So the tables are exact (`PresetTables.IsExact`)
up to 32767 programs and no further (`isExact_presetTables_iff`): the bag of number 32768
names generator zero again. -/

namespace ConsoleSound.SoundFont

open Riff (word Chunk)
open Checked

/-! ## Tables of presets -/

/-- The tables of the presets: the presets themselves, their bags, and the generators of
these. -/
structure PresetTables where
  presets : List UInt8
  bags : List UInt8
  generators : List UInt8

/-- The tables of the presets, if the file has them. -/
def presetTables? (file : Chunk) : Option PresetTables := do
  let presets ← file.table? (.ofChars 'p' 'h' 'd' 'r')
  let bags ← file.table? (.ofChars 'p' 'b' 'a' 'g')
  let generators ← file.table? (.ofChars 'p' 'g' 'e' 'n')
  return { presets, bags, generators }

namespace PresetTables

/-- The first bag of each preset, and the bag behind the last one. -/
def firstBags (tables : PresetTables) : List Nat := (records 38 tables.presets).map (wordAt 24)

/-- The first generator of each bag. -/
def firstGenerators (tables : PresetTables) : List Nat :=
  (records 4 tables.bags).map (wordAt 0)

/-- What each generator sets, and the number that it is set to. -/
def settings (tables : PresetTables) : List (Nat × Nat) :=
  (records 4 tables.generators).map fun record =>
    ((StoredGenerator.read record).operator, (StoredGenerator.read record).amount)

/-- Whether tables lead from each of `count` presets to its instrument, and no number in
them was cut off. -/
structure IsExact (tables : PresetTables) (count : Nat) : Prop where
  length_presets : tables.presets.length = (count + 1) * 38
  length_bags : tables.bags.length = (count + 1) * 4
  length_generators : tables.generators.length = (2 * count + 1) * 4
  firstBags : ∀ index ≤ count, tables.firstBags[index]? = some index
  firstGenerators : ∀ index ≤ count, tables.firstGenerators[index]? = some (2 * index)
  /-- No reverb (16), and the instrument (41). -/
  settings : ∀ index < count, ∀ first, tables.firstGenerators[index]? = some first →
    (tables.settings.drop first).take 2 = [(16, 0), (41, index)]

end PresetTables

/-! ## What is written -/

theorem length_preset (name : String) (number bagIndex : Nat) :
    (preset name number bagIndex).length = 38 := by
  simp only [preset, List.length_append, length_nameField, length_word, List.length_replicate]

/-- The bag of a preset, less what two bytes cut off. -/
theorem wordAt_preset (name : String) (number bagIndex : Nat) :
    wordAt 24 (preset name number bagIndex) = bagIndex % 65536 := by
  have hbefore : (nameField name ++ word number ++ word 0).length = 24 := by
    simp only [List.length_append, length_nameField, length_word]
  rw [preset, List.append_assoc]
  exact wordAt_append _ hbefore bagIndex (List.replicate 12 0)

/-- Each preset, and the terminal one, holds the bag of its own number. -/
theorem firstBags_presets (count : Nat) :
    (records 38 (presets count)).map (wordAt 24) = (List.range (count + 1)).map (· % 65536) := by
  have hlast := records_append (by decide) (length_preset "EOP" 0 count) []
  rw [List.append_nil, records_nil] at hlast
  rw [presets, records_flatMap_append (by decide) _ (fun index => length_preset _ _ _), hlast,
    List.map_append, List.map_map, List.map_singleton, wordAt_preset, List.range_succ,
    List.map_append, List.map_singleton, List.append_left_inj]
  apply List.map_congr_left
  intro index _
  rw [Function.comp_apply, wordAt_preset]

/-- Each bag holds twice its number, less what two bytes cut off. -/
theorem firstGenerators_presetBags (count : Nat) :
    (records 4 (presetBags count)).map (wordAt 0)
      = (List.range (count + 1)).map fun index => 2 * index % 65536 := by
  rw [presetBags, records_flatMap (by decide) _ (fun index => length_bag _), List.map_map]
  apply List.map_congr_left
  intro index _
  rw [Function.comp_apply, wordAt_bag, Nat.mul_comm]

/-- The generators of a preset leave the reverb off and name its instrument. -/
theorem settings_presetGenerators {index : Nat} (h : index < 65536) :
    (presetGenerators index).map (fun generator =>
        (generator.stored.operator, generator.stored.amount))
      = [(16, 0), (41, index)] := by
  have hindex := amount_number .instrument h
  show [(16, 0), (41, (Generator.number .instrument index).stored.amount)] = _
  rw [hindex]

/-- The tables that are written for a number of presets. -/
def PresetTables.ofCount (count : Nat) : PresetTables where
  presets := SoundFont.presets count
  bags := presetBags count
  generators := (allPresetGenerators count).flatMap Generator.bytes

namespace PresetTables

theorem firstBags_ofCount (count : Nat) :
    (ofCount count).firstBags = (List.range (count + 1)).map (· % 65536) :=
  firstBags_presets count

theorem firstGenerators_ofCount (count : Nat) :
    (ofCount count).firstGenerators = (List.range (count + 1)).map fun index =>
      2 * index % 65536 :=
  firstGenerators_presetBags count

theorem settings_ofCount (count : Nat) :
    (ofCount count).settings
      = (List.range count).flatMap (fun index => (presetGenerators index).map fun generator =>
          (generator.stored.operator, generator.stored.amount)) ++ [(0, 0)] := by
  rw [settings, ofCount, records_flatMap (by decide) Generator.bytes length_bytes, List.map_map,
    allPresetGenerators, List.map_append, List.map_flatMap, List.map_singleton]
  refine congrArg₂ (· ++ ·) (List.flatMap_congr ?_) rfl
  intro index _
  refine List.map_congr_left ?_
  intro generator _
  show ((StoredGenerator.read generator.bytes).operator,
    (StoredGenerator.read generator.bytes).amount) = _
  rw [read_bytes]

theorem length_presets_ofCount (count : Nat) :
    (ofCount count).presets.length = (count + 1) * 38 := by
  rw [ofCount, SoundFont.presets, List.length_append, length_preset,
    length_flatMap_of_length fun index => length_preset _ _ _, List.length_range, Nat.succ_mul]

theorem length_bags_ofCount (count : Nat) : (ofCount count).bags.length = (count + 1) * 4 := by
  rw [ofCount, presetBags, length_flatMap_of_length fun index => length_bag _, List.length_range]

theorem length_generators_ofCount (count : Nat) :
    (ofCount count).generators.length = (2 * count + 1) * 4 := by
  have hpair : ∀ index, (presetGenerators index).length = 2 := fun _ => rfl
  rw [ofCount, length_flatMap_of_length length_bytes, allPresetGenerators, List.length_append,
    length_flatMap_of_length hpair, List.length_range, Nat.mul_comm count]
  rfl

/-- Up to 32767 programs no number is cut off. -/
theorem isExact_ofCount {count : Nat} (hcount : count < 32768) :
    (ofCount count).IsExact count := by
  have hexact : ∀ index ≤ count,
      (ofCount count).firstGenerators[index]? = some (2 * index) := by
    intro index hindex
    rw [firstGenerators_ofCount, List.getElem?_map,
      List.getElem?_range (Nat.lt_succ_of_le hindex), Option.map_some,
      Nat.mod_eq_of_lt (by omega)]
  refine ⟨length_presets_ofCount count, length_bags_ofCount count,
    length_generators_ofCount count, ?_, hexact, ?_⟩
  · intro index hindex
    rw [firstBags_ofCount, List.getElem?_map, List.getElem?_range (Nat.lt_succ_of_le hindex),
      Option.map_some, Nat.mod_eq_of_lt (by omega)]
  · intro index hindex first hstored
    have hpair : ∀ index, ((presetGenerators index).map fun generator =>
        (generator.stored.operator, generator.stored.amount)).length = 2 := fun _ => rfl
    rw [hexact index (Nat.le_of_lt hindex), Option.some.injEq] at hstored
    rw [← hstored, settings_ofCount, Nat.mul_comm,
      take_drop_flatMap hpair (List.getElem?_range hindex)]
    exact settings_presetGenerators (by omega)

/-- The bag of number 32768 would have to name generator 65536. -/
theorem not_isExact_ofCount {count : Nat} (hcount : 32768 ≤ count) :
    ¬ (ofCount count).IsExact count := by
  intro hexact
  have hwrapped := hexact.firstGenerators 32768 hcount
  rw [firstGenerators_ofCount, List.getElem?_map,
    List.getElem?_range (Nat.lt_succ_of_le hcount)] at hwrapped
  exact absurd hwrapped (by decide)

/-- The tables for some presets are exact as long as the generators can be numbered. -/
theorem isExact_ofCount_iff {count : Nat} : (ofCount count).IsExact count ↔ count < 32768 := by
  constructor
  · intro hexact
    by_contra hcount
    exact not_isExact_ofCount (Nat.not_lt.mp hcount) hexact
  · exact isExact_ofCount

end PresetTables

/-! ## The presets of a file -/

theorem presetTables?_of_consists {programs : List (List Zone)} {waves : List Audio}
    {file : Chunk} (h : Consists programs waves file) :
    presetTables? file = some (.ofCount programs.length) := by
  simp only [presetTables?, h.presets, h.presetBags, h.presetGenerators, Option.bind_eq_bind,
    Option.bind_some]
  rfl

/-- **Preset tables wrap behind 32767 programs**: those of a SoundFont lead from each preset
to its instrument exactly if it has no more programs. -/
theorem isExact_presetTables_iff {programs : List (List Zone)} {waves : List Audio}
    {name : String} {file : Chunk} (hfile : ofPrograms programs waves name = .ok file) :
    ∃ tables, presetTables? file = some tables
      ∧ (tables.IsExact programs.length ↔ programs.length < 32768) := by
  exact ⟨_, presetTables?_of_consists (consists_of_ofPrograms hfile),
    PresetTables.isExact_ofCount_iff⟩

/-! ## Programs without zones -/

theorem checkWaves_silent (waves program count : Nat) :
    checkWaves waves program (List.replicate count []) = .ok () := by
  induction count generalizing program with
  | zero => rfl
  | succ count ih => exact ih (program + 1)

/-- Programs that play nothing make a SoundFont if they can be counted. -/
theorem exists_ofPrograms_silent {count : Nat} (hcount : count < 65535) (name : String) :
    ∃ file, ofPrograms (List.replicate count []) [] name = .ok file := by
  have hprograms : checkCount .programs (List.replicate count ([] : List Zone)).length
      = .ok () := by
    rw [List.length_replicate, checkCount, if_neg (Nat.not_le.mpr hcount)]
  have hzones : (List.replicate count ([] : List Zone)).flatten = [] :=
    List.flatten_replicate_nil
  rw [ofPrograms, checkWaves_silent, hzones, hprograms]
  exact ⟨_, rfl⟩

/-- The most programs whose presets can be numbered. -/
theorem isExact_presetTables_mostPrograms :
    ∃ file tables, ofPrograms (List.replicate 32767 []) [] "b" = .ok file
      ∧ presetTables? file = some tables ∧ tables.IsExact 32767 := by
  have hcount : 32767 < 65535 := by decide
  obtain ⟨file, hfile⟩ := exists_ofPrograms_silent hcount "b"
  obtain ⟨tables, htables, hexact⟩ := isExact_presetTables_iff hfile
  rw [List.length_replicate] at hexact
  exact ⟨file, tables, hfile, htables, hexact.mpr (by decide)⟩

/-- With one program more there still is a SoundFont, but its last bag names generator
zero. -/
theorem not_isExact_presetTables :
    ∃ file tables, ofPrograms (List.replicate 32768 []) [] "b" = .ok file
      ∧ presetTables? file = some tables ∧ ¬ tables.IsExact 32768
      ∧ tables.firstGenerators[32768]? = some 0 := by
  have hcount : 32768 < 65535 := by decide
  obtain ⟨file, hfile⟩ := exists_ofPrograms_silent hcount "b"
  have htables := presetTables?_of_consists (consists_of_ofPrograms hfile)
  rw [List.length_replicate] at htables
  refine ⟨file, .ofCount 32768, hfile, htables, ?_, ?_⟩
  · exact PresetTables.not_isExact_ofCount (Nat.le_refl 32768)
  · rw [PresetTables.firstGenerators_ofCount, List.getElem?_map, List.getElem?_range (by decide),
      Option.map_some]

end ConsoleSound.SoundFont

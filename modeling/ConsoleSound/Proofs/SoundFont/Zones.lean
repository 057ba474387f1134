import ConsoleSound.Proofs.SoundFont.Playing
/-! # The zones of a SoundFont

The instruments of a SoundFont divide its bags, and the bags divide its generators. For
every SoundFont that is made these tables are exact (`InstrumentTables.IsExact`): no number
in them was cut off, the parts cover each table up to its terminal record, and the parts of
the generators are what the zones set (`Zone.settings`).

A missing wave is reported exactly if some zone plays a wave that was not supplied, and the
report names the first such zone (`instruments_of_ofPrograms`). -/

namespace ConsoleSound

open Checked

/-! ## What a zone sets -/

namespace SoundFont

/-- Two bytes as one number, the first of them its low byte. -/
def pairNumber (low high : UInt8) : Int := low.toNat + high.toNat * 256

/-- A signed number as the unsigned one of the same two bytes. -/
def storedNumber (value : Int16) : Int := value.toUInt16.toNat

end SoundFont

namespace Zone

open SoundFont

/-- What the generators of a zone set, in the order of the format: the keys (43), the
velocities (44) unless they end at zero, nine numbers, and the wave (53). -/
def settings (waves : List Audio) (zone : Zone) : List (Nat × Int) :=
  let params := zone.params
  let looped := (waves[params.waveIndex.toInt.toNat]?).any Audio.looped
  let envelope := Envelope.ofParams params
  [(43, pairNumber zone.keyLo zone.keyHi)]
    ++ (if zone.velocityHi = 0 then [] else [(44, pairNumber zone.velocityLo zone.velocityHi)])
    ++ [(48, storedNumber (attenuation params.volume)),
      (17, storedNumber (panAmount params.pan)),
      (54, if looped then 1 else 0),
      (58, params.originalKey.toNat),
      (34, storedNumber (timecents envelope.attack)),
      (35, storedNumber (timecents envelope.hold)),
      (36, storedNumber (timecents envelope.decay)),
      (37, storedNumber envelope.sustainAttenuation),
      (38, storedNumber (timecents envelope.release)),
      (53, params.waveIndex.toInt)]

/-- Whether the wave of a zone is among `count` waves. -/
def HasWave (count : Nat) (zone : Zone) : Prop :=
  0 ≤ zone.params.waveIndex.toInt ∧ zone.params.waveIndex.toInt < count

instance (count : Nat) (zone : Zone) : Decidable (zone.HasWave count) :=
  inferInstanceAs (Decidable (_ ∧ _))

end Zone

namespace SoundFont

open Riff (word Chunk)

/-- What a generator sets, and the number that it is set to. -/
def StoredGenerator.setting (generator : StoredGenerator) : Nat × Int :=
  (generator.operator, generator.amount)

theorem setting_range (operator : Operator) (low high : UInt8) :
    (Generator.range operator low high).stored.setting
      = (operator.code, pairNumber low high) := by
  show (operator.code, ((low.toNat + high.toNat * 256 : Nat) : Int)) = _
  rw [Int.natCast_add, Int.natCast_mul]
  rfl

theorem setting_number (operator : Operator) {value : Nat} (h : value < 65536) :
    (Generator.number operator value).stored.setting = (operator.code, (value : Int)) := by
  rw [StoredGenerator.setting, amount_number operator h]
  rfl

theorem setting_amount (operator : Operator) (value : Int16) :
    (Generator.amount operator value).stored.setting = (operator.code, storedNumber value) :=
  setting_number operator value.toUInt16.toNat_lt

/-- The generators of a zone whose wave is there set what the zone sets. -/
theorem map_setting_storedZone {waves : List Audio} {zone : Zone}
    (hwave : zone.HasWave waves.length) (hwaves : waves.length < 65535) :
    (storedZone waves.toArray zone).map StoredGenerator.setting = zone.settings waves := by
  have hindex : zone.params.waveIndex.toInt.toNat < 65536 := by
    have hsupplied := hwave.2
    omega
  have hkey : zone.params.originalKey.toNat < 65536 :=
    Nat.lt_trans zone.params.originalKey.toNat_lt (by decide)
  have hloop (looped : Bool) :
      (Generator.number .sampleModes (if looped then 1 else 0)).stored.setting
        = (54, if looped then 1 else 0) := by
    cases looped <;> rfl
  rw [storedZone, zoneGenerators, Zone.settings, ← List.getElem?_toArray]
  generalize waves.toArray[zone.params.waveIndex.toInt.toNat]? = audio?
  -- a wave that is not there is not looped
  have hlooped : ∀ looped, looped = audio?.any Audio.looped →
      (Generator.number .sampleModes (if looped then 1 else 0)).stored.setting
        = (54, if audio?.any Audio.looped then 1 else 0) := by
    rintro looped rfl
    exact hloop _
  by_cases hzero : zone.velocityHi = 0
  · simp only [if_pos hzero, List.append_nil, List.cons_append, List.nil_append, List.map_cons,
      List.map_nil, setting_range, setting_amount, setting_number _ hkey,
      setting_number _ hindex, Int.toNat_of_nonneg hwave.1, Operator.code]
    rw [hlooped _ (by cases audio? <;> rfl)]
  · simp only [if_neg hzero, List.cons_append, List.nil_append, List.map_cons,
      List.map_nil, setting_range, setting_amount, setting_number _ hkey,
      setting_number _ hindex, Int.toNat_of_nonneg hwave.1, Operator.code]
    rw [hlooped _ (by cases audio? <;> rfl)]

/-! ## Tables of instruments -/

/-- The tables of the instruments: the instruments themselves, their bags, and the
generators of these. -/
structure InstrumentTables where
  instruments : List UInt8
  bags : List UInt8
  generators : List UInt8

/-- The tables of the instruments, if the file has them. -/
def instrumentTables? (file : Chunk) : Option InstrumentTables := do
  let instruments ← file.table? (.ofChars 'i' 'n' 's' 't')
  let bags ← file.table? (.ofChars 'i' 'b' 'a' 'g')
  let generators ← file.table? (.ofChars 'i' 'g' 'e' 'n')
  return { instruments, bags, generators }

namespace InstrumentTables

/-- The first bag of each instrument, and the bag behind the last one. -/
def firstBags (tables : InstrumentTables) : List Nat :=
  (records 22 tables.instruments).map (wordAt 20)

/-- The first generator of each bag, and the generator behind the last one. -/
def firstGenerators (tables : InstrumentTables) : List Nat :=
  (records 4 tables.bags).map (wordAt 0)

/-- What the generators set. -/
def settings (tables : InstrumentTables) : List (Nat × Int) :=
  (records 4 tables.generators).map fun record => (StoredGenerator.read record).setting

/-- What the generators of each bag set. -/
def bagSettings (tables : InstrumentTables) : List (List (Nat × Int)) :=
  slices tables.firstGenerators tables.settings

/-- Whether tables lead from each program to what its zones set, and no number in them was
cut off. -/
structure IsExact (tables : InstrumentTables) (programs : List (List Zone))
    (waves : List Audio) : Prop where
  length_instruments : tables.instruments.length = (programs.length + 1) * 22
  length_bags : tables.bags.length = (programs.flatten.length + 1) * 4
  length_generators :
    tables.generators.length = ((programs.flatten.flatMap (Zone.settings waves)).length + 1) * 4
  firstBags : ∀ index ≤ programs.length,
    tables.firstBags[index]? = some (programs.take index).flatten.length
  firstGenerators : ∀ index ≤ programs.flatten.length,
    tables.firstGenerators[index]?
      = some ((programs.flatten.take index).flatMap (Zone.settings waves)).length
  /-- The instruments cut the bags into the zones of each program. -/
  zones : slices tables.firstBags tables.bagSettings = programs.map (List.map (Zone.settings waves))
  /-- No bag lies between two instruments or in both. -/
  bags_covered : (slices tables.firstBags tables.bagSettings).flatten = tables.bagSettings
  /-- No generator but the terminal one lies between two bags or in both. -/
  generators_covered : tables.bagSettings.flatten ++ [(0, 0)] = tables.settings

end InstrumentTables

theorem length_instrumentsFrom (index bagIndex : Nat) (programs : List (List Zone)) :
    (instrumentsFrom index bagIndex programs).length = (programs.length + 1) * 22 := by
  induction programs generalizing index bagIndex with
  | nil => exact length_instrument "EOI" bagIndex
  | cons zones programs ih =>
      rw [instrumentsFrom, List.length_append, length_instrument, ih, List.length_cons]
      omega

theorem length_bagsFrom (generator : Nat) (zones : List Zone) :
    (bagsFrom generator zones).length = (zones.length + 1) * 4 := by
  induction zones generalizing generator with
  | nil => exact length_bag generator
  | cons zone zones ih =>
      rw [bagsFrom, List.length_append, length_bag, ih, List.length_cons]
      omega

/-- The tables that are written for some programs. -/
def InstrumentTables.ofPrograms (programs : List (List Zone)) (waves : List Audio) :
    InstrumentTables where
  instruments := SoundFont.instruments programs
  bags := instrumentBags programs
  generators := (instrumentGenerators programs waves.toArray).flatMap Generator.bytes

theorem instrumentTables?_of_consists {programs : List (List Zone)} {waves : List Audio}
    {file : Chunk} (h : Consists programs waves file) :
    instrumentTables? file = some (.ofPrograms programs waves) := by
  simp only [instrumentTables?, h.instruments, h.instrumentBags, h.instrumentGenerators,
    Option.bind_eq_bind, Option.bind_some]
  rfl

namespace InstrumentTables

variable {programs : List (List Zone)} {waves : List Audio} {file : Chunk}

/-- What is stored of the zones is what they set. -/
theorem map_storedZone (h : Consists programs waves file) :
    (programs.flatten.map (storedZone waves.toArray)).map (List.map StoredGenerator.setting)
      = programs.flatten.map (Zone.settings waves) := by
  rw [List.map_map]
  apply List.map_congr_left
  intro zone hzone
  obtain ⟨hnonneg, hlt⟩ := h.waves_present zone hzone
  have hindex : 0 ≤ zone.params.waveIndex.toInt := Int32.le_iff_toInt_le.mp hnonneg
  have hwave : zone.HasWave waves.length := ⟨hindex, by omega⟩
  exact map_setting_storedZone hwave h.waves_lt

theorem firstBags_ofPrograms (h : Consists programs waves file) :
    (ofPrograms programs waves).firstBags = boundsFrom 0 programs :=
  firstBags_instruments programs h.generators_lt

theorem firstGenerators_ofPrograms (h : Consists programs waves file) :
    (ofPrograms programs waves).firstGenerators
      = boundsFrom 0 (programs.flatten.map (Zone.settings waves)) := by
  rw [← map_storedZone h, boundsFrom_map]
  exact firstGenerators_instrumentBags programs waves.toArray h.generators_lt

/-- The generators set what the zones set, and a terminal one sets nothing. -/
theorem settings_ofPrograms (h : Consists programs waves file) :
    (ofPrograms programs waves).settings
      = (programs.flatten.map (Zone.settings waves)).flatten ++ [(0, 0)] := by
  have hread := read_instrumentGenerators programs waves.toArray
  have hmap := congrArg (List.map StoredGenerator.setting) hread
  rw [List.map_map, List.map_append, List.map_flatten, map_storedZone h] at hmap
  exact hmap

/-- The bags cut the generators into what each zone sets. -/
theorem bagSettings_ofPrograms (h : Consists programs waves file) :
    (ofPrograms programs waves).bagSettings = programs.flatten.map (Zone.settings waves) := by
  have hslices := slices_boundsFrom [] (programs.flatten.map (Zone.settings waves)) [(0, 0)]
  rw [bagSettings, firstGenerators_ofPrograms h, settings_ofPrograms h]
  exact hslices

/-- The instruments cut the bags into the zones of each program. -/
theorem slices_bagSettings_ofPrograms (h : Consists programs waves file) :
    slices (ofPrograms programs waves).firstBags (ofPrograms programs waves).bagSettings
      = programs.map (List.map (Zone.settings waves)) := by
  have hslices := slices_boundsFrom [] programs []
  rw [List.append_nil] at hslices
  rw [firstBags_ofPrograms h, bagSettings_ofPrograms h, slices_map]
  exact congrArg (List.map (List.map (Zone.settings waves))) hslices

/-- The generators take four bytes each. -/
theorem length_generators_ofPrograms :
    (ofPrograms programs waves).generators.length
      = (ofPrograms programs waves).settings.length * 4 := by
  rw [settings, List.length_map, ofPrograms, records_flatMap (by decide) Generator.bytes
    length_bytes, List.length_map, length_flatMap_of_length length_bytes]

/-- The tables of a SoundFont are exact. -/
theorem isExact_ofPrograms (h : Consists programs waves file) :
    (ofPrograms programs waves).IsExact programs waves where
  length_instruments := length_instrumentsFrom 0 0 programs
  length_bags := length_bagsFrom 0 programs.flatten
  length_generators := by
    rw [length_generators_ofPrograms, settings_ofPrograms h, List.length_append,
      ← List.flatMap_def, List.length_singleton]
  firstBags index hindex := by
    rw [firstBags_ofPrograms h, getElem?_boundsFrom hindex, Nat.zero_add]
  firstGenerators index hindex := by
    rw [firstGenerators_ofPrograms h, getElem?_boundsFrom (by rwa [List.length_map]),
      Nat.zero_add, ← List.map_take, ← List.flatMap_def]
  zones := slices_bagSettings_ofPrograms h
  bags_covered := by
    rw [slices_bagSettings_ofPrograms h, bagSettings_ofPrograms h, List.map_flatten]
  generators_covered := by
    rw [bagSettings_ofPrograms h, settings_ofPrograms h]

end InstrumentTables

/-! ## Waves that were not supplied -/

/-- The zones of programs in their order, each with the number of its program, the first of
which is `program`. -/
def numberedZones (program : Nat) (programs : List (List Zone)) : List (Nat × Zone) :=
  (programs.zipIdx program).flatMap fun (zones, number) => zones.map fun zone => (number, zone)

/-- Whether the first zone without its wave among `count` waves is one of a program, and
which wave it plays. -/
def IsFirstMissing (programs : List (List Zone)) (count program : Nat) (wave : Int32) : Prop :=
  ∃ before zone behind, numberedZones 0 programs = before ++ (program, zone) :: behind
    ∧ (∀ earlier ∈ before, earlier.2.HasWave count) ∧ ¬ zone.HasWave count
    ∧ zone.params.waveIndex = wave

/-- The test of the check is whether a zone is without its wave. -/
theorem decide_not_hasWave (count : Nat) (zone : Zone) :
    decide (¬ zone.HasWave count)
      = (zone.params.waveIndex < 0 || count ≤ zone.params.waveIndex.toInt.toNat) := by
  have hzero : (0 : Int32).toInt = 0 := rfl
  rw [Bool.eq_iff_iff, decide_eq_true_eq, Bool.or_eq_true, decide_eq_true_eq, decide_eq_true_eq,
    Int32.lt_iff_toInt_lt, Zone.HasWave]
  omega

/-- The check of the waves reports the first zone without its wave. -/
theorem checkWaves_eq_find? (count program : Nat) (programs : List (List Zone)) :
    checkWaves count program programs
      = match (numberedZones program programs).find? fun entry =>
          decide (¬ entry.2.HasWave count) with
        | some (number, zone) => .error (.missingWave number zone.params.waveIndex)
        | none => .ok () := by
  induction programs generalizing program with
  | nil => rfl
  | cons zones programs ih =>
      have hnumbered : numberedZones program (zones :: programs)
          = zones.map (fun zone => (program, zone)) ++ numberedZones (program + 1) programs := rfl
      have htest : (fun entry : Nat × Zone => decide (¬ entry.2.HasWave count))
          ∘ (fun zone => (program, zone)) = fun zone => zone.params.waveIndex < 0
            || count ≤ zone.params.waveIndex.toInt.toNat :=
        funext fun zone => decide_not_hasWave count zone
      rw [checkWaves, hnumbered, List.find?_append, List.find?_map, htest, ih]
      cases zones.find? fun zone => zone.params.waveIndex < 0
          || count ≤ zone.params.waveIndex.toInt.toNat with
      | some zone => rfl
      | none => rfl

theorem checkWaves_eq_error_iff {programs : List (List Zone)} {count program : Nat}
    {wave : Int32} :
    checkWaves count 0 programs = .error (.missingWave program wave)
      ↔ IsFirstMissing programs count program wave := by
  rw [checkWaves_eq_find?]
  constructor
  · intro h
    split at h
    · next number zone hfind =>
        obtain ⟨hmissing, before, behind, hnumbered, hbefore⟩ :=
          List.find?_eq_some_iff_append.mp hfind
        obtain ⟨rfl, hwave⟩ := SoundFontError.missingWave.inj (Except.error.inj h)
        refine ⟨before, zone, behind, hnumbered, ?_, of_decide_eq_true hmissing, hwave⟩
        intro earlier hmem
        simpa using hbefore earlier hmem
    · exact nomatch h
  · rintro ⟨before, zone, behind, hnumbered, hbefore, hmissing, rfl⟩
    have hfind : (numberedZones 0 programs).find? (fun entry =>
        decide (¬ entry.2.HasWave count)) = some (program, zone) := by
      refine List.find?_eq_some_iff_append.mpr
        ⟨decide_eq_true hmissing, before, behind, hnumbered, ?_⟩
      intro earlier hmem
      simpa using hbefore earlier hmem
    rw [hfind]

theorem checkCount_ne_missingWave {what : Countable} {count program : Nat} {wave : Int32} :
    checkCount what count ≠ .error (.missingWave program wave) := by
  intro h
  rw [checkCount] at h
  split at h
  · cases h
  · cases h

theorem sampleSpan_ne_missingWave {start frames program : Nat} {wave : Int32} :
    sampleSpan start frames ≠ .error (.missingWave program wave) := by
  intro h
  rw [sampleSpan] at h
  split at h
  · cases h
  · cases h

theorem samplesFrom_ne_missingWave {zones : List Zone} {index start program : Nat}
    {waves : List Audio} {made : Array UInt8 × Array UInt8} {wave : Int32} :
    samplesFrom zones index start waves made ≠ .error (.missingWave program wave) := by
  induction waves generalizing index start made with
  | nil =>
      intro h
      cases h
  | cons audio waves ih => exact bind_ne_error sampleSpan_ne_missingWave fun _ => ih

/-- Only the check of the waves reports a missing one. -/
theorem ofPrograms_eq_missingWave_iff {programs : List (List Zone)} {waves : List Audio}
    {name : String} {program : Nat} {wave : Int32} :
    ofPrograms programs waves name = .error (.missingWave program wave)
      ↔ IsFirstMissing programs waves.length program wave := by
  rw [← checkWaves_eq_error_iff]
  refine bind_eq_error_iff.trans (or_iff_left ?_)
  rintro ⟨_, -, h⟩
  revert h
  refine bind_ne_error checkCount_ne_missingWave fun _ => ?_
  refine bind_ne_error checkCount_ne_missingWave fun _ => ?_
  refine bind_ne_error checkCount_ne_missingWave fun _ => ?_
  refine bind_ne_error checkCount_ne_missingWave fun _ => ?_
  refine bind_ne_error samplesFrom_ne_missingWave fun _ h => ?_
  cases h

/-- Where some zone is without its wave, one is the first. -/
theorem exists_isFirstMissing_iff {programs : List (List Zone)} {count : Nat} :
    (∃ program wave, IsFirstMissing programs count program wave)
      ↔ ∃ zone ∈ programs.flatten, ¬ zone.HasWave count := by
  have hzones : (numberedZones 0 programs).map Prod.snd = programs.flatten := by
    have hone : ∀ entry : List Zone × Nat,
        (entry.1.map fun zone => (entry.2, zone)).map Prod.snd = entry.1 := by
      intro entry
      rw [List.map_map]
      exact List.map_id entry.1
    rw [numberedZones, List.map_flatMap, List.flatMap_congr fun entry _ => hone entry,
      List.flatMap_def, List.zipIdx_map_fst]
  constructor
  · rintro ⟨program, wave, before, zone, behind, hnumbered, -, hmissing, -⟩
    refine ⟨zone, ?_, hmissing⟩
    rw [← hzones, hnumbered]
    exact List.mem_map_of_mem (List.mem_append_right _ List.mem_cons_self)
  · rintro ⟨zone, hzone, hmissing⟩
    rw [← hzones] at hzone
    obtain ⟨entry, hentry, rfl⟩ := List.mem_map.mp hzone
    have hsome : ((numberedZones 0 programs).find? fun entry =>
        decide (¬ entry.2.HasWave count)).isSome :=
      List.find?_isSome.mpr ⟨entry, hentry, decide_eq_true hmissing⟩
    obtain ⟨⟨program, first⟩, hfirst⟩ := Option.isSome_iff_exists.mp hsome
    refine ⟨program, first.params.waveIndex, checkWaves_eq_error_iff.mp ?_⟩
    rw [checkWaves_eq_find?, hfirst]

/-- **Instrument tables are exact**: those of a SoundFont lead from each program to what its
zones set. A missing wave is reported exactly if a zone is without its wave, and it is that
of the first such zone. -/
theorem instruments_of_ofPrograms (programs : List (List Zone)) (waves : List Audio)
    (name : String) :
    (∀ file, ofPrograms programs waves name = .ok file →
        ∃ tables, instrumentTables? file = some tables ∧ tables.IsExact programs waves)
      ∧ ((∃ program wave, ofPrograms programs waves name = .error (.missingWave program wave))
        ↔ ∃ zone ∈ programs.flatten, ¬ zone.HasWave waves.length)
      ∧ ∀ program wave, ofPrograms programs waves name = .error (.missingWave program wave)
        ↔ IsFirstMissing programs waves.length program wave := by
  refine ⟨?_, ?_, fun _ _ => ofPrograms_eq_missingWave_iff⟩
  · intro file hfile
    have hconsists := consists_of_ofPrograms hfile
    exact ⟨_, instrumentTables?_of_consists hconsists,
      InstrumentTables.isExact_ofPrograms hconsists⟩
  · rw [← exists_isFirstMissing_iff]
    exact exists_congr fun _ => exists_congr fun _ => ofPrograms_eq_missingWave_iff

/-! ## A zone without velocities -/

/-- Two programs, of which the first has a zone that sets no velocities and one that does. -/
def splitPrograms : List (List Zone) :=
  [[⟨0, 59, 0, 0, atKey 48⟩, ⟨60, 127, 0, 127, atKey 72⟩], [⟨0, 127, 0, 127, atKey 60⟩]]

/-- A program whose second zone plays another wave. -/
def otherWave : List Zone :=
  [⟨0, 59, 0, 127, atKey 48⟩, ⟨60, 127, 0, 127, { atKey 72 with waveIndex := 1 }⟩]

/-- With one wave the two programs make a SoundFont with exact tables, and the program
behind them is reported. -/
theorem instruments_of_ofPrograms_splitPrograms :
    (∃ file tables, ofPrograms splitPrograms [shortWave] "split" = .ok file
        ∧ instrumentTables? file = some tables ∧ tables.IsExact splitPrograms [shortWave])
      ∧ ofPrograms (splitPrograms ++ [otherWave]) [shortWave] "split" = .error (.missingWave 2 1)
      ∧ IsFirstMissing (splitPrograms ++ [otherWave]) 1 2 1 := by
  obtain ⟨file, hfile⟩ :
      ∃ file, ofPrograms splitPrograms [shortWave] "split" = .ok file := ⟨_, rfl⟩
  have herror : ofPrograms (splitPrograms ++ [otherWave]) [shortWave] "split"
      = .error (.missingWave 2 1) := rfl
  obtain ⟨hexact, -, -⟩ := instruments_of_ofPrograms splitPrograms [shortWave] "split"
  obtain ⟨-, -, hmissing⟩ :=
    instruments_of_ofPrograms (splitPrograms ++ [otherWave]) [shortWave] "split"
  obtain ⟨tables, htables, hzones⟩ := hexact file hfile
  exact ⟨⟨file, tables, hfile, htables, hzones⟩, herror, (hmissing 2 1).mp herror⟩

end SoundFont

end ConsoleSound

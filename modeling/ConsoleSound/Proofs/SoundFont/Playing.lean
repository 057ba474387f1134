import ConsoleSound.Proofs.Instrument.Reading
import ConsoleSound.Proofs.SoundFont.Instruments
/-! # What a SoundFont plays

A synthesizer plays the zones of an instrument whose ranges contain a note. A zone
without a range of velocities plays at every velocity, and a SoundFont leaves that range
out where it would end at zero. So the SoundFont of a bank plays what the bank plays
(`Plays`) except at the keys of such a zone, where it plays that zone as well
(`plays_iff`). -/

namespace ConsoleSound.SoundFont

open Riff (Chunk)

/-! ## Playing a note -/

/-- The generator of a zone that sets something. -/
def setting? (zone : List StoredGenerator) (operator : Operator) : Option StoredGenerator :=
  zone.find? fun generator => generator.operator = operator.code

/-- Whether the range that a generator sets contains a value. -/
def StoredGenerator.contains (generator : StoredGenerator) (value : UInt8) : Bool :=
  generator.low ≤ value && value ≤ generator.high

/-- Whether a note plays a zone: the range of keys contains its key, and the range of
velocities contains its velocity if there is one. -/
def isPlayed (key velocity : UInt8) (zone : List StoredGenerator) : Bool :=
  (setting? zone .keyRange).any (·.contains key)
    && (setting? zone .velocityRange).all (·.contains velocity)

/-- The zones of an instrument, if the file has the tables and the instrument. -/
def zonesOf? (file : Chunk) (program : Nat) : Option (List (List StoredGenerator)) := do
  let instruments ← file.table? (.ofChars 'i' 'n' 's' 't')
  let bags ← file.table? (.ofChars 'i' 'b' 'a' 'g')
  let generators ← file.table? (.ofChars 'i' 'g' 'e' 'n')
  (storedInstruments instruments bags generators)[program]?

/-- Whether the zones that are played are what a bank plays: a single one with the wave
and the key of the instrument, or none if the bank plays nothing or refuses the note. -/
def Plays (played : Except Error (Option InstrumentParams))
    (zones : List (List StoredGenerator)) : Prop :=
  (∀ params, played = .ok (some params) →
      ∃ zone, zones = [zone]
        ∧ (setting? zone .sample).map (fun generator => (generator.amount : Int))
          = some params.waveIndex.toInt
        ∧ (setting? zone .rootKey).map StoredGenerator.amount = some params.originalKey.toNat)
    ∧ ((played = .ok none ∨ ∃ key min max, played = .error (.keyOutOfDomain key min max)) →
      zones = [])

/-! ## Zones as they are stored -/

variable (waves : Array Audio) (zone : Zone)

theorem setting?_keyRange :
    setting? (storedZone waves zone) .keyRange
      = some (Generator.range .keyRange zone.keyLo zone.keyHi).stored := rfl

theorem setting?_velocityRange :
    setting? (storedZone waves zone) .velocityRange
      = if zone.velocityHi = 0 then none
        else some (Generator.range .velocityRange zone.velocityLo zone.velocityHi).stored := by
  rw [storedZone, zoneGenerators]
  split <;> rfl

theorem setting?_rootKey :
    setting? (storedZone waves zone) .rootKey
      = some (Generator.number .rootKey zone.params.originalKey.toNat).stored := by
  rw [storedZone, zoneGenerators]
  split <;> rfl

theorem setting?_sample :
    setting? (storedZone waves zone) .sample
      = some (Generator.number .sample zone.params.waveIndex.toInt.toNat).stored := by
  rw [storedZone, zoneGenerators]
  split <;> rfl

/-- A zone is played by the notes that it covers, and by every velocity if its own end at
zero. -/
theorem isPlayed_storedZone (key velocity : UInt8) :
    isPlayed key velocity (storedZone waves zone)
      = ((zone.keyLo ≤ key && key ≤ zone.keyHi)
        && (zone.velocityHi = 0
          || (zone.velocityLo ≤ velocity && velocity ≤ zone.velocityHi))) := by
  rw [isPlayed, setting?_keyRange, setting?_velocityRange]
  by_cases hzero : zone.velocityHi = 0
  · rw [if_pos hzero, decide_eq_true hzero]
    rfl
  · rw [if_neg hzero, decide_eq_false hzero]
    rfl

/-- A zone is played by every note that it covers. -/
theorem isPlayed_of_covers {key velocity : UInt8} (h : zone.covers key velocity = true) :
    isPlayed key velocity (storedZone waves zone) = true := by
  simp only [Zone.covers, Bool.and_eq_true] at h
  simp [isPlayed_storedZone, h.1.1.1, h.1.1.2, h.1.2, h.2]

/-! ## Banks -/

variable {waves zone}

/-- The zones that the SoundFont of some programs has for one of them. -/
theorem zonesOf?_of_consists {programs : List (List Zone)} {samples : List Audio} {file : Chunk}
    (h : Consists programs samples file) (program : Nat) :
    zonesOf? file program
      = (programs[program]?).map (List.map (storedZone samples.toArray)) := by
  have htables := storedInstruments_tables programs samples.toArray h.generators_lt
  simp only [zonesOf?, h.instruments, h.instrumentBags, h.instrumentGenerators,
    Option.bind_eq_bind, Option.bind_some, htables, List.getElem?_map]

/-- What a stored zone plays: its wave and its key. -/
theorem plays_storedZone {samples : List Audio}
    (hwave : 0 ≤ zone.params.waveIndex ∧ zone.params.waveIndex.toInt.toNat < samples.length)
    (hsamples : samples.length < 65535) :
    (setting? (storedZone waves zone) .sample).map (fun generator => (generator.amount : Int))
        = some zone.params.waveIndex.toInt
      ∧ (setting? (storedZone waves zone) .rootKey).map StoredGenerator.amount
        = some zone.params.originalKey.toNat := by
  have hkey := zone.params.originalKey.toNat_lt
  constructor
  · have hindex : 0 ≤ zone.params.waveIndex.toInt := Int32.le_iff_toInt_le.mp hwave.1
    rw [setting?_sample, Option.map_some, amount_number .sample (by omega),
      Int.toNat_of_nonneg hindex]
  · rw [setting?_rootKey, Option.map_some, amount_number .rootKey (by omega)]

/-- At velocity zero, and at keys without a zone whose velocities end at zero, the zones
that are played are those that cover the note. -/
theorem isPlayed_eq_covers {region : Region} (hincreasing : region.Increasing)
    {key velocity : UInt8}
    (h : velocity = 0 ∨ ∀ zone ∈ region.flatten, zone.velocityHi = 0 →
      ¬ (zone.keyLo ≤ key ∧ key ≤ zone.keyHi)) (hmem : zone ∈ region.flatten) :
    isPlayed key velocity (storedZone waves zone) = zone.covers key velocity := by
  rw [isPlayed_storedZone, Zone.covers, Bool.and_assoc (zone.keyLo ≤ key && key ≤ zone.keyHi)]
  by_cases hzero : zone.velocityHi = 0
  · rcases h with hvelocity | hnone
    · have hlo := hincreasing.velocityLo_eq_zero hmem hzero
      simp [hvelocity, hlo, hzero]
    · have houtside := hnone zone hmem hzero
      have hkeys : (zone.keyLo ≤ key && key ≤ zone.keyHi) = false := by
        rw [← Bool.not_eq_true, Bool.and_eq_true, decide_eq_true_eq, decide_eq_true_eq]
        exact houtside
      rw [hkeys]
      rfl
  · rw [decide_eq_false hzero, Bool.false_or]

/-- The zones of a tree play what the tree resolves to exactly if velocity zero is played
or no zone whose velocities end at zero has the key. -/
theorem plays_region_iff {region : Region} {samples : List Audio} (hfilled : region.Filled)
    (hincreasing : region.Increasing)
    (hwaves : ∀ zone ∈ region.flatten,
      0 ≤ zone.params.waveIndex ∧ zone.params.waveIndex.toInt.toNat < samples.length)
    (hsamples : samples.length < 65535) {key velocity : UInt8} (hkey : key ≤ 127)
    (hvelocity : velocity ≤ 127) :
    Plays (region.resolve [key, velocity])
        ((region.flatten.map (storedZone waves)).filter (isPlayed key velocity))
      ↔ velocity = 0 ∨ ∀ zone ∈ region.flatten, zone.velocityHi = 0 →
          ¬ (zone.keyLo ≤ key ∧ key ≤ zone.keyHi) := by
  rw [List.filter_map]
  constructor
  · rintro ⟨hone, hnone⟩
    -- a zone whose velocities end at zero is played, though it covers nothing louder
    by_cases hzero : velocity = 0
    · exact Or.inl hzero
    · refine Or.inr ?_
      rintro leaf hleaf hhi ⟨hlo, hle⟩
      have hplayed : leaf ∈ region.flatten.filter (isPlayed key velocity ∘ storedZone waves) := by
        refine List.mem_filter.mpr ⟨hleaf, ?_⟩
        show isPlayed key velocity (storedZone waves leaf) = true
        rw [isPlayed_storedZone, decide_eq_true hlo, decide_eq_true hle, decide_eq_true hhi]
        rfl
      cases hresolved : region.resolved? [key, velocity] with
      | none =>
          have hnil := hnone (Region.resolved?_eq_none_iff.mp hresolved)
          rw [List.map_eq_nil_iff.mp hnil] at hplayed
          exact nomatch hplayed
      | some params =>
          -- the zone of the leaf is played as well, and it is another one
          obtain ⟨zone, hfound, -⟩ :=
            Region.find?_covers_flatten hfilled hkey hvelocity hresolved
          have hcovers : zone.covers key velocity = true := by
            simpa using List.find?_some hfound
          have hplayed' : zone ∈ region.flatten.filter (isPlayed key velocity ∘ storedZone waves) :=
            List.mem_filter.mpr
              ⟨List.mem_of_find?_eq_some hfound, isPlayed_of_covers waves zone hcovers⟩
          obtain ⟨stored, hsingle, -⟩ := hone params (Region.resolved?_eq_some_iff.mp hresolved)
          obtain ⟨only, honly, -⟩ := List.map_eq_singleton_iff.mp hsingle
          rw [honly] at hplayed hplayed'
          rw [List.mem_singleton.mp hplayed', ← List.mem_singleton.mp hplayed] at hcovers
          simp only [Zone.covers, Bool.and_eq_true, decide_eq_true_eq, hhi] at hcovers
          exact hzero (UInt8.le_antisymm hcovers.2 UInt8.zero_le)
  · -- the zones that are played are those that cover the note
    intro h
    have hfilter : region.flatten.filter (isPlayed key velocity ∘ storedZone waves)
        = region.flatten.filter fun zone => zone.covers key velocity :=
      List.filter_congr fun zone hmem => isPlayed_eq_covers hincreasing h hmem
    have hmap := Region.map_params_filter_covers hfilled hincreasing hkey hvelocity
    rw [hfilter]
    constructor
    · intro params hresolve
      rw [Region.resolved?_eq_some_iff.mpr hresolve] at hmap
      obtain ⟨zone, hzones, hparams⟩ := List.map_eq_singleton_iff.mp hmap
      have hmem : zone ∈ region.flatten :=
        (List.mem_filter.mp (hzones ▸ List.mem_singleton_self zone)).1
      refine ⟨storedZone waves zone, by rw [hzones, List.map_singleton], ?_⟩
      rw [← hparams]
      exact plays_storedZone (hwaves zone hmem) hsamples
    · intro hresolve
      rw [Region.resolved?_eq_none_iff.mpr hresolve] at hmap
      rw [List.map_eq_nil_iff.mp hmap, List.map_nil]

/-- The same for the zones that are found in the SoundFont of some trees. -/
theorem plays_ofPrograms_iff {trees : List Region} {samples : List Audio} {name : String}
    {file : Chunk} (hfile : ofPrograms (trees.map Region.flatten) samples name = .ok file)
    {program : Nat} {region : Region} (hregion : trees[program]? = some region)
    (hfilled : region.Filled) (hincreasing : region.Increasing) {key velocity : UInt8}
    (hkey : key ≤ 127) (hvelocity : velocity ≤ 127) :
    ∃ zones, zonesOf? file program = some zones
      ∧ (Plays (region.resolve [key, velocity]) (zones.filter (isPlayed key velocity))
        ↔ velocity = 0 ∨ ∀ zone ∈ region.flatten, zone.velocityHi = 0 →
            ¬ (zone.keyLo ≤ key ∧ key ≤ zone.keyHi)) := by
  have hconsists := consists_of_ofPrograms hfile
  have hwaves : ∀ zone ∈ region.flatten,
      0 ≤ zone.params.waveIndex ∧ zone.params.waveIndex.toInt.toNat < samples.length := by
    intro zone hzone
    refine hconsists.waves_present zone (List.mem_flatten.mpr ⟨region.flatten, ?_, hzone⟩)
    exact List.mem_map_of_mem (List.mem_of_getElem? hregion)
  refine ⟨region.flatten.map (storedZone samples.toArray), ?_,
    plays_region_iff hfilled hincreasing hwaves hconsists.waves_lt hkey hvelocity⟩
  rw [zonesOf?_of_consists hconsists, List.getElem?_map, hregion]
  rfl

/-- **The SoundFont of a bank plays what the bank plays**, except that a zone whose
velocities end at zero is played at every velocity: for every note of every program the
zones that are played are what the bank plays exactly if the velocity is zero or no such
zone of the program has the key. -/
theorem ofBank_plays_iff {stored : Bytes} {bank : Bank} {samples : List Audio} {name : String}
    {file : Chunk} (hread : Bank.read stored = .ok bank)
    (hincreasing : ∀ region ∈ bank.programs, region.Increasing)
    (hfile : ofBank bank samples name = .ok file) {program : Nat}
    (hprogram : program < bank.programCount) {key velocity : UInt8} (hkey : key ≤ 127)
    (hvelocity : velocity ≤ 127) :
    ∃ zones, zonesOf? file program = some zones
      ∧ (Plays (bank.instrument program key velocity) (zones.filter (isPlayed key velocity))
        ↔ velocity = 0 ∨ ∀ leaves, bank.zones program = .ok leaves → ∀ leaf ∈ leaves,
            leaf.velocityHi = 0 → ¬ (leaf.keyLo ≤ key ∧ key ≤ leaf.keyHi)) := by
  have hregion : bank.programs[program]? = some bank.programs[program] :=
    List.getElem?_eq_getElem hprogram
  have hmem : bank.programs[program] ∈ bank.programs := List.getElem_mem hprogram
  generalize bank.programs[program] = region at hregion hmem
  have hprogram' : bank.program program = .ok region := by
    rw [Bank.program, hregion]
  have hinstrument : bank.instrument program key velocity = region.resolve [key, velocity] := by
    rw [Bank.instrument, hprogram']
    rfl
  have hleaves : bank.zones program = .ok region.flatten := by
    rw [Bank.zones, hprogram']
    rfl
  obtain ⟨zones, hzones, hplays⟩ := plays_ofPrograms_iff hfile hregion
    (Bank.filled_of_read hread region hmem) (hincreasing region hmem) hkey hvelocity
  refine ⟨zones, hzones, ?_⟩
  rw [hinstrument, hplays, hleaves]
  constructor
  · rintro (hzero | hall)
    · exact Or.inl hzero
    · exact Or.inr fun leaves heq => Except.ok.inj heq ▸ hall
  · rintro (hzero | hall)
    · exact Or.inl hzero
    · exact Or.inr (hall region.flatten rfl)

/-! ## A zone for velocity zero -/

/-- A bank whose lower keys have a zone for velocity zero, and another for the rest. -/
def dividedAtZero : Bytes := #[
  0x52, 0x42, 0x4e, 0x4b, 0xfe, 0xff, 0x01, 0x02, 0x00, 0x00, 0x00, 0x84, 0x00, 0x20, 0x00, 0x01,
  0x00, 0x00, 0x00, 0x20, 0x00, 0x00, 0x00, 0x64, 0x00, 0x00, 0x00, 0x00, 0x00, 0x00, 0x00, 0x00,
  0x44, 0x41, 0x54, 0x41, 0x00, 0x00, 0x00, 0x64, 0x00, 0x00, 0x00, 0x01, 0x01, 0x02, 0x00, 0x00,
  0x00, 0x00, 0x00, 0x0c, 0x02, 0x3b, 0x7f, 0x00, 0x01, 0x02, 0x00, 0x00, 0x00, 0x00, 0x00, 0x20,
  0x01, 0x01, 0x00, 0x00, 0x00, 0x00, 0x00, 0x48, 0x02, 0x00, 0x7f, 0x00, 0x01, 0x01, 0x00, 0x00,
  0x00, 0x00, 0x00, 0x34, 0x01, 0x01, 0x00, 0x00, 0x00, 0x00, 0x00, 0x48, 0x00, 0x00, 0x00, 0x00,
  0x7f, 0x7f, 0x7f, 0x7f, 0x00, 0x00, 0x00, 0x00, 0x30, 0x7f, 0x40, 0x00, 0x3f, 0x80, 0x00, 0x00,
  0x00, 0x00, 0x00, 0x00, 0x7f, 0x7f, 0x7f, 0x7f, 0x00, 0x00, 0x00, 0x00, 0x48, 0x7f, 0x40, 0x00,
  0x3f, 0x80, 0x00, 0x00]

/-- An instrument that plays the first wave with some key. -/
def atKey (key : UInt8) : InstrumentParams where
  waveIndex := 0
  attack := 127
  decay := 127
  sustain := 127
  release := 127
  hold := 0
  waveLocation := 0
  noteOffType := 0
  alternateAssign := 0
  originalKey := key
  volume := 127
  pan := 64
  surroundPan := 0
  pitch := 0x3f800000

/-- The only program of that bank. -/
def dividedTree : Region :=
  .ranges [
    (59, .ranges [(0, .leaf (atKey 48)), (127, .leaf (atKey 72))]),
    (127, .leaf (atKey 72))]

/-- Three frames. -/
def shortWave : Audio where
  rate := 32000
  channels := 1
  looped := false
  loopStart := 0
  loopEnd := 0
  samples := #[1, 2, 3]

theorem filled_dividedTree : dividedTree.Filled := by
  refine .ranges (List.forall_mem_cons.mpr ⟨.ranges ?_, List.forall_mem_singleton.mpr (.leaf _)⟩)
  simpa using ⟨.leaf (atKey 48), .leaf (atKey 72)⟩

theorem increasing_dividedTree : dividedTree.Increasing := by
  refine .ranges (by decide)
    (List.forall_mem_cons.mpr ⟨.ranges (by decide) ?_, List.forall_mem_singleton.mpr (.leaf _)⟩)
  simpa using ⟨.leaf (atKey 48), .leaf (atKey 72)⟩

/-- That bank can be read, and there is a SoundFont of it. -/
theorem read_dividedAtZero :
    ∃ bank file, Bank.read dividedAtZero = .ok bank ∧ bank.programs = [dividedTree]
      ∧ ofBank bank [shortWave] "divided" = .ok file := by
  have hprograms : Bank.programs <$> Bank.read dividedAtZero = .ok [dividedTree] := by cbv
  obtain ⟨bank, hread, hbank⟩ := Checked.map_eq_ok_iff.mp hprograms
  refine ⟨bank, ?_⟩
  rw [ofBank, hbank]
  exact ⟨_, hread, rfl, rfl⟩

/-- A loud note on one of the lower keys plays both zones. -/
theorem not_plays_dividedAtZero :
    ∃ bank file zones, Bank.read dividedAtZero = .ok bank
      ∧ (∀ region ∈ bank.programs, region.Increasing)
      ∧ ofBank bank [shortWave] "divided" = .ok file ∧ zonesOf? file 0 = some zones
      ∧ ¬ Plays (bank.instrument 0 40 100) (zones.filter (isPlayed 40 100)) := by
  obtain ⟨bank, file, hread, hbank, hfile⟩ := read_dividedAtZero
  have hregion : bank.programs[0]? = some dividedTree := by
    rw [hbank]
    rfl
  have hinstrument : bank.instrument 0 40 100 = dividedTree.resolve [40, 100] := by
    rw [Bank.instrument, Bank.program, hregion]
    rfl
  have hkey : (40 : UInt8) ≤ 127 := by decide
  have hvelocity : (100 : UInt8) ≤ 127 := by decide
  obtain ⟨zones, hzones, hplays⟩ := plays_ofPrograms_iff hfile hregion filled_dividedTree
    increasing_dividedTree hkey hvelocity
  refine ⟨bank, file, zones, hread, ?_, hfile, hzones, ?_⟩
  · rw [hbank]
    exact List.forall_mem_singleton.mpr increasing_dividedTree
  · rw [hinstrument, hplays]
    rintro (hzero | hnone)
    · exact absurd hzero (by decide)
    · exact hnone ⟨0, 59, 0, 0, atKey 48⟩ (by decide) rfl (by decide)

/-- A loud note on one of the upper keys plays what the bank plays. -/
theorem ofBank_plays_dividedAtZero :
    ∃ bank file zones, Bank.read dividedAtZero = .ok bank
      ∧ (∀ region ∈ bank.programs, region.Increasing)
      ∧ ofBank bank [shortWave] "divided" = .ok file ∧ zonesOf? file 0 = some zones
      ∧ Plays (bank.instrument 0 90 100) (zones.filter (isPlayed 90 100)) := by
  obtain ⟨bank, file, hread, hbank, hfile⟩ := read_dividedAtZero
  have hincreasing : ∀ region ∈ bank.programs, region.Increasing := by
    rw [hbank]
    exact List.forall_mem_singleton.mpr increasing_dividedTree
  have hcount : 0 < bank.programCount := by
    rw [Bank.programCount, hbank]
    decide
  have hkey : (90 : UInt8) ≤ 127 := by decide
  have hvelocity : (100 : UInt8) ≤ 127 := by decide
  obtain ⟨zones, hzones, hplays⟩ :=
    ofBank_plays_iff hread hincreasing hfile hcount hkey hvelocity
  refine ⟨bank, file, zones, hread, hincreasing, hfile, hzones, hplays.mpr (Or.inr ?_)⟩
  intro leaves hleaves
  have hflatten : bank.zones 0 = .ok dividedTree.flatten := by
    rw [Bank.zones, Bank.program, hbank]
    rfl
  rw [hflatten] at hleaves
  rw [← Except.ok.inj hleaves]
  decide

end ConsoleSound.SoundFont

import ConsoleSound.Proofs.SoundFont.Instruments
/-! # The samples of a SoundFont

The frames of all samples stand in one chunk, one sample after the other and each with its
silence, and a record for each says between which frames it plays. So a sample starts behind the
frames of the samples before it (`startOf`): that is what its record holds
(`getElem?_headersFrom`), and there the frames of its wave are found (`take_drop_startOf`).

Before a record is written it is checked that the next start fits 32 bits. Starts only grow, so
if there is a SoundFont all its frames can be numbered (`samplesFrom_ok`), and nothing that is
added up for a record runs over (`SampleTables.match_ofWaves`). -/

namespace ConsoleSound.SoundFont

open Riff (word long Chunk)
open Checked

variable {zones : List Zone} {waves : List Audio} {wave : Audio} {index start : Nat}

/-! ## Tables of samples -/

/-- What a record says of a sample. -/
structure StoredSample where
  start : Nat
  stop : Nat
  loopStart : Nat
  loopEnd : Nat
  rootKey : UInt8
  deriving DecidableEq, Repr

/-- The sample of a record. -/
def StoredSample.read (record : List UInt8) : StoredSample where
  start := longAt 20 record
  stop := longAt 24 record
  loopStart := longAt 28 record
  loopEnd := longAt 32 record
  rootKey := record.getD 40 0

/-- The frames of all samples, and the records that find them there. -/
structure SampleTables where
  frames : List UInt8
  headers : List UInt8

/-- The tables of the samples, if the file has them. -/
def sampleTables? (file : Chunk) : Option SampleTables := do
  let frames ← file.table? (.ofChars 's' 'm' 'p' 'l')
  let headers ← file.table? (.ofChars 's' 'h' 'd' 'r')
  return { frames, headers }

namespace SampleTables

/-- The samples of all records. -/
def samples (tables : SampleTables) : List StoredSample :=
  (records 46 tables.headers).map StoredSample.read

/-- The frames as signed numbers. -/
def storedFrames (tables : SampleTables) : List Int16 :=
  (records 2 tables.frames).map fun record => (UInt16.ofNat (wordAt 0 record)).toInt16

end SampleTables

/-- Whether a key is that of the first zone that plays a wave, or 60 if none does. -/
def IsRootKey (zones : List Zone) (wave : Nat) (key : UInt8) : Prop :=
  (∃ before zone behind, zones = before ++ zone :: behind
      ∧ (∀ other ∈ before, other.params.waveIndex.toInt ≠ (wave : Int))
      ∧ zone.params.waveIndex.toInt = (wave : Int) ∧ key = zone.params.originalKey)
    ∨ ((∀ zone ∈ zones, zone.params.waveIndex.toInt ≠ (wave : Int)) ∧ key = 60)

/-- Whether a sample plays a wave in a row of frames. -/
structure StoredSample.Plays (sample : StoredSample) (frames : List Int16) (wave : Audio) :
    Prop where
  stop_eq : sample.stop = sample.start + (wave.channel 0).size
  frames_eq : (frames.drop sample.start).take ((wave.channel 0).size + 46)
    = (wave.channel 0).toList ++ List.replicate 46 0
  /-- The next start, which is the greatest of the numbers that are added up, fits. -/
  fits : sample.stop + 46 < UInt32.size
  loopStart_eq : sample.loopStart = sample.start + min wave.loopStart.toNat (wave.channel 0).size
  loopEnd_eq : sample.loopEnd = sample.start + min wave.loopEnd.toNat (wave.channel 0).size
  loopStart_mem : sample.start ≤ sample.loopStart ∧ sample.loopStart ≤ sample.stop
  loopEnd_mem : sample.start ≤ sample.loopEnd ∧ sample.loopEnd ≤ sample.stop

/-- Whether the tables of samples are those of some waves and of the zones that play them. -/
structure SampleTables.Match (tables : SampleTables) (zones : List Zone) (waves : List Audio) :
    Prop where
  length_headers : tables.headers.length = (waves.length + 1) * 46
  terminal : (records 46 tables.headers)[waves.length]? = some terminalSample
  samples : ∀ index wave, waves[index]? = some wave →
    ∃ sample, tables.samples[index]? = some sample ∧ sample.Plays tables.storedFrames wave
      ∧ IsRootKey zones index sample.rootKey
  first : ∀ sample, 0 < waves.length → tables.samples[0]? = some sample → sample.start = 0
  next : ∀ index sample following, index + 1 < waves.length →
    tables.samples[index]? = some sample → tables.samples[index + 1]? = some following →
      following.start = sample.stop + 46
  no_frames : waves = [] → tables.frames.length = 0
  length_frames : ∀ index sample, index + 1 = waves.length →
    tables.samples[index]? = some sample → tables.frames.length = 2 * (sample.stop + 46)

/-! ## Frames -/

/-- The frames that are stored for a wave: its first channel and the silence behind it. -/
def storedWave (wave : Audio) : List Int16 :=
  (wave.channel 0).toList ++ List.replicate 46 0

/-- The bytes of a frame. -/
def frameBytes (sample : Int16) : List UInt8 := word sample.toUInt16.toNat

/-- The first frame of a sample, behind the frames of those before it. -/
def startOf (waves : List Audio) (index : Nat) : Nat :=
  ((waves.take index).flatMap storedWave).length

theorem length_storedWave (wave : Audio) :
    (storedWave wave).length = (wave.channel 0).size + 46 := by
  rw [storedWave, List.length_append, Array.length_toList, List.length_replicate]

theorem toList_sampleData (wave : Audio) :
    (sampleData wave).toList = (storedWave wave).flatMap frameBytes := by
  have hsilence : List.replicate (padding * 2) (0 : UInt8)
      = (List.replicate 46 (0 : Int16)).flatMap frameBytes := by decide
  rw [sampleData, storedWave, List.flatMap_append, ← hsilence, Array.toList_append,
    Array.toList_flatMap, Array.toList_replicate]
  rfl

theorem startOf_succ (h : waves[index]? = some wave) :
    startOf waves (index + 1) = startOf waves index + (wave.channel 0).size + 46 := by
  rw [startOf, List.take_add_one, h, List.flatMap_append, List.length_append, ← startOf,
    Option.toList_some, List.flatMap_singleton, length_storedWave, Nat.add_assoc]

theorem startOf_length (waves : List Audio) :
    startOf waves waves.length = (waves.flatMap storedWave).length := by
  rw [startOf, List.take_length]

theorem startOf_le (waves : List Audio) (index : Nat) :
    startOf waves index ≤ (waves.flatMap storedWave).length := by
  conv => rhs; rw [← List.take_append_drop index waves]
  rw [List.flatMap_append, List.length_append, startOf]
  exact Nat.le_add_right _ _

/-- The frames from the start of a sample on are those of its wave. -/
theorem take_drop_startOf (h : waves[index]? = some wave) :
    ((waves.flatMap storedWave).drop (startOf waves index)).take ((wave.channel 0).size + 46)
      = storedWave wave := by
  obtain ⟨hlt, hget⟩ := List.getElem?_eq_some_iff.mp h
  have hframes : waves.flatMap storedWave
      = (waves.take index).flatMap storedWave
        ++ (storedWave wave ++ (waves.drop (index + 1)).flatMap storedWave) := by
    rw [← List.flatMap_cons, ← List.flatMap_append, ← hget, ← List.drop_eq_getElem_cons hlt,
      List.take_append_drop]
  rw [hframes, startOf, List.drop_left' rfl, List.take_left' (length_storedWave wave)]

theorem length_frameBytes (sample : Int16) : (frameBytes sample).length = 2 := length_word _

/-- A frame is read back from its bytes. -/
theorem read_frameBytes (sample : Int16) :
    (UInt16.ofNat (wordAt 0 (frameBytes sample))).toInt16 = sample := by
  have hword : wordAt 0 (frameBytes sample) = sample.toUInt16.toNat := by
    have hread := wordAt_append [] rfl sample.toUInt16.toNat []
    rw [List.append_nil, Nat.mod_eq_of_lt sample.toUInt16.toNat_lt] at hread
    exact hread
  rw [hword, UInt16.ofNat_toNat]
  rfl

/-! ## Records -/

theorem length_sampleHeader (index start frames : Nat) (wave : Audio) (rootKey : UInt8) :
    (sampleHeader index start frames wave rootKey).length = 46 := by
  simp only [sampleHeader, List.length_append, length_nameField, length_long, length_word,
    List.length_cons, List.length_nil]

/-- The numbers of a record behind its name. -/
def recordNumbers (start : Nat) (wave : Audio) : List Nat :=
  [start, start + (wave.channel 0).size, start + min wave.loopStart.toNat (wave.channel 0).size,
    start + min wave.loopEnd.toNat (wave.channel 0).size, wave.rate.toNat]

/-- The sample that a record is written for. -/
def sampleOf (start : Nat) (wave : Audio) (rootKey : UInt8) : StoredSample where
  start
  stop := start + (wave.channel 0).size
  loopStart := start + min wave.loopStart.toNat (wave.channel 0).size
  loopEnd := start + min wave.loopEnd.toNat (wave.channel 0).size
  rootKey

theorem sampleHeader_eq (index start : Nat) (wave : Audio) (rootKey : UInt8) :
    sampleHeader index start (wave.channel 0).size wave rootKey
      = nameField s!"wav{index}"
        ++ ((recordNumbers start wave).flatMap long ++ ([rootKey, 0] ++ word 0 ++ word 1)) := by
  simp only [sampleHeader, recordNumbers, List.flatMap_cons, List.flatMap_nil, List.append_assoc,
    List.nil_append]

/-- A record is read back, as long as the sample ends within 32 bits. -/
theorem read_sampleHeader (index : Nat) (rootKey : UInt8)
    (hstop : start + (wave.channel 0).size < UInt32.size) :
    StoredSample.read (sampleHeader index start (wave.channel 0).size wave rootKey)
      = sampleOf start wave rootKey := by
  have hname := length_nameField s!"wav{index}"
  have hlong : ∀ place value, (recordNumbers start wave)[place]? = some value →
      value < UInt32.size →
        longAt (20 + place * 4) (sampleHeader index start (wave.channel 0).size wave rootKey)
          = value := by
    intro place value hplace hvalue
    rw [sampleHeader_eq]
    exact longAt_flatMap hname hplace hvalue _
  have hkey : (sampleHeader index start (wave.channel 0).size wave rootKey).getD 40 0
      = rootKey := by
    have hbefore : (nameField s!"wav{index}" ++ (recordNumbers start wave).flatMap long).length
        = 40 := by
      rw [List.length_append, hname, length_flatMap_of_length length_long]
      rfl
    rw [sampleHeader_eq, ← List.append_assoc, List.getD_eq_getElem?_getD,
      List.getElem?_append_right (Nat.le_of_eq hbefore), hbefore]
    rfl
  rw [StoredSample.read, sampleOf, StoredSample.mk.injEq]
  exact ⟨hlong 0 _ rfl (by omega), hlong 1 _ rfl hstop, hlong 2 _ rfl (by omega),
    hlong 3 _ rfl (by omega), hkey⟩

theorem length_terminalSample : terminalSample.length = 46 := by
  rw [terminalSample, List.length_append, length_nameField, List.length_replicate]

/-- The records of waves from number `index` on, the first of which starts at frame `start`. -/
def headersFrom (zones : List Zone) : (index start : Nat) → List Audio → List UInt8
  | _, _, [] => terminalSample
  | index, start, wave :: waves =>
    sampleHeader index start (wave.channel 0).size wave (rootKey zones index)
      ++ headersFrom zones (index + 1) (start + (wave.channel 0).size + 46) waves

theorem length_headersFrom (zones : List Zone) (index start : Nat) (waves : List Audio) :
    (headersFrom zones index start waves).length = (waves.length + 1) * 46 := by
  induction waves generalizing index start with
  | nil => exact length_terminalSample
  | cons wave waves ih =>
      rw [headersFrom, List.length_append, length_sampleHeader, ih, List.length_cons]
      omega

/-- The record of each wave has the start of its sample. -/
theorem getElem?_headersFrom {place : Nat} (h : waves[place]? = some wave) :
    (records 46 (headersFrom zones index start waves))[place]?
      = some (sampleHeader (index + place) (start + startOf waves place) (wave.channel 0).size wave
          (rootKey zones (index + place))) := by
  induction waves generalizing index start place with
  | nil => exact nomatch h
  | cons first waves ih =>
      rw [headersFrom, records_append (by decide) (length_sampleHeader _ _ _ _ _)]
      cases place with
      | zero =>
          obtain rfl := Option.some.inj h
          rfl
      | succ place =>
          have hindex : index + 1 + place = index + (place + 1) := by omega
          have hstart : start + (first.channel 0).size + 46 + startOf waves place
              = start + startOf (first :: waves) (place + 1) := by
            rw [startOf, startOf, List.take_succ_cons, List.flatMap_cons, List.length_append,
              length_storedWave]
            omega
          rw [List.getElem?_cons_succ, ih h, hindex, hstart]

/-- A record behind those of all waves ends the table. -/
theorem getElem?_headersFrom_length (zones : List Zone) (index start : Nat)
    (waves : List Audio) :
    (records 46 (headersFrom zones index start waves))[waves.length]? = some terminalSample := by
  induction waves generalizing index start with
  | nil =>
      have hrecords := records_append (by decide) length_terminalSample []
      rw [List.append_nil, records_nil] at hrecords
      rw [headersFrom, hrecords]
      rfl
  | cons wave waves ih =>
      rw [headersFrom, records_append (by decide) (length_sampleHeader _ _ _ _ _),
        List.length_cons, List.getElem?_cons_succ, ih]

theorem isRootKey_rootKey (zones : List Zone) (wave : Nat) :
    IsRootKey zones wave (rootKey zones wave) := by
  rw [rootKey]
  split
  · next zone hfind =>
      obtain ⟨hplays, before, behind, rfl, hbefore⟩ := List.find?_eq_some_iff_append.mp hfind
      refine Or.inl ⟨before, zone, behind, rfl, ?_, of_decide_eq_true hplays, rfl⟩
      intro other hmem
      simpa using hbefore other hmem
  · next hnone =>
      refine Or.inr ⟨?_, rfl⟩
      intro zone hmem
      simpa using List.find?_eq_none.mp hnone zone hmem

/-! ## What is written -/

theorem sampleSpan_ok {frames stop next : Nat}
    (h : sampleSpan start frames = .ok (stop, next)) :
    next = start + frames + 46 ∧ next < UInt32.size := by
  rw [sampleSpan] at h
  split at h
  · next hfits =>
      obtain ⟨-, rfl⟩ := Prod.mk.inj (Except.ok.inj h)
      exact ⟨rfl, hfits⟩
  · exact nomatch h

/-- What is made of waves: their frames, their records, and a number of frames that fits. -/
theorem samplesFrom_ok {frames headers frames' headers' : Array UInt8}
    (h : samplesFrom zones index start waves (frames, headers) = .ok (frames', headers'))
    (hstart : start < UInt32.size) :
    frames'.toList = frames.toList ++ (waves.flatMap storedWave).flatMap frameBytes
      ∧ headers'.toList = headers.toList ++ headersFrom zones index start waves
      ∧ start + (waves.flatMap storedWave).length < UInt32.size := by
  induction waves generalizing index start frames headers with
  | nil =>
      obtain ⟨rfl, rfl⟩ := Prod.mk.inj (Except.ok.inj h)
      exact ⟨(List.append_nil _).symm, Array.toList_appendList, hstart⟩
  | cons wave waves ih =>
      obtain ⟨⟨stop, next⟩, hspan, h⟩ := bind_eq_ok_iff.mp h
      obtain ⟨rfl, hnext⟩ := sampleSpan_ok hspan
      obtain ⟨hframes, hheaders, hfits⟩ := ih h hnext
      refine ⟨?_, ?_, ?_⟩
      · rw [hframes, Array.toList_append, toList_sampleData, List.flatMap_cons,
          List.flatMap_append, List.append_assoc]
      · rw [hheaders, Array.toList_appendList, headersFrom, List.append_assoc]
      · rw [List.flatMap_cons, List.length_append, length_storedWave]
        omega

namespace SampleTables

/-- The tables that are written for waves. -/
def ofWaves (zones : List Zone) (waves : List Audio) : SampleTables where
  frames := (waves.flatMap storedWave).flatMap frameBytes
  headers := headersFrom zones 0 0 waves

theorem storedFrames_ofWaves (zones : List Zone) (waves : List Audio) :
    (ofWaves zones waves).storedFrames = waves.flatMap storedWave := by
  rw [storedFrames, ofWaves, records_flatMap (by decide) frameBytes length_frameBytes,
    List.map_map]
  refine (List.map_congr_left ?_).trans (List.map_id _)
  intro sample _
  exact read_frameBytes sample

/-- A sample and the silence behind it are within the frames. -/
theorem startOf_add_le (h : waves[index]? = some wave) :
    startOf waves index + (wave.channel 0).size + 46 ≤ (waves.flatMap storedWave).length := by
  rw [← startOf_succ h]
  exact startOf_le waves (index + 1)

theorem samples_ofWaves (hfits : (waves.flatMap storedWave).length < UInt32.size)
    (h : waves[index]? = some wave) :
    (ofWaves zones waves).samples[index]?
      = some (sampleOf (startOf waves index) wave (rootKey zones index)) := by
  have hstop := startOf_add_le h
  rw [samples, ofWaves, List.getElem?_map, getElem?_headersFrom h, Nat.zero_add, Nat.zero_add,
    Option.map_some, read_sampleHeader index _ (by omega)]

/-- A sample plays its wave. -/
theorem plays_sampleOf (hfits : (waves.flatMap storedWave).length < UInt32.size)
    (h : waves[index]? = some wave) (rootKey : UInt8) :
    (sampleOf (startOf waves index) wave rootKey).Plays (waves.flatMap storedWave) wave := by
  have hstop := startOf_add_le h
  exact {
    stop_eq := rfl
    frames_eq := take_drop_startOf h
    fits := Nat.lt_of_le_of_lt hstop hfits
    loopStart_eq := rfl
    loopEnd_eq := rfl
    loopStart_mem := ⟨Nat.le_add_right _ _, Nat.add_le_add_left (Nat.min_le_right _ _) _⟩
    loopEnd_mem := ⟨Nat.le_add_right _ _, Nat.add_le_add_left (Nat.min_le_right _ _) _⟩ }

theorem length_frames_ofWaves (zones : List Zone) (waves : List Audio) :
    (ofWaves zones waves).frames.length = 2 * startOf waves waves.length := by
  rw [ofWaves, length_flatMap_of_length length_frameBytes, startOf_length, Nat.mul_comm]

/-- The tables that are written for waves match them if the frames can be numbered. -/
theorem match_ofWaves (hfits : (waves.flatMap storedWave).length < UInt32.size) :
    (ofWaves zones waves).Match zones waves where
  length_headers := length_headersFrom zones 0 0 waves
  terminal := getElem?_headersFrom_length zones 0 0 waves
  samples := by
    intro index wave hwave
    rw [storedFrames_ofWaves]
    exact ⟨_, samples_ofWaves hfits hwave, plays_sampleOf hfits hwave _,
      isRootKey_rootKey zones index⟩
  first := by
    intro sample hpos hsample
    have hwave := List.getElem?_eq_getElem hpos
    rw [samples_ofWaves hfits hwave] at hsample
    exact (congrArg StoredSample.start (Option.some.inj hsample)).symm
  next := by
    intro index sample following hindex hsample hfollowing
    have hwave := List.getElem?_eq_getElem (Nat.lt_of_succ_lt hindex)
    rw [samples_ofWaves hfits hwave, Option.some.injEq] at hsample
    rw [samples_ofWaves hfits (List.getElem?_eq_getElem hindex), Option.some.injEq] at hfollowing
    rw [← hsample, ← hfollowing]
    exact startOf_succ hwave
  no_frames := by
    rintro rfl
    rfl
  length_frames := by
    intro index sample hindex hsample
    have hwave := List.getElem?_eq_getElem (show index < waves.length by omega)
    rw [samples_ofWaves hfits hwave, Option.some.injEq] at hsample
    rw [length_frames_ofWaves, ← hindex, startOf_succ hwave, ← hsample]
    rfl

end SampleTables

/-- **Samples and records match** in every SoundFont: the records lead to the frames of the
waves, one sample after the other. -/
theorem exists_sampleTables_match {programs : List (List Zone)} {name : String} {file : Chunk}
    (h : ofPrograms programs waves name = .ok file) :
    ∃ tables, sampleTables? file = some tables ∧ tables.Match programs.flatten waves := by
  obtain ⟨frames, headers, hsamples, hframes, hheaders⟩ := (consists_of_ofPrograms h).samples
  obtain ⟨hframesEq, hheadersEq, hfits⟩ := samplesFrom_ok hsamples (by decide)
  rw [Nat.zero_add] at hfits
  refine ⟨.ofWaves programs.flatten waves, ?_, SampleTables.match_ofWaves hfits⟩
  rw [hframesEq] at hframes
  rw [hheadersEq] at hheaders
  simp only [sampleTables?, hframes, hheaders, Option.bind_eq_bind, Option.bind_some]
  rfl

/-- A wave of two channels that is cut off in its last frame and loops beyond its end. -/
def unevenWave : Audio where
  rate := 32000
  channels := 2
  looped := true
  loopStart := 1
  loopEnd := 9
  samples := #[1, -1, 2, -2, 3]

/-- A wave without frames. -/
def emptyWave : Audio := { unevenWave with samples := #[] }

/-- A zone of all keys that plays a wave. -/
def zoneOf (wave : Int32) (key : UInt8) : Zone :=
  ⟨0, 127, 0, 127, { (default : InstrumentParams) with waveIndex := wave, originalKey := key }⟩

/-- The wave without frames has its silence only and is played by no zone, the other one is
played by two. -/
theorem exists_sampleTables_match_unevenWave :
    ∃ file tables,
      ofPrograms [[zoneOf 1 72], [zoneOf 1 48]] [emptyWave, unevenWave] "b" = .ok file
        ∧ sampleTables? file = some tables
        ∧ tables.Match [zoneOf 1 72, zoneOf 1 48] [emptyWave, unevenWave] := by
  obtain ⟨file, hfile⟩ : ∃ file,
      ofPrograms [[zoneOf 1 72], [zoneOf 1 48]] [emptyWave, unevenWave] "b" = .ok file :=
    ⟨_, rfl⟩
  obtain ⟨tables, htables, hmatch⟩ := exists_sampleTables_match hfile
  exact ⟨file, tables, hfile, htables, hmatch⟩

end ConsoleSound.SoundFont

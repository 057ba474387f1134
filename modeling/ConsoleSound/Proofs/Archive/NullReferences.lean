import ConsoleSound.Archive.File
import ConsoleSound.Instrument.WaveSound
import ConsoleSound.Proofs.Checked
/-! # Null references in tables

Records refer to one another by their indices in stored tables. A table read by
`View.records` leaves its null references out, and every record behind one moves to a
smaller index. Indices are kept exactly if no null reference stands before another one
(`keepsIndices_iff`): where one does, the last record of the table is out of the reach of
its own index.

The tables of archives and the notes of wave sounds are read this way
(`keepsIndices_iff_nullsLast`). -/

namespace ConsoleSound

open Container

variable {α : Type}

/-! ## References and what was read for them -/

/-- Whether what was read for the references of a table is found at their indices. -/
def KeepsIndices (stored : List (Option Nat)) (read : Nat → Except Error α) (found : List α) :
    Prop :=
  ∀ index pos : Nat, stored[index]? = some (some pos) →
    ∃ record, found[index]? = some record ∧ read pos = .ok record

/-- Whether nothing but null references stands behind a null reference. -/
def NullsLast (stored : List (Option Nat)) : Prop :=
  stored.Pairwise fun first second => first = none → second = none

/-- References that all stand before some index are no more than that. -/
theorem length_filterMap_le {stored : List (Option Nat)} {bound : Nat}
    (h : ∀ index pos : Nat, stored[index]? = some (some pos) → index < bound) :
    (stored.filterMap id).length ≤ bound := by
  induction stored generalizing bound with
  | nil => exact Nat.zero_le _
  | cons target? stored ih =>
      have hrest : (stored.filterMap id).length ≤ bound - 1 :=
        ih fun index pos hindex => Nat.lt_sub_of_add_lt (h (index + 1) pos hindex)
      cases target? with
      | none => exact Nat.le_trans hrest (Nat.sub_le _ _)
      | some pos =>
          have hfirst : 0 < bound := h 0 pos rfl
          show (stored.filterMap id).length + 1 ≤ bound
          omega

/-- **Indices are kept exactly if the null references stand last.** -/
theorem keepsIndices_iff {stored : List (Option Nat)} {read : Nat → Except Error α}
    {found : List α}
    (h : List.Forall₂ (fun pos record => read pos = .ok record) (stored.filterMap id) found) :
    KeepsIndices stored read found ↔ NullsLast stored := by
  induction stored generalizing found with
  | nil =>
      constructor
      · exact fun _ => List.Pairwise.nil
      · exact fun _ _ _ hindex => nomatch hindex
  | cons target? stored ih =>
      rw [NullsLast, List.pairwise_cons]
      cases target? with
      | none =>
          constructor
          · intro hkeeps
            -- no reference behind this one may stand at the index of the last record
            have hbound : (stored.filterMap id).length ≤ found.length - 1 := by
              refine length_filterMap_le fun index pos hindex => ?_
              obtain ⟨record, hrecord, -⟩ := hkeeps (index + 1) pos hindex
              exact Nat.lt_sub_of_add_lt (List.getElem?_eq_some_iff.mp hrecord).1
            have hlength : (stored.filterMap id).length = found.length := h.length_eq
            have hempty : stored.filterMap id = [] := List.length_eq_zero_iff.mp (by omega)
            have hnull : ∀ target? ∈ stored, target? = none := List.filterMap_eq_nil_iff.mp hempty
            exact ⟨fun second hmem _ => hnull second hmem,
              List.pairwise_of_forall_mem_list fun _ _ second hmem _ => hnull second hmem⟩
          · rintro ⟨hnull, -⟩ index pos hindex
            cases index with
            | zero => exact nomatch hindex
            | succ index =>
                have hmem : some pos ∈ stored := List.mem_of_getElem? hindex
                exact nomatch hnull _ hmem rfl
      | some pos =>
          obtain ⟨record, rest, hrecord, hrest, rfl⟩ := List.forall₂_cons_left_iff.mp h
          have hfirst : ∀ second ∈ stored, some pos = none → second = none :=
            fun _ _ hnull => nomatch hnull
          rw [and_iff_right hfirst]
          refine Iff.trans ?_ (ih hrest)
          constructor
          · intro hkeeps index pos' hindex
            exact hkeeps (index + 1) pos' hindex
          · intro hkeeps index pos' hindex
            cases index with
            | zero =>
                obtain rfl := Option.some.inj (Option.some.inj hindex)
                exact ⟨record, rfl, hrecord⟩
            | succ index => exact hkeeps index pos' hindex

/-! ## Stored tables -/

/-- The references of the table that the reference at `pos` names; there are none if that
one is null. -/
def storedTable (view : View) (base pos : Nat) : Except Error (List (Option Nat)) := do
  match ← view.follow? pos base with
  | some table => view.targets table base
  | none => return []

/-- Whether what was read for a stored table is found at the indices of its references. -/
def TableKeepsIndices (view : View) (base pos : Nat) (read : Nat → Except Error α)
    (found : List α) : Prop :=
  ∃ stored, storedTable view base pos = .ok stored ∧ KeepsIndices stored read found

/-- Whether the null references of a stored table stand last. -/
def TableNullsLast (view : View) (base pos : Nat) : Prop :=
  ∃ stored, storedTable view base pos = .ok stored ∧ NullsLast stored

/-- A table that is read gives the records of its references, the null ones left out. -/
theorem exists_of_readTable {view : View} {base pos : Nat} {read : Nat → Except Error α}
    {found : List α} (h : readTable view base pos read = .ok found) :
    ∃ stored, storedTable view base pos = .ok stored
      ∧ List.Forall₂ (fun place record => read place = .ok record) (stored.filterMap id) found := by
  obtain ⟨table?, htable, h⟩ := Checked.bind_eq_ok_iff.mp h
  cases table? with
  | none =>
      obtain rfl := Except.ok.inj h
      exact ⟨[], by rw [storedTable, htable]; rfl, List.Forall₂.nil⟩
  | some table =>
      obtain ⟨stored, hstored, h⟩ := Checked.bind_eq_ok_iff.mp h
      refine ⟨stored, ?_, Checked.mapM_eq_ok_iff.mp h⟩
      rw [storedTable, htable]
      exact hstored

theorem tableKeepsIndices_iff {view : View} {base pos : Nat} {read : Nat → Except Error α}
    {found : List α} (h : readTable view base pos read = .ok found) :
    TableKeepsIndices view base pos read found ↔ TableNullsLast view base pos := by
  obtain ⟨stored, hstored, hfound⟩ := exists_of_readTable h
  rw [TableKeepsIndices, TableNullsLast, Checked.exists_ok_iff hstored,
    Checked.exists_ok_iff hstored]
  exact keepsIndices_iff hfound

/-! ## Archives -/

namespace Archive

/-- Whether the table of items of every group keeps its indices. -/
def ItemsKeepIndices (archive : Archive) (base : Nat) : Prop :=
  ∃ stored, storedTable archive.view base (base + 32) = .ok stored
    ∧ List.Forall₂ (fun place group =>
        TableKeepsIndices archive.view base (place + 0x20) (GroupItem.read archive.view)
          group.items)
      (stored.filterMap id) archive.groups

/-- Whether the null references of the table of items of every group stand last. -/
def ItemsNullsLast (view : View) (base : Nat) : Prop :=
  ∃ stored, storedTable view base (base + 32) = .ok stored
    ∧ ∀ place ∈ stored.filterMap id, TableNullsLast view base (place + 0x20)

/-- Whether every table of an archive, read from `base` on, keeps its indices: those of
sounds, banks, players, files and groups, and the items of every group. -/
structure TablesKeepIndices (archive : Archive) (base : Nat) : Prop where
  sounds : TableKeepsIndices archive.view base base (SoundInfo.read archive.view base)
    archive.sounds
  banks : TableKeepsIndices archive.view base (base + 8) (BankInfo.read archive.view) archive.banks
  players : TableKeepsIndices archive.view base (base + 16) (PlayerInfo.read archive.view)
    archive.players
  files : TableKeepsIndices archive.view base (base + 24) (FileInfo.read archive.view base)
    archive.files
  groups : TableKeepsIndices archive.view base (base + 32) (GroupInfo.read archive.view base)
    archive.groups
  items : archive.ItemsKeepIndices base

/-- Whether the null references of every table of an archive stand last. -/
structure TablesNullsLast (view : View) (base : Nat) : Prop where
  sounds : TableNullsLast view base base
  banks : TableNullsLast view base (base + 8)
  players : TableNullsLast view base (base + 16)
  files : TableNullsLast view base (base + 24)
  groups : TableNullsLast view base (base + 32)
  items : ItemsNullsLast view base

/-- Whether an archive keeps the indices of its tables, which its information block holds. -/
def KeepsIndices (archive : Archive) : Prop :=
  ∃ info, Block.locate archive.view 0x18 (.ofChars 'I' 'N' 'F' 'O') = .ok info
    ∧ archive.TablesKeepIndices info.base

/-- Whether the null references of every table of an archive stand last. -/
def NullsLast (archive : Archive) : Prop :=
  ∃ info, Block.locate archive.view 0x18 (.ofChars 'I' 'N' 'F' 'O') = .ok info
    ∧ TablesNullsLast archive.view info.base

/-- Where the tables of an archive were read from. -/
structure TablesRead (archive : Archive) (base : Nat) : Prop where
  sounds : readTable archive.view base base (SoundInfo.read archive.view base) = .ok archive.sounds
  banks : readTable archive.view base (base + 8) (BankInfo.read archive.view) = .ok archive.banks
  players : readTable archive.view base (base + 16) (PlayerInfo.read archive.view)
    = .ok archive.players
  files : readTable archive.view base (base + 24) (FileInfo.read archive.view base)
    = .ok archive.files
  groups : readTable archive.view base (base + 32) (GroupInfo.read archive.view base)
    = .ok archive.groups

theorem tablesRead_of_read {file : Bytes} {archive : Archive} (h : read file = .ok archive) :
    ∃ info, Block.locate archive.view 0x18 (.ofChars 'I' 'N' 'F' 'O') = .ok info
      ∧ archive.TablesRead info.base := by
  obtain ⟨⟨header, view⟩, -, h⟩ := Checked.bind_eq_ok_iff.mp h
  obtain ⟨symbolsOffset, -, h⟩ := Checked.bind_eq_ok_iff.mp h
  extract_lets next at h
  have hnext : ∃ symbols, next symbols = .ok archive := by
    split at h
    · exact ⟨_, h⟩
    · obtain ⟨block, -, h⟩ := Checked.bind_eq_ok_iff.mp h
      obtain ⟨symbols, -, h⟩ := Checked.bind_eq_ok_iff.mp h
      exact ⟨symbols, h⟩
  obtain ⟨symbols, h⟩ := hnext
  obtain ⟨info, hinfo, h⟩ := Checked.bind_eq_ok_iff.mp h
  obtain ⟨sounds, hsounds, h⟩ := Checked.bind_eq_ok_iff.mp h
  obtain ⟨banks, hbanks, h⟩ := Checked.bind_eq_ok_iff.mp h
  obtain ⟨players, hplayers, h⟩ := Checked.bind_eq_ok_iff.mp h
  obtain ⟨files, hfiles, h⟩ := Checked.bind_eq_ok_iff.mp h
  obtain ⟨groups, hgroups, h⟩ := Checked.bind_eq_ok_iff.mp h
  obtain ⟨countsPos?, -, h⟩ := Checked.bind_eq_ok_iff.mp h
  have hcounts : ∃ counts,
      archive = ⟨header, symbols, sounds, banks, players, files, groups, counts, view⟩ := by
    cases countsPos? with
    | none => exact ⟨_, (Except.ok.inj h).symm⟩
    | some pos =>
        obtain ⟨counts, -, h⟩ := Checked.bind_eq_ok_iff.mp h
        exact ⟨counts, (Except.ok.inj h).symm⟩
  obtain ⟨counts, rfl⟩ := hcounts
  exact ⟨info, hinfo, ⟨hsounds, hbanks, hplayers, hfiles, hgroups⟩⟩

theorem items_of_read {view : View} {base place : Nat} {group : GroupInfo}
    (h : GroupInfo.read view base place = .ok group) :
    readTable view base (place + 0x20) (GroupItem.read view) = .ok group.items := by
  obtain ⟨items, hitems, h⟩ := Checked.bind_eq_ok_iff.mp h
  obtain ⟨nameIndex, -, h⟩ := Checked.bind_eq_ok_iff.mp h
  obtain ⟨entryNumber, -, h⟩ := Checked.bind_eq_ok_iff.mp h
  obtain ⟨externalPath?, -, h⟩ := Checked.bind_eq_ok_iff.mp h
  obtain ⟨fileOffset, -, h⟩ := Checked.bind_eq_ok_iff.mp h
  obtain ⟨fileSize, -, h⟩ := Checked.bind_eq_ok_iff.mp h
  obtain ⟨waveDataOffset, -, h⟩ := Checked.bind_eq_ok_iff.mp h
  obtain ⟨waveDataSize, -, h⟩ := Checked.bind_eq_ok_iff.mp h
  rw [← Except.ok.inj h]
  exact hitems

theorem forall₂_items_iff {view : View} {base : Nat} {places : List Nat} {groups : List GroupInfo}
    (h : List.Forall₂ (fun place group => GroupInfo.read view base place = .ok group)
      places groups) :
    List.Forall₂ (fun place group =>
        TableKeepsIndices view base (place + 0x20) (GroupItem.read view) group.items) places groups
      ↔ ∀ place ∈ places, TableNullsLast view base (place + 0x20) := by
  induction h with
  | nil => exact ⟨fun _ _ hmem => (nomatch hmem), fun _ => .nil⟩
  | cons hgroup _ ih =>
      rw [List.forall₂_cons, List.forall_mem_cons, tableKeepsIndices_iff (items_of_read hgroup), ih]

theorem TablesRead.itemsKeepIndices_iff {archive : Archive} {base : Nat}
    (h : archive.TablesRead base) :
    archive.ItemsKeepIndices base ↔ ItemsNullsLast archive.view base := by
  obtain ⟨stored, hstored, hgroups⟩ := exists_of_readTable h.groups
  rw [ItemsKeepIndices, ItemsNullsLast, Checked.exists_ok_iff hstored,
    Checked.exists_ok_iff hstored]
  exact forall₂_items_iff hgroups

theorem TablesRead.tablesKeepIndices_iff {archive : Archive} {base : Nat}
    (h : archive.TablesRead base) :
    archive.TablesKeepIndices base ↔ TablesNullsLast archive.view base := by
  have hsounds := tableKeepsIndices_iff h.sounds
  have hbanks := tableKeepsIndices_iff h.banks
  have hplayers := tableKeepsIndices_iff h.players
  have hfiles := tableKeepsIndices_iff h.files
  have hgroups := tableKeepsIndices_iff h.groups
  have hitems := h.itemsKeepIndices_iff
  constructor
  · intro hkeeps
    exact ⟨hsounds.mp hkeeps.sounds, hbanks.mp hkeeps.banks, hplayers.mp hkeeps.players,
      hfiles.mp hkeeps.files, hgroups.mp hkeeps.groups, hitems.mp hkeeps.items⟩
  · intro hnulls
    exact ⟨hsounds.mpr hnulls.sounds, hbanks.mpr hnulls.banks, hplayers.mpr hnulls.players,
      hfiles.mpr hnulls.files, hgroups.mpr hnulls.groups, hitems.mpr hnulls.items⟩

theorem keepsIndices_iff_of_read {file : Bytes} {archive : Archive} (h : read file = .ok archive) :
    archive.KeepsIndices ↔ archive.NullsLast := by
  obtain ⟨info, hinfo, htables⟩ := tablesRead_of_read h
  rw [KeepsIndices, NullsLast, Checked.exists_ok_iff hinfo, Checked.exists_ok_iff hinfo]
  exact htables.tablesKeepIndices_iff

end Archive

/-! ## Wave sounds -/

namespace WaveSoundFile

/-- Whether the note table of every sound keeps its indices. Sounds themselves do, for an
absent one has a place of its own. -/
def KeepsIndices (file : WaveSoundFile) : Prop :=
  ∃ data, Block.locate file.view 0x10 (.ofChars 'D' 'A' 'T' 'A') = .ok data
    ∧ ∃ stored, file.view.targets data.base data.base = .ok stored
      ∧ List.Forall₂ (fun target? sound => ∀ place, target? = some place →
          TableKeepsIndices file.view data.base (place + 16) (InstrumentParams.read file.view)
            sound.notes)
        stored file.sounds

/-- Whether the null references of every note table stand last. -/
def NullsLast (file : WaveSoundFile) : Prop :=
  ∃ data, Block.locate file.view 0x10 (.ofChars 'D' 'A' 'T' 'A') = .ok data
    ∧ ∃ stored, file.view.targets data.base data.base = .ok stored
      ∧ ∀ place, some place ∈ stored → TableNullsLast file.view data.base (place + 16)

theorem notes_of_read {view : View} {base place : Nat} {sound : WaveSound}
    (h : WaveSound.read view base place = .ok sound) :
    readTable view base (place + 16) (InstrumentParams.read view) = .ok sound.notes := by
  obtain ⟨infoPos?, -, h⟩ := Checked.bind_eq_ok_iff.mp h
  extract_lets withInfo at h
  have hinfo : ∃ info?, withInfo info? = .ok sound := by
    cases infoPos? with
    | none => exact ⟨none, h⟩
    | some pos =>
        obtain ⟨info?, -, h⟩ := Checked.bind_eq_ok_iff.mp h
        exact ⟨info?, h⟩
  obtain ⟨info?, h⟩ := hinfo
  obtain ⟨tracksPos?, -, h⟩ := Checked.bind_eq_ok_iff.mp h
  extract_lets withTracks at h
  have htracks : ∃ tracks, withTracks tracks = .ok sound := by
    cases tracksPos? with
    | none => exact ⟨[], h⟩
    | some pos =>
        obtain ⟨tracks, -, h⟩ := Checked.bind_eq_ok_iff.mp h
        exact ⟨tracks, h⟩
  obtain ⟨tracks, h⟩ := htracks
  obtain ⟨notesPos?, hnotesPos, h⟩ := Checked.bind_eq_ok_iff.mp h
  refine Checked.bind_eq_ok_iff.mpr ⟨notesPos?, hnotesPos, ?_⟩
  cases notesPos? with
  | none =>
      rw [← Except.ok.inj h]
      rfl
  | some pos =>
      obtain ⟨notes, hnotes, h⟩ := Checked.bind_eq_ok_iff.mp h
      rw [← Except.ok.inj h]
      exact hnotes

theorem forall₂_notes_iff {view : View} {base : Nat} {stored : List (Option Nat)}
    {sounds : List WaveSound}
    (h : List.Forall₂ (fun target? sound => ∀ place, target? = some place →
      WaveSound.read view base place = .ok sound) stored sounds) :
    List.Forall₂ (fun target? sound => ∀ place, target? = some place →
        TableKeepsIndices view base (place + 16) (InstrumentParams.read view) sound.notes)
      stored sounds
      ↔ ∀ place, some place ∈ stored → TableNullsLast view base (place + 16) := by
  induction h with
  | nil => exact ⟨fun _ _ hmem => (nomatch hmem), fun _ => .nil⟩
  | @cons target? sound stored sounds hsound _ ih =>
      rw [List.forall₂_cons, ih]
      constructor
      · rintro ⟨hfirst, hrest⟩ place hmem
        rcases List.mem_cons.mp hmem with heq | hmem
        · exact (tableKeepsIndices_iff (notes_of_read (hsound place heq.symm))).mp
            (hfirst place heq.symm)
        · exact hrest place hmem
      · intro hnulls
        constructor
        · rintro place rfl
          exact (tableKeepsIndices_iff (notes_of_read (hsound place rfl))).mpr
            (hnulls place List.mem_cons_self)
        · exact fun place hmem => hnulls place (List.mem_cons_of_mem _ hmem)

theorem sounds_of_read {file : Bytes} {found : WaveSoundFile} (h : read file = .ok found) :
    ∃ data, Block.locate found.view 0x10 (.ofChars 'D' 'A' 'T' 'A') = .ok data
      ∧ ∃ stored, found.view.targets data.base data.base = .ok stored
        ∧ List.Forall₂ (fun target? sound => ∀ place, target? = some place →
          WaveSound.read found.view data.base place = .ok sound) stored found.sounds := by
  obtain ⟨⟨header, view⟩, -, h⟩ := Checked.bind_eq_ok_iff.mp h
  obtain ⟨data, hdata, h⟩ := Checked.bind_eq_ok_iff.mp h
  obtain ⟨stored, hstored, h⟩ := Checked.bind_eq_ok_iff.mp h
  obtain ⟨sounds, hsounds, h⟩ := Checked.bind_eq_ok_iff.mp h
  obtain ⟨wavesOffset, -, h⟩ := Checked.bind_eq_ok_iff.mp h
  have hwaves : ∃ waves, found = ⟨header, sounds, waves, view⟩ := by
    dsimp only at h
    split at h
    · obtain ⟨block, -, h⟩ := Checked.bind_eq_ok_iff.mp h
      obtain ⟨waves, -, h⟩ := Checked.bind_eq_ok_iff.mp h
      exact ⟨waves, (Except.ok.inj h).symm⟩
    · exact ⟨.archive, (Except.ok.inj h).symm⟩
  obtain ⟨waves, rfl⟩ := hwaves
  refine ⟨data, hdata, stored, hstored, (Checked.mapM_eq_ok_iff.mp hsounds).imp ?_⟩
  rintro target? sound hsound place rfl
  exact hsound

theorem keepsIndices_iff_of_read {file : Bytes} {found : WaveSoundFile}
    (h : read file = .ok found) : found.KeepsIndices ↔ found.NullsLast := by
  obtain ⟨data, hdata, stored, hstored, hsounds⟩ := sounds_of_read h
  rw [KeepsIndices, NullsLast, Checked.exists_ok_iff hdata, Checked.exists_ok_iff hdata,
    Checked.exists_ok_iff hstored, Checked.exists_ok_iff hstored]
  exact forall₂_notes_iff hsounds

end WaveSoundFile

/-! ## Both -/

/-- **Records keep their indices exactly if null references stand last**, whatever a file
holds: in every table of an archive, and in the note tables of all wave sounds. -/
theorem keepsIndices_iff_nullsLast (file : Bytes) :
    (∀ archive, Archive.read file = .ok archive → (archive.KeepsIndices ↔ archive.NullsLast))
      ∧ ∀ found, WaveSoundFile.read file = .ok found → (found.KeepsIndices ↔ found.NullsLast) := by
  constructor
  · intro archive h
    exact Archive.keepsIndices_iff_of_read h
  · intro found h
    exact WaveSoundFile.keepsIndices_iff_of_read h

/-- An archive with a sound that plays file 1, in whose table of files a null reference
stands before that of the only record. -/
def Archive.nullFirst : Bytes :=
  #[0x52, 0x53, 0x41, 0x52, 0xfe, 0xff, 0x01, 0x04, 0x00, 0x00, 0x00, 0xc8, 0x00, 0x20, 0x00, 0x02,
    0x00, 0x00, 0x00, 0x00, 0x00, 0x00, 0x00, 0x00, 0x00, 0x00, 0x00, 0x20, 0x00, 0x00, 0x00, 0xa8,
    0x49, 0x4e, 0x46, 0x4f, 0x00, 0x00, 0x00, 0xa8, 0x01, 0x00, 0x00, 0x00, 0x00, 0x00, 0x00, 0x30,
    0x00, 0x00, 0x00, 0x00, 0x00, 0x00, 0x00, 0x00, 0x00, 0x00, 0x00, 0x00, 0x00, 0x00, 0x00, 0x00,
    0x01, 0x00, 0x00, 0x00, 0x00, 0x00, 0x00, 0x3c, 0x00, 0x00, 0x00, 0x00, 0x00, 0x00, 0x00, 0x00,
    0x00, 0x00, 0x00, 0x00, 0x00, 0x00, 0x00, 0x00, 0x00, 0x00, 0x00, 0x01, 0x01, 0x00, 0x00, 0x00,
    0x00, 0x00, 0x00, 0x50, 0x00, 0x00, 0x00, 0x02, 0x00, 0x00, 0x00, 0x00, 0x00, 0x00, 0x00, 0x00,
    0x01, 0x00, 0x00, 0x00, 0x00, 0x00, 0x00, 0x7c, 0xff, 0xff, 0xff, 0xff, 0x00, 0x00, 0x00, 0x01,
    0x00, 0x00, 0x00, 0x00, 0x00, 0x00, 0x00, 0x00, 0x00, 0x00, 0x00, 0x00, 0x00, 0x00, 0x00, 0x00,
    0x00, 0x00, 0x00, 0x00, 0x00, 0x00, 0x00, 0x00, 0x00, 0x00, 0x00, 0x00, 0x00, 0x00, 0x00, 0x00,
    0x00, 0x00, 0x00, 0x00, 0x00, 0x00, 0x00, 0x00, 0x00, 0x00, 0x00, 0x00, 0x00, 0x00, 0x00, 0x00,
    0x01, 0x00, 0x00, 0x00, 0x00, 0x00, 0x00, 0x98, 0x00, 0x00, 0x00, 0x00, 0x00, 0x00, 0x00, 0x00,
    0x61, 0x2e, 0x62, 0x72, 0x73, 0x65, 0x71, 0x00]

/-- The record that stands at index 1 of the stored table is at index 0 of what is read. -/
theorem not_keepsIndices_nullFirst :
    ∃ archive, Archive.read Archive.nullFirst = .ok archive ∧ ¬archive.KeepsIndices := by
  have hevaluated : (do
      let archive ← Archive.read Archive.nullFirst
      let info ← Block.locate archive.view 0x18 (.ofChars 'I' 'N' 'F' 'O')
      let stored ← storedTable archive.view info.base (info.base + 24)
      return (archive.files.length, stored)) = .ok (1, [none, some 0xa4]) := by
    decide +kernel
  obtain ⟨archive, hread, h⟩ := Checked.bind_eq_ok_iff.mp hevaluated
  obtain ⟨info, hinfo, h⟩ := Checked.bind_eq_ok_iff.mp h
  obtain ⟨stored, hstored, h⟩ := Checked.bind_eq_ok_iff.mp h
  obtain ⟨hlength, rfl⟩ := Prod.mk.inj (Except.ok.inj h)
  refine ⟨archive, hread, ?_⟩
  intro hkeeps
  rw [Archive.KeepsIndices, Checked.exists_ok_iff hinfo] at hkeeps
  have hfiles := hkeeps.files
  rw [TableKeepsIndices, Checked.exists_ok_iff hstored] at hfiles
  obtain ⟨record, hrecord, -⟩ := hfiles 1 0xa4 rfl
  have hindex := (List.getElem?_eq_some_iff.mp hrecord).1
  omega

end ConsoleSound

import ConsoleSound.Proofs.Export.Endings
/-! # Extraction and its output directory

Paths lead through directories by their names, and one name leads back. An extraction
puts names behind the path of its output directory; as long as none of them is the one
that leads back, everything it makes lies inside (`Path.Below.isWithin`).

All of these names but one kind are numbers or have an extension. The names of groups come
from the archive with some characters replaced, and the two dots of the name that leads
back are not among them (`safeName_eq_parentName_iff`). So extractions stay inside exactly
if no group that has items bears that name (`extract_staysIn_iff`). -/

namespace ConsoleSound

/-! ## Where paths lead -/

namespace Path

/-- The names on the way to a directory after one more name. The name that leads back takes
the last one away; at the root it leads nowhere else, and in front of all others it stays. -/
def enter (rooted : Bool) (names : List String) (name : String) : List String :=
  if name = parentName then
    match names.getLast? with
    | none => if rooted then [] else [parentName]
    | some last => if last = parentName then names ++ [parentName] else names.dropLast
  else names ++ [name]

/-- The names of a path once those that lead back have taken others away. -/
def straight (path : Path) : List String := path.names.foldl (enter path.rooted) []

/-- Whether a path leads to a directory or to something in it, at any depth. -/
def IsWithin (path directory : Path) : Prop :=
  path.rooted = directory.rooted
    ∧ ∃ names, parentName ∉ names ∧ path.straight = directory.straight ++ names

/-- Whether a path goes on from a directory and never leads back. -/
def Below (path directory : Path) : Prop :=
  path.rooted = directory.rooted
    ∧ ∃ names, parentName ∉ names ∧ path.names = directory.names ++ names

theorem foldl_enter {names : List String} (h : parentName ∉ names) (rooted : Bool)
    (above : List String) : names.foldl (enter rooted) above = above ++ names := by
  induction names generalizing above with
  | nil => exact (List.append_nil _).symm
  | cons name names ih =>
      have hname : name ≠ parentName := by
        rintro rfl
        exact h List.mem_cons_self
      have hnames : parentName ∉ names := fun hmem => h (List.mem_cons_of_mem _ hmem)
      rw [List.foldl_cons, enter, if_neg hname, ih hnames, List.append_assoc,
        List.singleton_append]

/-- A path that never leads back stays inside. -/
theorem Below.isWithin {path directory : Path} (h : path.Below directory) :
    path.IsWithin directory := by
  obtain ⟨hrooted, names, hnames, hpath⟩ := h
  refine ⟨hrooted, names, hnames, ?_⟩
  rw [straight, hpath, List.foldl_append, foldl_enter hnames, hrooted]
  rfl

theorem Below.refl (path : Path) : path.Below path :=
  ⟨rfl, [], List.not_mem_nil, (List.append_nil _).symm⟩

theorem Below.child {path directory : Path} (h : path.Below directory) {name : String}
    (hname : name ≠ parentName) : (path.child name).Below directory := by
  rw [Path.child]
  split
  · exact h
  · obtain ⟨hrooted, names, hnames, hpath⟩ := h
    refine ⟨hrooted, names ++ [name], ?_, ?_⟩
    · rw [List.mem_append, List.mem_singleton]
      rintro (hmem | heq)
      · exact hnames hmem
      · exact hname heq.symm
    · rw [hpath, List.append_assoc]

/-- On the way to a path below a directory lie the ways to that one and paths below it. -/
theorem Below.prefixes {path directory : Path} (h : path.Below directory) {place : Path}
    (hplace : place ∈ path.prefixes) : place ∈ directory.prefixes ∨ place.Below directory := by
  obtain ⟨hrooted, names, hnames, hpath⟩ := h
  obtain ⟨count, hcount, rfl⟩ := List.mem_map.mp hplace
  rcases Nat.lt_or_ge directory.names.length count with hlong | hshort
  · refine .inr ⟨hrooted, names.take (count - directory.names.length), ?_, ?_⟩
    · exact fun hmem => hnames (List.mem_of_mem_take hmem)
    · show path.names.take count = _
      rw [hpath, List.take_append, List.take_of_length_le (Nat.le_of_lt hlong)]
  · refine .inl (List.mem_map.mpr ⟨count, List.mem_range.mpr (Nat.lt_succ_of_le hshort), ?_⟩)
    show Path.mk directory.rooted _ = Path.mk path.rooted _
    rw [hrooted, hpath, List.take_append_of_le_length hshort]

end Path

/-! ## Names -/

/-- A name with anything but dots in it does not lead back. -/
theorem ne_parentName {name : String} {char : Char} (h : char ∈ name.toList) (hchar : char ≠ '.') :
    name ≠ Path.parentName := by
  rintro rfl
  have hdots : Path.parentName.toList = ['.', '.'] := by decide
  rw [hdots] at h
  rcases List.mem_cons.mp h with heq | h
  · exact hchar heq
  · exact hchar (List.mem_singleton.mp h)

theorem append_ne_parentName {front : String} (char : Char) (h : char ∈ front.toList)
    (hchar : char ≠ '.') (back : String) : front ++ back ≠ Path.parentName := by
  refine ne_parentName ?_ hchar
  rw [String.toList_append]
  exact List.mem_append_left _ h

theorem append_ne_parentName' (front : String) {back : String} (char : Char)
    (h : char ∈ back.toList) (hchar : char ≠ '.') : front ++ back ≠ Path.parentName := by
  refine ne_parentName ?_ hchar
  rw [String.toList_append]
  exact List.mem_append_right _ h

theorem toString_ne_parentName (number : Nat) : toString number ≠ Path.parentName := by
  have hdigits : (toString number).toList = Nat.toDigits 10 number := Nat.toList_repr
  obtain ⟨digit, hdigit⟩ : ∃ digit, digit ∈ Nat.toDigits 10 number :=
    List.exists_mem_of_ne_nil _ Nat.toDigits_ne_nil
  refine ne_parentName (hdigits ▸ hdigit) ?_
  rintro rfl
  exact absurd (Nat.isDigit_of_mem_toDigits (by decide) (by decide) hdigit) (by decide)

/-- Replacing characters makes no dots, so that only the name that leads back turns into it. -/
theorem safeName_eq_parentName_iff {name : String} :
    safeName name = Path.parentName ↔ name = Path.parentName := by
  have hdot {char : Char} (h : (if isUnsafe char then '_' else char) = '.') : char = '.' := by
    split at h
    · exact absurd h (by decide)
    · exact h
  constructor
  · intro h
    have hlist := congrArg String.toList h
    rw [safeName, String.toList_ofList] at hlist
    obtain ⟨first, rest, hname, hfirst, hrest⟩ := List.map_eq_cons_iff.mp hlist
    obtain ⟨second, rest, rfl, hsecond, hrest⟩ := List.map_eq_cons_iff.mp hrest
    obtain rfl := List.map_eq_nil_iff.mp hrest
    rw [hdot hfirst, hdot hsecond] at hname
    exact String.toList_inj.mp hname
  · rintro rfl
    decide

/-! ## Actions -/

/-- Whether an action makes nothing outside a directory but those that lead to it. -/
def Action.StaysIn (output : Path) : Action → Prop
  | .makeDirectory path => ∀ place ∈ path.prefixes, place ∈ output.prefixes ∨ place.IsWithin output
  | .writeFile path _ => path.IsWithin output
  | .report _ => True

namespace Export

variable {α β : Type} {output : Path}

/-- Whether an export makes nothing outside a directory. -/
def StaysIn (exported : Export α) (output : Path) : Prop :=
  ∀ action ∈ exported.actions, action.StaysIn output

namespace StaysIn

/-- An export that makes nothing. -/
theorem of_nil {exported : Export α} (h : exported.actions = []) : exported.StaysIn output := by
  intro action hmem
  rw [h] at hmem
  exact nomatch hmem

theorem bind {first : Export α} {next : α → Export β} (h : first.StaysIn output)
    (hnext : ∀ value, (next value).StaysIn output) : (first >>= next).StaysIn output := by
  intro action hmem
  by_cases hresult : ∃ value, first.result = .ok value
  · obtain ⟨value, hvalue⟩ := hresult
    rw [bind_of_ok next hvalue] at hmem
    exact (List.mem_append.mp hmem).elim (h action) (hnext value action)
  · rw [actions_bind_of_ne_ok next hresult] at hmem
    exact h action hmem

theorem forM {items : List α} {exported : α → Export PUnit}
    (h : ∀ item ∈ items, (exported item).StaysIn output) :
    (items.forM exported).StaysIn output := by
  induction items with
  | nil => exact of_nil rfl
  | cons item items ih =>
      obtain ⟨hitem, hitems⟩ := List.forall_mem_cons.mp h
      exact bind hitem fun _ => ih hitems

theorem act {action : Action} (h : action.StaysIn output) : (act action).StaysIn output := by
  intro other hmem
  rw [List.mem_singleton.mp hmem]
  exact h

theorem makeDirectory {path : Path} (h : path.Below output) :
    (makeDirectory path).StaysIn output :=
  act fun _ hplace => (h.prefixes hplace).imp_right Path.Below.isWithin

theorem writeFile {path : Path} (h : path.Below output) (contents : Bytes) :
    (writeFile path contents).StaysIn output :=
  act h.isWithin

theorem report (message : String) : (report message).StaysIn output := act trivial

theorem writeAudio {path : Path} (h : path.Below output) (audio : Audio) :
    (writeAudio path audio).StaysIn output := writeFile h _

theorem writeConversion {path : Path} (h : path.Below output) (conversion : Conversion) :
    (writeConversion path conversion).StaysIn output :=
  bind (forM fun _ _ => report _) fun _ => writeFile h _

theorem attempt {exported : Export Unit} (h : exported.StaysIn output) (subject : String) :
    (attempt subject exported).StaysIn output := by
  rw [Export.attempt]
  split
  · exact h
  · intro action hmem
    rcases List.mem_append.mp hmem with hmem | hmem
    · exact h action hmem
    · rw [List.mem_singleton.mp hmem]
      exact trivial
  · exact h

end StaysIn

/-! ## Actions that are taken -/

theorem mem_actions_attempt {exported : Export Unit} {action : Action}
    (h : action ∈ exported.actions) (subject : String) :
    action ∈ (attempt subject exported).actions := by
  rw [attempt]
  split
  · exact h
  · exact List.mem_append_left _ h
  · exact h

/-- If everything succeeds, everything is done. -/
theorem mem_actions_forM {items : List α} {exported : α → Export PUnit}
    (h : ∀ item ∈ items, (exported item).result = .ok ⟨⟩) :
    ∀ item ∈ items, ∀ action ∈ (exported item).actions,
      action ∈ (items.forM exported).actions := by
  induction items with
  | nil => exact fun _ hmem => nomatch hmem
  | cons item items ih =>
      obtain ⟨hitem, hitems⟩ := List.forall_mem_cons.mp h
      have hcons : (item :: items).forM exported
          = ⟨(exported item).actions ++ (items.forM exported).actions,
            (items.forM exported).result⟩ := bind_of_ok _ hitem
      rw [hcons]
      refine List.forall_mem_cons.mpr ⟨?_, ?_⟩
      · exact fun action hmem => List.mem_append_left _ hmem
      · exact fun other hother action hmem =>
          List.mem_append_right _ (ih hitems other hother action hmem)

/-! ## Wave archives -/

theorem staysIn_extractWave {directory : Path} (h : directory.Below output) (decode : Bool)
    (index : Nat) (wave : Bytes) : (extractWave directory decode index wave).StaysIn output := by
  have hraw : s!"{index}.brwav" ≠ Path.parentName :=
    append_ne_parentName' _ 'w' (by decide) (by decide)
  have haudio : s!"{index}.wav" ≠ Path.parentName :=
    append_ne_parentName' _ 'w' (by decide) (by decide)
  rw [extractWave]
  split
  · exact .of_nil rfl
  · refine .bind (.writeFile (h.child hraw) wave) fun _ => ?_
    split
    · split
      · exact .writeAudio (h.child haudio) _
      · exact .report _
    · exact .of_nil rfl

theorem staysIn_extractWaves {directory : Path} (h : directory.Below output) (file : Bytes)
    (decode : Bool) : (extractWaves file directory decode).StaysIn output := by
  refine .bind (.of_nil rfl) fun archive => ?_
  refine .bind (.makeDirectory h) fun _ => ?_
  refine .forM fun (wave, index) _ => ?_
  exact .bind (.of_nil rfl) fun wave => staysIn_extractWave h decode index wave

end Export

/-! ## Groups -/

/-- Whether a group of an archive is extracted to a directory whose name leads back. -/
def Archive.LeadsBack (archive : Archive) (group : GroupInfo) : Prop :=
  group.isExternal = false ∧ group.items ≠ []
    ∧ archive.string? group.nameIndex = some Path.parentName

namespace ExtractRequest

open Export

variable {output directory : Path}

theorem staysIn_decodeWaveSounds (h : directory.Below output) (file waveData : Bytes) :
    (decodeWaveSounds file waveData directory).StaysIn output := by
  refine .bind (.of_nil rfl) fun sounds => ?_
  split
  · refine .bind (.makeDirectory h) fun _ => ?_
    refine .bind (.of_nil rfl) fun count => ?_
    refine .forM fun index _ => ?_
    refine .bind (.of_nil rfl) fun audio => ?_
    exact .writeAudio (h.child (append_ne_parentName' _ 'w' (by decide) (by decide))) _
  · exact .of_nil rfl

theorem staysIn_decodeItem (request : ExtractRequest) (h : directory.Below output)
    (file waveData : Bytes) : (request.decodeItem file waveData directory).StaysIn output := by
  rw [decodeItem]
  split
  · exact .bind (.of_nil rfl) fun soundFont => .writeFile (h.child (by decide)) _
  · exact .bind (.of_nil rfl) fun conversion => .writeConversion (h.child (by decide)) _
  · split
    · exact .of_nil rfl
    · exact staysIn_decodeWaveSounds (h.child (by decide)) file waveData
  · exact .of_nil rfl

theorem staysIn_extractItemWaves (request : ExtractRequest) (h : directory.Below output)
    (file waveData : Bytes) :
    (request.extractItemWaves file waveData directory).StaysIn output := by
  rw [extractItemWaves]
  split
  · refine .bind (.writeFile (h.child (by decide)) _) fun _ => ?_
    split
    · exact staysIn_extractWaves (h.child (by decide)) waveData _
    · exact .of_nil rfl
  · exact .of_nil rfl

theorem staysIn_extractItem (request : ExtractRequest) (h : directory.Below output)
    (archive : Archive) (group item : Nat) :
    (request.extractItem archive group item directory).StaysIn output := by
  refine .bind (.makeDirectory h) fun _ => ?_
  refine .bind (.of_nil rfl) fun file => ?_
  refine .bind (.of_nil rfl) fun waveData => ?_
  refine .bind (.writeFile (h.child ?_) file) fun _ => ?_
  · exact append_ne_parentName 'f' (by decide) (by decide) _
  extract_lets next
  have hnext : (next ()).StaysIn output := staysIn_extractItemWaves request h file waveData
  split
  · exact .bind (staysIn_decodeItem request h file waveData) fun _ => hnext
  · exact hnext

/-- The name of a group's directory leads back only if that is the name of the group. -/
theorem groupName_ne_parentName {archive : Archive} {group : GroupInfo}
    (h : archive.string? group.nameIndex ≠ some Path.parentName) :
    safeName ((archive.string? group.nameIndex).getD anonymousGroup) ≠ Path.parentName := by
  rw [Ne, safeName_eq_parentName_iff]
  cases hname : archive.string? group.nameIndex with
  | none => decide
  | some name =>
      rintro rfl
      exact h hname

theorem staysIn_extractGroup (request : ExtractRequest) {archive : Archive} {group : GroupInfo}
    (h : ¬archive.LeadsBack group) (index : Nat) :
    (request.extractGroup archive index group).StaysIn request.output := by
  rw [extractGroup]
  split
  · exact .of_nil rfl
  · next hexternal =>
      refine .forM fun item hitem => .attempt (staysIn_extractItem request (.child ?_ ?_) _ _ _) _
      · refine (Path.Below.refl _).child (groupName_ne_parentName fun hname => h ⟨?_, ?_, hname⟩)
        · exact Bool.not_eq_true _ ▸ hexternal
        · intro hitems
          rw [hitems] at hitem
          exact nomatch hitem
      · exact toString_ne_parentName item

/-! ## Sounds -/

theorem mem_extensionFor (file : Bytes) : 'b' ∈ (Container.extensionFor file).toList := by
  rw [Container.extensionFor]
  split
  · split
    · rw [String.toList_append]
      exact List.mem_append_left _ (by decide)
    · decide
  · decide

theorem staysIn_decodeSound (request : ExtractRequest) (sound : SoundInfo) (file : Bytes)
    (name : String) : (request.decodeSound sound file name).StaysIn request.output := by
  rw [decodeSound]
  split
  · refine .bind (.of_nil rfl) fun conversion => ?_
    refine .writeConversion ((Path.Below.refl _).child ?_) _
    exact append_ne_parentName' _ 'm' (by decide) (by decide)
  · exact .of_nil rfl

theorem staysIn_extractSound (request : ExtractRequest) (archive : Archive) (sound : SoundInfo) :
    (request.extractSound archive sound).StaysIn request.output := by
  rw [extractSound]
  split
  · exact .of_nil rfl
  · refine .attempt (.bind (.of_nil rfl) fun file => ?_) _
    refine .bind (.writeFile ((Path.Below.refl _).child ?_) file) fun _ => ?_
    · exact append_ne_parentName' _ 'b' (mem_extensionFor file) (by decide)
    split
    · exact staysIn_decodeSound request sound file _
    · exact .of_nil rfl

theorem staysIn_extractSounds (request : ExtractRequest) (archive : Archive) :
    (request.extractSounds archive).StaysIn request.output := by
  refine .bind (.makeDirectory (Path.Below.refl _)) fun _ => ?_
  exact .forM fun sound _ => staysIn_extractSound request archive sound

/-! ## The whole file -/

/-- Extraction stays inside if no group that it extracts leads back. -/
theorem staysIn_extract (request : ExtractRequest) {file : Bytes}
    (h : ∀ archive, Container.Kind.detect? file = some .archive → Archive.read file = .ok archive →
      ∀ group ∈ archive.groups, ¬archive.LeadsBack group) :
    (request.extract file).StaysIn request.output := by
  rw [extract]
  split
  · next hkind =>
      cases hread : Archive.read file with
      | error error => exact .of_nil rfl
      | ok archive =>
          cases request.style with
          | groups =>
              refine StaysIn.forM fun (group, index) hmem => ?_
              have hgroup : group ∈ archive.groups := List.fst_mem_of_mem_zipIdx hmem
              exact staysIn_extractGroup request (h archive hkind hread group hgroup) index
          | sounds => exact staysIn_extractSounds request archive
  · exact staysIn_extractWaves (Path.Below.refl _) file request.decode
  · exact .of_nil rfl

/-- The request that unpacks an archive by groups to a directory beside it. -/
def byGroups : ExtractRequest where
  input := "in"
  output? := some "out"
  style := .groups
  decode := false
  splitWaves := false
  mode := .retrigger

theorem output_byGroups : byGroups.output = ⟨false, ["out"]⟩ := by
  have hroot : "out".startsWith "/" = false := by decide +kernel
  have hsplit : "out".splitOn "/" = ["out"] := by
    rw [String.splitOn, if_neg (by decide)]
    -- one step for each of the three characters and one for the end
    iterate 4 unfold String.splitOnAux
    rfl
  show Path.ofString "out" = _
  rw [Path.ofString, hroot, hsplit]
  rfl

/-- Without decoding a group is extracted to its end. -/
theorem result_extractGroup {request : ExtractRequest} (h : request.decode = false)
    (archive : Archive) (index : Nat) (group : GroupInfo) :
    (request.extractGroup archive index group).result = .ok () := by
  rw [extractGroup]
  split
  · rfl
  · refine result_forM_eq_ok_iff.mpr fun item _ => ?_
    exact result_attempt_eq_ok_iff.mpr (ends_extractItem h archive index item _)

/-- Without decoding every item of a group that is extracted gets its directory. -/
theorem makeDirectory_mem_extractGroup {request : ExtractRequest} (h : request.decode = false)
    (archive : Archive) {group : GroupInfo} (hinternal : group.isExternal = false) (index : Nat)
    {item : Nat} (hitem : item < group.items.length) :
    Action.makeDirectory ((request.output.child
        (safeName ((archive.string? group.nameIndex).getD anonymousGroup))).child (toString item))
      ∈ (request.extractGroup archive index group).actions := by
  rw [extractGroup, hinternal]
  refine mem_actions_forM (fun item _ => ?_) item (List.mem_range.mpr hitem) _ ?_
  · exact result_attempt_eq_ok_iff.mpr (ends_extractItem h archive index item _)
  refine mem_actions_attempt ?_ _
  obtain ⟨more, hmore⟩ := exists_actions_bind (Export.makeDirectory _) _
  rw [extractItem, hmore]
  exact List.mem_append_left _ List.mem_cons_self

/-- From a group that leads back the first item gets a directory outside. -/
theorem not_staysIn_byGroups {file : Bytes} {archive : Archive} {group : GroupInfo}
    (hkind : Container.Kind.detect? file = some .archive) (hread : Archive.read file = .ok archive)
    (hgroup : group ∈ archive.groups) (h : archive.LeadsBack group) :
    ¬(byGroups.extract file).StaysIn byGroups.output := by
  have hmade :
      Action.makeDirectory ⟨false, ["out", "..", "0"]⟩ ∈ (byGroups.extract file).actions := by
    obtain ⟨hinternal, hitems, hname⟩ := h
    obtain ⟨index, hindex⟩ := List.mem_iff_getElem?.mp hgroup
    have hdecode : byGroups.decode = false := rfl
    have hdirectory := makeDirectory_mem_extractGroup hdecode archive hinternal index
      (List.length_pos_iff.mpr hitems)
    have hplace : (Path.child ⟨false, ["out"]⟩ (safeName Path.parentName)).child (toString 0)
        = ⟨false, ["out", "..", "0"]⟩ := by decide
    rw [hname, Option.getD_some, output_byGroups, hplace] at hdirectory
    rw [extract, hkind, hread]
    exact mem_actions_forM (fun entry _ => result_extractGroup hdecode archive _ _) (group, index)
      (List.mk_mem_zipIdx_iff_getElem?.mpr hindex) _ hdirectory
  intro hstays
  have hplace := hstays _ hmade ⟨false, ["out", "..", "0"]⟩ (by decide)
  rw [output_byGroups] at hplace
  rcases hplace with hprefix | ⟨-, names, -, hnames⟩
  · exact absurd hprefix (by decide)
  · have hstraight : Path.straight ⟨false, ["out", "..", "0"]⟩ = ["0"] := by decide
    rw [hstraight] at hnames
    exact absurd (List.cons.inj hnames).1 (by decide)

end ExtractRequest

/-- **Extraction stays inside its output directory exactly if no group leads back.** For
every file, whatever is asked for: nothing is made outside but the directories that lead to
the output directory, unless an archive has a group with items that is named like the
directory above. -/
theorem extract_staysIn_iff (file : Bytes) :
    (∀ request : ExtractRequest, ∀ action ∈ (request.extract file).actions,
        action.StaysIn request.output)
      ↔ ∀ archive, Container.Kind.detect? file = some .archive → Archive.read file = .ok archive →
        ∀ group ∈ archive.groups, ¬archive.LeadsBack group := by
  constructor
  · intro hstays archive hkind hread group hgroup hback
    exact ExtractRequest.not_staysIn_byGroups hkind hread hgroup hback
      (hstays ExtractRequest.byGroups)
  · exact fun h request => request.staysIn_extract h

/-- An archive with one group, named like the directory above, and one item in it. -/
def Archive.parentGroup : Bytes :=
  #[0x52, 0x53, 0x41, 0x52, 0xfe, 0xff, 0x01, 0x04, 0x00, 0x00, 0x00, 0xe0, 0x00, 0x20, 0x00, 0x02,
    0x00, 0x00, 0x00, 0x20, 0x00, 0x00, 0x00, 0x30, 0x00, 0x00, 0x00, 0x50, 0x00, 0x00, 0x00, 0x8c,
    0x53, 0x59, 0x4d, 0x42, 0x00, 0x00, 0x00, 0x30, 0x00, 0x00, 0x00, 0x14, 0x00, 0x00, 0x00, 0x1c,
    0x00, 0x00, 0x00, 0x1c, 0x00, 0x00, 0x00, 0x1c, 0x00, 0x00, 0x00, 0x1c, 0x00, 0x00, 0x00, 0x01,
    0x00, 0x00, 0x00, 0x24, 0x00, 0x00, 0x00, 0x00, 0x00, 0x00, 0x00, 0x00, 0x2e, 0x2e, 0x00, 0x00,
    0x49, 0x4e, 0x46, 0x4f, 0x00, 0x00, 0x00, 0x8c, 0x00, 0x00, 0x00, 0x00, 0x00, 0x00, 0x00, 0x00,
    0x00, 0x00, 0x00, 0x00, 0x00, 0x00, 0x00, 0x00, 0x00, 0x00, 0x00, 0x00, 0x00, 0x00, 0x00, 0x00,
    0x00, 0x00, 0x00, 0x00, 0x00, 0x00, 0x00, 0x00, 0x01, 0x00, 0x00, 0x00, 0x00, 0x00, 0x00, 0x30,
    0x00, 0x00, 0x00, 0x00, 0x00, 0x00, 0x00, 0x00, 0x00, 0x00, 0x00, 0x01, 0x01, 0x00, 0x00, 0x00,
    0x00, 0x00, 0x00, 0x3c, 0x00, 0x00, 0x00, 0x00, 0x00, 0x00, 0x00, 0x00, 0x00, 0x00, 0x00, 0x00,
    0x00, 0x00, 0x00, 0x00, 0x00, 0x00, 0x00, 0xdc, 0x00, 0x00, 0x00, 0x04, 0x00, 0x00, 0x00, 0xdc,
    0x00, 0x00, 0x00, 0x00, 0x01, 0x00, 0x00, 0x00, 0x00, 0x00, 0x00, 0x64, 0x00, 0x00, 0x00, 0x01,
    0x01, 0x00, 0x00, 0x00, 0x00, 0x00, 0x00, 0x70, 0x00, 0x00, 0x00, 0x00, 0x00, 0x00, 0x00, 0x00,
    0x00, 0x00, 0x00, 0x04, 0x00, 0x00, 0x00, 0x00, 0x00, 0x00, 0x00, 0x00, 0x00, 0x00, 0x00, 0x00]

/-- The item of that group is written to a directory outside. -/
theorem not_staysIn_parentGroup :
    ¬∀ request : ExtractRequest, ∀ action ∈ (request.extract Archive.parentGroup).actions,
      action.StaysIn request.output := by
  intro hstays
  have hevaluated : (do
      let archive ← Archive.read Archive.parentGroup
      return archive.groups.map fun group : GroupInfo =>
        (group.isExternal, group.items.length, archive.string? group.nameIndex))
      = .ok [(false, 1, some "..")] := by
    decide +kernel
  obtain ⟨archive, hread, h⟩ := Checked.bind_eq_ok_iff.mp hevaluated
  obtain ⟨group, rest, hgroups, hgroup, -⟩ := List.map_eq_cons_iff.mp (Except.ok.inj h)
  obtain ⟨hinternal, hitem, hname⟩ : _ ∧ _ ∧ _ := by
    simpa only [Prod.mk.injEq] using hgroup
  have hkind : Container.Kind.detect? Archive.parentGroup = some .archive := by decide +kernel
  have hback : archive.LeadsBack group := by
    refine ⟨hinternal, ?_, hname⟩
    intro hitems
    rw [hitems] at hitem
    exact nomatch hitem
  have hmem : group ∈ archive.groups := hgroups ▸ List.mem_cons_self
  exact ExtractRequest.not_staysIn_byGroups hkind hread hmem hback (hstays ExtractRequest.byGroups)

end ConsoleSound

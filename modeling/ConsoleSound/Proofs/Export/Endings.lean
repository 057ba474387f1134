import ConsoleSound.Export.Extraction
import ConsoleSound.Proofs.Checked
import ConsoleSound.Proofs.Sequence.Opening
/-! # Exports that come to an end

Exports come to an end but for one thing: a sequence may open tracks for ever, and then its
conversion never does. An export that gets to such a conversion stays there. Nothing behind
it is done, and nobody is told, for it is no error. So a loop that tells of errors and goes on
does not go on behind it (`Export.result_attempt_eq_ok_iff`).

An item of an archive is extracted to its end unless decoding is asked for and its file is
such a sequence (`ExtractRequest.ends_extractItem_iff`). -/

namespace ConsoleSound

namespace Export

variable {α β : Type} {exported : Export Unit}

/-- Whether an export comes to an end. -/
def Ends (exported : Export α) : Prop := exported.result ≠ .endless

theorem ends_of_ok {exported : Export α} {value : α} (h : exported.result = .ok value) :
    exported.Ends := by
  rw [Ends, h]
  exact nofun

theorem ends_act (action : Action) : (act action).Ends := ends_of_ok rfl

/-- What always comes to an end still does when an export waits for it. -/
theorem ends_ofExcept (result : Except ExportError α) :
    (⟨[], .ofExcept result⟩ : Export α).Ends := by
  cases result with
  | ok value => exact nofun
  | error error => exact nofun

/-- One export after another comes to an end if the first does and, after a success, so does
the second. -/
theorem ends_bind_iff {first : Export α} {next : α → Export β} :
    (first >>= next).Ends
      ↔ first.Ends ∧ ∀ value, first.result = .ok value → (next value).Ends := by
  cases h : first.result with
  | ok value =>
      rw [bind_of_ok next h, and_iff_right (ends_of_ok h)]
      constructor
      · intro hends value' hvalue
        rw [← Outcome.ok.inj hvalue]
        exact hends
      · exact fun hnext => hnext value rfl
  | error error =>
      rw [bind_of_error next h, Ends, Ends, h]
      exact iff_of_true nofun ⟨nofun, nofun⟩
  | endless =>
      rw [bind_of_endless next h, Ends, Ends, h]
      exact iff_of_false (fun hends => hends rfl) fun hends => hends.1 rfl

theorem Ends.bind {first : Export α} {next : α → Export β} (h : first.Ends)
    (hnext : ∀ value, (next value).Ends) : (first >>= next).Ends :=
  ends_bind_iff.mpr ⟨h, fun value _ => hnext value⟩

/-- The result of a computation that an export lifts. -/
theorem result_liftM {checked : Except Error α} {value : α} :
    (liftM checked : Export α).result = .ok value ↔ checked = .ok value := by
  cases checked with
  | error error => exact iff_of_false nofun nofun
  | ok other =>
      constructor
      · intro h
        rw [Outcome.ok.inj h]
      · intro h
        rw [Except.ok.inj h]
        rfl

theorem ends_liftM_bind_iff {checked : Except Error α} {next : α → Export β} :
    ((liftM checked : Export α) >>= next).Ends
      ↔ ∀ value, checked = .ok value → (next value).Ends := by
  have hends : (liftM checked : Export α).Ends := ends_ofExcept _
  rw [ends_bind_iff, and_iff_right hends]
  simp only [result_liftM]

theorem ends_act_bind_iff {action : Action} {next : Unit → Export β} :
    (act action >>= next).Ends ↔ (next ()).Ends := by
  rw [ends_bind_iff, and_iff_right (ends_act action)]
  exact ⟨fun h => h () rfl, fun h _ _ => h⟩

/-! ## Loops -/

theorem Ends.forM {items : List α} {exported : α → Export PUnit}
    (h : ∀ item ∈ items, (exported item).Ends) : (items.forM exported).Ends := by
  induction items with
  | nil => exact ends_of_ok rfl
  | cons item items ih =>
      obtain ⟨hitem, hitems⟩ := List.forall_mem_cons.mp h
      exact hitem.bind fun _ => ih hitems

/-- A loop succeeds exactly if all its elements do. -/
theorem result_forM_eq_ok_iff {items : List α} {exported : α → Export PUnit} :
    (items.forM exported).result = .ok ⟨⟩ ↔ ∀ item ∈ items, (exported item).result = .ok ⟨⟩ := by
  induction items with
  | nil => exact iff_of_true rfl fun _ hmem => (nomatch hmem)
  | cons item items ih =>
      show (exported item >>= fun _ => items.forM exported).result = _ ↔ _
      rw [List.forall_mem_cons, ← ih]
      cases h : (exported item).result with
      | ok value => rw [bind_of_ok _ h, and_iff_right rfl]
      | error error =>
          rw [bind_of_error _ h]
          exact iff_of_false nofun fun hresult => nomatch hresult.1
      | endless =>
          rw [bind_of_endless _ h]
          exact iff_of_false nofun fun hresult => nomatch hresult.1

/-- An export that never fails succeeds exactly if it comes to an end. -/
theorem result_eq_ok_iff_ends (h : ∀ error, exported.result ≠ .error error) :
    exported.result = .ok () ↔ exported.Ends := by
  cases hresult : exported.result with
  | ok value => exact iff_of_true rfl (ends_of_ok hresult)
  | error error => exact absurd hresult (h error)
  | endless => exact iff_of_false nofun fun hends => hends hresult

theorem result_attempt_ne_error (subject : String) (exported : Export Unit) (error : ExportError) :
    (attempt subject exported).result ≠ .error error := by
  rw [attempt]
  split
  · next h =>
      rw [h]
      exact nofun
  · exact nofun
  · next h =>
      rw [h]
      exact nofun

theorem ends_attempt_iff {subject : String} :
    (attempt subject exported).Ends ↔ exported.Ends := by
  rw [attempt]
  split
  · exact Iff.rfl
  · next h =>
      rw [Ends, Ends, h]
      exact iff_of_true nofun nofun
  · exact Iff.rfl

/-- What is told of its errors goes on exactly behind exports that come to an end. -/
theorem result_attempt_eq_ok_iff {subject : String} :
    (attempt subject exported).result = .ok () ↔ exported.Ends := by
  rw [result_eq_ok_iff_ends (result_attempt_ne_error subject exported), ends_attempt_iff]

/-! ## What always comes to an end -/

theorem ends_writeConversion (path : Path) (conversion : Conversion) :
    (writeConversion path conversion).Ends :=
  .bind (.forM fun _ _ => ends_act _) fun _ => ends_act _

theorem ends_extractWave (directory : Path) (decode : Bool) (index : Nat) (wave : Bytes) :
    (extractWave directory decode index wave).Ends := by
  rw [extractWave]
  split
  · exact ends_of_ok rfl
  · refine .bind (ends_act _) fun _ => ?_
    split
    · split
      · exact ends_act _
      · exact ends_act _
    · exact ends_of_ok rfl

theorem ends_extractWaves (file : Bytes) (directory : Path) (decode : Bool) :
    (extractWaves file directory decode).Ends := by
  refine .bind (ends_ofExcept _) fun archive => ?_
  refine .bind (ends_act _) fun _ => .forM fun (wave, index) _ => ?_
  exact .bind (ends_ofExcept _) fun wave => ends_extractWave directory decode index wave

end Export

/-! ## Conversions without end -/

namespace Outcome

variable {ε α β : Type}

theorem ofOption_eq_endless_iff {result? : Option α} :
    ofOption result? = .endless ↔ result? = none := by
  cases result? with
  | none => exact iff_of_true rfl rfl
  | some value => exact iff_of_false nofun nofun

/-- Behind a check that always comes to an end, only what comes after it may not. -/
theorem bind_ofExcept_eq_endless_iff {wrap : ε → ExportError} {checked : Except ε α}
    {next : α → Outcome β} :
    (ofExcept (checked.mapError wrap)).bind next = .endless
      ↔ ∃ value, checked = .ok value ∧ next value = .endless := by
  cases checked with
  | error reason =>
      refine iff_of_false nofun ?_
      rintro ⟨value, hvalue, -⟩
      exact nomatch hvalue
  | ok value =>
      constructor
      · exact fun h => ⟨value, rfl, h⟩
      · rintro ⟨other, hother, h⟩
        rw [← Except.ok.inj hother] at h
        exact h

end Outcome

/-- The conversion of a sequence file never ends exactly if tracks are opened without end from
the place where it starts. -/
theorem convertSequenceFile_eq_endless_iff {file : Bytes} {label? : Option String}
    {start? : Option UInt32} {mode : NoteMode} :
    convertSequenceFile file label? start? mode = .endless
      ↔ ∃ sequence, SequenceFile.read file = .ok sequence
        ∧ ∃ converter, Converter.ofFile sequence label? = .ok converter
        ∧ Conversion.Endless converter.code (start?.getD converter.entry) := by
  refine Outcome.bind_ofExcept_eq_endless_iff.trans (exists_congr fun sequence => ?_)
  refine and_congr_right fun _ => ?_
  refine Outcome.bind_ofExcept_eq_endless_iff.trans (exists_congr fun converter => ?_)
  refine and_congr_right fun _ => ?_
  exact Outcome.ofOption_eq_endless_iff.trans Converter.convert?_eq_none_iff

/-- Whether a file is a sequence that opens tracks without end from its start. -/
def IsEndlessSequence (file : Bytes) : Prop :=
  Container.Kind.detect? file = some .sequence
    ∧ ∃ sequence, SequenceFile.read file = .ok sequence ∧ Conversion.Endless sequence.code 0

theorem convertSequenceFile_fromStart_eq_endless_iff {file : Bytes} {mode : NoteMode} :
    convertSequenceFile file none none mode = .endless
      ↔ ∃ sequence, SequenceFile.read file = .ok sequence
        ∧ Conversion.Endless sequence.code 0 := by
  rw [convertSequenceFile_eq_endless_iff]
  refine exists_congr fun sequence => and_congr_right fun _ => ?_
  constructor
  · rintro ⟨converter, hconverter, h⟩
    obtain rfl := Except.ok.inj hconverter
    exact h
  · exact fun h => ⟨.ofCode sequence.code, rfl, h⟩

namespace ExtractRequest

open Export

variable {request : ExtractRequest} {archive : Archive} {file waveData : Bytes} {directory : Path}

theorem ends_decodeWaveSounds (file waveData : Bytes) (directory : Path) :
    (decodeWaveSounds file waveData directory).Ends := by
  refine .bind (ends_ofExcept _) fun sounds => ?_
  split
  · refine .bind (ends_act _) fun _ => .bind (ends_ofExcept _) fun count => ?_
    exact .forM fun index _ => .bind (ends_ofExcept _) fun audio => ends_act _
  · exact ends_of_ok rfl

/-- What an item decodes to comes to an end unless it is a sequence that does not. -/
theorem ends_decodeItem_iff :
    (request.decodeItem file waveData directory).Ends ↔ ¬IsEndlessSequence file := by
  rw [decodeItem, IsEndlessSequence]
  split
  · next hkind =>
      rw [hkind]
      refine iff_of_true (.bind (ends_ofExcept _) fun soundFont => ends_act _) ?_
      exact fun h => nomatch h.1
  · next hkind =>
      rw [ends_bind_iff, hkind, and_iff_right rfl,
        ← @convertSequenceFile_fromStart_eq_endless_iff file request.mode]
      exact and_iff_left fun conversion _ => ends_writeConversion _ conversion
  · next hkind =>
      rw [hkind]
      refine iff_of_true ?_ fun h => nomatch h.1
      split
      · exact ends_of_ok rfl
      · exact ends_decodeWaveSounds file waveData _
  · next hsequence _ =>
      exact iff_of_true (ends_of_ok rfl) fun h => hsequence h.1

theorem ends_extractItemWaves (request : ExtractRequest) (file waveData : Bytes)
    (directory : Path) : (request.extractItemWaves file waveData directory).Ends := by
  rw [extractItemWaves]
  split
  · refine .bind (ends_act _) fun _ => ?_
    split
    · exact ends_extractWaves waveData _ _
    · exact ends_of_ok rfl
  · exact ends_of_ok rfl

/-- What is done of an item once its file is written: it is decoded if that is asked for, and
its wave data is extracted. -/
def finishItem (request : ExtractRequest) (file waveData : Bytes) (directory : Path) :
    Export Unit := do
  if request.decode then request.decodeItem file waveData directory
  request.extractItemWaves file waveData directory

theorem finishItem_of_decode (h : request.decode = true) :
    request.finishItem file waveData directory
      = request.decodeItem file waveData directory >>= fun _ =>
        request.extractItemWaves file waveData directory := by
  rw [finishItem, if_pos h]

theorem finishItem_of_decode_eq_false (h : request.decode = false) :
    request.finishItem file waveData directory
      = request.extractItemWaves file waveData directory := by
  rw [finishItem, h]
  rfl

theorem ends_finishItem_iff :
    (request.finishItem file waveData directory).Ends
      ↔ (request.decode = true → ¬IsEndlessSequence file) := by
  cases hdecode : request.decode with
  | false =>
      rw [finishItem_of_decode_eq_false hdecode]
      exact iff_of_true (ends_extractItemWaves request file waveData directory) nofun
  | true =>
      rw [finishItem_of_decode hdecode, ends_bind_iff, forall_prop_of_true rfl,
        ← @ends_decodeItem_iff request file waveData directory]
      exact and_iff_left fun _ _ => ends_extractItemWaves request file waveData directory

/-- **An item is extracted to its end** unless decoding is asked for and its file is a sequence
that opens tracks without end. -/
theorem ends_extractItem_iff {group item : Nat} :
    (request.extractItem archive group item directory).Ends
      ↔ (request.decode = true → ∀ file waveData, archive.groupFile group item = .ok file →
        archive.groupWaveData group item = .ok waveData → ¬IsEndlessSequence file) := by
  rw [extractItem, makeDirectory, ends_act_bind_iff, ends_liftM_bind_iff]
  constructor
  · intro h hdecode file waveData hfile hwaveData
    have hfileEnds := ends_liftM_bind_iff.mp (h file hfile) waveData hwaveData
    exact ends_finishItem_iff.mp (ends_act_bind_iff.mp hfileEnds) hdecode
  · intro h file hfile
    refine ends_liftM_bind_iff.mpr fun waveData hwaveData => ends_act_bind_iff.mpr ?_
    exact ends_finishItem_iff.mpr fun hdecode => h hdecode file waveData hfile hwaveData

/-- Without decoding the extraction of an item comes to an end. -/
theorem ends_extractItem (h : request.decode = false) (archive : Archive) (group item : Nat)
    (directory : Path) : (request.extractItem archive group item directory).Ends := by
  rw [ends_extractItem_iff, h]
  exact nofun

end ExtractRequest

end ConsoleSound

import Mathlib.Data.FinEnum
import Mathlib.Logic.Hydra
import ConsoleSound.Sequence.Conversion
import ConsoleSound.Proofs.Acyclic
import ConsoleSound.Proofs.Sequence.Course
/-! # When a conversion comes to an end

Every track ends by its own step limit, but a track may open others, and nothing
limits those. The tracks that a track opens start at places that only the code and its
own place decide (`openedOffsets_playTrack`), so the tracks of a conversion form a
tree over the relation `Opens`, and the queue walks through that tree.

The queue runs dry exactly if the tree is finite, which is to say that no place that is
reached from the entry opens itself, directly or through others
(`exists_convertWithin_iff`). `selfOpening` is code that never ends. What a conversion without
a limit gives is what it gives within some number of tracks, and it has no result if the
queue never runs dry (`Converter.convert?_eq_some_iff`). -/

namespace ConsoleSound

open Relation

/-- The places at which the tracks start that a track opens. -/
def opensFrom (code : Bytes) (offset : UInt32) : List UInt32 :=
  (Player.start code .retrigger Midi.defaultResolution ⟨0, 0, offset⟩).run.1.openedOffsets

/-- Whether a track at one place opens a track at another. -/
def Opens (code : Bytes) (opener opened : UInt32) : Prop := opened ∈ opensFrom code opener

/-- What a track opens does not hang on its player, its tick, the mode or the resolution. -/
theorem openedOffsets_playTrack (code : Bytes) (mode : NoteMode) (resolution : UInt16)
    (pending : PendingTrack) :
    (Player.start code mode resolution pending).run.1.openedOffsets
      = opensFrom code pending.offset := by
  have hstart : Player.SameCourse (Player.start code mode resolution pending)
      (Player.start code .retrigger Midi.defaultResolution ⟨0, 0, pending.offset⟩) :=
    ⟨rfl, rfl, rfl, rfl, rfl, rfl, rfl⟩
  exact (hstart.runFor stepLimit).1.opened

namespace Conversion

variable {converter : Converter} {conversion : Conversion}

/-- The places of the tracks that wait. -/
def waitingOffsets (conversion : Conversion) : List UInt32 :=
  conversion.queue.map PendingTrack.offset

/-- Whether the queue runs dry after some number of tracks. -/
def Drains (converter : Converter) (conversion : Conversion) : Prop :=
  ∃ count, (conversion.playAll converter count).queue = []

/-- Playing a track replaces it by the tracks that it opens, at the end of the queue. -/
theorem waitingOffsets_playNext {offset : UInt32} {rest : List UInt32}
    (h : conversion.waitingOffsets = offset :: rest) :
    (conversion.playNext converter).waitingOffsets
      = rest ++ opensFrom converter.code offset := by
  rw [waitingOffsets] at h
  cases hqueue : conversion.queue with
  | nil => rw [hqueue] at h; exact nomatch h
  | cons pending waiting =>
      rw [hqueue] at h
      obtain ⟨hoffset, hrest⟩ := List.cons.inj h
      have hopened := openedOffsets_playTrack converter.code converter.mode
        conversion.resolution pending
      simp only [waitingOffsets, playNext, hqueue, List.map_append]
      rw [hrest, ← hoffset, ← hopened]
      rfl

theorem playAll_of_empty (h : conversion.queue = []) (count : Nat) :
    conversion.playAll converter count = conversion := by
  cases count with
  | zero => rfl
  | succ count => simp [playAll, h]

theorem playAll_succ (count : Nat) :
    conversion.playAll converter (count + 1)
      = (conversion.playNext converter).playAll converter count := by
  cases hqueue : conversion.queue with
  | nil =>
      have hnext : conversion.playNext converter = conversion := by
        rw [playNext, hqueue]
      rw [hnext, playAll_of_empty hqueue, playAll_of_empty hqueue]
  | cons pending waiting => simp [playAll, hqueue]

theorem drains_of_empty (h : conversion.waitingOffsets = []) :
    conversion.Drains converter := ⟨0, List.map_eq_nil_iff.mp h⟩

theorem drains_of_playNext (h : (conversion.playNext converter).Drains converter) :
    conversion.Drains converter := by
  obtain ⟨count, hcount⟩ := h
  exact ⟨count + 1, by rw [playAll_succ]; exact hcount⟩

/-- Nothing is left to be played out of a queue that is empty. -/
theorem playOut?_of_empty (h : conversion.queue = []) :
    conversion.playOut? converter = some conversion := by
  rw [playOut?, h]
  rfl

theorem playOut?_playNext :
    (conversion.playNext converter).playOut? converter = conversion.playOut? converter := by
  cases hqueue : conversion.queue with
  | nil =>
      have hnext : conversion.playNext converter = conversion := by
        rw [playNext, hqueue]
      rw [hnext]
  | cons pending waiting =>
      conv_rhs => rw [playOut?]
      rw [hqueue]
      rfl

/-- A queue is played out to what is left after some number of tracks, with no track waiting. -/
theorem playOut?_eq_some_iff {result : Conversion} :
    conversion.playOut? converter = some result
      ↔ ∃ count, conversion.playAll converter count = result ∧ result.queue = [] := by
  constructor
  · intro h
    -- induction on the turns of the loop
    refine playOut?.partial_correctness converter (fun conversion result =>
      ∃ count, conversion.playAll converter count = result ∧ result.queue = [])
      ?_ conversion result h
    intro rest ih conversion result hresult
    split at hresult
    · next hempty =>
        obtain rfl := Option.some.inj hresult
        exact ⟨0, rfl, List.isEmpty_iff.mp hempty⟩
    · obtain ⟨count, hcount, hdry⟩ := ih _ _ hresult
      exact ⟨count + 1, by rw [playAll_succ]; exact hcount, hdry⟩
  · rintro ⟨count, rfl, hdry⟩
    induction count generalizing conversion with
    | zero => exact playOut?_of_empty hdry
    | succ count ih =>
        rw [playAll_succ] at hdry ⊢
        rw [← playOut?_playNext, ih hdry]

/-- Playing out has a result exactly if the queue runs dry. -/
theorem playOut?_isSome_iff :
    (conversion.playOut? converter).isSome ↔ conversion.Drains converter := by
  rw [Option.isSome_iff_exists]
  constructor
  · rintro ⟨result, hresult⟩
    obtain ⟨count, rfl, hdry⟩ := playOut?_eq_some_iff.mp hresult
    exact ⟨count, hdry⟩
  · rintro ⟨count, hdry⟩
    exact ⟨_, playOut?_eq_some_iff.mpr ⟨count, rfl, hdry⟩⟩

/-! ## Finite trees run dry -/

/-- If every opening at a known place descends a well-founded order to a known place, a
queue of known places runs dry. -/
theorem drains_of_wellFounded {below : UInt32 → UInt32 → Prop} (hwf : WellFounded below)
    (known : UInt32 → Prop)
    (hopens : ∀ opener opened, known opener → Opens converter.code opener opened →
      known opened ∧ below opened opener)
    (hknown : ∀ offset ∈ conversion.waitingOffsets, known offset) :
    conversion.Drains converter := by
  -- the multiset of waiting places loses one place and gains smaller ones
  have hmain : ∀ (waiting : Multiset UInt32) (conversion : Conversion),
      (conversion.waitingOffsets : Multiset UInt32) = waiting →
      (∀ offset ∈ conversion.waitingOffsets, known offset) → conversion.Drains converter := by
    intro waiting
    induction waiting using hwf.cutExpand.induction with
    | _ waiting ih =>
        intro conversion hwaiting hknown
        cases hoffsets : conversion.waitingOffsets with
        | nil => exact drains_of_empty hoffsets
        | cons offset rest =>
            rw [hoffsets] at hwaiting hknown
            have hnext : (conversion.playNext converter).waitingOffsets
                = rest ++ opensFrom converter.code offset := waitingOffsets_playNext hoffsets
            have hoffset : known offset := hknown offset List.mem_cons_self
            refine drains_of_playNext (ih _ ?_ _ rfl ?_)
            · refine ⟨opensFrom converter.code offset, offset, ?_, ?_⟩
              · intro opened hopened
                exact (hopens offset opened hoffset hopened).2
              · rw [hnext, ← hwaiting, ← Multiset.cons_coe, ← Multiset.coe_add,
                  ← Multiset.singleton_add]
                exact (add_comm _ _).trans (add_assoc _ _ _).symm
            · intro opened hopened
              rw [hnext] at hopened
              rcases List.mem_append.mp hopened with hrest | hnew
              · exact hknown opened (List.mem_cons_of_mem _ hrest)
              · exact (hopens offset opened hoffset hnew).1
  exact hmain _ conversion rfl hknown

/-! ## Endless trees do not -/

/-- Whether the tracks opened from a place come back to a place for ever. -/
def Endless (code : Bytes) (offset : UInt32) : Prop :=
  ∃ again, ReflTransGen (Opens code) offset again ∧ TransGen (Opens code) again again

/-- One of the places that an endless place opens is endless. -/
theorem Endless.opens {code : Bytes} {offset : UInt32} (h : Endless code offset) :
    ∃ opened, Opens code offset opened ∧ Endless code opened := by
  obtain ⟨again, hreach, hcycle⟩ := h
  rcases ReflTransGen.cases_head hreach with heq | ⟨opened, hopens, hrest⟩
  · -- the place is on the cycle itself, and so is the next one
    subst heq
    obtain ⟨opened, hopens, hrest⟩ := TransGen.head'_iff.mp hcycle
    exact ⟨opened, hopens, offset, hrest, hcycle⟩
  · exact ⟨opened, hopens, again, hrest, hcycle⟩

/-- While an endless place waits, an endless place waits after every track. -/
theorem endless_playNext (h : ∃ offset ∈ conversion.waitingOffsets, Endless converter.code offset) :
    ∃ offset ∈ (conversion.playNext converter).waitingOffsets,
      Endless converter.code offset := by
  obtain ⟨offset, hmem, hendless⟩ := h
  cases hoffsets : conversion.waitingOffsets with
  | nil => rw [hoffsets] at hmem; exact nomatch hmem
  | cons first rest =>
      rw [hoffsets] at hmem
      rw [waitingOffsets_playNext hoffsets]
      rcases List.mem_cons.mp hmem with hfirst | hrest
      · obtain ⟨opened, hopens, hopened⟩ := hendless.opens
        rw [hfirst] at hopens
        exact ⟨opened, List.mem_append_right _ hopens, hopened⟩
      · exact ⟨offset, List.mem_append_left _ hrest, hendless⟩

/-- A queue with an endless place never runs dry. -/
theorem not_drains_of_endless
    (h : ∃ offset ∈ conversion.waitingOffsets, Endless converter.code offset) :
    ¬ conversion.Drains converter := by
  rintro ⟨count, hcount⟩
  induction count generalizing conversion with
  | zero =>
      obtain ⟨offset, hmem, -⟩ := h
      have hempty : conversion.waitingOffsets = [] := List.map_eq_nil_iff.mpr hcount
      rw [hempty] at hmem
      exact nomatch hmem
  | succ count ih =>
      rw [playAll_succ] at hcount
      exact ih (endless_playNext h) hcount

/-- The queue of a conversion runs dry exactly if no place that the entry reaches opens
itself, directly or through others. -/
theorem drains_start_iff (converter : Converter) :
    (start converter).Drains converter ↔ ¬ Endless converter.code converter.entry := by
  constructor
  · intro hdrains hendless
    exact not_drains_of_endless ⟨converter.entry, List.mem_singleton_self _, hendless⟩ hdrains
  · intro hfinite
    have hacyclic : ∀ offset, ReflTransGen (Opens converter.code) converter.entry offset →
        ¬ TransGen (Opens converter.code) offset offset :=
      fun offset hreach hcycle => hfinite ⟨offset, hreach, hcycle⟩
    refine drains_of_wellFounded (wellFounded_of_acyclic hacyclic)
      (ReflTransGen (Opens converter.code) converter.entry) ?_ ?_
    · intro opener opened hreach hopens
      exact ⟨hreach.tail hopens, hreach, TransGen.single hopens⟩
    · intro offset hmem
      rw [List.mem_singleton.mp hmem]

end Conversion

/-- A conversion of a limited number of tracks gives a result if no track is left over. -/
theorem convertWithin_isSome (converter : Converter) (count : Nat) :
    (converter.convertWithin count).isSome
      ↔ ((Conversion.start converter).playAll converter count).queue = [] := by
  show (if ((Conversion.start converter).playAll converter count).queue.isEmpty then
      some ((Conversion.start converter).playAll converter count) else none).isSome ↔ _
  split
  · next hempty => simpa using hempty
  · next hwaiting => simpa using hwaiting

/-- A conversion comes to an end, whatever its mode and resolution, exactly if no place
that the entry reaches by opening tracks reaches itself again. -/
theorem exists_convertWithin_iff (converter : Converter) :
    (∃ count, (converter.convertWithin count).isSome)
      ↔ ∀ offset, ReflTransGen (Opens converter.code) converter.entry offset →
          ¬ TransGen (Opens converter.code) offset offset := by
  have hdrains : (∃ count, (converter.convertWithin count).isSome)
      ↔ (Conversion.start converter).Drains converter :=
    exists_congr fun count => convertWithin_isSome converter count
  rw [hdrains, Conversion.drains_start_iff]
  constructor
  · intro hfinite offset hreach hcycle
    exact hfinite ⟨offset, hreach, hcycle⟩
  · rintro hacyclic ⟨offset, hreach, hcycle⟩
    exact hacyclic offset hreach hcycle

/-! ## Conversions without a limit -/

/-- What a conversion gives is what it gives within some number of tracks. -/
theorem Converter.convert?_eq_some_iff {converter : Converter} {conversion : Conversion} :
    converter.convert? = some conversion
      ↔ ∃ count, converter.convertWithin count = some conversion := by
  rw [convert?, Conversion.playOut?_eq_some_iff]
  refine exists_congr fun count => ?_
  show _ ↔ (if ((Conversion.start converter).playAll converter count).queue.isEmpty then
    some ((Conversion.start converter).playAll converter count) else none) = some conversion
  rw [Option.ite_none_right_eq_some, Option.some_inj]
  constructor
  · rintro ⟨rfl, hdry⟩
    exact ⟨List.isEmpty_iff.mpr hdry, rfl⟩
  · rintro ⟨hempty, rfl⟩
    exact ⟨rfl, List.isEmpty_iff.mp hempty⟩

/-- A conversion has no result exactly if tracks are opened from its entry without end. -/
theorem Converter.convert?_eq_none_iff {converter : Converter} :
    converter.convert? = none ↔ Conversion.Endless converter.code converter.entry := by
  rw [← not_iff_not, ← Conversion.drains_start_iff, ← Conversion.playOut?_isSome_iff,
    Option.isSome_iff_ne_none]
  rfl

/-! ## Code that never ends -/

/-- A track that first of all opens a track at its own place never comes to an end. -/
theorem endless_of_opens_first {code : Bytes} {offset : UInt32} {player : UInt8} {next : Nat}
    (hread : Instruction.read code offset.toNat none
      = (.ok (.openTrack player offset, next), none)) :
    Conversion.Endless code offset := by
  have hstep : (Player.start code .retrigger Midi.defaultResolution ⟨0, 0, offset⟩).step
      = .next { Player.start code .retrigger Midi.defaultResolution ⟨0, 0, offset⟩ with
          offset := next, opened := #[⟨player, 0, offset⟩] } := by
    simp only [Player.step, Player.start, hread]
    rfl
  have hopens : Opens code offset offset := by
    -- what the first step opens stays opened until the end
    show offset ∈ (Player.runFor stepLimit _).1.openedOffsets
    rw [show stepLimit = (stepLimit - 1) + 1 from rfl, Player.runFor, hstep]
    exact Player.openedOffsets_runFor (by simp [Player.openedOffsets]) _
  exact ⟨offset, .refl, .single hopens⟩

/-- A track that opens itself, then repeats nothing for a while and ends. -/
def selfOpening : Bytes :=
  #[0x88, 0x00, 0x00, 0x00, 0x00, 0xd4, 0xff, 0xd4, 0xff, 0xd4, 0x07, 0xfc, 0xfc, 0xfc, 0xff]

/-- However many tracks are played, one is left over. -/
theorem convertWithin_selfOpening :
    ¬ ∃ count, ((Converter.ofCode selfOpening).convertWithin count).isSome := by
  rintro ⟨count, hcount⟩
  have hendless : Conversion.Endless selfOpening 0 :=
    endless_of_opens_first (show Instruction.read selfOpening 0 none
      = (.ok (.openTrack 0 0, 5), none) by decide)
  have hdrains : (Conversion.start (Converter.ofCode selfOpening)).Drains
      (Converter.ofCode selfOpening) :=
    ⟨count, (convertWithin_isSome (Converter.ofCode selfOpening) count).mp hcount⟩
  exact (Conversion.drains_start_iff (Converter.ofCode selfOpening)).mp hdrains hendless

end ConsoleSound

import ConsoleSound.Proofs.Sequence.Executing
/-! # The numbers of the tracks

A conversion numbers its tracks as it plays them. Track 0 starts at the entry; the others
are numbered as they are opened: first by the number of the track that opens them, then
by the order in which that track executes the instructions that open them, whether or not
it fails later. `Numbering` says so of a list of tracks without a queue, and at most one
list is such a numbering (`Numbering.unique`).

What a conversion has done after some tracks is told by `Played`: each track is the one
that its start makes, the tracks played and those that wait are numbered together, and
the resolution is the last one that any of them set. Playing a track preserves it
(`Played.playNext`), so when the queue has run dry the tracks of the conversion are those
of the numbering (`numbering_of_convertWithin`). -/

namespace ConsoleSound

namespace Converter

/-- The first track of a conversion. -/
def first (converter : Converter) : PendingTrack := ⟨0, 0, converter.entry⟩

/-- What comes of a track: its last state, and its error if it fails. -/
def play (converter : Converter) (pending : PendingTrack) : Player × Option SequenceError :=
  (Player.start converter.code converter.mode converter.resolution pending).run

/-- What a track executes. -/
def executions (converter : Converter) (pending : PendingTrack) : List Execution :=
  Player.executed stepLimit
    (Player.start converter.code converter.mode converter.resolution pending)

/-- The tracks that a track opens, in the order in which it executes what opens them. -/
def opens (converter : Converter) (pending : PendingTrack) : List PendingTrack :=
  (converter.executions pending).filterMap Execution.opened?

/-- The errors of some tracks that are numbered from zero. -/
def errorsOf (converter : Converter) (tracks : List PendingTrack) : List TrackError :=
  tracks.zipIdx.filterMap fun (pending, number) =>
    (converter.play pending).2.map fun error => ⟨number, pending.player, error⟩

theorem errorsOf_concat (converter : Converter) (tracks : List PendingTrack)
    (pending : PendingTrack) :
    converter.errorsOf (tracks ++ [pending])
      = converter.errorsOf tracks
        ++ ((converter.play pending).2.map fun error =>
            TrackError.mk tracks.length pending.player error).toList := by
  rw [errorsOf, errorsOf, List.zipIdx_append, List.filterMap_append, List.zipIdx_singleton,
    Nat.zero_add]
  rfl

/-- The tracks of a conversion by their numbers. -/
structure Numbering (converter : Converter) (tracks : List PendingTrack) : Prop where
  /-- The tracks are the first one and those that they open, in this order. -/
  inOrder : tracks = converter.first :: tracks.flatMap converter.opens
  /-- Every track but the first is opened by one with a lower number. -/
  openerFirst : ∀ number < tracks.length,
    number ≤ ((tracks.take number).flatMap converter.opens).length

variable {converter : Converter} {tracks other : List PendingTrack}

/-- The tracks up to a number are decided by those before it. -/
theorem Numbering.take_succ (h : converter.Numbering tracks) (number : Nat) :
    tracks.take (number + 1)
      = (converter.first :: (tracks.take number).flatMap converter.opens).take (number + 1) := by
  rcases Nat.lt_or_ge number tracks.length with hlt | hge
  · -- what the tracks from this one on open comes behind
    have hsplit : tracks = converter.first :: (tracks.take number).flatMap converter.opens
        ++ (tracks.drop number).flatMap converter.opens := by
      rw [List.cons_append, ← List.flatMap_append, List.take_append_drop]
      exact h.inOrder
    have hlength : number + 1
        ≤ (converter.first :: (tracks.take number).flatMap converter.opens).length :=
      Nat.succ_le_succ (h.openerFirst number hlt)
    calc tracks.take (number + 1)
        = (converter.first :: (tracks.take number).flatMap converter.opens
            ++ (tracks.drop number).flatMap converter.opens).take (number + 1) :=
          congrArg (List.take (number + 1)) hsplit
      _ = (converter.first :: (tracks.take number).flatMap converter.opens).take (number + 1) :=
          List.take_append_of_le_length hlength
  · rw [List.take_of_length_le hge, ← h.inOrder]

/-- **The tracks of a conversion can be numbered in one way at most.** -/
theorem Numbering.unique (h : converter.Numbering tracks) (h' : converter.Numbering other) :
    other = tracks := by
  have htake : ∀ number, other.take number = tracks.take number := by
    intro number
    induction number with
    | zero => rw [List.take_zero, List.take_zero]
    | succ number ih => rw [h.take_succ, h'.take_succ, ih]
  have hboth := htake (other.length + tracks.length)
  rw [List.take_of_length_le (Nat.le_add_right _ _),
    List.take_of_length_le (Nat.le_add_left _ _)] at hboth
  exact hboth

end Converter

namespace Conversion

variable {converter : Converter} {conversion : Conversion}

/-- A conversion that has played some tracks. -/
structure Played (converter : Converter) (conversion : Conversion) (played : List PendingTrack) :
    Prop where
  tracks : conversion.midi.tracks = played.map fun pending => (converter.play pending).1.track
  errors : conversion.errors.toList = converter.errorsOf played
  resolution : conversion.midi.resolution
    = resolutionAfter converter.resolution (played.flatMap converter.executions)
  /-- Those that wait come next, in the order in which they were opened. -/
  waiting : played ++ conversion.queue = converter.first :: played.flatMap converter.opens
  openerFirst : ∀ number < played.length,
    number ≤ ((played.take number).flatMap converter.opens).length

theorem played_start (converter : Converter) : (start converter).Played converter [] where
  tracks := rfl
  errors := rfl
  resolution := rfl
  waiting := rfl
  openerFirst := fun _ h => absurd h (Nat.not_lt_zero _)

/-- The next track is the one that its start makes, whatever the resolution has become. -/
theorem playNext_of_queue {pending : PendingTrack} {waiting : List PendingTrack}
    (h : conversion.queue = pending :: waiting) :
    conversion.playNext converter =
      { resolution := resolutionAfter conversion.resolution (converter.executions pending)
        tracks := conversion.tracks.push (converter.play pending).1.track
        errors := match (converter.play pending).2 with
          | some error => conversion.errors.push ⟨conversion.tracks.size, pending.player, error⟩
          | none => conversion.errors
        queue := waiting ++ converter.opens pending } := by
  have hrun := Player.runFor_withResolution stepLimit
    (Player.start converter.code converter.mode converter.resolution pending) conversion.resolution
  have hopened := Player.opened_runFor stepLimit
    (Player.start converter.code converter.mode converter.resolution pending)
  have hstart : (Player.start converter.code converter.mode conversion.resolution pending).run
      = ((converter.play pending).1.withResolution
          (resolutionAfter conversion.resolution (converter.executions pending)),
        (converter.play pending).2) := hrun
  have hqueue : (converter.play pending).1.opened.toList = converter.opens pending := hopened
  simp only [playNext, h, hstart, ← hqueue]
  rfl

/-- Playing a track numbers it behind those played before. -/
theorem Played.playNext {played : List PendingTrack} (h : conversion.Played converter played)
    {pending : PendingTrack} {waiting : List PendingTrack}
    (hqueue : conversion.queue = pending :: waiting) :
    (conversion.playNext converter).Played converter (played ++ [pending]) := by
  have hsize : conversion.tracks.size = played.length := by
    have hlength := congrArg List.length h.tracks
    simpa [midi] using hlength
  have hwaiting := h.waiting
  rw [hqueue] at hwaiting
  rw [playNext_of_queue hqueue]
  refine ⟨?_, ?_, ?_, ?_, ?_⟩
  · have htracks : conversion.tracks.toList
        = played.map fun pending => (converter.play pending).1.track := h.tracks
    simp [midi, htracks]
  · rw [Converter.errorsOf_concat, ← h.errors, ← hsize]
    cases (converter.play pending).2 with
    | none => exact (List.append_nil _).symm
    | some error => exact Array.toList_push
  · have hresolution : conversion.resolution
        = resolutionAfter converter.resolution (played.flatMap converter.executions) :=
      h.resolution
    rw [List.flatMap_append, List.flatMap_singleton, resolutionAfter_append, ← hresolution]
    rfl
  · rw [List.flatMap_append, List.flatMap_singleton, ← List.cons_append, ← hwaiting]
    simp
  · -- the new track waited behind the others, so what was opened reaches up to it
    intro number hnumber
    rw [List.length_append, List.length_singleton] at hnumber
    rcases Nat.lt_or_ge number played.length with hlt | hge
    · rw [List.take_append_of_le_length (Nat.le_of_lt hlt)]
      exact h.openerFirst number hlt
    · obtain rfl : number = played.length := by omega
      have hlength := congrArg List.length hwaiting
      rw [List.length_append, List.length_cons, List.length_cons] at hlength
      rw [List.take_left]
      omega

/-- A conversion that has played some tracks has, some tracks later, played more. -/
theorem Played.playAll {played : List PendingTrack} (h : conversion.Played converter played)
    (count : Nat) : ∃ more, (conversion.playAll converter count).Played converter more := by
  induction count generalizing conversion played with
  | zero => exact ⟨played, h⟩
  | succ count ih =>
      rw [Conversion.playAll]
      cases hqueue : conversion.queue with
      | nil => exact ⟨played, h⟩
      | cons pending waiting => exact ih (h.playNext hqueue)

/-- When no track waits any more, the tracks played are numbered. -/
theorem Played.numbering {played : List PendingTrack} (h : conversion.Played converter played)
    (hqueue : conversion.queue = []) : converter.Numbering played where
  inOrder := by
    have hwaiting := h.waiting
    rw [hqueue, List.append_nil] at hwaiting
    exact hwaiting
  openerFirst := h.openerFirst

end Conversion

/-- **Tracks are numbered as they are opened.** A conversion that comes to an end makes one
track for each track of its numbering, which is the only one: as many as were opened and one
more. Each is the track that its player, its start and its offset make; the errors are
those of the tracks that fail, by their numbers; and the resolution is the last one that an
instruction set, the tracks taken one after the other. -/
theorem numbering_of_convertWithin {converter : Converter} {count : Nat} {conversion : Conversion}
    (h : converter.convertWithin count = some conversion) :
    ∃ tracks, converter.Numbering tracks ∧ (∀ other, converter.Numbering other → other = tracks)
      ∧ conversion.midi.tracks.length = 1 + (tracks.flatMap converter.opens).length
      ∧ conversion.midi.tracks = tracks.map (fun pending => (converter.play pending).1.track)
      ∧ conversion.errors.toList = converter.errorsOf tracks
      ∧ conversion.midi.resolution
        = resolutionAfter converter.resolution (tracks.flatMap converter.executions) := by
  have hlast : (if ((Conversion.start converter).playAll converter count).queue.isEmpty then
      some ((Conversion.start converter).playAll converter count) else none) = some conversion := h
  split at hlast
  · next hempty =>
      obtain rfl := Option.some.inj hlast
      obtain ⟨tracks, hplayed⟩ := (Conversion.played_start converter).playAll count
      have hnumbering := hplayed.numbering (List.isEmpty_iff.mp hempty)
      refine ⟨tracks, hnumbering, fun other hother => hnumbering.unique hother, ?_,
        hplayed.tracks, hplayed.errors, hplayed.resolution⟩
      have hlength := congrArg List.length hnumbering.inOrder
      rw [List.length_cons] at hlength
      rw [hplayed.tracks, List.length_map]
      omega
  · exact nomatch hlast

/-- A track that opens two tracks; the one opened first opens another one and fails. -/
def failingOpener : Bytes :=
  #[0x80, 0x05, 0x88, 0x01, 0x00, 0x00, 0x10, 0xb0, 0x60, 0x88, 0x02, 0x00, 0x00, 0x18, 0xff, 0xff,
    0x80, 0x03, 0x88, 0x09, 0x00, 0x00, 0x18, 0xa3, 0xb0, 0x00, 0xff]

/-- The conversion comes to an end after four tracks. -/
theorem numbering_of_convertWithin_failingOpener :
    ∃ conversion, (Converter.ofCode failingOpener).convertWithin 4 = some conversion
      ∧ ∃ tracks, (Converter.ofCode failingOpener).Numbering tracks
        ∧ (∀ other, (Converter.ofCode failingOpener).Numbering other → other = tracks)
        ∧ conversion.midi.tracks.length
          = 1 + (tracks.flatMap (Converter.ofCode failingOpener).opens).length
        ∧ conversion.midi.tracks
          = tracks.map (fun pending => ((Converter.ofCode failingOpener).play pending).1.track)
        ∧ conversion.errors.toList = (Converter.ofCode failingOpener).errorsOf tracks
        ∧ conversion.midi.resolution
          = resolutionAfter (Converter.ofCode failingOpener).resolution
              (tracks.flatMap (Converter.ofCode failingOpener).executions) := by
  have hends : ((Converter.ofCode failingOpener).convertWithin 4).isSome := by
    decide +kernel
  obtain ⟨conversion, h⟩ := Option.isSome_iff_exists.mp hends
  exact ⟨conversion, h, numbering_of_convertWithin h⟩

-- what the failing track opened comes behind both tracks that were opened before it
example : (Converter.ofCode failingOpener).Numbering
    [⟨0, 0, 0⟩, ⟨1, 5, 0x10⟩, ⟨2, 5, 0x18⟩, ⟨9, 8, 0x18⟩] :=
  ⟨by decide +kernel, by decide +kernel⟩

end ConsoleSound

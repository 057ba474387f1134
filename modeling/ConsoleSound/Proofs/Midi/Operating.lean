import ConsoleSound.Proofs.Midi.Settled
/-! # Operations that keep pairs

Besides making calls one may let a track forget the note-offs at or before its cursor
(`Operation`). No operation forgets a note-off that lies ahead, which is all that could spoil the
order of a key: `Kept` says of one channel and one key that their notes are in order and none of
them is forgotten. Notes of the key keep it so (`Kept.addNote`, `Kept.addNoteContinuing`),
everything else leaves the key alone (`aside_apply`), and so it is kept however a track is
operated on (`kept_operate`). -/

namespace ConsoleSound.Midi

/-- What is done to a track: a call is made, or it forgets the note-offs that it has passed. -/
inductive Operation where
  | call (made : Call)
  | forgetPassed

/-- A track after an operation. -/
def Operation.apply (track : Track) : Operation → Track
  | call made => made.apply track
  | forgetPassed => track.forgetOffsUntil track.cursor

/-- What operations make of the empty track. -/
def Track.operate (operations : List Operation) : Track := operations.foldl Operation.apply .empty

/-- The channel and the key of the note that a call plays. -/
def Call.note? : Call → Option (UInt8 × UInt8)
  | note channel key _ _ | noteContinuing channel key _ _ => some (channelOf channel, key)
  | _ => none

/-- The channel and the key of the note that an operation plays. -/
def Operation.note? : Operation → Option (UInt8 × UInt8)
  | call made => made.note?
  | forgetPassed => none

namespace Track

variable {track after : Track} {channel key : UInt8}

/-! ## What is kept of a key -/

/-- The notes of a channel and a key are in order, and the track remembers the one that lies
ahead. -/
structure Kept (track : Track) (channel key : UInt8) : Prop where
  inOrder : track.InOrder channel key
  remembered : ¬ track.Forgotten channel key

theorem kept_empty (channel key : UInt8) : empty.Kept channel key where
  inOrder := inOrder_start 0 channel key
  remembered := by
    rintro ⟨index, off, hoff, -⟩
    exact nomatch hoff

/-- What leaves a key alone keeps it. -/
theorem Kept.aside (hkept : track.Kept channel key) (h : Aside channel key track after) :
    after.Kept channel key where
  inOrder := h.inOrder_iff.mpr hkept.inOrder
  remembered := by
    rw [forgotten_iff]
    rintro ⟨index, off, hahead, hclosed⟩
    have hevent := h.made index off hahead.event hahead.isNoteOf
    have hlate : track.cursor < off.time := UInt32.lt_of_le_of_lt h.cursor hahead.ahead
    have hbefore : track.LiesAhead channel key index off :=
      ⟨hevent, hahead.channel, hahead.kind, hlate⟩
    exact hclosed (h.remembered index off hevent hahead.isNoteOf hlate
      (hbefore.mem_openOffs hkept.remembered))

theorem Kept.addNote (h : track.Kept (channelOf channel) key) (horderly : track.Orderly)
    (velocity : UInt8) (duration : UInt32) :
    (track.addNote channel key velocity duration).Kept (channelOf channel) key where
  inOrder :=
    (inOrder_addNote horderly channel key velocity duration).mpr ⟨h.inOrder, h.remembered⟩
  remembered := not_forgotten_addNote channel key velocity duration h.remembered

/-- An extended note moves a note-off that is open, or it is a new note. -/
theorem Kept.addNoteContinuing (h : track.Kept (channelOf channel) key)
    (horderly : track.Orderly) (velocity : UInt8) (duration : UInt32) :
    (track.addNoteContinuing channel key velocity duration).Kept (channelOf channel) key := by
  rcases track.addNoteContinuing_eq channel key velocity duration
    with ⟨index, off, hahead, heq⟩ | ⟨-, heq⟩
  · rw [heq]
    have hsettled := horderly.settled h.inOrder h.remembered
    exact ⟨(hsettled.moveEvent horderly hahead (le_addTicks track.cursor duration)).inOrder,
      not_forgotten_moveEvent hahead.event (hahead.mem_openOffs h.remembered) _ h.remembered⟩
  · rw [← channelOf_channelOf channel] at h ⊢
    rw [heq]
    exact h.addNote horderly velocity duration

/-! ## What an operation leaves alone -/

theorem MakesMessages.aside (h : track.MakesMessages after) (channel key : UInt8) :
    Aside channel key track after := by
  obtain ⟨events, hmessages, rfl⟩ := h
  exact aside_pushAll hmessages channel key

/-- Forgetting the note-offs that are passed forgets none that lies ahead. -/
theorem aside_forgetPassed (track : Track) (channel key : UInt8) :
    Aside channel key track (track.forgetOffsUntil track.cursor) where
  cursor := UInt32.le_refl _
  kept := fun _ _ hevent _ => hevent
  made := fun _ _ hevent _ => hevent
  closed := fun index hopen _ =>
    ((mem_openOffs_forgetOffsUntil track track.cursor index).mp hopen).1
  remembered := fun index event hevent _ hlate hopen =>
    (mem_openOffs_forgetOffsUntil track track.cursor index).mpr ⟨hopen, event, hevent, hlate⟩

/-- An operation leaves alone whatever it plays no note of. -/
theorem aside_apply (track : Track) {operation : Operation}
    (h : operation.note? ≠ some (channel, key)) :
    Aside channel key track (operation.apply track) := by
  cases operation with
  | forgetPassed => exact aside_forgetPassed track channel key
  | call made =>
      cases made with
      | note own other velocity duration =>
          refine track.aside_addNote_of_other own other velocity duration ?_
          rintro ⟨rfl, rfl⟩
          exact h rfl
      | noteContinuing own other velocity duration =>
          refine track.aside_addNoteContinuing own other velocity duration ?_
          rintro ⟨rfl, rfl⟩
          exact h rfl
      | advance ticks => exact ((makesMessages_refl track).aside channel key).advance ticks
      | controller own number value => exact (makesMessages_add track own rfl).aside channel key
      | program own number => exact (makesMessages_add track own rfl).aside channel key
      | pitchBend own bend => exact (makesMessages_add track own rfl).aside channel key
      | bendRange own semitones cents =>
          exact (makesMessages_addBendRange track own semitones cents).aside channel key
      | masterVolume volume => exact (makesMessages_add track 0 rfl).aside channel key
      | tempo micros => exact (makesMessages_add track 0 rfl).aside channel key
      | tempoBpm bpm => exact (makesMessages_addTempoBpm track bpm).aside channel key

/-! ## Operating on a track -/

theorem Built.operate (h : track.Built) (operation : Operation) :
    (operation.apply track).Built := by
  cases operation with
  | call made => exact h.apply made
  | forgetPassed =>
      refine ⟨⟨h.orderly.paired, h.orderly.started, ?_⟩, h.plain⟩
      intro index hopen
      exact h.orderly.lastOpen index ((mem_openOffs_forgetOffsUntil track _ index).mp hopen).1

/-- Every operation keeps every key. -/
theorem Kept.apply (h : track.Kept channel key) (horderly : track.Orderly)
    (operation : Operation) : (operation.apply track).Kept channel key := by
  by_cases hown : operation.note? = some (channel, key)
  · cases operation with
    | forgetPassed => exact nomatch hown
    | call made =>
        cases made with
        | note own other velocity duration =>
            obtain ⟨rfl, rfl⟩ := Prod.mk.inj (Option.some.inj hown)
            exact h.addNote horderly velocity duration
        | noteContinuing own other velocity duration =>
            obtain ⟨rfl, rfl⟩ := Prod.mk.inj (Option.some.inj hown)
            exact h.addNoteContinuing horderly velocity duration
        | _ => exact nomatch hown
  · exact h.aside (track.aside_apply hown)

/-- However a track is operated on, it is built and keeps every key. -/
theorem kept_operate (operations : List Operation) :
    (operate operations).Built ∧ ∀ channel key, (operate operations).Kept channel key := by
  suffices h : ∀ track : Track, track.Built → (∀ channel key, track.Kept channel key) →
      (operations.foldl Operation.apply track).Built
        ∧ ∀ channel key, (operations.foldl Operation.apply track).Kept channel key from
    h empty built_empty kept_empty
  induction operations with
  | nil => exact fun track hbuilt hkept => ⟨hbuilt, hkept⟩
  | cons operation operations ih =>
      intro track hbuilt hkept
      exact ih _ (hbuilt.operate operation) fun channel key =>
        (hkept channel key).apply hbuilt.orderly operation

/-- **Operations keep notes in pairs**: however notes, extended notes, steps of the cursor and
messages follow each other, and whenever the track forgets the note-offs that it has passed, the
note-ons and note-offs of a channel and a key alternate in the order of their ticks, at most one
note-off of them lies ahead, and one that does is open. -/
theorem operate_paired (operations : List Operation) (channel key : UInt8) :
    alternates (inTickOrder ((operate operations).events.toList.filter
        (Event.isNoteOf (channelOf channel) key))) = true
      ∧ (∀ (first second : Nat) (off off' : Event),
          (operate operations).LiesAhead (channelOf channel) key first off →
          (operate operations).LiesAhead (channelOf channel) key second off' → first = second)
      ∧ ∀ (index : Nat) (off : Event),
          (operate operations).LiesAhead (channelOf channel) key index off →
          index ∈ (operate operations).openOffs := by
  obtain ⟨hbuilt, hall⟩ := kept_operate operations
  have hkept := hall (channelOf channel) key
  have hsettled := hbuilt.orderly.settled hkept.inOrder hkept.remembered
  refine ⟨hbuilt.orderly.alternates hkept.inOrder, ?_, ?_⟩
  · intro first second off off' hfirst hsecond
    exact hsettled.unique hfirst hsecond
  · intro index off hahead
    exact hahead.mem_openOffs hkept.remembered

end Track

end ConsoleSound.Midi

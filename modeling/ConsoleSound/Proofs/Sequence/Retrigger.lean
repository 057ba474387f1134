import ConsoleSound.Proofs.Sequence.Writing
/-! # Notes that are struck again

In retrigger mode a note that still sounds is cut when its key is struck again, so the
notes of a key should alternate. A wait, however, makes the track forget all the
note-offs that lie ahead: it `Overhangs` a wait if it still sounds when the key is
struck again, and then nothing cuts it.

Seen from one key an instruction strikes it, waits, or leaves it alone (`Effect`). Along
a run, `sounding_origin` finds the note that still sounds and `struck_stays` says what
becomes of a note. Together they show that the notes of a key alternate exactly if none
overhangs a wait (`alternates_notesOf_iff`). -/

namespace ConsoleSound

open Midi (Track Event channelOf shiftKey addTicks alternates inTickOrder)

/-- The notes of a key in the order they were made. -/
def Midi.Track.notesOf (track : Track) (key : UInt8) : List Event :=
  track.events.toList.filter fun event => event.kind.key? = some key

/-- On one channel the notes of a key are those of the channel and the key. -/
theorem Midi.Track.notesOf_eq {track : Track} {channel : UInt8}
    (h : ∀ event ∈ track.events.toList, event.kind.key? ≠ none → event.channel = channel)
    (key : UInt8) :
    track.notesOf key = track.events.toList.filter (Event.isNoteOf channel key) := by
  refine List.filter_congr ?_
  intro event hmem
  show decide (event.kind.key? = some key)
    = (decide (event.channel = channel) && decide (event.kind.key? = some key))
  by_cases hkey : event.kind.key? = some key
  · have hchannel := h event hmem (by rw [hkey]; exact Option.some_ne_none key)
    simp [hkey, hchannel]
  · simp [hkey]

namespace Player

/-- Whether the next instruction strikes a key, for a number of ticks. -/
def Strikes (player : Player) (key : UInt8) (duration : UInt32) : Prop :=
  ∃ written velocity, player.instruction? = some (.note written velocity duration)
    ∧ shiftKey written player.transpose = key

/-- Whether the next instruction waits. -/
def Waits (player : Player) : Prop := ∃ ticks, player.instruction? = some (.wait ticks)

/-- Whether the track waits between two instructions. -/
def WaitsBetween (player : Player) (first second : Nat) : Prop :=
  ∃ between waiting, first < between ∧ between < second
    ∧ player.after between = some waiting ∧ waiting.Waits

/-- Whether a key is not struck between two instructions. -/
def RestsBetween (player : Player) (key : UInt8) (first second : Nat) : Prop :=
  ∀ between state, first < between → between < second → player.after between = some state →
    ∀ duration, ¬ state.Strikes key duration

/-- A note overhangs a wait if the key is struck at one instruction and for the next time
at another, the track waits in between, and the first note is not over by then. -/
def Overhangs (player : Player) (key : UInt8) (first second : Nat) : Prop :=
  ∃ striking restriking duration duration', first < second
    ∧ player.after first = some striking ∧ striking.Strikes key duration
    ∧ player.after second = some restriking ∧ restriking.Strikes key duration'
    ∧ player.RestsBetween key first second ∧ player.WaitsBetween first second
    ∧ restriking.track.cursor < addTicks striking.track.cursor duration

theorem Strikes.not_waits {player : Player} {key : UInt8} {duration : UInt32}
    (h : player.Strikes key duration) : ¬ player.Waits := by
  obtain ⟨written, velocity, hnote, -⟩ := h
  rintro ⟨ticks, hwait⟩
  rw [hnote] at hwait
  exact nomatch hwait

theorem Strikes.duration_unique {player : Player} {key : UInt8} {duration duration' : UInt32}
    (h : player.Strikes key duration) (h' : player.Strikes key duration') :
    duration = duration' := by
  obtain ⟨written, velocity, hnote, -⟩ := h
  obtain ⟨written', velocity', hnote', -⟩ := h'
  rw [hnote] at hnote'
  cases hnote'
  rfl

/-- A note strikes no key but its own. -/
theorem not_strikes_of_note {player : Player} {key written velocity : UInt8} {duration : UInt32}
    (h : player.instruction? = some (.note written velocity duration))
    (hother : shiftKey written player.transpose ≠ key) :
    ∀ duration, ¬ player.Strikes key duration := by
  rintro other ⟨written', velocity', hnote, hkey⟩
  rw [h] at hnote
  cases hnote
  exact hother hkey

/-- What plays no note strikes no key. -/
theorem not_strikes_of_silent {player : Player} {key : UInt8} {instruction : Instruction}
    (h : player.instruction? = some instruction) (hsilent : instruction.isSilent = true) :
    ∀ duration, ¬ player.Strikes key duration := by
  rintro duration ⟨written, velocity, hnote, -⟩
  rw [h] at hnote
  rw [Option.some.inj hnote] at hsilent
  exact Bool.false_ne_true hsilent

/-- A track that strikes a key goes on. -/
theorem Strikes.step {player : Player} {key : UInt8} {duration : UInt32}
    (h : player.Strikes key duration) : ∃ next, player.step = .next next := by
  obtain ⟨written, velocity, hnote, -⟩ := h
  obtain ⟨offset, register, hstep⟩ := step_of_instruction? hnote
  exact ⟨_, hstep⟩

/-! ## One instruction, one key -/

/-- What an instruction does to the notes of a key. -/
inductive Effect (player : Player) (key : UInt8) : Track → Prop where
  | strikes {velocity : UInt8} {duration ticks : UInt32} : player.Strikes key duration →
      Effect player key
        ((player.track.addNote player.channel key velocity duration).advance ticks)
  | waits {ticks : UInt32} : player.Waits →
      Effect player key (player.track.forgetOffs.advance ticks)
  | aside {after : Track} : (∀ duration, ¬ player.Strikes key duration) → ¬ player.Waits →
      Track.Aside (channelOf player.channel) key player.track after → Effect player key after

theorem effect_of_step {player next : Player} (h : player.step = .next next)
    (hmode : player.mode = .retrigger) (key : UInt8) : Effect player key next.track := by
  have hwrites := (writes_of_step h).1
  generalize next.track = after at hwrites ⊢
  cases hwrites with
  | @note written velocity duration hread =>
      obtain ⟨ticks, hticks⟩ :=
        exists_advance_eq player.noteWait (player.struck written velocity duration) duration
      rw [hticks, struck_retrigger hmode]
      by_cases hkey : shiftKey written player.transpose = key
      · rw [hkey]
        exact .strikes ⟨written, velocity, hread, hkey⟩
      · refine .aside (not_strikes_of_note hread hkey) ?_
          ((Track.aside_addNote _ _ _ _ _ (Ne.symm hkey)).advance ticks)
        rintro ⟨ticks', hread'⟩
        rw [hread] at hread'
        exact nomatch hread'
  | wait hread => exact .waits ⟨_, hread⟩
  | messages hread hsilent hmessages =>
      refine .aside (not_strikes_of_silent hread hsilent) ?_ (Track.aside_pushAll hmessages _ key)
      rintro ⟨ticks, hwait⟩
      rw [hread] at hwait
      rw [Option.some.inj hwait] at hsilent
      exact Bool.false_ne_true hsilent

/-! ## The invariant of a run -/

/-- A track that strikes notes again, on one channel. -/
structure Tuned (player : Player) : Prop where
  mode : player.mode = .retrigger
  orderly : player.track.Orderly
  oneChannel : ∀ event ∈ player.track.events.toList, event.kind.key? ≠ none →
    event.channel = channelOf player.channel

theorem tuned_start (code : Bytes) (resolution : UInt16) (pending : PendingTrack) :
    (start code .retrigger resolution pending).Tuned where
  mode := rfl
  orderly := Track.orderly_start pending.start
  oneChannel := fun _ hmem => nomatch hmem

/-- The new events of a note are on the channel of the note. -/
theorem channel_addNote {track : Track} {channel key velocity : UInt8} {duration : UInt32}
    (h : ∀ event ∈ track.events.toList, event.kind.key? ≠ none →
      event.channel = channelOf channel) :
    ∀ event ∈ (track.addNote channel key velocity duration).events.toList,
      event.kind.key? ≠ none → event.channel = channelOf channel := by
  intro event hmem hnote
  obtain ⟨index, hevent⟩ := List.getElem?_of_mem hmem
  rcases Track.getElem?_addNote track channel key velocity duration hevent
    with ⟨before, hbefore, heq⟩ | ⟨-, heq⟩ | ⟨-, heq⟩
  · rw [heq, Track.cutEvent_channel]
    rw [heq, Track.cutEvent_kind] at hnote
    exact h before (List.mem_of_getElem? hbefore) hnote
  · rw [heq, Track.newOn_channel]
  · rw [heq, Track.newOff_channel]

/-- Every instruction keeps a track tuned. -/
theorem Tuned.step {player next : Player} (h : player.Tuned) (hstep : player.step = .next next) :
    next.Tuned := by
  obtain ⟨hwrites, hchannel, hmode⟩ := writes_of_step hstep
  refine ⟨hmode.trans h.mode, ?_, ?_⟩
  · generalize next.track = after at hwrites ⊢
    cases hwrites with
    | note hread =>
        rw [struck_retrigger h.mode]
        split
        · exact (h.orderly.addNote _ _ _ _).advance _
        · exact h.orderly.addNote _ _ _ _
    | wait hread => exact h.orderly.forgetOffs.advance _
    | messages hread hsilent hmessages => exact h.orderly.pushAll hmessages
  · rw [hchannel]
    generalize next.track = after at hwrites ⊢
    cases hwrites with
    | note hread =>
        rw [struck_retrigger h.mode]
        split
        · exact channel_addNote h.oneChannel
        · exact channel_addNote h.oneChannel
    | wait hread => exact h.oneChannel
    | messages hread hsilent hmessages =>
        intro event hmem hkey
        rw [Track.toList_pushAll] at hmem
        rcases List.mem_append.mp hmem with hold | hnew
        · exact h.oneChannel event hold hkey
        · exact absurd (hmessages event hnew).1 hkey

variable {player : Player} {key : UInt8}

theorem Tuned.after (h : player.Tuned) {count : Nat} {last : Player}
    (hlast : player.after count = some last) : last.Tuned :=
  after_induction h (fun _ _ hbefore hstep => hbefore.step hstep) hlast

theorem channel_after {count : Nat} {last : Player} (hlast : player.after count = some last) :
    last.channel = player.channel :=
  after_induction (motive := fun last => last.channel = player.channel) rfl
    (fun _ _ hbefore hstep => (writes_of_step hstep).2.1.trans hbefore) hlast

theorem Tuned.notesOf_eq (h : player.Tuned) (key : UInt8) :
    player.track.notesOf key
      = player.track.events.toList.filter (Event.isNoteOf (channelOf player.channel) key) :=
  Track.notesOf_eq h.oneChannel key

/-! ## Runs -/

/-- Striking a key keeps its notes in order unless one of them is forgotten; nothing else
changes their order. -/
theorem inOrder_step {next : Player} (h : player.Tuned) (hstep : player.step = .next next)
    (key : UInt8) :
    next.track.InOrder (channelOf player.channel) key
      ↔ player.track.InOrder (channelOf player.channel) key
        ∧ ((∃ duration, player.Strikes key duration) →
            ¬ player.track.Forgotten (channelOf player.channel) key) := by
  have heffect := effect_of_step hstep h.mode key
  generalize next.track = after at heffect ⊢
  have hquiet : (∀ duration, ¬ player.Strikes key duration) →
      Track.SameNotes (channelOf player.channel) key player.track after →
      (after.InOrder (channelOf player.channel) key
        ↔ player.track.InOrder (channelOf player.channel) key
          ∧ ((∃ duration, player.Strikes key duration) →
              ¬ player.track.Forgotten (channelOf player.channel) key)) := by
    intro hrests hsame
    rw [hsame.inOrder_iff, and_iff_left]
    rintro ⟨duration, hstrikes⟩
    exact absurd hstrikes (hrests duration)
  cases heffect with
  | @strikes velocity duration ticks hstrikes =>
      refine (Track.inOrder_addNote h.orderly player.channel key velocity duration).trans ?_
      exact and_congr_right fun _ => ⟨fun hkept _ => hkept, fun hkept => hkept ⟨duration, hstrikes⟩⟩
  | waits hwaits =>
      exact hquiet (fun duration hstrikes => hstrikes.not_waits hwaits)
        (Track.sameNotes_wait player.track _ _ key)
  | aside hrests _ haside => exact hquiet hrests haside.toSameNotes

/-- The notes of a key are in order after some instructions if no note of the key was
forgotten whenever it was struck before. -/
theorem inOrder_after (h : player.Tuned)
    (hstart : player.track.InOrder (channelOf player.channel) key) {count : Nat} {last : Player}
    (hlast : player.after count = some last) :
    last.track.InOrder (channelOf player.channel) key
      ↔ ∀ earlier before duration, earlier < count → player.after earlier = some before →
          before.Strikes key duration →
          ¬ before.track.Forgotten (channelOf player.channel) key := by
  induction count generalizing last with
  | zero =>
      rw [← Option.some.inj hlast]
      exact ⟨fun _ earlier _ _ hlt => absurd hlt (Nat.not_lt_zero earlier), fun _ => hstart⟩
  | succ count ih =>
      obtain ⟨before, hbefore, hstep⟩ := after_succ.mp hlast
      have hnext := inOrder_step (h.after hbefore) hstep key
      rw [channel_after hbefore, ih hbefore] at hnext
      rw [hnext]
      -- what is asked of the earlier instructions and of the last one is asked of all
      constructor
      · rintro ⟨hearlier, hnow⟩ earlier state duration hlt hstate hstrikes
        rcases Nat.lt_or_ge earlier count with hlt' | hge
        · exact hearlier earlier state duration hlt' hstate hstrikes
        · obtain rfl : earlier = count := by omega
          rw [hbefore] at hstate
          obtain rfl := Option.some.inj hstate
          exact hnow ⟨duration, hstrikes⟩
      · intro hall
        refine ⟨?_, ?_⟩
        · intro earlier state duration hlt
          exact hall earlier state duration (by omega)
        · rintro ⟨duration, hstrikes⟩
          exact hall count before duration (by omega) hbefore hstrikes

/-! ## What becomes of a note -/

theorem RestsBetween.succ {first second : Nat} {before : Player}
    (h : player.RestsBetween key first second) (hbefore : player.after second = some before)
    (hrests : ∀ duration, ¬ before.Strikes key duration) :
    player.RestsBetween key first (second + 1) := by
  intro between state hfirst hsecond hstate
  rcases Nat.lt_or_ge between second with hlt | hge
  · exact h between state hfirst hlt hstate
  · obtain rfl : between = second := by omega
    rw [hbefore] at hstate
    rw [← Option.some.inj hstate]
    exact hrests

theorem WaitsBetween.succ {first second : Nat} (h : player.WaitsBetween first second) :
    player.WaitsBetween first (second + 1) := by
  obtain ⟨between, waiting, hfirst, hsecond, hstate, hwaits⟩ := h
  exact ⟨between, waiting, hfirst, by omega, hstate, hwaits⟩

/-- Where a note-off comes from that lies ahead of some state: its key was struck before
and not again since then, and the track remembers the note unless it has waited. -/
theorem sounding_origin (h : player.Tuned) (hempty : player.track.events = #[]) {count : Nat}
    {last : Player} (hlast : player.after count = some last)
    (hfree : ∀ first second, second < count → ¬ player.Overhangs key first second)
    {index : Nat} {off : Event} (hoff : last.track.events.toList[index]? = some off)
    (hchannel : off.channel = channelOf player.channel) (hkind : off.kind = .noteOff key)
    (hahead : last.track.cursor < off.time) :
    ∃ first striking duration, first < count ∧ player.after first = some striking
      ∧ striking.Strikes key duration ∧ off.time = addTicks striking.track.cursor duration
      ∧ player.RestsBetween key first count
      ∧ (index ∈ last.track.openOffs ∨ player.WaitsBetween first count) := by
  induction count generalizing last with
  | zero =>
      rw [← Option.some.inj hlast, hempty] at hoff
      cases hoff
  | succ count ih =>
      obtain ⟨before, hbefore, hstep⟩ := after_succ.mp hlast
      have heffect := effect_of_step hstep (h.after hbefore).mode key
      have hfree' : ∀ first second, second < count → ¬ player.Overhangs key first second :=
        fun first second hlt => hfree first second (by omega)
      have hnote : off.isNoteOf (channelOf player.channel) key = true :=
        Event.isNoteOf_iff.mpr ⟨hchannel, by rw [hkind]; rfl⟩
      generalize last.track = after at heffect hoff hahead ⊢
      cases heffect with
      | @strikes velocity duration ticks hstrikes =>
          rw [channel_after hbefore] at hoff hahead ⊢
          have hlate : before.track.cursor < off.time := by
            have hcursor := Track.cursor_addNote before.track player.channel key velocity duration
            refine UInt32.lt_of_le_of_lt ?_ hahead
            rw [← hcursor]
            exact Midi.le_addTicks _ ticks
          rcases Track.getElem?_addNote before.track player.channel key velocity duration hoff
            with ⟨off', hoff', heq⟩ | ⟨-, heq⟩ | ⟨hindex, heq⟩
          · -- an old note-off that lies ahead was not cut, so the note overhangs a wait
            have hsame : off = off' := by
              rcases Track.cutEvent_cases before.track (channelOf player.channel) key index off'
                with hsame | ⟨-, -, hmoved⟩
              · exact heq.trans hsame
              · rw [heq.trans hmoved] at hlate
                exact absurd (UInt32.le_refl _) (UInt32.not_le.mpr hlate)
            rw [← hsame] at hoff' heq
            obtain ⟨first, striking, duration', hlt, hfirst, hstrikes', htime, hrests, hopen⟩ :=
              ih hbefore hfree' hoff' hlate
            rcases hopen with hopen | hwaits
            · exfalso
              rw [Track.cutEvent_eq_moved _ hopen hlate hchannel hkind] at heq
              rw [heq] at hlate
              exact absurd (UInt32.le_refl _) (UInt32.not_le.mpr hlate)
            · rw [htime] at hlate
              exact absurd ⟨striking, before, duration', duration, hlt, hfirst, hstrikes', hbefore,
                hstrikes, hrests, hwaits, hlate⟩ (hfree first count (by omega))
          · rw [heq] at hkind
            cases hkind
          · refine ⟨count, before, duration, by omega, hbefore, hstrikes, by rw [heq]; rfl, ?_, ?_⟩
            · intro between state hfirst hsecond
              omega
            · exact Or.inl ((Track.mem_openOffs_addNote before.track player.channel key velocity
                duration index).mpr (Or.inr hindex))
      | @waits ticks hwaits =>
          -- whatever still sounds is forgotten now
          have hlate := UInt32.lt_of_le_of_lt (Midi.le_addTicks before.track.cursor ticks) hahead
          obtain ⟨first, striking, duration, hlt, hfirst, hstrikes, htime, hrests, -⟩ :=
            ih hbefore hfree' hoff hlate
          exact ⟨first, striking, duration, by omega, hfirst, hstrikes, htime,
            hrests.succ hbefore fun _ hstrikes' => hstrikes'.not_waits hwaits,
            Or.inr ⟨count, before, hlt, by omega, hbefore, hwaits⟩⟩
      | aside hrests' _ haside =>
          rw [channel_after hbefore] at haside
          have hoff' := haside.made index off hoff hnote
          have hlate := UInt32.lt_of_le_of_lt haside.cursor hahead
          obtain ⟨first, striking, duration, hlt, hfirst, hstrikes, htime, hrests, hopen⟩ :=
            ih hbefore hfree' hoff' hlate
          exact ⟨first, striking, duration, by omega, hfirst, hstrikes, htime,
            hrests.succ hbefore hrests',
            hopen.imp (haside.remembered index off hoff' hnote hlate) WaitsBetween.succ⟩

/-- What becomes of a note as long as its key rests: its note-off stays where it is, and
after a wait the track does not remember it. -/
theorem struck_stays (h : player.Tuned) {first count : Nat} {striking last : Player}
    {duration : UInt32} (hfirst : player.after first = some striking)
    (hstrikes : striking.Strikes key duration) (hlt : first < count)
    (hlast : player.after count = some last) (hrests : player.RestsBetween key first count) :
    last.track.events.toList[striking.track.events.size + 1]?
        = some (striking.track.newOff player.channel key duration)
      ∧ (player.WaitsBetween first count →
          striking.track.events.size + 1 ∉ last.track.openOffs) := by
  induction count generalizing last with
  | zero => exact absurd hlt (Nat.not_lt_zero first)
  | succ count ih =>
      obtain ⟨before, hbefore, hstep⟩ := after_succ.mp hlast
      have heffect := effect_of_step hstep (h.after hbefore).mode key
      generalize last.track = after at heffect ⊢
      rcases Nat.lt_or_ge first count with hearlier | hge
      · have hsilent := hrests count before hearlier (by omega) hbefore
        obtain ⟨hstays, hforgets⟩ := ih hearlier hbefore fun between state hlo hhi =>
          hrests between state hlo (by omega)
        cases heffect with
        | strikes hstrikes' => exact absurd hstrikes' (hsilent _)
        | waits hwaits => exact ⟨hstays, fun _ hopen => nomatch hopen⟩
        | aside _ hbusy haside =>
            rw [channel_after hbefore] at haside
            refine ⟨haside.kept _ _ hstays (Track.newOff_isNoteOf _ _ key duration), ?_⟩
            rintro ⟨between, waiting, hlo, hhi, hwaiting, hwaits⟩ hopen
            have hbetween : between ≠ count := by
              rintro rfl
              rw [hbefore] at hwaiting
              rw [← Option.some.inj hwaiting] at hwaits
              exact hbusy hwaits
            obtain ⟨hindex, -⟩ := List.getElem?_eq_some_iff.mp hstays
            exact hforgets ⟨between, waiting, hlo, by omega, hwaiting, hwaits⟩
              (haside.closed _ hopen (by simpa using hindex))
      · -- the instruction that strikes the note
        obtain rfl : first = count := by omega
        rw [hfirst] at hbefore
        obtain rfl := Option.some.inj hbefore
        cases heffect with
        | strikes hstrikes' =>
            obtain rfl := hstrikes.duration_unique hstrikes'
            rw [channel_after hfirst]
            refine ⟨?_, ?_⟩
            · show (Track.addNote _ _ _ _ _).events.toList[_]? = _
              rw [Track.events_addNote, List.getElem?_append_right (by simp)]
              simp
            · rintro ⟨between, waiting, hlo, hhi, -, -⟩
              omega
        | waits hwaits => exact absurd hwaits hstrikes.not_waits
        | aside hsilent _ _ => exact absurd hstrikes (hsilent duration)

end Player

/-- **A note is cut unless it overhangs a wait**: played in retrigger mode from any place
and any tick, the notes of a key alternate in the order of their ticks exactly if none
overhangs a wait. -/
theorem alternates_notesOf_iff (code : Bytes) (resolution : UInt16) (pending : PendingTrack)
    (key : UInt8) :
    alternates (inTickOrder
        ((Player.start code .retrigger resolution pending).run.1.track.notesOf key)) = true
      ↔ ∀ first second, second < stepLimit →
          ¬ (Player.start code .retrigger resolution pending).Overhangs key first second := by
  have htuned := Player.tuned_start code resolution pending
  have hempty : (Player.start code .retrigger resolution pending).track.events = #[] := rfl
  have hinOrder : ∀ channel key : UInt8,
      (Player.start code .retrigger resolution pending).track.InOrder channel key :=
    Track.inOrder_start pending.start
  generalize Player.start code .retrigger resolution pending = player at htuned hempty hinOrder ⊢
  obtain ⟨count, last, hle, hlast, hends⟩ := Player.runFor_last stepLimit player
  have hlastTuned := htuned.after hlast
  have hfinal : player.run.1.track = last.track := by
    obtain ⟨register, offset, heq⟩ := hends.eq_last
    rw [Player.run, heq]
  have hturn : Midi.InTurn (last.track.notesOf key) :=
    hlastTuned.orderly.paired.inTurn (fun _ key? => key? = some key) fun _ => rfl
  rw [hfinal, Midi.alternates_inTickOrder hturn, hlastTuned.notesOf_eq, Track.pairwise_notes_iff,
    Player.channel_after hlast, Player.inOrder_after htuned (hinOrder _ _) hlast]
  constructor
  · -- a note that overhangs a wait is forgotten when its key is struck again
    rintro hkept first second hlimit ⟨striking, restriking, duration, duration', hlt, hfirst,
      hstrikes, hsecond, hstrikes', hrests, hwaits, hlate⟩
    have hcount : second < count := by
      obtain ⟨next, hnext⟩ := hstrikes'.step
      exact hends.le_of_after hlast (Player.after_succ.mpr ⟨restriking, hsecond, hnext⟩) hlimit
    obtain ⟨hstays, hforgets⟩ := Player.struck_stays htuned hfirst hstrikes hlt hsecond hrests
    exact hkept second restriking duration' hcount hsecond hstrikes'
      ⟨_, _, hstays, Track.newOff_channel _ _ key duration, rfl, hlate, hforgets hwaits⟩
  · rintro hfree second restriking duration' hcount hsecond hstrikes'
      ⟨index, off, hoff, hchannel, hkind, hahead, hclosed⟩
    obtain ⟨first, striking, duration, hlt, hfirst, hstrikes, htime, hrests, hopen⟩ :=
      Player.sounding_origin htuned hempty hsecond
        (fun first second' hlt => hfree first second' (by omega)) hoff hchannel hkind hahead
    rw [htime] at hahead
    exact hfree first second (by omega) ⟨striking, restriking, duration, duration', hlt, hfirst,
      hstrikes, hsecond, hstrikes', hrests, hopen.resolve_left hclosed, hahead⟩

/-! ## A note that overhangs a wait -/

/-- A note of 32 ticks, a wait of 8, and the same note again. -/
def restruckAfterWait : Bytes := #[0x3c, 0x64, 0x20, 0x80, 0x08, 0x3c, 0x64, 0x20, 0xff]

/-- The second note starts before the first one ends. -/
theorem notesOf_restruckAfterWait :
    alternates (inTickOrder ((Player.start restruckAfterWait .retrigger Midi.defaultResolution
      ⟨0, 0, 0⟩).run.1.track.notesOf 60)) = false := by
  have hnotes : (Player.start restruckAfterWait .retrigger Midi.defaultResolution
      ⟨0, 0, 0⟩).run.1.track.notesOf 60
      = [Event.at 0 0 (.noteOn 60 100), Event.at 32 0 (.noteOff 60),
        Event.at 8 0 (.noteOn 60 100), Event.at 40 0 (.noteOff 60)] := by decide
  rw [hnotes, ← Bool.not_eq_true, Midi.alternates_inTickOrder
    (.note rfl rfl rfl (by decide) (.note rfl rfl rfl (by decide) .nil))]
  decide

end ConsoleSound

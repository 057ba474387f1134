import ConsoleSound.Proofs.Midi.Extending
import ConsoleSound.Proofs.Sequence.Invariants
import ConsoleSound.Proofs.Sequence.Retrigger
/-! # Notes that are extended

In continue mode a note of a key that sounds is not struck again; instead the one that sounds
is made to end when the new one is over (`movesEnd`). The notes of a key alternate then, for only
the last of them may lie ahead (`Continues`), and what a key sounds is what its last note says
(`Sustains`, `sounds_after`).

The new note may be over before the one that sounds, which then ends earlier than it was to
(`endsEarlier_iff`). All notes sound throughout, and none is made to end earlier, exactly if no
note ends before the one in front of it on its key (`Shortens`, `continuing_iff`). -/

namespace ConsoleSound

open Midi (Track Event SoundsAt addTicks alternates channelOf inTickOrder shiftKey)

namespace Player

/-- A key is struck at an instruction, to sound from one tick up to another. -/
def StrikesAt (player : Player) (key : UInt8) (place : Nat) (start ending : UInt32) : Prop :=
  ∃ striking duration, player.after place = some striking ∧ striking.Strikes key duration
    ∧ striking.track.cursor = start ∧ addTicks start duration = ending

/-- Among the notes of a key that some instructions strike, the last one that has started by a
tick is not over then. -/
def Sustains (player : Player) (key : UInt8) (count : Nat) (tick : UInt32) : Prop :=
  ∃ place start ending, place < count ∧ player.StrikesAt key place start ending
    ∧ start ≤ tick ∧ tick < ending
    ∧ ∀ later start' ending', place < later → later < count →
        player.StrikesAt key later start' ending' → tick < start'

/-- A note shortens the one in front of it on its key if it is over earlier. -/
def Shortens (player : Player) (key : UInt8) (first second : Nat) : Prop :=
  ∃ start ending start' ending', first < second ∧ player.StrikesAt key first start ending
    ∧ player.StrikesAt key second start' ending' ∧ player.RestsBetween key first second
    ∧ ending' < ending

/-- An instruction makes a key that sounds end earlier than it would have done. -/
def EndsEarlier (player : Player) (key : UInt8) (place : Nat) : Prop :=
  ∃ before next index off off', player.after place = some before ∧ before.step = .next next
    ∧ before.track.LiesAhead (channelOf before.channel) key index off
    ∧ next.track.events.toList[index]? = some off' ∧ off'.time < off.time

/-- A note of a key that sounds makes no event; what sounds is made to end when the note is
over. -/
def MovesEnd (player : Player) (key : UInt8) (place : Nat) : Prop :=
  ∀ before next index off start ending, player.after place = some before →
    before.step = .next next → before.track.LiesAhead (channelOf before.channel) key index off →
    player.StrikesAt key place start ending →
      next.track.events = (before.track.moveEvent ending index).events

/-- All notes of a key are heard as long as they say. -/
def SoundsThroughout (player : Player) (key : UInt8) : Prop :=
  ∀ place start ending tick, place < stepLimit → player.StrikesAt key place start ending →
    start ≤ tick → tick < ending → SoundsAt (inTickOrder (player.run.1.track.notesOf key)) tick

variable {player : Player} {key : UInt8} {place first second count : Nat}
  {start ending start' ending' tick : UInt32}

theorem StrikesAt.unique (h : player.StrikesAt key place start ending)
    (h' : player.StrikesAt key place start' ending') : start = start' ∧ ending = ending' := by
  obtain ⟨striking, duration, hplace, hstrikes, rfl, rfl⟩ := h
  obtain ⟨striking', duration', hplace', hstrikes', rfl, rfl⟩ := h'
  obtain rfl := Option.some.inj (hplace.symm.trans hplace')
  obtain rfl := hstrikes.duration_unique hstrikes'
  exact ⟨rfl, rfl⟩

/-- A key rests where it is not struck. -/
theorem restsBetween_iff :
    player.RestsBetween key first second
      ↔ ∀ between start ending, first < between → between < second →
          ¬ player.StrikesAt key between start ending := by
  constructor
  · rintro h between start ending hfirst hsecond ⟨state, duration, hstate, hstrikes, -⟩
    exact h between state hfirst hsecond hstate duration hstrikes
  · intro h between state hfirst hsecond hstate duration hstrikes
    exact h between _ _ hfirst hsecond ⟨state, duration, hstate, hstrikes, rfl, rfl⟩

/-- A note that a run strikes is struck before the run ends. -/
theorem StrikesAt.lt_of_ends (h : player.StrikesAt key place start ending) {steps : Nat}
    {last final : Player} (hends : Ends steps count last final)
    (hlast : player.after count = some last) (hplace : place < steps) : place < count := by
  obtain ⟨striking, duration, hstriking, hstrikes, -⟩ := h
  obtain ⟨next, hstep⟩ := hstrikes.step
  exact hends.le_of_after hlast (after_succ.mpr ⟨striking, hstriking, hstep⟩) hplace

/-! ## The note that sustains a key -/

/-- Instructions that do not strike a key change nothing. -/
theorem sustains_iff_of_le {count' : Nat} (hle : count ≤ count')
    (hstruck : ∀ place start ending, place < count' → player.StrikesAt key place start ending →
      place < count) :
    player.Sustains key count' tick ↔ player.Sustains key count tick := by
  constructor
  · rintro ⟨place, start, ending, hplace, hstrikes, hstarted, hends, hlast⟩
    exact ⟨place, start, ending, hstruck _ _ _ hplace hstrikes, hstrikes, hstarted, hends,
      fun later start' ending' hlater hlt => hlast later start' ending' hlater (by omega)⟩
  · rintro ⟨place, start, ending, hplace, hstrikes, hstarted, hends, hlast⟩
    exact ⟨place, start, ending, by omega, hstrikes, hstarted, hends,
      fun later start' ending' hlater hlt hlate =>
        hlast later start' ending' hlater (hstruck _ _ _ hlt hlate) hlate⟩

/-- An instruction that does not strike a key changes nothing. -/
theorem sustains_succ_of_rests (h : ∀ start ending, ¬ player.StrikesAt key count start ending) :
    player.Sustains key (count + 1) tick ↔ player.Sustains key count tick := by
  refine sustains_iff_of_le (Nat.le_succ count) ?_
  intro place start ending hplace hstrikes
  have hne : place ≠ count := by
    rintro rfl
    exact h start ending hstrikes
  omega

/-- From its start on, the last note decides. -/
theorem sustains_succ_of_strikesAt (h : player.StrikesAt key count start ending) :
    player.Sustains key (count + 1) tick
      ↔ tick < start ∧ player.Sustains key count tick ∨ start ≤ tick ∧ tick < ending := by
  constructor
  · rintro ⟨place, start', ending', hplace, hstrikes, hstarted, hends, hlast⟩
    rcases Nat.lt_or_ge place count with hlt | hge
    · exact .inl ⟨hlast count start ending hlt (by omega) h, place, start', ending', hlt,
        hstrikes, hstarted, hends,
        fun later start'' ending'' hlater hlt => hlast later start'' ending'' hlater (by omega)⟩
    · obtain rfl : place = count := by omega
      obtain ⟨rfl, rfl⟩ := h.unique hstrikes
      exact .inr ⟨hstarted, hends⟩
  · rintro (⟨hearly, place, start', ending', hplace, hstrikes, hstarted, hends, hlast⟩
      | ⟨hstarted, hends⟩)
    · refine ⟨place, start', ending', by omega, hstrikes, hstarted, hends, ?_⟩
      intro later start'' ending'' hlater hlt hlate
      rcases Nat.lt_or_ge later count with hlt' | hge
      · exact hlast later start'' ending'' hlater hlt' hlate
      · obtain rfl : later = count := by omega
        obtain ⟨rfl, -⟩ := h.unique hlate
        exact hearly
    · exact ⟨count, start, ending, by omega, h, hstarted, hends,
        fun later _ _ hlater hlt => by omega⟩

/-! ## The invariant of a run -/

/-- A player that extends notes on a channel: they are all settled. -/
structure Continues (channel : UInt8) (origin : UInt32) (player : Player) : Prop
    extends Plays channel origin player where
  ofSixteen : channelOf channel = channel
  mode : player.mode = .continueNote
  settled : ∀ key, player.track.Settled channel key

theorem continues_start (code : Bytes) (resolution : UInt16) (pending : PendingTrack) :
    (Player.start code .continueNote resolution pending).Continues (channelOf pending.player)
      pending.start where
  toPlays := plays_start code .continueNote resolution pending
  ofSixteen := Midi.channelOf_channelOf pending.player
  mode := rfl
  settled := fun key =>
    ⟨Track.inOrder_start pending.start _ key, fun _ _ hahead => nomatch hahead.event⟩

variable {channel : UInt8} {origin : UInt32}

theorem Continues.orderly (h : player.Continues channel origin) : player.track.Orderly :=
  h.composed.built.orderly

/-- An instruction extends a note of a key, or it leaves the notes of the key alone. -/
theorem Continues.extends_of_step (h : player.Continues channel origin) {next : Player}
    (hstep : player.step = .next next) (key : UInt8) :
    (∃ velocity duration ticks, player.Strikes key duration
        ∧ next.track
          = (player.track.addNoteContinuing channel key velocity duration).advance ticks)
      ∨ (∀ duration, ¬ player.Strikes key duration)
        ∧ Track.SameNotes channel key player.track next.track := by
  have hwrites := (writes_of_step hstep).1
  generalize next.track = after at hwrites ⊢
  cases hwrites with
  | @note written velocity duration hread =>
      obtain ⟨ticks, hticks⟩ :=
        exists_advance_eq player.noteWait (player.struck written velocity duration) duration
      rw [hticks, struck_continueNote h.mode, h.onChannel]
      by_cases hkey : shiftKey written player.transpose = key
      · rw [hkey]
        exact .inl ⟨velocity, duration, ticks, ⟨written, velocity, hread, hkey⟩, rfl⟩
      · have hother : ¬ (channel = channelOf channel
            ∧ key = shiftKey written player.transpose) := fun hsame => hkey hsame.2.symm
        exact .inr ⟨not_strikes_of_note hread hkey,
          ((Track.aside_addNoteContinuing _ _ _ _ _ hother).advance ticks).toSameNotes⟩
  | @wait ticks hread =>
      refine .inr ⟨?_, Track.sameNotes_wait player.track ticks _ key⟩
      intro duration hstrikes
      exact hstrikes.not_waits ⟨ticks, hread⟩
  | messages hread hsilent hmessages =>
      exact .inr ⟨not_strikes_of_silent hread hsilent,
        (Track.aside_pushAll hmessages _ key).toSameNotes⟩

/-- Every instruction keeps the notes settled. -/
theorem Continues.step {next : Player} (h : player.Continues channel origin)
    (hstep : player.step = .next next) : next.Continues channel origin := by
  have hplays := h.toPlays.step h.ofSixteen
  rw [hstep] at hplays
  refine ⟨hplays, h.ofSixteen, (writes_of_step hstep).2.2.trans h.mode, ?_⟩
  intro key
  rcases h.extends_of_step hstep key with ⟨velocity, duration, ticks, -, hnext⟩ | ⟨-, hsame⟩
  · have hsettled : player.track.Settled (channelOf channel) key := by
      rw [h.ofSixteen]
      exact h.settled key
    have hextended := hsettled.addNoteContinuing h.orderly velocity duration
    rw [h.ofSixteen] at hextended
    rw [hnext]
    exact (Track.sameNotes_advance _ ticks channel key).settled hextended
  · exact hsame.settled (h.settled key)

theorem Continues.after (h : player.Continues channel origin) {last : Player}
    (hlast : player.after count = some last) : last.Continues channel origin :=
  after_induction h (fun _ _ hbefore hstep => hbefore.step hstep) hlast

theorem Continues.notesOf_eq (h : player.Continues channel origin) (key : UInt8) :
    player.track.notesOf key
      = player.track.events.toList.filter (Event.isNoteOf channel key) := by
  refine Track.notesOf_eq ?_ key
  intro event hmem hkey
  rw [(h.composed.proper event hmem).channel]
  cases hkind : event.kind with
  | noteOn own velocity => rfl
  | noteOff own => rfl
  | _ => exact absurd (by rw [hkind]; rfl) hkey

/-- The cursor does not go back. -/
theorem Continues.cursor_le (h : player.Continues channel origin) {earlier later : Player}
    (hearlier : player.after place = some earlier) (hlater : player.after count = some later)
    (hle : place ≤ count) : earlier.track.cursor ≤ later.track.cursor := by
  induction count generalizing later with
  | zero =>
      obtain rfl := Nat.le_zero.mp hle
      rw [Option.some.inj (hearlier.symm.trans hlater)]
      exact UInt32.le_refl _
  | succ count ih =>
      rcases Nat.lt_or_ge count place with hlt | hge
      · obtain rfl : place = count + 1 := by omega
        rw [Option.some.inj (hearlier.symm.trans hlater)]
        exact UInt32.le_refl _
      · obtain ⟨before, hbefore, hstep⟩ := after_succ.mp hlater
        have hgrows := ((h.after hbefore).toPlays.grows h.ofSixteen).cursor
        rw [hstep] at hgrows
        exact UInt32.le_trans (ih hbefore hge) hgrows

/-- What was struck has started. -/
theorem Continues.start_le (h : player.Continues channel origin)
    (hstrikes : player.StrikesAt key place start ending) {last : Player}
    (hlast : player.after count = some last) (hle : place ≤ count) :
    start ≤ last.track.cursor := by
  obtain ⟨striking, duration, hplace, -, rfl, -⟩ := hstrikes
  exact h.cursor_le hplace hlast hle

/-! ## What sounds after some instructions -/

/-- **The last note decides**: after some instructions a key sounds at a tick exactly if the last
note that has started by then is not over. -/
theorem sounds_after (h : player.Continues channel origin) (hempty : player.track.events = #[])
    {last : Player} (hlast : player.after count = some last) :
    last.track.Sounds channel key tick ↔ player.Sustains key count tick := by
  induction count generalizing last with
  | zero =>
      obtain rfl := Option.some.inj hlast
      constructor
      · rintro ⟨index, on, off, hnote, -⟩
        have hfirst := hnote.first
        rw [hempty] at hfirst
        exact nomatch hfirst
      · rintro ⟨place, start, ending, hplace, -⟩
        exact absurd hplace (Nat.not_lt_zero place)
  | succ count ih =>
      obtain ⟨before, hbefore, hstep⟩ := after_succ.mp hlast
      have hcontinues := h.after hbefore
      rcases hcontinues.extends_of_step hstep key
        with ⟨velocity, duration, ticks, hstrikes, hnext⟩ | ⟨hrests, hsame⟩
      · have hstruck : player.StrikesAt key count before.track.cursor
            (addTicks before.track.cursor duration) :=
          ⟨before, duration, hbefore, hstrikes, rfl, rfl⟩
        have hsettled : before.track.Settled (channelOf channel) key := by
          rw [h.ofSixteen]
          exact hcontinues.settled key
        rw [sustains_succ_of_strikesAt hstruck, hnext, ← ih hbefore,
          (Track.sameNotes_advance _ ticks channel key).sounds_iff]
        have hsounds := Track.sounds_addNoteContinuing hsettled hcontinues.orderly velocity
          duration tick
        rw [h.ofSixteen] at hsounds
        exact hsounds
      · rw [hsame.sounds_iff, ih hbefore, sustains_succ_of_rests]
        rintro start ending ⟨striking, duration, hstriking, hstrikes, -⟩
        obtain rfl := Option.some.inj (hbefore.symm.trans hstriking)
        exact hrests duration hstrikes

/-- From the cursor on, it is the last note of all that sustains a key. -/
theorem Sustains.restsBetween (h : player.Sustains key count tick)
    (hcontinues : player.Continues channel origin) {last : Player}
    (hlast : player.after count = some last) (hlate : last.track.cursor ≤ tick) :
    ∃ place start ending, place < count ∧ player.StrikesAt key place start ending
      ∧ tick < ending ∧ player.RestsBetween key place count := by
  obtain ⟨place, start, ending, hplace, hstrikes, -, hends, hlater⟩ := h
  refine ⟨place, start, ending, hplace, hstrikes, hends, restsBetween_iff.mpr ?_⟩
  intro between start' ending' hfirst hsecond hbetween
  have hstarted := hcontinues.start_le hbetween hlast (Nat.le_of_lt hsecond)
  have htick := hlater between start' ending' hfirst hsecond hbetween
  exact UInt32.not_lt.mpr (UInt32.le_trans hstarted hlate) htick

/-! ## Notes that end earlier -/

/-- A note that is struck while another one sounds moves the end of that. -/
theorem movesEnd (h : player.Continues channel origin) (key : UInt8) (place : Nat) :
    player.MovesEnd key place := by
  rintro before next index off start ending hbefore hstep hahead
    ⟨striking, duration, hstriking, hstrikes, rfl, rfl⟩
  obtain rfl := Option.some.inj (hbefore.symm.trans hstriking)
  have hcontinues := h.after hbefore
  rw [hcontinues.onChannel, h.ofSixteen] at hahead
  rcases hcontinues.extends_of_step hstep key
    with ⟨velocity, duration', ticks, hstrikes', hnext⟩ | ⟨hsilent, -⟩
  · obtain rfl := hstrikes.duration_unique hstrikes'
    rcases before.track.addNoteContinuing_eq channel key velocity duration
      with ⟨index', moved, hmoved, heq⟩ | ⟨hquiet, -⟩
    · rw [h.ofSixteen] at hmoved
      obtain rfl := (hcontinues.settled key).unique hahead hmoved
      rw [hnext, heq]
      rfl
    · rw [h.ofSixteen] at hquiet
      exact absurd hahead (hquiet index off)
  · exact absurd hstrikes (hsilent duration)

/-- An instruction makes a key end earlier exactly if it plays a note that shortens the one in
front of it. -/
theorem endsEarlier_iff (h : player.Continues channel origin)
    (hempty : player.track.events = #[]) :
    player.EndsEarlier key second ↔ ∃ first, player.Shortens key first second := by
  constructor
  · rintro ⟨before, next, index, off, off', hbefore, hstep, hsounding, hafter, hearlier⟩
    have hcontinues := h.after hbefore
    have hahead := hsounding
    rw [hcontinues.onChannel, h.ofSixteen] at hahead
    rcases hcontinues.extends_of_step hstep key with ⟨-, duration, -, hstrikes, -⟩ | ⟨-, hsame⟩
    · have hstruck : player.StrikesAt key second before.track.cursor
          (addTicks before.track.cursor duration) :=
        ⟨before, duration, hbefore, hstrikes, rfl, rfl⟩
      rw [movesEnd h key second _ _ _ _ _ _ hbefore hstep hsounding hstruck,
        Track.getElem?_moveEvent_self hahead.event] at hafter
      obtain rfl := Option.some.inj hafter
      -- the key would have sounded at the tick at which the new note is over
      obtain ⟨index, on, rfl, hnote, hstarted⟩ := hahead.noteAt hcontinues.orderly
      have hlate : before.track.cursor ≤ addTicks before.track.cursor duration :=
        Midi.le_addTicks _ duration
      have hsustains := (sounds_after h hempty hbefore).mp
        ⟨index, on, off, hnote, UInt32.le_trans hstarted hlate, hearlier⟩
      obtain ⟨first, start, ending, hfirst, hlast, hends, hrests⟩ :=
        hsustains.restsBetween h hbefore hlate
      exact ⟨first, start, ending, _, _, hfirst, hlast, hstruck, hrests, hends⟩
    · have hkept := hsame.kept index off hahead.event hahead.isNoteOf
      rw [Option.some.inj (hkept.symm.trans hafter)] at hearlier
      exact absurd hearlier (UInt32.lt_irrefl _)
  · rintro ⟨first, start, ending, start', ending', hfirst, hlast, hstruck, hrests, hends⟩
    have hstruck' := hstruck
    obtain ⟨before, duration, hbefore, hstrikes, rfl, rfl⟩ := hstruck'
    have hcontinues := h.after hbefore
    have hlate : before.track.cursor ≤ addTicks before.track.cursor duration :=
      Midi.le_addTicks _ duration
    -- the key sounds at the tick at which the new note is over
    have hsustains : player.Sustains key second (addTicks before.track.cursor duration) := by
      refine ⟨first, start, ending, hfirst, hlast, ?_, hends, ?_⟩
      · exact UInt32.le_trans (h.start_le hlast hbefore (Nat.le_of_lt hfirst)) hlate
      · intro later start' ending' hlater hlt hbetween
        exact absurd hbetween (restsBetween_iff.mp hrests later start' ending' hlater hlt)
    obtain ⟨index, on, off, hnote, -, hover⟩ := (sounds_after h hempty hbefore).mpr hsustains
    have hahead := hnote.liesAhead (UInt32.lt_of_le_of_lt hlate hover)
    have hsounding : before.track.LiesAhead (channelOf before.channel) key (index + 1) off := by
      rw [hcontinues.onChannel, h.ofSixteen]
      exact hahead
    obtain ⟨next, hstep⟩ := hstrikes.step
    have hafter := Track.getElem?_moveEvent_self hahead.event
      (addTicks before.track.cursor duration)
    rw [← movesEnd h key second _ _ _ _ _ _ hbefore hstep hsounding hstruck] at hafter
    exact ⟨before, next, index + 1, off, _, hbefore, hstep, hsounding, hafter, hover⟩

/-- If no note shortens the one in front of it, a key is sustained wherever one of its notes is
to sound. -/
theorem sustains_of_strikesAt (h : player.Continues channel origin)
    (hnone : ∀ first second, second < count → ¬ player.Shortens key first second)
    {last : Player} (hlast : player.after count = some last) (hplace : place < count)
    (hstrikes : player.StrikesAt key place start ending) (hstarted : start ≤ tick)
    (hends : tick < ending) : player.Sustains key count tick := by
  induction count generalizing last with
  | zero => exact absurd hplace (Nat.not_lt_zero place)
  | succ count ih =>
      obtain ⟨before, hbefore, hstep⟩ := after_succ.mp hlast
      have hearlier : place < count → player.Sustains key count tick := fun hlt =>
        ih (fun first second hsecond => hnone first second (by omega)) hbefore hlt
      by_cases hstruck : ∃ start' ending', player.StrikesAt key count start' ending'
      · obtain ⟨start', ending', hstruck⟩ := hstruck
        rw [sustains_succ_of_strikesAt hstruck]
        rcases Nat.lt_or_ge place count with hlt | hge
        · rcases UInt32.lt_or_le tick start' with hearly | hlate
          · exact .inl ⟨hearly, hearlier hlt⟩
          · -- the note in front lasts beyond the tick, and the new one is over no earlier
            have hcursor : start' = before.track.cursor := by
              obtain ⟨striking, -, hstriking, -, rfl, -⟩ := hstruck
              rw [Option.some.inj (hstriking.symm.trans hbefore)]
            obtain ⟨first, start'', ending'', hfirst, hfront, hover, hrests⟩ :=
              (hearlier hlt).restsBetween h hbefore (hcursor ▸ hlate)
            have hle : ending'' ≤ ending' := UInt32.not_lt.mp fun hshort =>
              hnone first count (by omega) ⟨_, _, _, _, hfirst, hfront, hstruck, hrests, hshort⟩
            exact .inr ⟨hlate, UInt32.lt_of_lt_of_le hover hle⟩
        · obtain rfl : place = count := by omega
          obtain ⟨rfl, rfl⟩ := hstrikes.unique hstruck
          exact .inr ⟨hstarted, hends⟩
      · have hne : place ≠ count := by
          rintro rfl
          exact hstruck ⟨start, ending, hstrikes⟩
        rw [sustains_succ_of_rests fun start' ending' hstrikes' =>
          hstruck ⟨start', ending', hstrikes'⟩]
        exact hearlier (by omega)

end Player

open Player

/-- **A note is extended unless it is shortened**: played in continue mode from any place and any
tick, the notes of a key alternate in the order of their ticks, the key sounds exactly where the
last note that has started is not over, and a note that is struck while the key sounds moves the
end of what sounds. All notes of the key sound throughout and none is made to end earlier exactly
if none is over before the one in front of it. -/
theorem continuing_iff (code : Bytes) (resolution : UInt16) (pending : PendingTrack)
    (key : UInt8) :
    alternates (inTickOrder
        ((Player.start code .continueNote resolution pending).run.1.track.notesOf key)) = true
      ∧ (∀ tick, SoundsAt (inTickOrder
            ((Player.start code .continueNote resolution pending).run.1.track.notesOf key)) tick
          ↔ (Player.start code .continueNote resolution pending).Sustains key stepLimit tick)
      ∧ (∀ place, (Player.start code .continueNote resolution pending).MovesEnd key place)
      ∧ ((Player.start code .continueNote resolution pending).SoundsThroughout key
            ∧ (∀ place, place < stepLimit →
                ¬ (Player.start code .continueNote resolution pending).EndsEarlier key place)
          ↔ ∀ first second, second < stepLimit →
            ¬ (Player.start code .continueNote resolution pending).Shortens key first second) := by
  have hcontinues := continues_start code resolution pending
  have hempty : (Player.start code .continueNote resolution pending).track.events = #[] := rfl
  generalize Player.start code .continueNote resolution pending = player at hcontinues hempty ⊢
  obtain ⟨count, last, hle, hlast, hends⟩ := runFor_last stepLimit player
  have hlastContinues := hcontinues.after hlast
  have hsettled := hlastContinues.settled key
  have hfinal : player.run.1.track = last.track := by
    obtain ⟨register, offset, heq⟩ := hends.eq_last
    rw [Player.run, heq]
  have hsustains : ∀ tick, player.Sustains key stepLimit tick ↔ player.Sustains key count tick :=
    fun tick => sustains_iff_of_le hle fun place start ending hlimit hstrikes =>
      hstrikes.lt_of_ends hends hlast hlimit
  have hsounds : ∀ tick, SoundsAt (inTickOrder (player.run.1.track.notesOf key)) tick
      ↔ player.Sustains key stepLimit tick := by
    intro tick
    rw [hfinal, hlastContinues.notesOf_eq, hsustains,
      Track.soundsAt_iff hlastContinues.orderly hsettled.inOrder,
      sounds_after hcontinues hempty hlast]
  refine ⟨?_, hsounds, movesEnd hcontinues key, ?_, ?_⟩
  · rw [hfinal, hlastContinues.notesOf_eq]
    exact hlastContinues.orderly.alternates hsettled.inOrder
  · rintro ⟨-, hnever⟩ first second hlimit hshortens
    exact hnever second hlimit ((endsEarlier_iff hcontinues hempty).mpr ⟨first, hshortens⟩)
  · intro hnone
    refine ⟨?_, ?_⟩
    · intro place start ending tick hlimit hstrikes hstarted hover
      rw [hsounds, hsustains]
      exact sustains_of_strikesAt hcontinues (fun first second hlt => hnone first second (by omega))
        hlast (hstrikes.lt_of_ends hends hlast hlimit) hstrikes hstarted hover
    · intro place hlimit hearlier
      obtain ⟨first, hshortens⟩ := (endsEarlier_iff hcontinues hempty).mp hearlier
      exact hnone first place hlimit hshortens

/-! ## A note that shortens another -/

/-- A note of 48 ticks, a wait of 12, and the same note for 6 ticks. -/
def restruckBriefly : Bytes := #[0x3c, 0x64, 0x30, 0x80, 0x0c, 0x3c, 0x64, 0x06, 0xff]

/-- The first note is to sound up to tick 48, but it ends at tick 18. -/
theorem not_soundsThroughout_restruckBriefly :
    ¬ (Player.start restruckBriefly .continueNote Midi.defaultResolution
      ⟨0, 0, 0⟩).SoundsThroughout 60 := by
  intro h
  have hnotes : (Player.start restruckBriefly .continueNote Midi.defaultResolution
      ⟨0, 0, 0⟩).run.1.track.notesOf 60
      = [Event.at 0 0 (.noteOn 60 100), Event.at 18 0 (.noteOff 60)] := by decide +kernel
  have hstrikes : (Player.start restruckBriefly .continueNote Midi.defaultResolution
      ⟨0, 0, 0⟩).StrikesAt 60 0 0 48 := ⟨_, 48, rfl, ⟨60, 100, by decide, by decide⟩, rfl, rfl⟩
  obtain ⟨note, hmem, -, hends⟩ := h 0 0 48 18 (by decide) hstrikes (by decide) (by decide)
  rw [hnotes, inTickOrder, List.mergeSort_of_pairwise (by decide)] at hmem
  obtain rfl := List.mem_singleton.mp hmem
  exact absurd hends (by decide)

end ConsoleSound

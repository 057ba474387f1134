import ConsoleSound.Proofs.Sequence.Passages
/-! # Loops are played out, and calls stand for their subroutines

A track that reaches a passage plays its phrases one after the other, and comes out behind the
passage at the place it went in, with the same loops and calls open (`Passage.reaches`). What
it has played by then is told by the instructions of the phrases alone
(`Player.performAll`), for these are straight. So a passage and its unrolled form, which
have the same phrases, make the same music (`run_unrolled`). -/

namespace ConsoleSound

open Bytecode

namespace Player

/-! ## Runs in parts -/

/-- Whether a track gets from one state to another. -/
def Reaches (player last : Player) : Prop := ∃ count, player.after count = some last

theorem Reaches.refl (player : Player) : Reaches player player := ⟨0, rfl⟩

theorem Reaches.trans {first second third : Player} (h : Reaches first second)
    (h' : Reaches second third) : Reaches first third := by
  obtain ⟨count, hcount⟩ := h
  obtain ⟨more, hmore⟩ := h'
  exact ⟨count + more, after_add hcount hmore⟩

theorem Reaches.of_step {player next : Player} (h : player.step = .next next) :
    Reaches player next :=
  ⟨1, after_succ_of_next h 0⟩

/-- A run that is not cut short stops where the track does. -/
theorem runFor_of_reaches {player last final : Player} (h : Reaches player last)
    (hdone : last.step = .done final) {steps : Nat}
    (hlimit : (runFor steps player).2 ≠ some .tooManySteps) :
    runFor steps player = (final, none) := by
  obtain ⟨count, hcount⟩ := h
  rcases Nat.lt_or_ge count steps with hlt | hge
  · obtain ⟨more, rfl⟩ := Nat.exists_eq_add_of_lt hlt
    rw [Nat.add_assoc, runFor_of_after hcount, runFor, hdone]
  · obtain ⟨before, hbefore⟩ := after_le hcount hge
    have hcut := runFor_of_after hbefore 0
    rw [Nat.add_zero] at hcut
    exact absurd (congrArg Prod.snd hcut) hlimit

/-! ## Music -/

/-- The track after some straight instructions, wherever these stand. -/
def performAll (player : Player) (instructions : List Instruction) : Player :=
  instructions.foldl perform player

theorem performAll_append (player : Player) (first second : List Instruction) :
    player.performAll (first ++ second) = (player.performAll first).performAll second :=
  List.foldl_append

/-- What is read at a place is executed behind it. -/
theorem step_withPlace (player : Player) (place : Place) {instruction : Instruction} {next : Nat}
    {register : ArgumentRegister}
    (h : Instruction.read place.code place.offset place.register
      = (.ok (instruction, next), register)) :
    (player.withPlace place).step
      = (player.withPlace { place with offset := next, register }).execute place.offset
          instruction :=
  step_of_read h

/-- A straight instruction that is read is performed. -/
theorem reaches_straight (player : Player) (place : Place) {instruction : Instruction}
    {next : Nat} {register : ArgumentRegister}
    (h : Instruction.read place.code place.offset place.register
      = (.ok (instruction, next), register)) (hstraight : instruction.isStraight = true) :
    Reaches (player.withPlace place)
      ((player.perform instruction).withPlace { place with offset := next, register }) := by
  refine .of_step ?_
  rw [step_withPlace player place h]
  exact execute_straight hstraight player _ place.offset

end Player

/-- A place further on in the same code. -/
def Place.behind (place : Place) (part : List UInt8) : Place :=
  { place with offset := place.offset + part.length }

theorem Place.behind_append (place : Place) (first second : List UInt8) :
    place.behind (first ++ second) = (place.behind first).behind second := by
  simp only [behind, List.length_append, Nat.add_assoc]

/-- A modifier plays nothing. -/
theorem Modifier.perform_instruction (modifier : Modifier) (player : Player) :
    player.perform modifier.instruction = player := by
  cases modifier with
  | random => rfl
  | fromVariable => rfl

theorem Modifier.isStraight_instruction (modifier : Modifier) :
    modifier.instruction.isStraight = true := by
  cases modifier with
  | random => rfl
  | fromVariable => rfl

/-- A track that reads a phrase gets past its modifier to its instruction, and goes on from
behind the phrase. -/
theorem Phrase.reaches (phrase : Phrase) (player : Player) {place : Place}
    (hholds : Holds place.code place.offset phrase.bytes) (hregister : place.register = none) :
    ∃ before origin, (player.withPlace place).Reaches before
      ∧ before.step = (player.withPlace (place.behind phrase.bytes)).execute origin
          phrase.instruction := by
  obtain ⟨modifier?, stored, instruction, reads⟩ := phrase
  obtain ⟨code, offset, register, calls, loops, jumps⟩ := place
  obtain rfl : register = none := hregister
  obtain ⟨hmodifier, hstored⟩ := holds_append.mp hholds
  have hread := hstored.read _ none reads
  cases modifier? with
  | none => exact ⟨_, offset, .refl _, Player.step_withPlace player _ hread⟩
  | some modifier =>
      have hfirst : Instruction.read code offset none
          = (.ok (modifier.instruction, offset + 1), .at (some modifier.encoding) (offset + 1)) :=
        hmodifier.read none (some modifier.encoding) modifier.read_instruction
      have hpast := player.reaches_straight ⟨code, offset, none, calls, loops, jumps⟩ hfirst
        modifier.isStraight_instruction
      rw [modifier.perform_instruction] at hpast
      refine ⟨_, offset + 1, hpast, ?_⟩
      refine (Player.step_withPlace player _ hread).trans ?_
      exact congrArg (fun place => (player.withPlace place).execute (offset + 1) instruction)
        (Place.behind_append _ [modifier.opcode] stored).symm

/-- A straight phrase is played. -/
theorem StraightPhrase.reaches (phrase : StraightPhrase) (player : Player) {place : Place}
    (hholds : Holds place.code place.offset phrase.bytes) (hregister : place.register = none) :
    (player.withPlace place).Reaches
      ((player.perform phrase.instruction).withPlace (place.behind phrase.bytes)) := by
  obtain ⟨before, origin, hbefore, hstep⟩ := phrase.toPhrase.reaches player hholds hregister
  rw [Player.execute_straight phrase.straight] at hstep
  exact hbefore.trans (.of_step hstep)

/-! ## Loops -/

/-- The place of a track inside a loop that it has just opened. -/
def Place.inLoop (place : Place) (frame : LoopFrame) : Place :=
  { place with loops := frame :: place.loops }

namespace Player

variable {inside : Place} {frame : LoopFrame} {next : Nat}

/-- The end of a loop leads back to its start as long as the loop is to be played again. -/
theorem step_again (player : Player)
    (hread : Instruction.read inside.code inside.offset inside.register
      = (.ok (.loopEnd, next), inside.register)) (hmore : 1 < frame.remaining) :
    (player.withPlace (inside.inLoop frame)).step
      = .next (player.withPlace
          { inside.inLoop { frame with remaining := frame.remaining - 1 } with
            offset := frame.start }) := by
  rw [step_withPlace player (inside.inLoop frame) hread]
  exact congrArg StepResult.next (if_pos hmore)

/-- The last time, the end of a loop leads out of it. -/
theorem step_leave (player : Player)
    (hread : Instruction.read inside.code inside.offset inside.register
      = (.ok (.loopEnd, next), inside.register)) (hlast : ¬ 1 < frame.remaining) :
    (player.withPlace (inside.inLoop frame)).step
      = .next (player.withPlace { inside with offset := next }) := by
  rw [step_withPlace player (inside.inLoop frame) hread]
  exact congrArg StepResult.next (if_neg hlast)

/-- What is played as a whole each time is played as often as the loop still says. -/
theorem reaches_iterations (inside : Place) {part : List UInt8} {instructions : List Instruction}
    (hbody : ∀ player frame, (withPlace player (inside.inLoop frame)).Reaches
      ((player.performAll instructions).withPlace ((inside.behind part).inLoop frame)))
    (hend : Instruction.read inside.code (inside.offset + part.length) inside.register
      = (.ok (.loopEnd, next), inside.register))
    (times : Nat) {remaining : UInt8} (htimes : remaining.toNat = times + 1) (player : Player) :
    (player.withPlace (inside.inLoop ⟨inside.offset, remaining⟩)).Reaches
      ((player.performAll (List.replicate (times + 1) instructions).flatten).withPlace
        { inside with offset := next }) := by
  -- the induction is on how often the body is played after this time
  induction times generalizing remaining player with
  | zero =>
      have hlast : ¬ 1 < remaining := by
        rw [UInt8.lt_iff_toNat_lt, htimes]
        exact Nat.lt_irrefl 1
      rw [List.replicate_one, List.flatten_singleton]
      exact (hbody player _).trans (.of_step (step_leave _ hend hlast))
  | succ times ih =>
      have hmore : 1 < remaining := by
        rw [UInt8.lt_iff_toNat_lt, htimes]
        exact Nat.succ_lt_succ times.succ_pos
      have hrest : (remaining - 1).toNat = times + 1 := by
        rw [UInt8.toNat_sub_of_le _ _ (UInt8.le_of_lt hmore), htimes]
        rfl
      rw [List.replicate_succ, List.flatten_cons, performAll_append]
      exact ((hbody player _).trans (.of_step (step_again _ hend hmore))).trans (ih hrest _)

end Player

theorem LoopOpening.times_pos (opening : LoopOpening) : 1 ≤ opening.times :=
  UInt8.le_iff_toNat_le.mp (one_le_max_one opening.count)

/-- Opening a loop. -/
theorem LoopOpening.reaches (opening : LoopOpening) (player : Player) {place : Place}
    (hholds : Holds place.code place.offset opening.bytes) (hregister : place.register = none)
    (hloops : place.loops.length < nestingLimit) :
    (player.withPlace place).Reaches
      (player.withPlace ((place.behind opening.bytes).inLoop
        ⟨place.offset + opening.bytes.length, max opening.count 1⟩)) := by
  obtain ⟨before, origin, hbefore, hstep⟩ := opening.toPhrase.reaches player hholds hregister
  rw [opening.opens] at hstep
  exact hbefore.trans (.of_step (hstep.trans (if_neg (Nat.not_le.mpr hloops))))

/-! ## Calls -/

namespace Player

/-- A call leads to its subroutine, and remembers where it stands. -/
theorem step_call (player : Player) (place : Place) {target next : Nat} (htarget : target < 256 ^ 3)
    (hread : Instruction.read place.code place.offset place.register
      = (.ok (.call (UInt32.ofNat target), next), place.register))
    (hcalls : place.calls.length < nestingLimit) :
    (player.withPlace place).step
      = .next (player.withPlace { place with offset := target, calls := next :: place.calls }) := by
  have hnumber : (UInt32.ofNat target).toNat = target :=
    UInt32.toNat_ofNat_of_lt' (Nat.lt_trans htarget (by decide))
  rw [step_withPlace player _ hread]
  refine (if_neg (Nat.not_le.mpr hcalls)).trans ?_
  rw [hnumber]
  rfl

/-- A return leads back to where the call stands. -/
theorem step_ret (player : Player) (place : Place) {calls : List Nat} {back next : Nat}
    (hread : Instruction.read place.code place.offset place.register
      = (.ok (.ret, next), place.register)) (hcalls : place.calls = back :: calls) :
    (player.withPlace place).step
      = .next (player.withPlace { place with offset := back, calls }) := by
  obtain ⟨code, offset, register, calls', loops, jumps⟩ := place
  obtain rfl : calls' = back :: calls := hcalls
  rw [step_withPlace player _ hread]
  rfl

end Player

/-! ## Passages -/

namespace Passage

/-- The instructions that a passage plays. -/
def instructions (passage : Passage) : List Instruction :=
  passage.phrases.map fun phrase => phrase.instruction

theorem instructions_loop (opening : LoopOpening) (body rest : Passage) :
    (loop opening body rest).instructions
      = (List.replicate opening.times body.instructions).flatten ++ rest.instructions := by
  rw [instructions, phrases, List.map_append, List.map_flatten, List.map_replicate]
  rfl

theorem instructions_call (target : Nat) (body rest : Passage) :
    (call target body rest).instructions = body.instructions ++ rest.instructions :=
  List.map_append

theorem length_bytes_loop (opening : LoopOpening) (body rest : Passage) :
    (loop opening body rest).bytes.length
      = opening.bytes.length + body.bytes.length + 1 + rest.bytes.length := by
  simp only [bytes, List.length_append, List.length_cons]
  omega

theorem length_bytes_call (target : Nat) (body rest : Passage) :
    (call target body rest).bytes.length = 4 + rest.bytes.length := by
  simp only [bytes, List.length_append, List.length_cons, ByteOrder.spell_length]
  omega

/-- A passage is played, and nothing stays open behind it. -/
theorem reaches (passage : Passage) (player : Player) (place : Place)
    (hholds : Holds place.code place.offset passage.bytes) (hlinked : passage.IsLinked place.code)
    (hregister : place.register = none)
    (hloops : place.loops.length + passage.loopDepth ≤ nestingLimit)
    (hcalls : place.calls.length + passage.callDepth ≤ nestingLimit) :
    (player.withPlace place).Reaches
      ((player.performAll passage.instructions).withPlace (place.behind passage.bytes)) := by
  obtain ⟨code, offset, register, calls, loops, jumps⟩ := place
  obtain rfl : register = none := hregister
  induction passage generalizing player offset calls loops with
  | done => exact .refl _
  | play phrase rest ih =>
      obtain ⟨hphrase, hrest⟩ := holds_append.mp hholds
      rw [bytes, Place.behind_append]
      exact (phrase.reaches player hphrase rfl).trans (ih _ _ _ _ hrest hlinked hloops hcalls)
  | loop opening body rest ihbody ihrest =>
      obtain ⟨hopening, hbehind⟩ := holds_append.mp hholds
      obtain ⟨hbody, hclosing⟩ := holds_append.mp hbehind
      obtain ⟨hend, hrest⟩ := holds_append.mp
        (show Holds code _ ([0xfc] ++ rest.bytes) from hclosing)
      have hloops : loops.length + max (body.loopDepth + 1) rest.loopDepth ≤ nestingLimit := hloops
      have hcalls : calls.length + max body.callDepth rest.callDepth ≤ nestingLimit := hcalls
      obtain ⟨times, htimes⟩ := Nat.exists_eq_add_of_le' opening.times_pos
      have hopened := opening.reaches player hopening rfl (by show loops.length < _; omega)
      have hplayed := Player.reaches_iterations
        ⟨code, offset + opening.bytes.length, none, calls, loops, jumps⟩
        (fun player frame => ihbody player _ _ (frame :: loops) hbody hlinked.1
          (by show loops.length + 1 + _ ≤ _; omega) (by show calls.length + _ ≤ _; omega))
        (hend.read_plain Instruction.read_loopEnd) times htimes player
      have hbehind := ihrest
        (player.performAll (List.replicate (times + 1) body.instructions).flatten) _ _ _ hrest
        hlinked.2 (by show loops.length + _ ≤ _; omega) (by show calls.length + _ ≤ _; omega)
      rw [instructions_loop, htimes, Player.performAll_append, Place.behind, length_bytes_loop,
        ← Nat.add_assoc, ← Nat.add_assoc, ← Nat.add_assoc]
      exact (hopened.trans hplayed).trans hbehind
  | call target body rest ihbody ihrest =>
      obtain ⟨htarget, hsubroutine, hbodyLinked, hrestLinked⟩ := hlinked
      obtain ⟨hcall, hrest⟩ := holds_append.mp
        (show Holds code offset ((0x8a :: ByteOrder.big.spell 3 target) ++ rest.bytes) from hholds)
      obtain ⟨hbody, hret⟩ := holds_append.mp hsubroutine
      have hlength : (0x8a :: ByteOrder.big.spell 3 target).length = 4 := by
        rw [List.length_cons, ByteOrder.spell_length]
      have hread := hcall.read_plain (hlength.symm ▸ Instruction.read_call htarget)
      rw [hlength] at hrest hread
      have hloops : loops.length + max body.loopDepth rest.loopDepth ≤ nestingLimit := hloops
      have hcalls : calls.length + max (body.callDepth + 1) rest.callDepth ≤ nestingLimit := hcalls
      have hcalled := player.step_call ⟨code, offset, none, calls, loops, jumps⟩ htarget hread
        (by show calls.length < _; omega)
      have hplayed := ihbody player target ((offset + 4) :: calls) loops hbody hbodyLinked
        (by show loops.length + _ ≤ _; omega) (by show calls.length + 1 + _ ≤ _; omega)
      have hreturned := (player.performAll body.instructions).step_ret
        ⟨code, target + body.bytes.length, none, (offset + 4) :: calls, loops, jumps⟩
        (hret.read_plain Instruction.read_ret) rfl
      have hbehind := ihrest (player.performAll body.instructions) _ _ _ hrest hrestLinked
        (by show loops.length + _ ≤ _; omega) (by show calls.length + _ ≤ _; omega)
      rw [instructions_call, Player.performAll_append, Place.behind, length_bytes_call,
        ← Nat.add_assoc]
      exact ((Player.Reaches.of_step hcalled).trans hplayed).trans
        ((Player.Reaches.of_step hreturned).trans hbehind)

/-- A track that consists of a passage ends behind it. -/
theorem run (passage : Passage) (player : Player) {code : Bytes} {entry : Nat}
    (hholds : Holds code entry (passage.bytes ++ [0xff])) (hlinked : passage.IsLinked code)
    (hloops : passage.loopDepth ≤ nestingLimit) (hcalls : passage.callDepth ≤ nestingLimit)
    (hlimit : (player.withPlace ⟨code, entry, none, [], [], []⟩).run.2 ≠ some .tooManySteps) :
    (player.withPlace ⟨code, entry, none, [], [], []⟩).run
      = ((player.performAll passage.instructions).withPlace
          ⟨code, entry + passage.bytes.length + 1, none, [], [], []⟩, none) := by
  obtain ⟨hpassage, hfin⟩ := holds_append.mp hholds
  have hreached := passage.reaches player ⟨code, entry, none, [], [], []⟩ hpassage
    hlinked rfl (by rwa [List.length_nil, Nat.zero_add]) (by rwa [List.length_nil, Nat.zero_add])
  exact Player.runFor_of_reaches hreached
    (by rw [Player.step_withPlace _ _ (hfin.read_plain Instruction.read_fin)]; rfl) hlimit

/-! ## Unrolled passages -/

variable (phrases : List StraightPhrase)

theorem phrases_ofPhrases : (ofPhrases phrases).phrases = phrases := by
  induction phrases with
  | nil => rfl
  | cons phrase phrases ih => exact congrArg (phrase :: ·) ih

theorem bytes_ofPhrases :
    (ofPhrases phrases).bytes = phrases.flatMap fun phrase => phrase.bytes := by
  induction phrases with
  | nil => rfl
  | cons phrase phrases ih => exact congrArg (phrase.bytes ++ ·) ih

theorem isLinked_ofPhrases (code : Bytes) : (ofPhrases phrases).IsLinked code := by
  induction phrases with
  | nil => trivial
  | cons phrase phrases ih => exact ih

theorem loopDepth_ofPhrases : (ofPhrases phrases).loopDepth = 0 := by
  induction phrases with
  | nil => rfl
  | cons phrase phrases ih => exact ih

theorem callDepth_ofPhrases : (ofPhrases phrases).callDepth = 0 := by
  induction phrases with
  | nil => rfl
  | cons phrase phrases ih => exact ih

end Passage

namespace Player

/-- **Loops can be played out, and subroutines put in the place of their calls**: a track that
consists of a passage makes the same music as one that consists of its phrases, as long as the
passage does not nest too deep and neither track is cut short. -/
theorem run_unrolled (passage : Passage) (code : Bytes) (entry : UInt32) (mode : NoteMode)
    (resolution : UInt16) (track : UInt8) (tick : UInt32)
    (hholds : Holds code entry.toNat (passage.bytes ++ [0xff])) (hlinked : passage.IsLinked code)
    (hloops : passage.loopDepth ≤ nestingLimit) (hcalls : passage.callDepth ≤ nestingLimit)
    (hlimit : (start code mode resolution ⟨track, tick, entry⟩).run.2 ≠ some .tooManySteps)
    (hlimit' : (start passage.unrolled mode resolution ⟨track, tick, 0⟩).run.2
      ≠ some .tooManySteps) :
    ∃ structured straight,
      (start code mode resolution ⟨track, tick, entry⟩).run = (structured, none)
        ∧ (start passage.unrolled mode resolution ⟨track, tick, 0⟩).run = (straight, none)
        ∧ structured.track = straight.track ∧ structured.opened = straight.opened
        ∧ structured.resolution = straight.resolution := by
  have hstructured := passage.run (start #[] mode resolution ⟨track, tick, 0⟩) hholds hlinked
    hloops hcalls hlimit
  have hholds' : Holds passage.unrolled 0
      ((Passage.ofPhrases passage.phrases).bytes ++ [0xff]) := by
    rw [Passage.bytes_ofPhrases]
    exact ⟨[], [], by simp [Passage.unrolled], rfl⟩
  have hstraight := (Passage.ofPhrases passage.phrases).run
    (start #[] mode resolution ⟨track, tick, 0⟩) hholds'
    (Passage.isLinked_ofPhrases passage.phrases _)
    (by rw [Passage.loopDepth_ofPhrases]; exact Nat.zero_le _)
    (by rw [Passage.callDepth_ofPhrases]; exact Nat.zero_le _) hlimit'
  rw [Passage.instructions, Passage.phrases_ofPhrases] at hstraight
  exact ⟨_, _, hstructured, hstraight, rfl, rfl, rfl⟩

/-- Two nested loops, the inner one with the count zero. The inner one calls a subroutine of one
note, and the outer one waits for a time between two ticks. -/
def nested : Passage :=
  .play { modifier? := none, stored := [0xc7, 0x01], instruction := .set .noteWait 1,
          reads := by decide +kernel, straight := rfl } <|
  .loop { modifier? := none, stored := [0xd4, 0x02], instruction := .loopStart 2,
          reads := by decide +kernel, count := 2, opens := rfl }
    (.loop { modifier? := none, stored := [0xd4, 0x00], instruction := .loopStart 0,
             reads := by decide +kernel, count := 0, opens := rfl }
      (.call 0
        (.play { modifier? := none, stored := [0x40, 0x64, 0x18], instruction := .note 0x40 0x64 24,
                 reads := by decide +kernel, straight := rfl } .done) .done)
      (.play { modifier? := some .random, stored := [0x80, 0x00, 0x10, 0x00, 0x20],
               instruction := .wait 24, reads := by decide +kernel, straight := rfl } .done))
    .done

/-- The code of these loops, behind their subroutine. -/
def nestedCode : Bytes :=
  #[0x40, 0x64, 0x18, 0xfd, 0xc7, 0x01, 0xd4, 0x02, 0xd4, 0x00, 0x8a, 0x00, 0x00, 0x00, 0xfc,
    0xa0, 0x80, 0x00, 0x10, 0x00, 0x20, 0xfc, 0xff]

/-- The loops play the note twice, as the code without loops does. -/
theorem run_unrolled_nested :
    Holds nestedCode 4 (nested.bytes ++ [0xff]) ∧ nested.IsLinked nestedCode
      ∧ nested.loopDepth ≤ nestingLimit ∧ nested.callDepth ≤ nestingLimit
      ∧ (start nestedCode .retrigger 48 ⟨0, 0, 4⟩).run.2 ≠ some .tooManySteps
      ∧ (start nested.unrolled .retrigger 48 ⟨0, 0, 0⟩).run.2 ≠ some .tooManySteps
      ∧ nested.unrolled = #[0xc7, 0x01, 0x40, 0x64, 0x18, 0xa0, 0x80, 0x00, 0x10, 0x00, 0x20,
          0x40, 0x64, 0x18, 0xa0, 0x80, 0x00, 0x10, 0x00, 0x20, 0xff]
      ∧ ∃ structured straight,
          (start nestedCode .retrigger 48 ⟨0, 0, 4⟩).run = (structured, none)
            ∧ (start nested.unrolled .retrigger 48 ⟨0, 0, 0⟩).run = (straight, none)
            ∧ structured.track = straight.track ∧ structured.opened = straight.opened
            ∧ structured.resolution = straight.resolution := by
  have hholds : Holds nestedCode 4 (nested.bytes ++ [0xff]) :=
    ⟨[0x40, 0x64, 0x18, 0xfd], [], by decide +kernel, rfl⟩
  have hlinked : nested.IsLinked nestedCode :=
    ⟨⟨⟨by decide, ⟨[], nestedCode.toList.drop 4, by decide +kernel, rfl⟩, trivial, trivial⟩,
      trivial⟩, trivial⟩
  have hlimit : (start nestedCode .retrigger 48 ⟨0, 0, 4⟩).run.2 ≠ some .tooManySteps := by
    decide +kernel
  have hlimit' : (start nested.unrolled .retrigger 48 ⟨0, 0, 0⟩).run.2 ≠ some .tooManySteps := by
    decide +kernel
  exact ⟨hholds, hlinked, by decide, by decide, hlimit, hlimit', by decide +kernel,
    run_unrolled nested nestedCode 4 .retrigger 48 0 0 hholds hlinked (by decide) (by decide)
      hlimit hlimit'⟩

end Player

end ConsoleSound

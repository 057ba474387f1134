import ConsoleSound.Archive.File
import ConsoleSound.Instrument.WaveSound
import ConsoleSound.Proofs.Container.CutShort
import ConsoleSound.Sequence.File
import ConsoleSound.Stream.File
/-! # Containers cut short

Every reader of a container survives cuts (`readers_surviveCuts`): on a file that is
cut short it gives what it gives on the whole file or reports a malformed container, and
bytes behind a file change nothing. The lemmas follow the readers, one for each record,
and every step of one is the lemma of the read that it makes. -/

namespace ConsoleSound

open Container View

section Records

variable (view : View) (more : Bytes)

/-! ## Waves -/

theorem Adpcm.History.cutShort_read (pos : Nat) :
    CutShort (read view pos) (read (view.extend more) pos) := by
  refine .bind (view.cutShort_i16 more _) fun last => ?_
  exact .bind (view.cutShort_i16 more _) fun beforeLast => .same _

theorem Adpcm.Params.cutShort_read (pos : Nat) :
    CutShort (read view pos) (read (view.extend more) pos) := by
  refine .bind (.ofFnM fun index => ?_) fun predictors => ?_
  · refine .bind (view.cutShort_i16 more _) fun last => ?_
    exact .bind (view.cutShort_i16 more _) fun beforeLast => .same _
  refine .bind (view.cutShort_u16 more _) fun gain => ?_
  refine .bind (view.cutShort_u16 more _) fun header => ?_
  refine .bind (History.cutShort_read view more _) fun history => ?_
  refine .bind (view.cutShort_u16 more _) fun loopHeader => ?_
  exact .bind (History.cutShort_read view more _) fun loopHistory => .same _

theorem ChannelInfo.cutShort_read (pos base : Nat) (format : SampleFormat) :
    CutShort (read view pos base format) (read (view.extend more) pos base format) := by
  refine .bind (view.cutShort_offset more _) fun adpcmOffset => ?_
  extract_lets next next'
  have hnext (adpcm? : Option Adpcm.Params) : CutShort (next adpcm?) (next' adpcm?) := by
    refine .bind (view.cutShort_u32 more _) fun dataOffset => ?_
    exact .bind (.ofFnM fun index => view.cutShort_u32 more _) fun volumes => .same _
  cases format with
  | adpcm => exact .bind (.map (Adpcm.Params.cutShort_read view more _) _) hnext
  | pcm8 => exact .bind (.same _) hnext
  | pcm16 => exact .bind (.same _) hnext

theorem WaveInfo.cutShort_readRate (pos : Nat) :
    CutShort (readRate view pos) (readRate (view.extend more) pos) := by
  refine .bind (view.cutShort_u8 more _) fun high => ?_
  exact .bind (view.cutShort_u16 more _) fun low => .same _

theorem WaveInfo.cutShort_readLocation (pos : Nat) :
    CutShort (readLocation view pos) (readLocation (view.extend more) pos) :=
  .bind (view.cutShort_u8 more _) fun _ => .same _

theorem WaveInfo.cutShort_read (pos : Nat) :
    CutShort (read view pos) (read (view.extend more) pos) := by
  refine .bind (view.cutShort_u8 more _) fun code => ?_
  refine .bind (.same _) fun format => ?_
  refine .bind (view.cutShort_u8 more _) fun channelCount => ?_
  refine .bind (cutShort_readRate view more _) fun rate => ?_
  refine .bind (cutShort_readLocation view more _) fun location => ?_
  refine .bind (view.cutShort_offset more _) fun table => ?_
  refine .bind (.mapM (fun index => ?_) _) fun channels => ?_
  · refine .bind (view.cutShort_offset more _) fun channel => ?_
    exact ChannelInfo.cutShort_read view more _ _ _
  refine .bind (view.cutShort_u8 more _) fun looped => ?_
  refine .bind (view.cutShort_u32 more _) fun loopStart => ?_
  refine .bind (view.cutShort_u32 more _) fun loopEnd => ?_
  exact .bind (view.cutShort_u32 more _) fun dataOffset => .same _

theorem WaveArchive.cutShort_readSlot (base pos : Nat) :
    CutShort (readSlot view base pos) (readSlot (view.extend more) base pos) := by
  refine .bind (view.cutShort_follow? more _ _) fun start? => ?_
  exact .bind (view.cutShort_u32 more _) fun length => .same _

/-! ## Streams -/

theorem StreamInfo.cutShort_read (pos : Nat) :
    CutShort (read view pos) (read (view.extend more) pos) := by
  refine .bind (view.cutShort_u8 more _) fun code => ?_
  refine .bind (.same _) fun format => ?_
  refine .bind (view.cutShort_u8 more _) fun looped => ?_
  refine .bind (view.cutShort_u8 more _) fun channelCount => ?_
  refine .bind (WaveInfo.cutShort_readRate view more _) fun rate => ?_
  refine .bind (view.cutShort_u16 more _) fun blockHeaderOffset => ?_
  -- from here on the record is a row of words
  iterate 11 refine .bind (view.cutShort_u32 more _) fun _ => ?_
  exact .same _

theorem StreamTrack.cutShort_read (pos : Nat) (mixed : Bool) :
    CutShort (read view pos mixed) (read (view.extend more) pos mixed) := by
  unfold read
  extract_lets list next next'
  have hnext (mix? : Option (UInt8 × UInt8)) : CutShort (next mix?) (next' mix?) := by
    refine .bind (view.cutShort_u8 more _) fun count => ?_
    exact .bind (view.cutShort_bytes more _ _) fun channels => .same _
  cases mixed with
  | true =>
      refine .bind (view.cutShort_u8 more _) fun volume => ?_
      refine .bind (view.cutShort_u8 more _) fun pan => ?_
      exact .bind (.same _) hnext
  | false => exact .bind (.same _) hnext

theorem StreamTrack.cutShort_readTable (pos base : Nat) :
    CutShort (readTable view pos base) (readTable (view.extend more) pos base) := by
  refine .bind (view.cutShort_u8 more _) fun count => ?_
  refine .bind (view.cutShort_u8 more _) fun code => ?_
  extract_lets next next'
  have hnext (mixed : Bool) : CutShort (next mixed) (next' mixed) := by
    refine .mapM (fun index => ?_) _
    refine .bind (view.cutShort_follow more _ _ _) fun track => ?_
    exact StreamTrack.cutShort_read view more _ _
  split
  all_goals exact .bind (.same _) hnext

theorem Stream.cutShort_readChannels (pos base : Nat) (format : SampleFormat) :
    CutShort (readChannels view pos base format)
      (readChannels (view.extend more) pos base format) := by
  refine .bind (view.cutShort_u8 more _) fun count => ?_
  refine .mapM (fun index => ?_) _
  refine .bind (view.cutShort_follow more _ _ _) fun channel => ?_
  refine .bind (view.cutShort_follow? more _ _) fun params? => ?_
  split
  · exact .map (Adpcm.Params.cutShort_read view more _) _
  · exact .same _

/-! ## Instruments -/

theorem InstrumentParams.cutShort_read (pos : Nat) :
    CutShort (read view pos) (read (view.extend more) pos) := by
  refine .bind (view.cutShort_bytes more _ _) fun _ => ?_
  refine .bind (view.cutShort_i32 more _) fun waveIndex => ?_
  -- twelve bytes, then the pitch
  iterate 12 refine .bind (view.cutShort_u8 more _) fun _ => ?_
  exact .bind (view.cutShort_u32 more _) fun pitch => .same _

theorem Region.cutShort_readWithin (base levels : Nat) (reference : Reference) :
    CutShort (readWithin view base levels reference)
      (readWithin (view.extend more) base levels reference) := by
  induction levels generalizing reference with
  | zero => exact .same _
  | succ levels ih =>
      have hchild (entry : Nat) : CutShort
          (Reference.read view entry >>= readWithin view base levels)
          (Reference.read (view.extend more) entry >>= readWithin (view.extend more) base levels) :=
        .bind (view.cutShort_reference more entry) ih
      rw [readWithin, readWithin]
      cases reference.target? base with
      | none => exact .same _
      | some pos =>
          dsimp only
          split
          · exact .map (InstrumentParams.cutShort_read view more pos) _
          split
          · refine .bind (view.cutShort_u8 more _) fun count => ?_
            refine .bind (view.cutShort_bytes more _ _) fun keys => ?_
            refine .map (.mapM (fun entry => ?_) _) _
            exact .bind (hchild _) fun child => .same _
          split
          · refine .bind (view.cutShort_u8 more _) fun min => ?_
            refine .bind (view.cutShort_u8 more _) fun max => ?_
            exact .map (.mapM (fun index => hchild _) _) _
          · exact .same _

theorem Bank.cutShort_readWaves (base : Nat) :
    CutShort (readWaves view base) (readWaves (view.extend more) base) := by
  refine .bind (view.cutShort_targets more _ _) fun targets => ?_
  refine .mapM (fun entry => ?_) _
  dsimp only
  split
  · exact WaveInfo.cutShort_read view more _
  · exact .same _

theorem WaveSoundInfo.cutShort_read (pos : Nat) :
    CutShort (read view pos) (read (view.extend more) pos) := by
  refine .bind (view.cutShort_bytes more _ _) fun _ => ?_
  refine .bind (view.cutShort_u32 more _) fun pitch => ?_
  refine .bind (view.cutShort_u8 more _) fun pan => ?_
  refine .bind (view.cutShort_u8 more _) fun surroundPan => ?_
  refine .bind (.ofFnM fun index => view.cutShort_u8 more _) fun effectSends => ?_
  exact .bind (view.cutShort_i8 more _) fun mainSend => .same _

theorem NoteEvent.cutShort_read (pos : Nat) :
    CutShort (read view pos) (read (view.extend more) pos) := by
  refine .bind (view.cutShort_u32 more _) fun position => ?_
  refine .bind (view.cutShort_u32 more _) fun length => ?_
  exact .bind (view.cutShort_u32 more _) fun noteIndex => .same _

theorem WaveSound.cutShort_readTrack (base pos : Nat) :
    CutShort (readTrack view base pos) (readTrack (view.extend more) base pos) := by
  refine .bind (view.cutShort_follow? more _ _) fun events? => ?_
  split
  · exact view.cutShort_records more _ _ fun entry => NoteEvent.cutShort_read view more entry
  · exact .same _

theorem WaveSound.cutShort_readTracks (base pos : Nat) :
    CutShort (readTracks view base pos) (readTracks (view.extend more) base pos) := by
  refine .bind (view.cutShort_targets more _ _) fun targets => ?_
  refine .mapM (fun target? => ?_) _
  split
  · exact cutShort_readTrack view more _ _
  · exact .same _

theorem WaveSound.cutShort_read (base pos : Nat) :
    CutShort (read view base pos) (read (view.extend more) base pos) := by
  refine .bind (view.cutShort_follow? more _ _) fun infoPos? => ?_
  extract_lets withInfo withInfo'
  have hinfo (info? : Option WaveSoundInfo) : CutShort (withInfo info?) (withInfo' info?) := by
    refine .bind (view.cutShort_follow? more _ _) fun tracksPos? => ?_
    extract_lets withTracks withTracks'
    have htracks (tracks : List (List NoteEvent)) :
        CutShort (withTracks tracks) (withTracks' tracks) := by
      refine .bind (view.cutShort_follow? more _ _) fun notesPos? => ?_
      extract_lets withNotes
      cases notesPos? with
      | some table =>
          refine .bind (view.cutShort_records more _ _ fun entry => ?_) fun notes => .same _
          exact InstrumentParams.cutShort_read view more entry
      | none => exact .same _
    cases tracksPos? with
    | some table => exact .bind (cutShort_readTracks view more _ _) htracks
    | none => exact .bind (.same _) htracks
  cases infoPos? with
  | some info => exact .bind (.map (WaveSoundInfo.cutShort_read view more _) _) hinfo
  | none => exact .bind (.same _) hinfo

theorem WaveSoundFile.cutShort_readWaves (base : Nat) :
    CutShort (readWaves view base) (readWaves (view.extend more) base) := by
  refine view.cutShort_table more _ _ fun entry => ?_
  refine .bind (view.cutShort_offset more _) fun distance => ?_
  exact WaveInfo.cutShort_read view more _

/-! ## Sequences -/

theorem SequenceFile.cutShort_readLabel (pos : Nat) :
    CutShort (readLabel view pos) (readLabel (view.extend more) pos) := by
  refine .bind (view.cutShort_offset more _) fun length => ?_
  refine .bind (view.cutShort_bytes more _ _) fun name => ?_
  exact .bind (view.cutShort_u32 more _) fun offset => .same _

theorem SequenceFile.cutShort_readCode (data : Block) :
    CutShort (readCode view data) (readCode (view.extend more) data) := by
  refine .bind (view.cutShort_offset more _) fun start => ?_
  dsimp only
  split
  · exact .same _
  · exact view.cutShort_bytes more _ _

/-! ## Archives -/

theorem SoundKind.cutShort_read (code : UInt8) (data? : Option Nat) :
    CutShort (read view code data?) (read (view.extend more) code data?) := by
  unfold read
  split
  · iterate 3 refine .bind (view.cutShort_u32 more _) fun _ => ?_
    exact .bind (view.cutShort_u8 more _) fun channelPriority => .same _
  · refine .bind (view.cutShort_u32 more _) fun startPosition => ?_
    refine .bind (view.cutShort_u16 more _) fun allocChannelCount => ?_
    exact .bind (view.cutShort_u16 more _) fun allocTrackFlag => .same _
  · iterate 2 refine .bind (view.cutShort_u32 more _) fun _ => ?_
    exact .bind (view.cutShort_u8 more _) fun channelPriority => .same _
  · exact .same _

theorem SoundInfo.cutShort_read (base pos : Nat) :
    CutShort (read view base pos) (read (view.extend more) base pos) := by
  refine .bind (view.cutShort_u8 more _) fun code => ?_
  refine .bind (view.cutShort_follow? more _ _) fun data? => ?_
  refine .bind (SoundKind.cutShort_read view more _ _) fun kind => ?_
  iterate 3 refine .bind (view.cutShort_u32 more _) fun _ => ?_
  iterate 6 refine .bind (view.cutShort_u8 more _) fun _ => ?_
  exact .same _

theorem BankInfo.cutShort_read (pos : Nat) :
    CutShort (read view pos) (read (view.extend more) pos) := by
  refine .bind (view.cutShort_u32 more _) fun nameIndex => ?_
  exact .bind (view.cutShort_u32 more _) fun fileIndex => .same _

theorem PlayerInfo.cutShort_read (pos : Nat) :
    CutShort (read view pos) (read (view.extend more) pos) := by
  refine .bind (view.cutShort_u32 more _) fun nameIndex => ?_
  refine .bind (view.cutShort_u8 more _) fun soundCount => ?_
  exact .bind (view.cutShort_u32 more _) fun heapSize => .same _

theorem cutShort_readExternalPath (base pos : Nat) :
    CutShort (readExternalPath view base pos) (readExternalPath (view.extend more) base pos) := by
  refine .bind (view.cutShort_follow? more _ _) fun path? => ?_
  split
  · exact .map (view.cutShort_cstr more _) _
  · exact .same _

theorem cutShort_readTable {α : Type} {read read' : Nat → Except Error α} (base pos : Nat)
    (h : ∀ entry, CutShort (read entry) (read' entry)) :
    CutShort (readTable view base pos read) (readTable (view.extend more) base pos read') := by
  refine .bind (view.cutShort_follow? more _ _) fun table? => ?_
  split
  · exact view.cutShort_records more _ _ h
  · exact .same _

theorem Placement.cutShort_read (pos : Nat) :
    CutShort (read view pos) (read (view.extend more) pos) := by
  refine .bind (view.cutShort_u32 more _) fun group => ?_
  exact .bind (view.cutShort_u32 more _) fun item => .same _

theorem FileInfo.cutShort_read (base pos : Nat) :
    CutShort (read view base pos) (read (view.extend more) base pos) := by
  refine .bind (cutShort_readTable view more _ _ (Placement.cutShort_read view more))
    fun placements => ?_
  refine .bind (view.cutShort_u32 more _) fun fileSize => ?_
  refine .bind (view.cutShort_u32 more _) fun waveDataSize => ?_
  exact .bind (cutShort_readExternalPath view more _ _) fun externalPath? => .same _

theorem GroupItem.cutShort_read (pos : Nat) :
    CutShort (read view pos) (read (view.extend more) pos) := by
  iterate 5 refine .bind (view.cutShort_u32 more _) fun _ => ?_
  exact .same _

theorem GroupInfo.cutShort_read (base pos : Nat) :
    CutShort (read view base pos) (read (view.extend more) base pos) := by
  refine .bind (cutShort_readTable view more _ _ (GroupItem.cutShort_read view more))
    fun items => ?_
  refine .bind (view.cutShort_i32 more _) fun nameIndex => ?_
  refine .bind (view.cutShort_u32 more _) fun entryNumber => ?_
  refine .bind (cutShort_readExternalPath view more _ _) fun externalPath? => ?_
  iterate 4 refine .bind (view.cutShort_u32 more _) fun _ => ?_
  exact .same _

theorem SoundCounts.cutShort_read (pos : Nat) :
    CutShort (read view pos) (read (view.extend more) pos) := by
  iterate 7 refine .bind (view.cutShort_u16 more _) fun _ => ?_
  exact .same _

theorem NameNode.cutShort_read (pos : Nat) :
    CutShort (read view pos) (read (view.extend more) pos) := by
  iterate 2 refine .bind (view.cutShort_u16 more _) fun _ => ?_
  iterate 2 refine .bind (view.cutShort_u32 more _) fun _ => ?_
  iterate 2 refine .bind (view.cutShort_i32 more _) fun _ => ?_
  exact .same _

theorem NameTree.cutShort_read (pos : Nat) :
    CutShort (read view pos) (read (view.extend more) pos) := by
  refine .bind (view.cutShort_u32 more _) fun root => ?_
  exact .bind (view.cutShort_table more _ _ (NameNode.cutShort_read view more)) fun nodes => .same _

theorem Symbols.cutShort_read (base : Nat) :
    CutShort (read view base) (read (view.extend more) base) := by
  have htree (entry : Nat) : CutShort
      (do NameTree.read view (base + (← view.offset (base + entry))))
      (do NameTree.read (view.extend more) (base + (← (view.extend more).offset (base + entry)))) :=
    .bind (view.cutShort_offset more _) fun tree => NameTree.cutShort_read view more _
  refine .bind (view.cutShort_offset more _) fun table => ?_
  refine .bind (view.cutShort_table more _ _ fun entry => ?_) fun strings => ?_
  · exact .bind (view.cutShort_offset more _) fun text => view.cutShort_cstr more _
  iterate 4 refine .bind (htree _) fun _ => ?_
  exact .same _

end Records

/-! ## Files

A result keeps a view of its file; on a file with more bytes at the end it is the same
but for that view. -/

/-- A wave whose file has some bytes more at its end. -/
def Wave.extend (more : Bytes) (wave : Wave) : Wave := { wave with view := wave.view.extend more }

/-- A wave archive whose file has some bytes more at its end. -/
def WaveArchive.extend (more : Bytes) (archive : WaveArchive) : WaveArchive :=
  { archive with view := archive.view.extend more }

/-- A stream whose file has some bytes more at its end. -/
def Stream.extend (more : Bytes) (stream : Stream) : Stream :=
  { stream with view := stream.view.extend more }

/-- A bank whose file has some bytes more at its end. -/
def Bank.extend (more : Bytes) (bank : Bank) : Bank := { bank with view := bank.view.extend more }

/-- Wave sounds whose file has some bytes more at its end. -/
def WaveSoundFile.extend (more : Bytes) (file : WaveSoundFile) : WaveSoundFile :=
  { file with view := file.view.extend more }

/-- An archive whose file has some bytes more at its end. -/
def Archive.extend (more : Bytes) (archive : Archive) : Archive :=
  { archive with view := archive.view.extend more }

theorem Wave.cutShort_read (file more : Bytes) :
    CutShort (Wave.extend more <$> read file) (read (file ++ more)) := by
  refine cutShort_openAs file more _ fun header view => ?_
  refine .map_bind (Block.cutShort_locate view more _ _) fun infoBlock => ?_
  refine .map_bind (Block.cutShort_locate view more _ _) fun data => ?_
  exact .map_bind (WaveInfo.cutShort_read view more _) fun info => .same _

theorem WaveArchive.cutShort_read (file more : Bytes) :
    CutShort (WaveArchive.extend more <$> read file) (read (file ++ more)) := by
  refine cutShort_openAs file more _ fun header view => ?_
  refine .map_bind (Block.cutShort_locate view more _ _) fun table => ?_
  refine .map_bind (Block.cutShort_locate view more _ _) fun data => ?_
  refine .map_bind (view.cutShort_table more _ _ fun entry => ?_) fun slots => .same _
  exact cutShort_readSlot view more _ _

theorem Stream.cutShort_read (file more : Bytes) :
    CutShort (Stream.extend more <$> read file) (read (file ++ more)) := by
  refine cutShort_openAs file more _ fun header view => ?_
  refine .map_bind (Block.cutShort_locate view more _ _) fun head => ?_
  refine .map_bind (view.cutShort_offset more _) fun historiesOffset => ?_
  extract_lets base next next'
  have hnext (histories? : Option Block) :
      CutShort (Stream.extend more <$> next histories?) (next' histories?) := by
    refine .map_bind (Block.cutShort_locate view more _ _) fun data => ?_
    refine .map_bind (view.cutShort_follow more _ _ _) fun infoPos => ?_
    refine .map_bind (view.cutShort_follow more _ _ _) fun tracksPos => ?_
    refine .map_bind (view.cutShort_follow more _ _ _) fun channelsPos => ?_
    refine .map_bind (StreamInfo.cutShort_read view more _) fun info => ?_
    refine .map_bind (StreamTrack.cutShort_readTable view more _ _) fun tracks => ?_
    refine .map_bind (cutShort_readChannels view more _ _ _) fun channels => ?_
    refine .map_bind (view.cutShort_offset more _) fun samples => ?_
    -- the checks look at lengths that the file stores, not at its size
    refine .map_bind (.same _) fun _ => ?_
    exact .map_bind (.same _) fun _ => .same _
  split
  · exact .map_bind (.same _) hnext
  · exact .map_bind (.map (Block.cutShort_locate view more _ _) _) hnext

theorem Bank.cutShort_read (file more : Bytes) :
    CutShort (Bank.extend more <$> read file) (read (file ++ more)) := by
  refine cutShort_openAs file more _ fun header view => ?_
  refine .map_bind (Block.cutShort_locate view more _ _) fun data => ?_
  refine .map_bind (view.cutShort_table more _ _ fun entry => ?_) fun programs => ?_
  · refine .bind (view.cutShort_reference more _) fun reference => ?_
    exact Region.cutShort_readWithin view more _ _ reference
  refine .map_bind (view.cutShort_offset more _) fun wavesOffset => ?_
  split
  · exact .same _
  · refine .map_bind (Block.cutShort_locate view more _ _) fun waves => ?_
    exact .map_bind (.map (cutShort_readWaves view more _) _) fun waves => .same _

theorem WaveSoundFile.cutShort_read (file more : Bytes) :
    CutShort (WaveSoundFile.extend more <$> read file) (read (file ++ more)) := by
  refine cutShort_openAs file more _ fun header view => ?_
  refine .map_bind (Block.cutShort_locate view more _ _) fun data => ?_
  refine .map_bind (view.cutShort_targets more _ _) fun targets => ?_
  refine .map_bind (.mapM (fun target? => ?_) _) fun sounds => ?_
  · split
    · exact WaveSound.cutShort_read view more _ _
    · exact .same _
  refine .map_bind (view.cutShort_offset more _) fun wavesOffset => ?_
  dsimp only
  split
  · refine .map_bind (Block.cutShort_locate view more _ _) fun block => ?_
    exact .map_bind (.map (cutShort_readWaves view more _) _) fun waves => .same _
  · exact .same _

theorem SequenceFile.cutShort_read (file more : Bytes) :
    CutShort (id <$> read file) (read (file ++ more)) := by
  refine cutShort_openAs file more _ fun header view => ?_
  refine .map_bind (Block.cutShort_locate view more _ _) fun data => ?_
  refine .map_bind (cutShort_readCode view more _) fun code => ?_
  refine .map_bind (view.cutShort_offset more _) fun labelsOffset => ?_
  dsimp only
  split
  · exact .same _
  · refine .map_bind (Block.cutShort_locate view more _ _) fun block => ?_
    refine .map_bind (view.cutShort_table more _ _ fun entry => ?_) fun labels => .same _
    exact .bind (view.cutShort_offset more _) fun label => cutShort_readLabel view more _

theorem Archive.cutShort_read (file more : Bytes) :
    CutShort (Archive.extend more <$> read file) (read (file ++ more)) := by
  refine cutShort_openAs file more _ fun header view => ?_
  refine .map_bind (view.cutShort_offset more _) fun symbolsOffset => ?_
  extract_lets next next'
  have hnext (symbols : Symbols) :
      CutShort (Archive.extend more <$> next symbols) (next' symbols) := by
    refine .map_bind (Block.cutShort_locate view more _ _) fun info => ?_
    refine .map_bind (cutShort_readTable view more _ _ (SoundInfo.cutShort_read view more _))
      fun sounds => ?_
    refine .map_bind (cutShort_readTable view more _ _ (BankInfo.cutShort_read view more))
      fun banks => ?_
    refine .map_bind (cutShort_readTable view more _ _ (PlayerInfo.cutShort_read view more))
      fun players => ?_
    refine .map_bind (cutShort_readTable view more _ _ (FileInfo.cutShort_read view more _))
      fun files => ?_
    refine .map_bind (cutShort_readTable view more _ _ (GroupInfo.cutShort_read view more _))
      fun groups => ?_
    refine .map_bind (view.cutShort_follow? more _ _) fun countsPos? => ?_
    cases countsPos? with
    | some pos => exact .map_bind (SoundCounts.cutShort_read view more _) fun counts => .same _
    | none => exact .same _
  split
  · exact .map_bind (.same _) hnext
  · refine .map_bind (Block.cutShort_locate view more _ _) fun block => ?_
    exact .map_bind (Symbols.cutShort_read view more _) hnext

/-- **Cutting a file short changes nothing or makes it malformed**, for every container:
whatever a reader gives on a file it gives on every shorter one that it does not refuse as
malformed, and on every longer one. -/
theorem readers_surviveCuts :
    SurvivesCuts Wave.read Wave.extend
      ∧ SurvivesCuts WaveArchive.read WaveArchive.extend
      ∧ SurvivesCuts Stream.read Stream.extend
      ∧ SurvivesCuts Bank.read Bank.extend
      ∧ SurvivesCuts WaveSoundFile.read WaveSoundFile.extend
      ∧ SurvivesCuts SequenceFile.read (fun _ => id)
      ∧ SurvivesCuts Archive.read Archive.extend :=
  ⟨survivesCuts_of_cutShort Wave.cutShort_read,
    survivesCuts_of_cutShort WaveArchive.cutShort_read,
    survivesCuts_of_cutShort Stream.cutShort_read,
    survivesCuts_of_cutShort Bank.cutShort_read,
    survivesCuts_of_cutShort WaveSoundFile.cutShort_read,
    survivesCuts_of_cutShort SequenceFile.cutShort_read,
    survivesCuts_of_cutShort Archive.cutShort_read⟩

/-- A sequence of one instruction, and three bytes behind it that nothing reads. -/
def SequenceFile.padded : Bytes :=
  #[0x52, 0x53, 0x45, 0x51, 0xfe, 0xff, 0x01, 0x00, 0x00, 0x00, 0x00, 0x30, 0x00, 0x20, 0x00, 0x01,
    0x00, 0x00, 0x00, 0x20, 0x00, 0x00, 0x00, 0x0d, 0x00, 0x00, 0x00, 0x00, 0x00, 0x00, 0x00, 0x00,
    0x44, 0x41, 0x54, 0x41, 0x00, 0x00, 0x00, 0x0d, 0x00, 0x00, 0x00, 0x0c, 0xff, 0x00, 0x00, 0x00]

/-- Without the padding the sequence is the same, and without its instruction it is malformed. -/
theorem readers_surviveCuts_padded :
    ∃ found, SequenceFile.read SequenceFile.padded = .ok found
      ∧ SequenceFile.read (SequenceFile.padded.extract 0 45) = .ok found
      ∧ ∃ position fault, SequenceFile.read (SequenceFile.padded.extract 0 44)
        = .error (.malformed position fault) := by
  have hisRead : (SequenceFile.read SequenceFile.padded).toBool = true := by decide +kernel
  have hwhole : (SequenceFile.read (SequenceFile.padded.extract 0 45)).toBool = true := by
    decide +kernel
  have hcut : (SequenceFile.read (SequenceFile.padded.extract 0 44)).toBool = false := by
    decide +kernel
  cases hread : SequenceFile.read SequenceFile.padded with
  | error error =>
      rw [hread] at hisRead
      exact nomatch hisRead
  | ok found =>
      obtain ⟨-, -, -, -, -, hsequence, -⟩ := readers_surviveCuts
      obtain ⟨hshorter, -⟩ := hsequence SequenceFile.padded found hread
      refine ⟨found, rfl, ?_, ?_⟩
      · rcases hshorter 45 (by decide) with ⟨foundShort, hshort, rfl⟩ | ⟨position, fault, herror⟩
        · exact hshort
        · rw [herror] at hwhole
          exact nomatch hwhole
      · rcases hshorter 44 (by decide) with ⟨foundShort, hshort, -⟩ | herror
        · rw [hshort] at hcut
          exact nomatch hcut
        · exact herror

end ConsoleSound

import ConsoleSound.Wave.Archive
import ConsoleSound.Proofs.Wave.Stored
/-! # Packed waves

`WaveArchive.stored` packs wave files into an archive: a block with a slot for each entry,
then a block with the files one after the other. The distances in the slots count from the
header of the second block, so that the first file lies at distance eight.

Every wave is found in its slot and comes out of the archive as it went in
(`read_packed`), in either byte order. -/

namespace ConsoleSound

open Checked Container

namespace WaveArchive

/-! ## The layout of an archive -/

/-- The file of an entry; an absent wave has none. -/
def entryBytes (order : ByteOrder) : Option MonoWave → List UInt8
  | none => []
  | some wave => wave.stored order

/-- The slot of an entry: a reference to its file, and the length of the file. -/
def slotBytes (order : ByteOrder) (distance : Nat) : Option MonoWave → List UInt8
  | none => List.replicate 8 0 ++ order.spell 4 0
  | some wave =>
    [1, 0, 0, 0] ++ order.spell 4 distance ++ order.spell 4 (wave.stored order).length

/-- The slots of entries whose files stand one after the other. -/
def slotsFrom (order : ByteOrder) : (distance : Nat) → List (Option MonoWave) → List UInt8
  | _, [] => []
  | distance, entry :: entries =>
    slotBytes order distance entry
      ++ slotsFrom order (distance + (entryBytes order entry).length) entries

/-- The contents of an archive. -/
def contents (version : UInt16) (entries : List (Option MonoWave)) (order : ByteOrder) :
    Contents where
  code := Kind.waveArchive.magic
  version := version
  firstCode := .ofChars 'T' 'A' 'B' 'L'
  first := order.spell 4 entries.length ++ slotsFrom order Block.headerSize entries
  secondCode := .ofChars 'D' 'A' 'T' 'A'
  second := entries.flatMap (entryBytes order)

/-- The bytes of an archive. -/
def stored (version : UInt16) (entries : List (Option MonoWave)) (order : ByteOrder) : List UInt8 :=
  (contents version entries order).stored order

@[simp] theorem length_slotBytes (order : ByteOrder) (distance : Nat) (entry : Option MonoWave) :
    (slotBytes order distance entry).length = 12 := by
  cases entry with
  | none => rw [slotBytes, List.length_append, List.length_replicate, ByteOrder.spell_length]
  | some wave =>
      simp only [slotBytes, List.length_append, List.length_cons, List.length_nil,
        ByteOrder.spell_length]

@[simp] theorem length_slotsFrom (order : ByteOrder) (distance : Nat)
    (entries : List (Option MonoWave)) :
    (slotsFrom order distance entries).length = entries.length * 12 := by
  induction entries generalizing distance with
  | nil => rfl
  | cons entry entries ih =>
      rw [slotsFrom, List.length_append, length_slotBytes, ih, List.length_cons]
      omega

variable {order : ByteOrder} {entries : List (Option MonoWave)} {version : UInt16}

/-- The slot of an entry says how many bytes of files stand before its own. -/
theorem holds_slotsFrom {view : View} {pos distance index : Nat} {entry : Option MonoWave}
    (h : view.Holds pos (slotsFrom order distance entries))
    (hentry : entries[index]? = some entry) :
    view.Holds (pos + index * 12) (slotBytes order
      (distance + ((entries.take index).flatMap (entryBytes order)).length) entry) := by
  induction entries generalizing pos distance index with
  | nil => exact nomatch hentry
  | cons first entries ih =>
      rw [slotsFrom, View.holds_append, length_slotBytes] at h
      cases index with
      | zero =>
          obtain rfl := Option.some.inj hentry
          rw [Nat.zero_mul]
          exact h.1
      | succ index =>
          have hrest := ih h.2 hentry
          rw [List.take_succ_cons, List.flatMap_cons, List.length_append, ← Nat.add_assoc,
            Nat.succ_mul, Nat.add_comm (index * 12), ← Nat.add_assoc]
          exact hrest

/-! ## Reading a slot -/

/-- The slot of an entry as it is read. -/
def slotOf (order : ByteOrder) (base distance : Nat) : Option MonoWave → WaveSlot
  | none => ⟨none, 0⟩
  | some wave => ⟨some (base + distance), UInt32.ofNat (wave.stored order).length⟩

theorem readSlot_of_holds {view : View} {base pos distance : Nat} {entry : Option MonoWave}
    (h : view.Holds pos (slotBytes view.order distance entry))
    (hdistance : distance < UInt32.size) (hposition : base + distance < positionLimit)
    (hlength : (entryBytes view.order entry).length < UInt32.size) :
    readSlot view base pos = .ok (slotOf view.order base distance entry) := by
  cases entry with
  | none =>
      rw [slotBytes, View.holds_append, List.length_replicate] at h
      have hzeros : List.replicate 8 0 = [0, 0] ++ [0, 0] ++ view.order.spell 4 0 := by
        cases view.order <;> rfl
      rw [hzeros] at h
      have hreference : view.HoldsReference pos ⟨.address, 0, 0⟩ := ⟨[0, 0], rfl, h.1⟩
      have htarget : view.follow? pos base = .ok none :=
        map_eq_ok_iff.mpr ⟨_, View.read_reference_eq_ok_iff.mpr hreference, rfl⟩
      exact bind_eq_ok_iff.mpr ⟨_, htarget,
        bind_eq_ok_iff.mpr ⟨0, View.u32_eq_ok_iff.mpr h.2, rfl⟩⟩
  | some wave =>
      have hword : (UInt32.ofNat distance).toNat = distance := UInt32.toNat_ofNat_of_lt' hdistance
      have hsize : (UInt32.ofNat (wave.stored view.order).length).toNat
          = (wave.stored view.order).length := UInt32.toNat_ofNat_of_lt' hlength
      rw [slotBytes, View.holds_append, List.length_append, ByteOrder.spell_length, ← hword,
        ← hsize] at h
      have hreference : view.HoldsReference pos ⟨.offset, 0, UInt32.ofNat distance⟩ :=
        ⟨[0, 0], rfl, h.1⟩
      have htarget : view.follow? pos base = .ok (some (base + distance)) := by
        refine map_eq_ok_iff.mpr ⟨_, View.read_reference_eq_ok_iff.mpr hreference, ?_⟩
        show (if base + (UInt32.ofNat distance).toNat < positionLimit
          then some (base + (UInt32.ofNat distance).toNat) else none) = _
        rw [hword, if_pos hposition]
      exact bind_eq_ok_iff.mpr ⟨_, htarget,
        bind_eq_ok_iff.mpr ⟨_, View.u32_eq_ok_iff.mpr h.2, rfl⟩⟩

/-! ## Reading an archive -/

/-- The files before an entry and its own file are no more than all of them. -/
theorem length_entryBytes_le (order : ByteOrder) {index : Nat} {entry : Option MonoWave}
    (hentry : entries[index]? = some entry) :
    ((entries.take index).flatMap (entryBytes order)).length + (entryBytes order entry).length
      ≤ (entries.flatMap (entryBytes order)).length := by
  rw [View.flatMap_eq_append hentry, List.length_append, List.length_append]
  omega

/-- A stored archive as it is read. -/
def opened (version : UInt16) (entries : List (Option MonoWave)) (order : ByteOrder)
    (slots : List WaveSlot) : WaveArchive where
  header := (contents version entries order).header order
  slots := slots
  view := (contents version entries order).view order

theorem length_stored (version : UInt16) (entries : List (Option MonoWave)) (order : ByteOrder) :
    (stored version entries order).length
      = 0x20 + (contents version entries order).firstLength
        + (contents version entries order).secondLength :=
  Contents.length_stored _ order

theorem length_first (version : UInt16) (entries : List (Option MonoWave)) (order : ByteOrder) :
    (contents version entries order).first.length = 4 + entries.length * 12 := by
  rw [contents, List.length_append, ByteOrder.spell_length, length_slotsFrom]

theorem le_firstLength (version : UInt16) (entries : List (Option MonoWave)) (order : ByteOrder) :
    12 + entries.length * 12 ≤ (contents version entries order).firstLength := by
  have hle := (contents version entries order).le_firstLength
  rw [length_first, Block.headerSize] at hle
  omega

theorem le_secondLength (version : UInt16) (entries : List (Option MonoWave)) (order : ByteOrder) :
    Block.headerSize + (entries.flatMap (entryBytes order)).length
      ≤ (contents version entries order).secondLength :=
  (contents version entries order).le_secondLength

theorem length_entryBytes_lt (h : (stored version entries order).length < UInt32.size) {index : Nat}
    {entry : Option MonoWave} (hentry : entries[index]? = some entry) :
    (entryBytes order entry).length < UInt32.size := by
  have hbytes := length_entryBytes_le order hentry
  have hsecond := le_secondLength version entries order
  have hlength := length_stored version entries order
  omega

theorem length_wave_lt (h : (stored version entries order).length < UInt32.size) {index : Nat}
    {wave : MonoWave} (hentry : entries[index]? = some (some wave)) :
    (wave.stored order).length < UInt32.size := by
  have hlength := length_entryBytes_lt h hentry
  rw [entryBytes] at hlength
  exact hlength

/-- Where the block with the files starts. -/
def filesStart (version : UInt16) (entries : List (Option MonoWave)) (order : ByteOrder) : Nat :=
  0x20 + (contents version entries order).firstLength

/-- How far behind the start of its block the file of an entry starts. -/
def distanceOf (order : ByteOrder) (entries : List (Option MonoWave)) (index : Nat) : Nat :=
  Block.headerSize + ((entries.take index).flatMap (entryBytes order)).length

theorem readSlot_stored (h : (stored version entries order).length < UInt32.size) {index : Nat}
    {entry : Option MonoWave} (hentry : entries[index]? = some entry) :
    readSlot ((contents version entries order).view order) (filesStart version entries order)
        (40 + 4 + index * 12)
      = .ok (slotOf order (filesStart version entries order)
        (distanceOf order entries index) entry) := by
  have hlength := length_stored version entries order
  have hsecond := le_secondLength version entries order
  have hbytes := length_entryBytes_le order hentry
  have hlimit : UInt32.size < positionLimit := by decide
  obtain ⟨-, hslots⟩ := View.holds_append.mp (View.holds_append.mp
    ((contents version entries order).fields order).first).1
  rw [ByteOrder.spell_length] at hslots
  have hdistance : distanceOf order entries index
      ≤ (contents version entries order).secondLength := by
    rw [distanceOf]
    omega
  refine readSlot_of_holds (holds_slotsFrom hslots hentry) ?_ ?_ (length_entryBytes_lt h hentry)
  · exact Nat.lt_of_le_of_lt hdistance (by omega)
  · rw [filesStart]
    exact Nat.lt_of_le_of_lt (Nat.add_le_add_left hdistance _) (by omega)

theorem table_stored (h : (stored version entries order).length < UInt32.size)
    {read : Nat → Except Error WaveSlot} :
    ((contents version entries order).view order).table 40 12 read
      = (List.range entries.length).mapM fun index => read (40 + 4 + index * 12) := by
  have hlength := length_stored version entries order
  have hfirst := le_firstLength version entries order
  have hlimit : UInt32.size < positionLimit := by decide
  have hcount := (View.holds_append.mp (View.holds_append.mp
    ((contents version entries order).fields order).first).1).1
  have hsize : ((contents version entries order).view order).data.size
      = (stored version entries order).length := rfl
  exact View.table_of_holds hcount (by omega) (by omega) (by omega)

/-- A stored archive is read with a slot for each entry. -/
theorem read_stored (h : (stored version entries order).length < UInt32.size) :
    ∃ slots, read (stored version entries order).toArray = .ok (opened version entries order slots)
      ∧ slots.length = entries.length
      ∧ ∀ index entry, entries[index]? = some entry →
        slots[index]? = some (slotOf order (filesStart version entries order)
          (distanceOf order entries index) entry) := by
  have hlength : (contents version entries order).length < UInt32.size := by
    rw [Contents.length, ← length_stored]
    exact h
  obtain ⟨slots, hslots⟩ : ∃ slots, (List.range entries.length).mapM (fun index =>
      readSlot ((contents version entries order).view order) (filesStart version entries order)
        (40 + 4 + index * 12)) = .ok slots := by
    refine exists_mapM_iff.mpr ?_
    intro index hindex
    exact ⟨_, readSlot_stored h (List.getElem?_eq_getElem (List.mem_range.mp hindex))⟩
  refine ⟨slots, ?_, ?_, ?_⟩
  · refine bind_eq_ok_iff.mpr ⟨_, Contents.openAs_stored hlength, ?_⟩
    refine bind_eq_ok_iff.mpr ⟨_, Contents.locate_first_stored hlength, ?_⟩
    refine bind_eq_ok_iff.mpr ⟨_, Contents.locate_second_stored hlength, ?_⟩
    exact bind_eq_ok_iff.mpr ⟨_, (table_stored h).trans hslots, rfl⟩
  · exact (mapM_range_eq_ok_iff.mp hslots).1
  · intro index entry hentry
    obtain ⟨hindex, -⟩ := List.getElem?_eq_some_iff.mp hentry
    obtain ⟨slot, hread, hfound⟩ := getElem?_of_mapM hslots (List.getElem?_range hindex)
    rw [hfound, ← Except.ok.inj ((readSlot_stored h hentry).symm.trans hread)]

/-- What is found in the slot of an entry is its file. -/
theorem wave_opened {slots : List WaveSlot}
    (h : (stored version entries order).length < UInt32.size)
    {index : Nat} {entry : Option MonoWave} (hentry : entries[index]? = some entry)
    (hslot : slots[index]? = some
      (slotOf order (filesStart version entries order) (distanceOf order entries index) entry)) :
    (opened version entries order slots).wave index = .ok (entryBytes order entry).toArray := by
  have hslot : (opened version entries order slots).slots[index]? = _ := hslot
  rw [wave, hslot]
  cases entry with
  | none => rfl
  | some wave =>
      have hword : (UInt32.ofNat (wave.stored order).length).toNat = (wave.stored order).length :=
        UInt32.toNat_ofNat_of_lt' (length_wave_lt h hentry)
      have hholds := View.holds_flatMap (View.holds_append.mp
        ((contents version entries order).fields order).second).1 hentry
      rw [Nat.add_assoc (32 + _)] at hholds
      exact View.bytes_eq_ok_iff.mpr ⟨hword.symm, hholds⟩

/-- What the waves of an archive file sound like, nothing where a wave is absent. -/
def audios (file : Bytes) : Except Error (List (Option Audio)) := do
  let archive ← read file
  archive.waves.mapM fun wave? => do
    let wave ← wave?
    if wave.size = 0 then
      return none
    else
      some <$> (← Wave.read wave).decode

theorem audios_stored (h : (stored version entries order).length < UInt32.size) :
    audios (stored version entries order).toArray
      = .ok (entries.map (Option.map MonoWave.audio)) := by
  obtain ⟨slots, hread, hcount, hslots⟩ := read_stored h
  refine bind_eq_ok_iff.mpr ⟨_, hread, ?_⟩
  rw [waves, waveCount, opened, hcount, List.mapM_map]
  refine mapM_range_eq_ok_iff.mpr ⟨List.length_map _, ?_⟩
  intro index result hresult
  rw [List.getElem?_map, Option.map_eq_some_iff] at hresult
  obtain ⟨entry, hentry, rfl⟩ := hresult
  refine bind_eq_ok_iff.mpr ⟨_, wave_opened h hentry (hslots index entry hentry), ?_⟩
  cases entry with
  | none => rfl
  | some wave =>
      have hfile : (wave.stored order).length < UInt32.size := length_wave_lt h hentry
      have hsize : (wave.stored order).toArray.size ≠ 0 := by
        rw [List.size_toArray, MonoWave.length_stored]
        omega
      refine (if_neg hsize).trans ?_
      exact bind_eq_ok_iff.mpr ⟨_, MonoWave.read_stored hfile,
        map_eq_ok_iff.mpr ⟨_, MonoWave.decode_opened hfile, rfl⟩⟩

/-- The length of an archive is the same in both orders. -/
theorem length_stored_eq (version : UInt16) (entries : List (Option MonoWave))
    (order other : ByteOrder) :
    (stored version entries other).length = (stored version entries order).length := by
  have hentry (entry : Option MonoWave) :
      (entryBytes other entry).length = (entryBytes order entry).length := by
    cases entry with
    | none => rfl
    | some wave => exact (wave.length_stored other).trans (wave.length_stored order).symm
  have hsecond : (contents version entries other).second.length
      = (contents version entries order).second.length := by
    show (entries.flatMap (entryBytes other)).length = (entries.flatMap (entryBytes order)).length
    rw [List.length_flatMap, List.length_flatMap, List.map_congr_left fun entry _ => hentry entry]
  rw [length_stored, length_stored, Contents.firstLength, Contents.firstLength,
    Contents.secondLength, Contents.secondLength, length_padded, length_padded, length_padded,
    length_padded, length_first, length_first, hsecond]

/-- Waves survive packing. An archive of at most four gigabytes has a slot for each entry, in
which the file of the entry is found. The file is read, and decodes to the samples and the
rate that went into it, whatever the byte order. -/
theorem read_packed (version : UInt16) (entries : List (Option MonoWave)) (order : ByteOrder)
    (h : (stored version entries order).length < UInt32.size) :
    (∃ archive, read (stored version entries order).toArray = .ok archive
      ∧ archive.waveCount = entries.length
      ∧ (∀ index : Nat, entries[index]? = some none → archive.wave index = .ok #[])
      ∧ ∀ (index : Nat) (wave : MonoWave), entries[index]? = some (some wave) →
        archive.wave index = .ok (wave.stored order).toArray
        ∧ ∃ file, Wave.read (wave.stored order).toArray = .ok file ∧ file.decode = .ok wave.audio)
    ∧ ∀ other, audios (stored version entries other).toArray
      = audios (stored version entries order).toArray := by
  obtain ⟨slots, hread, hcount, hslots⟩ := read_stored h
  have hwave {index : Nat} {entry : Option MonoWave} (hentry : entries[index]? = some entry) :
      (opened version entries order slots).wave index = .ok (entryBytes order entry).toArray :=
    wave_opened h hentry (hslots index entry hentry)
  refine ⟨⟨_, hread, hcount, fun index hentry => hwave hentry, ?_⟩, ?_⟩
  · intro index wave hentry
    have hfile : (wave.stored order).length < UInt32.size := length_wave_lt h hentry
    exact ⟨hwave hentry, _, MonoWave.read_stored hfile, MonoWave.decode_opened hfile⟩
  · intro other
    have hother : (stored version entries other).length < UInt32.size := by
      rw [length_stored_eq version entries order other]
      exact h
    rw [audios_stored h, audios_stored hother]

/-- Two waves with an absent one between them. The samples of the first do not fill the last
four bytes of their block. -/
def gappedEntries : List (Option MonoWave) :=
  [some ⟨0x0102, 32000, [7, -8, 32767], by decide⟩, none, some ⟨0x0100, 0xfffffe, [], by decide⟩]

theorem read_packed_gappedEntries :
    (stored 0x0100 gappedEntries .little).length < UInt32.size
    ∧ (∃ archive, read (stored 0x0100 gappedEntries .little).toArray = .ok archive
      ∧ archive.waveCount = 3 ∧ archive.wave 1 = .ok #[]
      ∧ ∃ first, archive.wave 0 = .ok first ∧ ∃ file, Wave.read first = .ok file
        ∧ file.decode = .ok ⟨32000, 1, false, 0, 3, #[7, -8, 32767]⟩)
    ∧ audios (stored 0x0100 gappedEntries .big).toArray
      = audios (stored 0x0100 gappedEntries .little).toArray := by
  have hlength : (stored 0x0100 gappedEntries .little).length < UInt32.size := by decide +kernel
  obtain ⟨⟨archive, hread, hcount, habsent, hwaves⟩, horder⟩ :=
    read_packed 0x0100 gappedEntries .little hlength
  obtain ⟨hfirst, file, hfile, hdecoded⟩ := hwaves 0 _ rfl
  exact ⟨hlength, ⟨archive, hread, hcount, habsent 1 rfl, _, hfirst, file, hfile, hdecoded⟩,
    horder .big⟩

end WaveArchive

end ConsoleSound

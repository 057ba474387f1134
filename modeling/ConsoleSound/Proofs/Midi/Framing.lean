import ConsoleSound.ByteOrder.Spelling
import ConsoleSound.Proofs.Midi.RoundTrip
/-! # Walking a file from chunk to chunk

A reader that does not know what a chunk holds goes from one to the next by the lengths
that they declare (`readChunks?`). A file `IsFramed` if it finds in this way the header and
then the bodies of the tracks, as many as the header says, and comes to the end of the
file.

The header counts the tracks with 16 bits and a chunk its body with 32, and the writer keeps
the low bits of both numbers. A chunk is found again exactly if its length fits
(`readChunk?_chunk`), so a file is framed exactly if all its numbers fit
(`isFramed_iff`). -/

namespace ConsoleSound.Midi

/-- A chunk as it is found in a file. -/
structure RawChunk where
  code : List UInt8
  body : List UInt8
  deriving DecidableEq, Repr

/-- The chunk at the front of some bytes, as long as it says, and the bytes after it. -/
def readChunk? (bytes : List UInt8) : Option (RawChunk × List UInt8) := do
  let (code, bytes) ← take? 4 bytes
  let (length, bytes) ← take? 4 bytes
  let (body, bytes) ← take? (ByteOrder.big.value length) bytes
  return (⟨code, body⟩, bytes)

/-- Reading a chunk takes a byte at least. -/
theorem readChunk?_length {bytes rest : List UInt8} {chunk : RawChunk}
    (h : readChunk? bytes = some (chunk, rest)) : rest.length < bytes.length := by
  obtain ⟨⟨code, afterCode⟩, hcode, h⟩ := Option.bind_eq_some_iff.mp h
  obtain ⟨⟨length, afterLength⟩, hlength, h⟩ := Option.bind_eq_some_iff.mp h
  obtain ⟨⟨body, afterBody⟩, hbody, h⟩ := Option.bind_eq_some_iff.mp h
  rw [← (Prod.mk.inj (Option.some.inj h)).2]
  have hless : afterCode.length < bytes.length := by
    rw [take?] at hcode
    split at hcode
    · next hle =>
        rw [← (Prod.mk.inj (Option.some.inj hcode)).2, List.length_drop]
        omega
    · cases hcode
  exact Nat.lt_of_le_of_lt (Nat.le_trans (take?_length hbody) (take?_length hlength)) hless

/-- The chunks that some bytes consist of; there are none if bytes are left that are no
chunk. -/
def readChunks? (bytes : List UInt8) : Option (List RawChunk) :=
  if bytes = [] then some []
  else match _h : readChunk? bytes with
    | some (chunk, rest) => (readChunks? rest).map (chunk :: ·)
    | none => none
termination_by bytes.length
decreasing_by exact readChunk?_length _h

theorem readChunks?_nil : readChunks? [] = some [] := by
  rw [readChunks?, if_pos rfl]

theorem readChunks?_of_readChunk? {bytes rest : List UInt8} {chunk : RawChunk}
    (h : readChunk? bytes = some (chunk, rest)) :
    readChunks? bytes = (readChunks? rest).map (chunk :: ·) := by
  have hbytes : bytes ≠ [] := by
    rintro rfl
    exact nomatch h
  rw [readChunks?, if_neg hbytes]
  split
  · next chunk' rest' h' =>
      rw [h] at h'
      obtain ⟨rfl, rfl⟩ := Prod.mk.inj (Option.some.inj h')
      rfl
  · next h' => exact nomatch h.symm.trans h'

/-- The first of some chunks is found before the others. -/
theorem exists_readChunk?_of_readChunks? {bytes : List UInt8} {chunk : RawChunk}
    {chunks : List RawChunk} (h : readChunks? bytes = some (chunk :: chunks)) :
    ∃ rest, readChunk? bytes = some (chunk, rest) ∧ readChunks? rest = some chunks := by
  rw [readChunks?] at h
  split at h
  · exact nomatch h
  · split at h
    · next chunk' rest hread =>
        obtain ⟨chunks', hrest, heq⟩ := Option.map_eq_some_iff.mp h
        obtain ⟨rfl, rfl⟩ := List.cons.inj heq
        exact ⟨rest, hread, hrest⟩
    · exact nomatch h

/-- The number of tracks that the body of a header announces, behind the format. -/
def announcedTracks (header : List UInt8) : Nat := ByteOrder.big.value ((header.drop 2).take 2)

/-- Whether a reader that goes from chunk to chunk comes to the end of a file and finds the
header and the bodies of the tracks, as many as the header announces. -/
def File.IsFramed (file : File) : Prop :=
  ∃ header chunks,
    readChunks? file.toBytes.toList = some (⟨[0x4d, 0x54, 0x68, 0x64], header⟩ :: chunks)
      ∧ announcedTracks header = chunks.length
      ∧ chunks = file.tracks.map fun track =>
          ⟨[0x4d, 0x54, 0x72, 0x6b], (file.trackBody track).toList⟩

/-! ## One chunk -/

theorem toList_chunk (code : List UInt8) (body : Array UInt8) :
    (File.chunk code body).toList = code ++ (ByteOrder.big.spell 4 body.size ++ body.toList) := by
  simp [File.chunk]

/-- A written chunk is cut off where the low bits of its length say. -/
theorem readChunk?_toList_chunk {code : List UInt8} (hcode : code.length = 4) (body : Array UInt8)
    (rest : List UInt8) :
    readChunk? ((File.chunk code body).toList ++ rest)
      = (take? (body.size % UInt32.size) (body.toList ++ rest)).map fun (found, behind) =>
          (⟨code, found⟩, behind) := by
  have htakeCode := take?_append code (ByteOrder.big.spell 4 body.size ++ (body.toList ++ rest))
  rw [hcode] at htakeCode
  have htakeLength := take?_append (ByteOrder.big.spell 4 body.size) (body.toList ++ rest)
  rw [ByteOrder.spell_length] at htakeLength
  have hvalue : ByteOrder.big.value (ByteOrder.big.spell 4 body.size) = body.size % UInt32.size :=
    ByteOrder.value_spell .big 4 body.size
  rw [readChunk?, toList_chunk]
  simp only [List.append_assoc, htakeCode, htakeLength, Option.bind_eq_bind, Option.bind_some,
    hvalue]
  cases take? (body.size % UInt32.size) (body.toList ++ rest) <;> rfl

theorem length_of_take? {count : Nat} {bytes data rest : List UInt8}
    (h : take? count bytes = some (data, rest)) : data.length = count := by
  rw [take?] at h
  split at h
  · next hle =>
      rw [← (Prod.mk.inj (Option.some.inj h)).1, List.length_take]
      exact Nat.min_eq_left hle
  · cases h

/-- A chunk whose length fits is found again. -/
theorem readChunk?_chunk {code : List UInt8} (hcode : code.length = 4) {body : Array UInt8}
    (hbody : body.size < UInt32.size) (rest : List UInt8) :
    readChunk? ((File.chunk code body).toList ++ rest) = some (⟨code, body.toList⟩, rest) := by
  have htake := take?_append body.toList rest
  rw [Array.length_toList] at htake
  rw [readChunk?_toList_chunk hcode, Nat.mod_eq_of_lt hbody, htake]
  rfl

/-- A chunk that is found again has a length that fits: no more is found than the low bits
of it say. -/
theorem size_lt_of_readChunk? {code : List UInt8} (hcode : code.length = 4) {body : Array UInt8}
    {rest behind : List UInt8}
    (h : readChunk? ((File.chunk code body).toList ++ rest)
      = some (⟨code, body.toList⟩, behind)) : body.size < UInt32.size := by
  rw [readChunk?_toList_chunk hcode] at h
  obtain ⟨⟨found, behind'⟩, htake, heq⟩ := Option.map_eq_some_iff.mp h
  have hfound : found = body.toList := congrArg RawChunk.body (Prod.mk.inj heq).1
  have hlength := length_of_take? htake
  rw [hfound, Array.length_toList] at hlength
  rw [hlength]
  exact Nat.mod_lt _ (by decide)

/-! ## Chunks in a row -/

/-- Chunks in a row are all found again exactly if all their lengths fit. -/
theorem readChunks?_chunks_iff (code : List UInt8) (hcode : code.length = 4)
    (bodies : List (Array UInt8)) :
    readChunks? (bodies.flatMap fun body => (File.chunk code body).toList)
        = some (bodies.map fun body => ⟨code, body.toList⟩)
      ↔ ∀ body ∈ bodies, body.size < UInt32.size := by
  induction bodies with
  | nil => exact ⟨fun _ body h => (nomatch h), fun _ => readChunks?_nil⟩
  | cons body bodies ih =>
      rw [List.flatMap_cons, List.map_cons, List.forall_mem_cons, ← ih]
      constructor
      · intro h
        obtain ⟨rest, hread, hrest⟩ := exists_readChunk?_of_readChunks? h
        have hbody := size_lt_of_readChunk? hcode hread
        rw [readChunk?_chunk hcode hbody] at hread
        obtain ⟨-, rfl⟩ := Prod.mk.inj (Option.some.inj hread)
        exact ⟨hbody, hrest⟩
      · rintro ⟨hbody, hrest⟩
        rw [readChunks?_of_readChunk? (readChunk?_chunk hcode hbody _), hrest]
        rfl

/-! ## Files -/

theorem toList_toBytes (file : File) :
    file.toBytes.toList
      = file.headerChunk.toList
        ++ (file.tracks.map file.trackBody).flatMap fun body =>
            (File.chunk [0x4d, 0x54, 0x72, 0x6b] body).toList := by
  have hfold (tracks : List Track) (written : Array UInt8) :
      (tracks.foldl (fun written track => written ++ file.trackChunk track) written).toList
        = written.toList ++ (tracks.map file.trackBody).flatMap fun body =>
            (File.chunk [0x4d, 0x54, 0x72, 0x6b] body).toList := by
    induction tracks generalizing written with
    | nil => exact (List.append_nil _).symm
    | cons track tracks ih =>
        rw [List.foldl_cons, ih, Array.toList_append, List.map_cons, List.flatMap_cons,
          List.append_assoc]
        rfl
  exact hfold file.tracks file.headerChunk

/-- The number of tracks in a header is cut to 16 bits. -/
theorem announcedTracks_spell (first second third : Nat) :
    announcedTracks (ByteOrder.big.spell 2 first ++ ByteOrder.big.spell 2 second
      ++ ByteOrder.big.spell 2 third) = second % UInt16.size := by
  have hfirst := ByteOrder.spell_length .big 2 first
  have hsecond := ByteOrder.spell_length .big 2 second
  rw [announcedTracks, List.append_assoc, List.drop_left' hfirst, List.take_left' hsecond]
  exact ByteOrder.value_spell .big 2 second

/-- The header is always found, and the chunks of the tracks come behind it. -/
theorem readChunks?_toBytes (file : File) :
    readChunks? file.toBytes.toList
      = (readChunks? ((file.tracks.map file.trackBody).flatMap fun body =>
          (File.chunk [0x4d, 0x54, 0x72, 0x6b] body).toList)).map
        (⟨[0x4d, 0x54, 0x68, 0x64], ByteOrder.big.spell 2 1
          ++ ByteOrder.big.spell 2 file.tracks.length
          ++ ByteOrder.big.spell 2 file.resolution.toNat⟩ :: ·) := by
  have hsize : (ByteOrder.big.spell 2 1 ++ ByteOrder.big.spell 2 file.tracks.length
      ++ ByteOrder.big.spell 2 file.resolution.toNat).toArray.size < UInt32.size := by
    simp only [List.size_toArray, List.length_append, ByteOrder.spell_length]
    decide
  rw [toList_toBytes]
  exact readChunks?_of_readChunk? (readChunk?_chunk rfl hsize _)

/-- A number of tracks that is its own remainder fits. -/
theorem length_tracks_lt_of_isFramed {file : File} (h : file.IsFramed) :
    file.tracks.length < UInt16.size := by
  obtain ⟨header, chunks, hread, hcount, rfl⟩ := h
  rw [readChunks?_toBytes] at hread
  obtain ⟨found, -, heq⟩ := Option.map_eq_some_iff.mp hread
  obtain ⟨hheader, -⟩ := List.cons.inj heq
  obtain ⟨-, rfl⟩ := RawChunk.mk.inj hheader
  rw [announcedTracks_spell, List.length_map] at hcount
  exact hcount ▸ Nat.mod_lt _ (by decide)

/-- **A file is framed exactly if its numbers fit**: the number of tracks the 16 bits of the
header, and the length of each track's body the 32 bits of its chunk. -/
theorem isFramed_iff (file : File) :
    file.IsFramed
      ↔ file.tracks.length < UInt16.size
        ∧ ∀ track ∈ file.tracks, (file.trackBody track).size < UInt32.size := by
  have hbodies := readChunks?_chunks_iff [0x4d, 0x54, 0x72, 0x6b] rfl
    (file.tracks.map file.trackBody)
  rw [List.forall_mem_map, List.map_map] at hbodies
  rw [← hbodies]
  constructor
  · intro h
    refine ⟨length_tracks_lt_of_isFramed h, ?_⟩
    obtain ⟨header, chunks, hread, -, rfl⟩ := h
    rw [readChunks?_toBytes] at hread
    obtain ⟨found, hfound, heq⟩ := Option.map_eq_some_iff.mp hread
    obtain ⟨-, rfl⟩ := List.cons.inj heq
    exact hfound
  · rintro ⟨hcount, hread⟩
    refine ⟨_, _, by rw [readChunks?_toBytes, hread]; rfl, ?_, rfl⟩
    rw [announcedTracks_spell, List.length_map]
    exact Nat.mod_eq_of_lt hcount

/-- 65537 tracks without events. -/
def tooManyTracks : File := ⟨defaultResolution, List.replicate 65537 Track.empty, []⟩

/-- A reader stops before the tracks that the header does not count. -/
theorem not_isFramed_tooManyTracks : ¬ tooManyTracks.IsFramed := by
  intro h
  have hlength := length_tracks_lt_of_isFramed h
  rw [tooManyTracks, List.length_replicate] at hlength
  exact absurd hlength (by decide)

end ConsoleSound.Midi

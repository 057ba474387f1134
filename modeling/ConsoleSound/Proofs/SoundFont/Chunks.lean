import ConsoleSound.ByteOrder.Spelling
import ConsoleSound.Riff
/-! # Chunks read back

The sizes of a tree of chunks are added up before its bytes are written. Both count the pad
behind a payload of odd size in the chunk around it, so the size that is written in front of a
payload is the size of what follows at every depth (`Chunk.size_payload`), and a reader that
skips the pad finds the next chunk where it starts (`readChunk?_bytes`).

So chunks that are written one after the other are read back in order, with nothing left, and
the chunks in a list are read back from its payload in the same way (`readsBack_of_fits`), as
long as their sizes fit 32 bits. -/

namespace ConsoleSound.Riff

/-! ## Sizes -/

theorem size_pad (size : Nat) : (pad size).size = size % 2 := by
  rw [pad]
  split
  · next hodd => exact hodd.symm
  · next heven => exact (Nat.mod_two_ne_one.mp heven).symm

theorem toList_frame (id : Magic) (size : Nat) (payload : Array UInt8) :
    (frame id size payload).toList
      = id.bytes ++ (ByteOrder.little.spell 4 size
          ++ (payload.toList ++ (pad size).toList)) := by
  simp [frame]

theorem size_frame (id : Magic) (size : Nat) (payload : Array UInt8) :
    (frame id size payload).size = 8 + payload.size + size % 2 := by
  have hid : id.bytes.length = 4 := rfl
  rw [← Array.length_toList, toList_frame]
  simp only [List.length_append, hid, ByteOrder.spell_length, Array.length_toList, size_pad]
  omega

namespace Chunk

/-- The code of a chunk. -/
def id : Chunk → Magic
  | data id _ => id
  | list id _ _ => id

/-- What a chunk has behind its size: its data, or its form and the bytes of its children. -/
def payload : Chunk → Array UInt8
  | data _ payload => payload
  | list _ form children => form.bytes.toArray ++ childrenBytes children

/-- A chunk as it is to be found in a file. -/
def raw (chunk : Chunk) : RawChunk := ⟨chunk.id, chunk.payload.toList⟩

theorem bytes_eq_frame (chunk : Chunk) :
    chunk.bytes = frame chunk.id chunk.payloadSize chunk.payload := by
  cases chunk with
  | data id payload => rw [bytes]; rfl
  | list id form children => rw [bytes]; rfl

mutual

/-- A payload has the size that is added up for it. -/
theorem size_payload : (chunk : Chunk) → chunk.payload.size = chunk.payloadSize
  | data _ _ => by rw [payloadSize]; rfl
  | list _ form children => by
      have hform : form.bytes.toArray.size = 4 := rfl
      rw [payload, payloadSize, Array.size_append, hform, size_childrenBytes children]

theorem size_childrenBytes :
    (children : List Chunk) → (childrenBytes children).size = childrenSize children
  | [] => rfl
  | child :: children => by
      rw [childrenBytes, childrenSize, Array.size_append, bytes_eq_frame, size_frame,
        size_payload child, size_childrenBytes children]

end

theorem size_bytes (chunk : Chunk) : chunk.bytes.size = chunk.totalSize := by
  rw [bytes_eq_frame, size_frame, size_payload, totalSize]

/-- The payload of a list is longer than those of its children. -/
theorem payloadSize_lt_of_mem {child : Chunk} {children : List Chunk} (h : child ∈ children) :
    payloadSize child < childrenSize children := by
  induction children with
  | nil => exact nomatch h
  | cons first children ih =>
      rw [childrenSize]
      rcases List.mem_cons.mp h with rfl | hmem
      · omega
      · have hless := ih hmem
        omega

end Chunk

/-- The bytes of some chunks, one after the other. -/
def bytesOf (chunks : List Chunk) : List UInt8 := chunks.flatMap fun chunk => chunk.bytes.toList

theorem bytesOf_cons (chunk : Chunk) (chunks : List Chunk) :
    bytesOf (chunk :: chunks) = chunk.bytes.toList ++ bytesOf chunks := List.flatMap_cons

theorem toList_childrenBytes (children : List Chunk) :
    (Chunk.childrenBytes children).toList = bytesOf children := by
  induction children with
  | nil => rfl
  | cons child children ih => rw [Chunk.childrenBytes, Array.toList_append, ih, bytesOf_cons]

/-! ## Reading one chunk -/

/-- A payload that is framed with its own size is read back with its code, and its pad is
skipped. -/
theorem readChunk?_frame (id : Magic) {size : Nat} {payload : Array UInt8}
    (heq : payload.size = size) (hsize : size < UInt32.size) (rest : List UInt8) :
    readChunk? ((frame id size payload).toList ++ rest) = some (⟨id, payload.toList⟩, rest) := by
  obtain rfl := heq
  obtain ⟨s, t, u, v, hspell⟩ :
      ∃ s t u v, ByteOrder.little.spell 4 payload.size = [s, t, u, v] := ⟨_, _, _, _, rfl⟩
  have hvalue : ByteOrder.little.value [s, t, u, v] = payload.size := by
    rw [← hspell, ByteOrder.value_spell]
    exact Nat.mod_eq_of_lt hsize
  have hbytes : (frame id payload.size payload).toList ++ rest
      = id.first :: id.second :: id.third :: id.fourth :: s :: t :: u :: v
          :: (payload.toList ++ ((pad payload.size).toList ++ rest)) := by
    rw [toList_frame, hspell]
    simp only [Magic.bytes, List.append_assoc, List.cons_append, List.nil_append]
  have hpadded : (payload.toList ++ (pad payload.size).toList).length
      = payload.size + payload.size % 2 := by
    rw [List.length_append, Array.length_toList, Array.length_toList, size_pad]
  have hfits : payload.size
      ≤ (payload.toList ++ ((pad payload.size).toList ++ rest)).length := by
    rw [List.length_append, Array.length_toList]
    exact Nat.le_add_right _ _
  rw [hbytes, readChunk?]
  simp only [hvalue, if_pos hfits]
  rw [List.take_left' (Array.length_toList), ← List.append_assoc, List.drop_left' hpadded]

theorem readChunk?_bytes {chunk : Chunk} (hsize : chunk.payloadSize < UInt32.size)
    (rest : List UInt8) : readChunk? (chunk.bytes.toList ++ rest) = some (chunk.raw, rest) := by
  rw [Chunk.bytes_eq_frame]
  exact readChunk?_frame chunk.id chunk.size_payload hsize rest

/-! ## Reading on -/

theorem readChunks_nil : readChunks [] = ([], []) := by
  have hnone : readChunk? [] = none := rfl
  rw [readChunks, hnone]

theorem readChunks_of_readChunk? {bytes rest : List UInt8} {chunk : RawChunk}
    (h : readChunk? bytes = some (chunk, rest)) :
    readChunks bytes = ((chunk, rest.length) :: (readChunks rest).1, (readChunks rest).2) := by
  rw [readChunks, h]

theorem readChunks_bytesOf {chunks : List Chunk}
    (hfits : ∀ chunk ∈ chunks, chunk.payloadSize < UInt32.size) :
    (readChunks (bytesOf chunks)).1.map Prod.fst = chunks.map Chunk.raw
      ∧ (readChunks (bytesOf chunks)).2 = [] := by
  induction chunks with
  | nil =>
      rw [bytesOf, List.flatMap_nil, readChunks_nil]
      exact ⟨rfl, rfl⟩
  | cons chunk chunks ih =>
      obtain ⟨hchunk, hchunks⟩ := List.forall_mem_cons.mp hfits
      obtain ⟨hread, hleft⟩ := ih hchunks
      rw [bytesOf_cons, readChunks_of_readChunk? (readChunk?_bytes hchunk (bytesOf chunks)),
        List.map_cons, List.map_cons, hread]
      exact ⟨rfl, hleft⟩

/-- Whether reading some bytes to their end, and the payloads of lists behind their forms in
the same way, gives some trees of chunks. -/
inductive Recovers : List UInt8 → List Chunk → Prop where
  | done : Recovers [] []
  | data {bytes rest : List UInt8} {id : Magic} {payload : Array UInt8} {chunks : List Chunk}
      (hread : readChunk? bytes = some (⟨id, payload.toList⟩, rest))
      (hrest : Recovers rest chunks) : Recovers bytes (.data id payload :: chunks)
  | list {bytes inside rest : List UInt8} {id form : Magic} {children chunks : List Chunk}
      (hread : readChunk? bytes = some (⟨id, form.bytes ++ inside⟩, rest))
      (hinside : Recovers inside children) (hrest : Recovers rest chunks) :
      Recovers bytes (.list id form children :: chunks)

/-- Written trees are recovered: the children of a list fit if the list does. -/
theorem recovers_bytesOf :
    (chunks : List Chunk) → (∀ chunk ∈ chunks, chunk.payloadSize < UInt32.size) →
      Recovers (bytesOf chunks) chunks
  | [], _ => .done
  | .data id payload :: chunks, hfits => by
      obtain ⟨hchunk, hchunks⟩ := List.forall_mem_cons.mp hfits
      exact .data (readChunk?_bytes hchunk (bytesOf chunks)) (recovers_bytesOf chunks hchunks)
  | .list id form children :: chunks, hfits => by
      obtain ⟨hchunk, hchunks⟩ := List.forall_mem_cons.mp hfits
      have hraw : (Chunk.list id form children).raw = ⟨id, form.bytes ++ bytesOf children⟩ := by
        rw [Chunk.raw, Chunk.payload, Array.toList_append, toList_childrenBytes]
        rfl
      have hread := readChunk?_bytes hchunk (bytesOf chunks)
      rw [hraw] at hread
      have hchildren : ∀ child ∈ children, child.payloadSize < UInt32.size := by
        intro child hmem
        have hless := Chunk.payloadSize_lt_of_mem hmem
        rw [Chunk.payloadSize] at hchunk
        omega
      exact .list hread (recovers_bytesOf children hchildren) (recovers_bytesOf chunks hchunks)

/-- What it means that written chunks can be read back. -/
structure ReadsBack (chunks : List Chunk) : Prop where
  size_eq : ∀ chunk ∈ chunks, chunk.bytes.size = chunk.totalSize
  /-- Reading chunk after chunk gives each with its code and its payload. -/
  inOrder : (readChunks (bytesOf chunks)).1.map Prod.fst = chunks.map Chunk.raw
  /-- Nothing is left, and nothing more is read. -/
  exhausted : (readChunks (bytesOf chunks)).2 = [] ∧ readChunk? [] = none
  recovers : Recovers (bytesOf chunks) chunks

/-- **Written chunks are read back**, trees of any depth with payloads of odd and even sizes,
if the sizes fit 32 bits. -/
theorem readsBack_of_fits {chunks : List Chunk}
    (hfits : ∀ chunk ∈ chunks, chunk.payloadSize < 2 ^ 32) : ReadsBack chunks := by
  obtain ⟨hinOrder, hleft⟩ := readChunks_bytesOf hfits
  exact {
    size_eq := fun chunk _ => chunk.size_bytes
    inOrder := hinOrder
    exhausted := ⟨hleft, rfl⟩
    recovers := recovers_bytesOf chunks hfits }

/-- A list in a list, between chunks of odd sizes. -/
def nestedChunks : List Chunk := [
  .data (.ofChars 'o' 'd' 'd' ' ') #[9],
  .riff (.ofChars 's' 'f' 'b' 'k') [
    .listOf (.ofChars 'I' 'N' 'F' 'O') [.data (.ofChars 'a' 'b' 'c' 'd') #[1, 2, 3]],
    .data (.ofChars 'n' 'e' 'x' 't') #[]]]

theorem readsBack_nestedChunks :
    (∀ chunk ∈ nestedChunks, chunk.payloadSize < 2 ^ 32) ∧ ReadsBack nestedChunks := by
  have hfits : ∀ chunk ∈ nestedChunks, chunk.payloadSize < 2 ^ 32 := by decide
  exact ⟨hfits, readsBack_of_fits hfits⟩

end ConsoleSound.Riff

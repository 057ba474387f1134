import ConsoleSound.ByteOrder
/-! # RIFF chunks

A RIFF file is a tree of chunks. A chunk is a code, the size of its payload and the
payload, padded to an even length; the pad counts in the chunk around it but not in
its own size. The payload of a list is a form code followed by chunks. -/

namespace ConsoleSound.Riff

/-- A 16-bit number, of which only the low bits are kept. -/
def word (value : Nat) : List UInt8 := ByteOrder.little.spell 2 value

/-- A 32-bit number, of which only the low bits are kept. -/
def long (value : Nat) : List UInt8 := ByteOrder.little.spell 4 value

/-- A chunk of data, or a list of chunks under a form code. -/
inductive Chunk where
  | data (id : Magic) (payload : Array UInt8)
  | list (id form : Magic) (children : List Chunk)
  deriving Repr, Inhabited

/-- The pad after a payload of some size. -/
def pad (size : Nat) : Array UInt8 := if size % 2 = 1 then #[0] else #[]

/-- A code, the size that a payload is to have, the payload and its pad. -/
def frame (id : Magic) (size : Nat) (payload : Array UInt8) : Array UInt8 :=
  id.bytes.toArray ++ ByteOrder.little.spell 4 size ++ payload ++ pad size

namespace Chunk

/-- A list of chunks. -/
def listOf (form : Magic) (children : List Chunk) : Chunk :=
  list (.ofChars 'L' 'I' 'S' 'T') form children

/-- The list of chunks that makes a file. -/
def riff (form : Magic) (children : List Chunk) : Chunk :=
  list (.ofChars 'R' 'I' 'F' 'F') form children

/-- A chunk of text, ended by a zero and padded to an even length. -/
def string (id : Magic) (text : String) : Chunk :=
  let bytes := text.toUTF8.data.push 0
  data id (bytes ++ pad bytes.size)

mutual

/-- The size of a chunk's payload. -/
def payloadSize : Chunk → Nat
  | data _ payload => payload.size
  | list _ _ children => 4 + childrenSize children

/-- The size of some chunks with their codes, sizes and pads. -/
def childrenSize : List Chunk → Nat
  | [] => 0
  | child :: children => 8 + payloadSize child + payloadSize child % 2 + childrenSize children

end

/-- The size of a chunk with its code, size and pad. -/
def totalSize (chunk : Chunk) : Nat := 8 + chunk.payloadSize + chunk.payloadSize % 2

mutual

/-- The bytes of a chunk. The size in front is the one that is added up. -/
def bytes : Chunk → Array UInt8
  | chunk@(data id payload) => frame id chunk.payloadSize payload
  | chunk@(list id form children) =>
    frame id chunk.payloadSize (form.bytes.toArray ++ childrenBytes children)

/-- The bytes of some chunks, one after the other. -/
def childrenBytes : List Chunk → Array UInt8
  | [] => #[]
  | child :: children => bytes child ++ childrenBytes children

end

end Chunk

/-! ## Reading -/

/-- A chunk as it is found in a file: its code and its payload. -/
structure RawChunk where
  id : Magic
  payload : List UInt8
  deriving DecidableEq, Repr

/-- The chunk at the front of some bytes and the bytes after it. A pad that is cut
off is not missed. -/
def readChunk? : List UInt8 → Option (RawChunk × List UInt8)
  | a :: b :: c :: d :: s :: t :: u :: v :: rest =>
    let size := ByteOrder.little.value [s, t, u, v]
    if size ≤ rest.length then
      some (⟨⟨a, b, c, d⟩, rest.take size⟩, rest.drop (size + size % 2))
    else none
  | _ => none

/-- Reading a chunk takes eight bytes at least. -/
theorem readChunk?_length {bytes rest : List UInt8} {chunk : RawChunk}
    (h : readChunk? bytes = some (chunk, rest)) : rest.length < bytes.length := by
  unfold readChunk? at h
  split at h
  · dsimp only at h
    split at h
    · simp only [Option.some.injEq, Prod.mk.injEq] at h
      rw [← h.2, List.length_drop]
      simp only [List.length_cons]
      omega
    · exact absurd h (by simp)
  · exact absurd h (by simp)

/-- The chunks at the front of some bytes, each with the number of bytes after it, and
the bytes that are no chunk. -/
def readChunks (bytes : List UInt8) : List (RawChunk × Nat) × List UInt8 :=
  match _h : readChunk? bytes with
  | none => ([], bytes)
  | some (chunk, rest) =>
    let (chunks, left) := readChunks rest
    ((chunk, rest.length) :: chunks, left)
termination_by bytes.length
decreasing_by exact readChunk?_length _h

/-- The bytes inside a chunk that are chunks themselves, if it is a list. -/
def RawChunk.inside? (chunk : RawChunk) : Option (List UInt8) :=
  let isList := chunk.id = .ofChars 'R' 'I' 'F' 'F' ∨ chunk.id = .ofChars 'L' 'I' 'S' 'T'
  if isList ∧ 4 ≤ chunk.payload.length then some (chunk.payload.drop 4) else none

end ConsoleSound.Riff

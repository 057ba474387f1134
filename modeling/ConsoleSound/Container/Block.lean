import ConsoleSound.Container.Header
/-! # Blocks

A container is divided into blocks, each headed by a code and its own length.
The file header is followed by the position and size of every block. -/

namespace ConsoleSound.Container

/-- Where a block lies in its file. -/
structure Block where
  magic : Magic
  /-- Position of the block's header. -/
  start : Nat
  /-- Length of the block, header included. -/
  length : Nat
  deriving DecidableEq, Repr

namespace Block

/-- The bytes that a block header takes. -/
def headerSize : Nat := 8

/-- The block at `start`, which has to bear the code `magic` and lie inside the file. -/
def read (view : View) (start : Nat) (magic : Magic) : Except Error Block := do
  let found ← view.magic start
  if found ≠ magic then
    throw (.badMagic magic found)
  let length ← view.offset (start + 4)
  if length < headerSize then
    malformed start .shortBlock
  else if view.data.size < start + length then
    malformed start (.blockOverrun found)
  else
    return { magic := found, start, length }

/-- The block whose position is stored at `entry` of the file header. -/
def locate (view : View) (entry : Nat) (magic : Magic) : Except Error Block := do
  read view (← view.offset entry) magic

/-- The position right after the header of a block. -/
def base (block : Block) : Nat := block.start + headerSize

/-- The position right after a block. -/
def stop (block : Block) : Nat := block.start + block.length

/-- The contents of a block. -/
def body (block : Block) (view : View) : Except Error Bytes :=
  view.bytes block.base (block.length - headerSize)

end Block

end ConsoleSound.Container

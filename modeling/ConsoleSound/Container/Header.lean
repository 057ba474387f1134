import ConsoleSound.View
/-! # File headers

Every container starts with sixteen bytes: its code, a byte order mark that
governs all later numbers, and four numbers. -/

namespace ConsoleSound.Container

/-- The first sixteen bytes of a container. -/
structure Header where
  magic : Magic
  order : ByteOrder
  version : UInt16
  fileSize : UInt32
  headerSize : UInt16
  blockCount : UInt16
  deriving DecidableEq, Repr

namespace Header

/-- The bytes that a header takes. -/
def size : Nat := 16

/-- The header at the front of some data. -/
def read (data : Bytes) : Except Error Header :=
  if h : size ≤ data.size then do
    have : 16 ≤ data.size := h
    let order ← ByteOrder.ofMark data[4] data[5]
    let view : View := ⟨data, order⟩
    let version ← view.u16 6
    let fileSize ← view.u32 8
    let headerSize ← view.u16 12
    let blockCount ← view.u16 14
    let magic := ⟨data[0], data[1], data[2], data[3]⟩
    return { magic, order, version, fileSize, headerSize, blockCount }
  else malformed 0 .truncatedHeader

/-- The high byte of the version. -/
def major (header : Header) : Nat := header.version.toNat / 256

/-- The low byte of the version. -/
def minor (header : Header) : Nat := header.version.toNat % 256

end Header

/-- The header of a container that has to bear the code `magic`, and a view of the container. -/
def openAs (data : Bytes) (magic : Magic) : Except Error (Header × View) := do
  let header ← Header.read data
  if header.magic = magic then
    return (header, ⟨data, header.order⟩)
  else
    .error (.badMagic magic header.magic)

end ConsoleSound.Container

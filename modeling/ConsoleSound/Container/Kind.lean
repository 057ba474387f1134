import ConsoleSound.View
/-! # Kinds of container

A container is told by the code at its front, and the code in lower case makes
its file extension. -/

namespace ConsoleSound.Container

/-- The kinds of container. -/
inductive Kind where
  | archive
  | stream
  | wave
  | waveArchive
  | sequence
  | bank
  | waveSound
  deriving DecidableEq, Repr

namespace Kind

/-- Every kind. -/
def all : List Kind := [archive, stream, wave, waveArchive, sequence, bank, waveSound]

/-- The code at the front of a container. -/
def magic : Kind → Magic
  | archive => .ofChars 'R' 'S' 'A' 'R'
  | stream => .ofChars 'R' 'S' 'T' 'M'
  | wave => .ofChars 'R' 'W' 'A' 'V'
  | waveArchive => .ofChars 'R' 'W' 'A' 'R'
  | sequence => .ofChars 'R' 'S' 'E' 'Q'
  | bank => .ofChars 'R' 'B' 'N' 'K'
  | waveSound => .ofChars 'R' 'W' 'S' 'D'

/-- The kind that a code names. -/
def ofMagic? (code : Magic) : Option Kind := all.find? fun kind => kind.magic = code

/-- The kind of the container that starts with some data. -/
def detect? (data : Bytes) : Option Kind := (Magic.front? data).bind ofMagic?

/-- The file extension of a kind. -/
def extension (kind : Kind) : String := "b" ++ kind.magic.lowerText

/-- The code of a kind names that kind and no other. -/
theorem ofMagic?_magic (kind : Kind) : ofMagic? kind.magic = some kind := by
  cases kind <;> decide

end Kind

/-- The file extension for any data: the code at its front if that is letters and digits. -/
def extensionFor (data : Bytes) : String :=
  match Magic.front? data with
  | some code => if code.bytes.all Text.isAlphanumeric then "b" ++ code.lowerText else "bin"
  | none => "bin"

end ConsoleSound.Container

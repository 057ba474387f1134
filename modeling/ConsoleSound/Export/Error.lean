import ConsoleSound.Container.Kind
import ConsoleSound.Sequence.Error
import ConsoleSound.SoundFont.Error
/-! # How a computation comes out

An export fails when a container cannot be read or converted, or when there is nothing
to export. An error can say in which part of a container it arose. A conversion may also go
on without end; then there is neither a value nor an error, and whatever stands behind it is
never done. -/

namespace ConsoleSound

/-- A part of a container that is exported by itself. -/
inductive ExportPart where
  | wave (index : Nat)
  | bankWave (index : Nat)
  | track (index : Nat)
  deriving DecidableEq, Repr

/-- The name of a part. -/
def ExportPart.name : ExportPart → String
  | wave index => s!"wave {index}"
  | bankWave index => s!"bank wave {index}"
  | track index => s!"track {index}"

/-- Why an export fails. -/
inductive ExportError where
  | notContainer (input : String)
  | unknownContainer
  | notArchive (input : String)
  | noTracks (input : String)
  | wavesNeeded
  | undecodable (kind : Container.Kind)
  | container (error : Error)
  | sequence (error : SequenceError)
  | soundFont (error : SoundFontError)
  | within (part : ExportPart) (error : ExportError)
  deriving DecidableEq, Repr

namespace ExportError

/-- The wording of an error. -/
def message : ExportError → String
  | notContainer input => s!"{input} is not a known container"
  | unknownContainer => "not a known container"
  | notArchive input => s!"{input} is not an archive"
  | noTracks input => s!"{input} has no tracks"
  | wavesNeeded => "decoding a bank needs its wave data (--waves)"
  | undecodable kind => s!"{kind.magic.text} files cannot be decoded"
  | container error => error.message
  | sequence error => error.message
  | soundFont error => error.message
  | within part error => s!"{part.name}: {error.message}"

end ExportError

instance : MonadLift (Except Error) (Except ExportError) := ⟨Except.mapError .container⟩

instance : MonadLift (Except SequenceError) (Except ExportError) := ⟨Except.mapError .sequence⟩

instance : MonadLift (Except SoundFontError) (Except ExportError) := ⟨Except.mapError .soundFont⟩

/-- How a computation comes out: with a value, with an error, or never. -/
inductive Outcome (α : Type) where
  | ok (value : α)
  | error (error : ExportError)
  | endless
  deriving DecidableEq, Repr

namespace Outcome

/-- How a computation comes out that always comes to an end. -/
def ofExcept {α : Type} : Except ExportError α → Outcome α
  | .ok value => .ok value
  | .error reason => .error reason

/-- How a computation comes out that comes to an end only if it has a result. -/
def ofOption {α : Type} : Option α → Outcome α
  | some value => .ok value
  | none => .endless

/-- One computation after another, unless the first fails or never ends. -/
protected def bind {α β : Type} (first : Outcome α) (next : α → Outcome β) : Outcome β :=
  match first with
  | .ok value => next value
  | .error reason => .error reason
  | .endless => .endless

instance : Monad Outcome where
  pure := .ok
  bind := Outcome.bind

instance : MonadLift (Except ExportError) Outcome := ⟨ofExcept⟩

end Outcome

end ConsoleSound

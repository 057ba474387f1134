import ConsoleSound.Error
/-! # Why a SoundFont cannot be made -/

namespace ConsoleSound

/-- What a SoundFont holds a limited number of. -/
inductive Countable where
  | programs
  | waves
  | zones
  | generators
  | sampleFrames
  deriving DecidableEq, Repr

/-- The name of what is counted. -/
def Countable.name : Countable → String
  | programs => "programs"
  | waves => "waves"
  | zones => "zones"
  | generators => "generators"
  | sampleFrames => "sample frames"

/-- Why a SoundFont cannot be made. -/
inductive SoundFontError where
  | missingWave (program : Nat) (wave : Int32)
  | tooMany (what : Countable) (count : Nat)
  | container (error : Error)
  deriving DecidableEq, Repr

/-- The wording of an error. -/
def SoundFontError.message : SoundFontError → String
  | missingWave program wave =>
    s!"program {program} plays wave {wave.toInt}, which was not supplied"
  | tooMany what count => s!"{what.name} does not fit in a SoundFont ({count})"
  | container error => error.message

end ConsoleSound

import ConsoleSound.Export.Extraction
import ConsoleSound.Listing
/-! # The command line

The first word names a command, and the others are its input and its options. An option
that takes a value takes the next word, or what follows an equals sign. -/

namespace ConsoleSound

/-- Why a command line is refused. -/
inductive UsageError where
  | noCommand
  | unknownCommand (name : String)
  | unknownOption (name : String)
  | valueNeeded (option : String)
  | unknownStyle (name : String)
  | oneInputNeeded
  deriving DecidableEq, Repr

/-- The wording of an error. -/
def UsageError.message : UsageError → String
  | noCommand => "usage: rsnd <list|decode|extract> <input> [options]"
  | unknownCommand name => s!"unrecognized subcommand {name}"
  | unknownOption name => s!"unexpected argument {name}"
  | valueNeeded option => s!"a value is required for {option}"
  | unknownStyle name => s!"invalid style {name}, expected groups or sounds"
  | oneInputNeeded => "exactly one input is required"

/-- The words after a command, by what they are. -/
structure Arguments where
  inputs : List String
  flags : List String
  values : List (String × String)
  deriving DecidableEq, Repr

namespace Arguments

/-- The long form of an option. -/
def longForm (option : String) : String := if option = "-o" then "--output" else option

/-- An option and the value that follows an equals sign in the same word, if one does. -/
def splitValue (word : String) : String × Option String :=
  match word.splitOn "=" with
  | option :: value :: more => (option, some ("=".intercalate (value :: more)))
  | _ => (word, none)

/-- The words of a command that takes some flags and some options with values. -/
def parse (flags valued : List String) : List String → Except UsageError Arguments
  | [] => .ok ⟨[], [], []⟩
  | word :: words =>
    if word.startsWith "-" then
      let (option, value?) := splitValue word
      let option := longForm option
      if option ∈ flags ∧ value?.isNone then do
        let rest ← parse flags valued words
        return { rest with flags := option :: rest.flags }
      else if option ∈ valued then
        match value?, words with
        | some value, words => do
          let rest ← parse flags valued words
          return { rest with values := (option, value) :: rest.values }
        | none, value :: words => do
          let rest ← parse flags valued words
          return { rest with values := (option, value) :: rest.values }
        | none, [] => .error (.valueNeeded option)
      else .error (.unknownOption word)
    else do
      let rest ← parse flags valued words
      return { rest with inputs := word :: rest.inputs }

/-- Whether a flag is set. -/
def has (arguments : Arguments) (flag : String) : Bool := arguments.flags.contains flag

/-- The value of an option. -/
def value? (arguments : Arguments) (option : String) : Option String :=
  arguments.values.lookup option

/-- The only input. -/
def input (arguments : Arguments) : Except UsageError String :=
  match arguments.inputs with
  | [input] => .ok input
  | _ => .error .oneInputNeeded

/-- What becomes of notes that are struck while they sound. -/
def mode (arguments : Arguments) : NoteMode :=
  if arguments.has "--continue-notes" then .continueNote else .retrigger

/-- The layout of an extracted archive. -/
def style (arguments : Arguments) : Except UsageError ExtractStyle :=
  match arguments.value? "--style" with
  | none | some "groups" => .ok .groups
  | some "sounds" => .ok .sounds
  | some name => .error (.unknownStyle name)

end Arguments

/-- What a command line asks for. -/
inductive Command where
  | list (input : String) (options : ListOptions)
  | decode (request : DecodeRequest) (waves? : Option String)
  | extract (request : ExtractRequest)
  deriving DecidableEq, Repr

namespace Command

/-- The command `list`. -/
def parseList (words : List String) : Except UsageError Command := do
  let arguments ← Arguments.parse ["--groups", "--banks", "--sounds"] [] words
  let input ← arguments.input
  return list input {
    groups := arguments.has "--groups"
    banks := arguments.has "--banks"
    sounds := arguments.has "--sounds" }

/-- The command `decode`. -/
def parseDecode (words : List String) : Except UsageError Command := do
  let arguments ← Arguments.parse ["--continue-notes"] ["--output", "--label", "--waves"] words
  let input ← arguments.input
  let request : DecodeRequest := {
    input
    output? := arguments.value? "--output"
    label? := arguments.value? "--label"
    mode := arguments.mode }
  return decode request (arguments.value? "--waves")

/-- The command `extract`. -/
def parseExtract (words : List String) : Except UsageError Command := do
  let arguments ← Arguments.parse ["--decode", "--extract-rwar", "--continue-notes"]
    ["--output", "--style"] words
  let input ← arguments.input
  let style ← arguments.style
  return extract {
    input
    output? := arguments.value? "--output"
    style
    decode := arguments.has "--decode"
    splitWaves := arguments.has "--extract-rwar"
    mode := arguments.mode }

/-- The command that the words of a command line spell. -/
def parse : List String → Except UsageError Command
  | [] => .error .noCommand
  | "list" :: words => parseList words
  | "decode" :: words => parseDecode words
  | "extract" :: words => parseExtract words
  | name :: _ => .error (.unknownCommand name)

end Command

end ConsoleSound

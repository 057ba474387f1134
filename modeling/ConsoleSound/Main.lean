import ConsoleSound.CommandLine
/-! # The program

The program reads its input, performs the actions of the export that is asked for, and
prints errors. -/

namespace ConsoleSound.Main

/-- The contents of a file. -/
def readFile (path : String) : IO Bytes := do
  return (← IO.FS.readBinFile path).data

/-- Performs one action. -/
def perform : Action → IO Unit
  | .makeDirectory path => IO.FS.createDirAll path.text
  | .writeFile path contents => IO.FS.writeBinFile path.text ⟨contents⟩
  | .report message => IO.eprintln message

/-- Prints an error. -/
def fail (message : String) : IO UInt32 := do
  IO.eprintln s!"Error: {message}"
  return 1

/-- Performs an export. -/
def runExport (exported : Export Unit) : IO UInt32 := do
  exported.actions.forM perform
  match exported.result with
  | .ok () => return 0
  | .error error => fail error.message
  -- not reached, for the actions above are those of an export that has ended
  | .endless => return 0

/-- Prints a listing. -/
def runListing (listing : Listing) : IO UInt32 := do
  IO.print listing.text
  match listing.error? with
  | none => return 0
  | some error => fail error.message

/-- Carries out a command. -/
def run : Command → IO UInt32
  | .list input options => do runListing (.ofFile options (← readFile input))
  | .decode request waves? => do
    let file ← readFile request.input
    let needsWaves := Container.Kind.detect? file == some .bank
    let waveData? ← (waves?.filter fun _ => needsWaves).mapM readFile
    runExport (request.decode file waveData?)
  | .extract request => do runExport (request.extract (← readFile request.input))

end ConsoleSound.Main

/-- The program. -/
def main (arguments : List String) : IO UInt32 := do
  match ConsoleSound.Command.parse arguments with
  | .error error => ConsoleSound.Main.fail error.message
  | .ok command => ConsoleSound.Main.run command

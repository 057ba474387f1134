import ConsoleSound.Magic
import ConsoleSound.Text.Hex
/-! # Why a container cannot be read

Every failure of a reader is one of the causes below. A malformed container
names the position of the fault and the fault itself; the wording of each cause
stands in one `message` function. -/

namespace ConsoleSound

/-- What is wrong with the bytes at a position of a malformed container. -/
inductive Fault where
  /-- `length` bytes are asked for, of which the buffer of `size` bytes lacks some. -/
  | readPastEnd (length size : Nat)
  | stringPastEnd
  | unterminatedString
  | tableOverflow
  | tableTooLong (entries : Nat)
  | unknownReference (kind : UInt8)
  | nullReference (what : String)
  | missingMagic
  | truncatedHeader
  | shortBlock
  | blockOverrun (magic : Magic)
  | outputFull (samples : Nat)
  | shortSamples (needed : Nat)
  | channelPastEnd (channel : Nat)
  | deepRegion
  | crowdedBlock
  | streamOverrun (available : Nat)
  | sampleCountOverflow
  | missingAdpcm (channel : UInt8)
  | unknownTrackChannel (channel channels : UInt8)
  | codeOutsideBlock
  deriving DecidableEq, Repr

/-- A variant of the formats that no reader knows. -/
inductive Unsupported where
  | sampleFormat (code : UInt8)
  | dataLocation (code : UInt8)
  | absoluteData
  | trackInfo (code : UInt8)
  deriving DecidableEq, Repr

/-- Something asked for by number that a container does not hold. -/
inductive Missing where
  | wave (index : Nat)
  | embeddedWave (index : Nat)
  | channel (index : UInt8)
  | track (index : Nat)
  | program (index : Nat)
  | waveSound (index : Nat)
  | note (note sound : Nat)
  | sound (index : Nat)
  | group (index : Nat)
  | file (index : Nat)
  | groupItem (item group : Nat)
  | externalGroup (group : Nat)
  | externalFile (file : Nat) (path : String)
  | fileGroup (file : Nat)
  deriving DecidableEq, Repr

/-- Why a container, or something in it, cannot be read. -/
inductive Error where
  | malformed (position : Nat) (fault : Fault)
  | badMagic (expected found : Magic)
  | badByteOrder (first second : UInt8)
  | unsupported (variant : Unsupported)
  | keyOutOfDomain (key min max : UInt8)
  | notFound (what : Missing)
  deriving DecidableEq, Repr

/-- The wording of a fault. -/
def Fault.message : Fault → String
  | readPastEnd length size => s!"{length} byte read past end of {size} byte buffer"
  | stringPastEnd => "string starts past end of buffer"
  | unterminatedString => "unterminated string"
  | tableOverflow => "table count overflows"
  | tableTooLong entries => s!"table of {entries} entries does not fit in buffer"
  | unknownReference kind => s!"unknown reference kind {kind.toNat}"
  | nullReference what => s!"null reference to {what}"
  | missingMagic => "missing magic"
  | truncatedHeader => "file header truncated"
  | shortBlock => "block shorter than its header"
  | blockOverrun magic => s!"{magic.text} block overruns the file"
  | outputFull samples => s!"{samples} samples do not fit the output buffer"
  | shortSamples needed => s!"sample block needs {needed} bytes"
  | channelPastEnd channel => s!"channel {channel} data starts past wave data"
  | deepRegion => "region tree nests too deeply"
  | crowdedBlock => "stream block holds more samples than bytes"
  | streamOverrun available => s!"stream blocks overrun {available} bytes of sample data"
  | sampleCountOverflow => "stream sample count overflows"
  | missingAdpcm channel => s!"ADPCM channel {channel.toNat} has no parameters"
  | unknownTrackChannel channel channels =>
    s!"track refers to channel {channel.toNat} of {channels.toNat}"
  | codeOutsideBlock => "sequence data offset outside its block"

/-- The wording of an unknown variant. -/
def Unsupported.message : Unsupported → String
  | sampleFormat code => s!"sample format {code.toNat}"
  | dataLocation code => s!"wave data location type {code.toNat}"
  | absoluteData => "wave data at an absolute address"
  | trackInfo code => s!"track info type {code.toNat}"

/-- The name of something that is not there. -/
def Missing.message : Missing → String
  | wave index => s!"wave {index}"
  | embeddedWave index => s!"embedded wave {index}"
  | channel index => s!"channel {index.toNat}"
  | track index => s!"track {index}"
  | program index => s!"program {index}"
  | waveSound index => s!"wave sound {index}"
  | note index owner => s!"note {index} of wave sound {owner}"
  | sound index => s!"sound {index}"
  | group index => s!"group {index}"
  | file index => s!"file {index}"
  | groupItem item index => s!"item {item} of group {index}"
  | externalGroup index => s!"internal data of external group {index}"
  | externalFile index path => s!"file {index} is external ({path})"
  | fileGroup index => s!"group holding file {index}"

/-- The wording of an error. -/
def Error.message : Error → String
  | malformed position fault => s!"malformed container at 0x{Text.hex position}: {fault.message}"
  | badMagic expected found => s!"bad magic: expected {expected.text}, found {found.text}"
  | badByteOrder first second =>
    s!"invalid byte order mark [{Text.hexPadded 2 first.toNat}, {Text.hexPadded 2 second.toNat}]"
  | unsupported variant => s!"unsupported variant: {variant.message}"
  | keyOutOfDomain key min max =>
    s!"key {key.toNat} is outside index region {min.toNat}..{max.toNat}"
  | notFound what => s!"{what.message} not found"

/-- A failure at a position of the container. -/
def malformed {α : Type} (position : Nat) (fault : Fault) : Except Error α :=
  .error (.malformed position fault)

/-- The failure to find something. -/
def notFound {α : Type} (what : Missing) : Except Error α := .error (.notFound what)

/-- The four-character code that some data starts with. -/
def Magic.ofFront (data : Array UInt8) : Except Error Magic :=
  match Magic.front? data with
  | some magic => .ok magic
  | none => malformed 0 .missingMagic

end ConsoleSound

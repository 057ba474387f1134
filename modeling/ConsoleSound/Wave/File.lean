import ConsoleSound.Wave.Info
import ConsoleSound.Container.Block
import ConsoleSound.Container.Kind
/-! # Waves

A wave file holds one wave record and the samples of its channels. -/

namespace ConsoleSound

/-- A file that holds one wave. -/
structure Wave where
  header : Container.Header
  info : WaveInfo
  /-- The block of the samples. -/
  data : Container.Block
  view : View
  deriving DecidableEq, Repr

namespace Wave

/-- The wave that a file holds. -/
def read (file : Bytes) : Except Error Wave := do
  let (header, view) ← Container.openAs file Container.Kind.wave.magic
  let infoBlock ← Container.Block.locate view 0x10 (.ofChars 'I' 'N' 'F' 'O')
  let data ← Container.Block.locate view 0x18 (.ofChars 'D' 'A' 'T' 'A')
  let info ← WaveInfo.read view infoBlock.base
  return { header, info, data, view }

/-- The first version whose ADPCM positions count nibbles. -/
def nibbleVersion : UInt16 := 0x0102

/-- What the stored ADPCM positions count. -/
def addressing (wave : Wave) : Addressing :=
  if wave.header.version < nibbleVersion then .byte else .nibble

/-- The number of samples per channel. That of an ADPCM wave follows from the
length of its data block. -/
def sampleCount (wave : Wave) : UInt32 :=
  match wave.info.format with
  | .adpcm => bytesToSamples (UInt32.ofNat wave.data.length) wave.info.channelCount
  | _ => wave.info.loopEnd

/-- The samples of a wave. -/
def decode (wave : Wave) : Except Error Audio := do
  let body ← wave.data.body wave.view
  wave.info.decode wave.view.order body 0 wave.sampleCount.toNat wave.addressing

end Wave

end ConsoleSound

import ConsoleSound.SoundFont.Envelope
import ConsoleSound.Instrument.Region
import ConsoleSound.Sample.Audio
import ConsoleSound.Riff
/-! # Tables of a SoundFont

A SoundFont names its presets, instruments and samples in tables of fixed-size
records that refer to one another by number: a preset to its bag, a bag to its first
generator, a generator to an instrument or a sample. Every table ends with a terminal
record that closes the last range. -/

namespace ConsoleSound.SoundFont

open Riff (word long)

/-! ## Records -/

/-- A name in a field of twenty bytes, the last of which is zero. -/
def nameField (name : String) : List UInt8 :=
  let bytes := name.toUTF8.data.toList.take 19
  bytes ++ List.replicate (20 - bytes.length) 0

/-- What a generator sets. -/
inductive Operator where
  | reverbSend
  | pan
  | attack
  | hold
  | decay
  | sustain
  | release
  | instrument
  | keyRange
  | velocityRange
  | attenuation
  | sample
  | sampleModes
  | rootKey
  | terminal
  deriving DecidableEq, Repr

/-- The number of what a generator sets. -/
def Operator.code : Operator → Nat
  | reverbSend => 16
  | pan => 17
  | attack => 34
  | hold => 35
  | decay => 36
  | sustain => 37
  | release => 38
  | instrument => 41
  | keyRange => 43
  | velocityRange => 44
  | attenuation => 48
  | sample => 53
  | sampleModes => 54
  | rootKey => 58
  | terminal => 0

/-- A generator: what it sets, and two bytes to set it to. -/
structure Generator where
  operator : Operator
  low : UInt8
  high : UInt8
  deriving DecidableEq, Repr

namespace Generator

/-- A generator that sets a range. -/
def range (operator : Operator) (lo hi : UInt8) : Generator := ⟨operator, lo, hi⟩

/-- A generator that sets a number, of which only the low bits are kept. -/
def number (operator : Operator) (value : Nat) : Generator :=
  ⟨operator, UInt8.ofNat (value % 256), UInt8.ofNat (value / 256 % 256)⟩

/-- A generator that sets a signed number. -/
def amount (operator : Operator) (value : Int16) : Generator :=
  number operator value.toUInt16.toNat

/-- The generator that ends a table. -/
def terminal : Generator := ⟨.terminal, 0, 0⟩

/-- The bytes of a generator. -/
def bytes (generator : Generator) : List UInt8 :=
  word generator.operator.code ++ [generator.low, generator.high]

end Generator

/-- The bytes of a bag, which names its first generator and no modulator. -/
def bag (firstGenerator : Nat) : List UInt8 := word firstGenerator ++ word 0

/-- The empty table of modulators, which holds the terminal record alone. -/
def modulators : List UInt8 := List.replicate 10 0

/-! ## Presets -/

/-- The bytes of a preset: its name, its number, bank zero, its bag, and twelve unused bytes. -/
def preset (name : String) (number bagIndex : Nat) : List UInt8 :=
  nameField name ++ word number ++ word 0 ++ word bagIndex ++ List.replicate 12 0

/-- The name of an instrument and of its preset. -/
def instrumentName (index : Nat) : String := s!"instr{index}"

/-- One preset for each of `count` instruments. -/
def presets (count : Nat) : List UInt8 :=
  ((List.range count).flatMap fun index => preset (instrumentName index) index index)
    ++ preset "EOP" 0 count

/-- The bag of each preset; each has two generators. -/
def presetBags (count : Nat) : List UInt8 :=
  (List.range (count + 1)).flatMap fun index => bag (index * 2)

/-- The generators of one preset: no reverb, and its instrument. -/
def presetGenerators (index : Nat) : List Generator :=
  [.number .reverbSend 0, .number .instrument index]

/-- The generators of all presets. -/
def allPresetGenerators (count : Nat) : List Generator :=
  (List.range count).flatMap presetGenerators ++ [.terminal]

/-! ## Instruments -/

/-- The generators of a zone. The velocity range is left out when its top is zero. -/
def zoneGenerators (waves : Array Audio) (zone : Zone) : List Generator :=
  let params := zone.params
  let wave := params.waveIndex.toInt.toNat
  let looped := match waves[wave]? with
    | some audio => audio.looped
    | none => false
  let envelope := Envelope.ofParams params
  [.range .keyRange zone.keyLo zone.keyHi]
    ++ (if zone.velocityHi = 0 then [] else [.range .velocityRange zone.velocityLo zone.velocityHi])
    ++ [.amount .attenuation (attenuation params.volume),
      .amount .pan (panAmount params.pan),
      .number .sampleModes (if looped then 1 else 0),
      .number .rootKey params.originalKey.toNat,
      .amount .attack (timecents envelope.attack),
      .amount .hold (timecents envelope.hold),
      .amount .decay (timecents envelope.decay),
      .amount .sustain envelope.sustainAttenuation,
      .amount .release (timecents envelope.release),
      .number .sample wave]

/-- The number of generators that a zone has. -/
def zoneSize (zone : Zone) : Nat := if zone.velocityHi = 0 then 11 else 12

/-- The bytes of an instrument: its name and its first bag. -/
def instrument (name : String) (bagIndex : Nat) : List UInt8 := nameField name ++ word bagIndex

/-- The instruments of programs from number `index` on, the first bag being `bagIndex`. -/
def instrumentsFrom : (index bagIndex : Nat) → List (List Zone) → List UInt8
  | _, bagIndex, [] => instrument "EOI" bagIndex
  | index, bagIndex, zones :: programs =>
    instrument (instrumentName index) bagIndex
      ++ instrumentsFrom (index + 1) (bagIndex + zones.length) programs

/-- One instrument for each program. -/
def instruments (programs : List (List Zone)) : List UInt8 := instrumentsFrom 0 0 programs

/-- The bags of zones of which the first has the generator of number `generator` first. -/
def bagsFrom : (generator : Nat) → List Zone → List UInt8
  | generator, [] => bag generator
  | generator, zone :: zones => bag generator ++ bagsFrom (generator + zoneSize zone) zones

/-- One bag for each zone of each program. -/
def instrumentBags (programs : List (List Zone)) : List UInt8 := bagsFrom 0 programs.flatten

/-- The generators of every zone of each program. -/
def instrumentGenerators (programs : List (List Zone)) (waves : Array Audio) : List Generator :=
  programs.flatten.flatMap (zoneGenerators waves) ++ [.terminal]

end ConsoleSound.SoundFont

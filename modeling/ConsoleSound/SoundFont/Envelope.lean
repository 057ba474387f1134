import ConsoleSound.Instrument.Params
/-! # Volume envelopes

The console codes the stages of an envelope in seven bits each. The codes stand for
measured rates and levels, which are turned into seconds and then into the units of a
SoundFont. -/

namespace ConsoleSound.SoundFont

/-- The quietest level of an envelope, in tenths of a decibel. -/
def quietest : Float := -904.0

/-- The time that stands for a stage without length. -/
def instant : Int16 := -32768

/-- The attenuation of silence, in centibels. -/
def silence : Int16 := 1440

/-- What an attack multiplies the level by every millisecond, for each code, in
ten-millionths. -/
def attackRates : Array Nat := #[
  9992175, 9984326, 9976452, 9968553, 9960629, 9952679, 9944704, 9936704,
  9928677, 9920625, 9912546, 9904441, 9896309, 9888151, 9879965, 9871752,
  9863512, 9855244, 9846949, 9838625, 9830273, 9821893, 9813483, 9805045,
  9796578, 9788081, 9779555, 9770999, 9762413, 9753797, 9745150, 9736472,
  9727763, 9719023, 9710251, 9701448, 9692612, 9683744, 9674844, 9665910,
  9656944, 9647944, 9638910, 9629842, 9620740, 9611604, 9602433, 9593226,
  9583984, 9574706, 9565392, 9556042, 9546655, 9537231, 9527769, 9518270,
  9508732, 9499157, 9489542, 9479888, 9470195, 9460462, 9450689, 9440875,
  9431020, 9421124, 9411186, 9401206, 9391184, 9381118, 9371009, 9360856,
  9350659, 9340417, 9330131, 9319798, 9309420, 9298995, 9288523, 9278004,
  9267436, 9256821, 9246156, 9235442, 9224678, 9213864, 9202998, 9192081,
  9181112, 9170091, 9159016, 9147887, 9136703, 9125465, 9114171, 9102821,
  9091414, 9079949, 9068427, 9056845, 9045204, 9033502, 9021740, 9009916,
  8998029, 8986080, 8974066, 8961988, 8949844, 8900599, 8824622, 8759247,
  8691861, 8636406, 8535788, 8430189, 8286135, 8149099, 8002172, 7780663,
  7554750, 7242125, 6828239, 6329169, 5592135, 4551411, 3298770, 0]

/-- The levels that are sustained, for each code, in tenths of a decibel. -/
def sustainLevels : Array Int := #[
  -723, -722, -721, -651, -601, -562, -530, -503, -480, -460, -442, -425, -410, -396, -383, -371,
  -360, -349, -339, -330, -321, -313, -305, -297, -289, -282, -276, -269, -263, -257, -251, -245,
  -239, -234, -229, -224, -219, -214, -210, -205, -201, -196, -192, -188, -184, -180, -176, -173,
  -169, -165, -162, -158, -155, -152, -149, -145, -142, -139, -136, -133, -130, -127, -125, -122,
  -119, -116, -114, -111, -109, -106, -103, -101, -99, -96, -94, -91, -89, -87, -85, -82,
  -80, -78, -76, -74, -72, -70, -68, -66, -64, -62, -60, -58, -56, -54, -52, -50,
  -49, -47, -45, -43, -42, -40, -38, -36, -35, -33, -31, -30, -28, -27, -25, -23,
  -22, -20, -19, -17, -16, -14, -13, -11, -10, -8, -7, -6, -4, -3, -1, 0]

/-- The seven bits of a code. -/
def codeOf (byte : UInt8) : Nat := byte.toNat % 128

/-- What the level drops by every millisecond of a decay or a release, in tenths of a
decibel. -/
def fallingRate (byte : UInt8) : Float :=
  let code := codeOf byte
  if code = 127 then 65535.0
  else if code = 126 then 120.0 / 5.0
  else if code ≤ 49 then (Float.ofNat code * 2.0 + 1.0) / 128.0 / 5.0
  else 60.0 / Float.ofNat (126 - code) / 5.0

/-- The milliseconds that a level takes to come within 1/32 of full volume, at most
`limit`. The level is kept in single precision. -/
def climb (rate : Float32) : (limit : Nat) → (level : Float32) → Nat
  | 0, _ => 0
  | limit + 1, level =>
    if level ≤ -0.03125 then 1 + climb rate limit (level * rate) else 0

/-- The milliseconds that an attack takes; the slowest takes fewer than 0x4000. -/
def attackTime (byte : UInt8) : Nat :=
  let rate := Float32.ofNat (attackRates.getD (codeOf byte) 0) / Float32.ofNat 10000000
  climb rate 0x4000 (-904.0)

/-- The lengths of the stages in seconds, and the level that is sustained. -/
structure Envelope where
  attack : Float
  hold : Float
  decay : Float
  /-- In tenths of a decibel. -/
  sustain : Float
  release : Float

namespace Envelope

/-- The envelope of an instrument. -/
def ofParams (params : InstrumentParams) : Envelope :=
  let sustain := Float.ofInt (sustainLevels.getD (codeOf params.sustain) 0)
  let hold := Float.ofNat params.hold.toNat + 1.0
  { attack := Float.ofNat (attackTime params.attack) / 1000.0
    hold := hold * hold / 4000.0
    decay := -sustain / fallingRate params.decay / 1000.0
    sustain
    release := (sustain - quietest) / fallingRate params.release / 1000.0 }

/-- The sustained level as a fraction of full volume. -/
def sustainLevel (envelope : Envelope) : Float :=
  let level := 1.0 - envelope.sustain / quietest
  if level > 1.0 then 1.0 else if level > 0.0 then level else 0.0

/-- The attenuation of the sustained level, in centibels. -/
def sustainAttenuation (envelope : Envelope) : Int16 :=
  min ((1.0 - envelope.sustainLevel) * -quietest).round.toInt16 silence

end Envelope

/-! ## Units of a SoundFont -/

/-- A time in timecents: 1200 to an octave, zero for a second. -/
def timecents (seconds : Float) : Int16 :=
  if seconds ≤ 0.0 then instant
  else
    let cents := (1200.0 * seconds.log2).round
    if cents ≥ 32767.0 then 32767 else if cents > -32767.0 then cents.toInt16 else -32767

/-- The attenuation of a volume, in centibels. -/
def attenuation (volume : UInt8) : Int16 :=
  if volume = 0 then silence
  else min (-200.0 * (Float.ofNat (min volume.toNat 127) / 127.0).log10).round.toInt16 silence

/-- A pan from -1000 on the left to 1000 on the right. -/
def panAmount (pan : UInt8) : Int16 :=
  (1000.0 * (Float.ofNat (min pan.toNat 127) - 64.0) / 64.0).round.toInt16

end ConsoleSound.SoundFont

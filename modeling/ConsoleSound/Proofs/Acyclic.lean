import Mathlib.Data.Fintype.EquivFin
import Mathlib.Order.WellFounded
/-! # Relations without cycles

Codes and tables refer to places by numbers of 32 bits, of which there are finitely many.
Where no place that is reached from a start reaches itself again, going on from place to
place comes to an end. -/

namespace ConsoleSound

open Relation

variable {α : Type} {r : α → α → Prop} {start : α}

/-- Without a cycle among the places that are reached from a start, going on descends. -/
theorem wellFounded_of_acyclic [Finite α]
    (hacyclic : ∀ place, ReflTransGen r start place → ¬ TransGen r place place) :
    WellFounded fun next place => ReflTransGen r start place ∧ TransGen r place next := by
  have htrans : IsTrans α fun next place =>
      ReflTransGen r start place ∧ TransGen r place next :=
    ⟨fun _ _ _ hlow hhigh => ⟨hhigh.1, hhigh.2.trans hlow.2⟩⟩
  have hirrefl : Std.Irrefl fun next place =>
      ReflTransGen r start place ∧ TransGen r place next :=
    ⟨fun place h => hacyclic place h.1 h.2⟩
  exact Finite.wellFounded_of_trans_of_irrefl _

end ConsoleSound

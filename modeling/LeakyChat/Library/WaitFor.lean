/-
Relations without cycles, such as who waits for whom.  An edge that does not
lead back closes no cycle, and on finitely many elements every edge leads to one
that nothing leaves from.
-/
import Mathlib.Data.Fintype.Card
import Mathlib.Logic.Relation
import Mathlib.Order.WellFounded

namespace WaitFor

open Relation

universe u

variable {α : Type u} {r r' : α → α → Prop}

def Acyclic (r : α → α → Prop) : Prop := ∀ x, ¬ TransGen r x x

theorem Acyclic.mono (hacyclic : Acyclic r) (hle : ∀ x y, r' x y → r x y) : Acyclic r' :=
  fun x hcycle => hacyclic x (TransGen.mono hle x x hcycle)

/-- With one more edge, a path that takes it is cut in two by it. -/
theorem transGen_insert {a b : α} (hback : ¬ ReflTransGen r b a)
    (hle : ∀ x y, r' x y → r x y ∨ x = a ∧ y = b) {x y : α} (hpath : TransGen r' x y) :
    TransGen r x y ∨ ReflTransGen r x a ∧ ReflTransGen r b y := by
  induction hpath with
  | single hlast =>
      rcases hle _ _ hlast with hold | ⟨rfl, rfl⟩
      · exact Or.inl (TransGen.single hold)
      · exact Or.inr ⟨ReflTransGen.refl, ReflTransGen.refl⟩
  | tail _ hlast ih =>
      rcases hle _ _ hlast with hold | ⟨rfl, rfl⟩
      · rcases ih with hpath | ⟨hfirst, hrest⟩
        · exact Or.inl (hpath.tail hold)
        · exact Or.inr ⟨hfirst, hrest.tail hold⟩
      · rcases ih with hpath | ⟨_, hrest⟩
        · exact Or.inr ⟨hpath.to_reflTransGen, ReflTransGen.refl⟩
        · exact (hback hrest).elim

/-- An edge from whose end no path leads to its start closes no cycle. -/
theorem Acyclic.insert (hacyclic : Acyclic r) {a b : α} (hback : ¬ ReflTransGen r b a)
    (hle : ∀ x y, r' x y → r x y ∨ x = a ∧ y = b) : Acyclic r' := by
  intro x hcycle
  rcases transGen_insert hback hle hcycle with hpath | ⟨hfirst, hrest⟩
  · exact hacyclic x hpath
  · exact hback (hrest.trans hfirst)

/-- Among finitely many, some edge ends where no other begins. -/
theorem Acyclic.exists_last [Finite α] (hacyclic : Acyclic r) {x y : α} (hedge : r x y) :
    ∃ z w, r z w ∧ ∀ v, ¬ r w v := by
  have hirrefl : Std.Irrefl (TransGen r) := ⟨hacyclic⟩
  have hwf : WellFounded (Function.swap (TransGen r)) :=
    Finite.wellFounded_of_trans_of_irrefl (Function.swap (TransGen r))
  obtain ⟨w, ⟨z, hlast⟩, hmin⟩ := hwf.has_min {w | ∃ z, r z w} ⟨y, x, hedge⟩
  exact ⟨z, w, hlast, fun v hnext => hmin v ⟨w, hnext⟩ (TransGen.single hnext)⟩

end WaitFor

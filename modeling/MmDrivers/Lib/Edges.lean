import Mathlib

/-! Relations without a way from a point back to itself. -/
namespace MmDrivers.Edges
open Relation

variable {α : Type} {R R' : α → α → Prop}

def Acyclic (R : α → α → Prop) : Prop := ∀ x, ¬ TransGen R x x

theorem Acyclic.mono (acyclic : Acyclic R) (sub : ∀ x y, R' x y → R x y) : Acyclic R' :=
  fun x cycle => acyclic x (TransGen.mono sub x x cycle)

/-- Edges out of one point close no cycle if no way leads back to it from where they end. -/
theorem Acyclic.addOut (acyclic : Acyclic R) {i : α} {ends : α → Prop}
    (sub : ∀ x y, R' x y → R x y ∨ x = i ∧ ends y) (away : ∀ y, ends y → ¬ ReflTransGen R y i) :
    Acyclic R' := by
  have ways : ∀ x y, TransGen R' x y →
      TransGen R x y ∨ ReflTransGen R x i ∧ ∃ z, ends z ∧ ReflTransGen R z y := by
    intro x y way
    induction way with
    | single edge =>
      rcases sub _ _ edge with old | ⟨rfl,new⟩
      · exact .inl (.single old)
      · exact .inr ⟨.refl,_,new,.refl⟩
    | tail before edge ih =>
      rcases sub _ _ edge with old | ⟨rfl,new⟩
      · rcases ih with ways | ⟨there,z,new,back⟩
        · exact .inl (ways.tail old)
        · exact .inr ⟨there,z,new,back.tail old⟩
      · rcases ih with ways | ⟨-,z,new',back⟩
        · exact .inr ⟨ways.to_reflTransGen,_,new,.refl⟩
        · exact absurd back (away z new')
  intro x cycle
  rcases ways x x cycle with old | ⟨there,z,new,back⟩
  · exact acyclic x old
  · exact away z new (back.trans there)

theorem reachesSelf {x y : α} (ways : ReflTransGen R x y) (none : ∀ z, ¬ R x z) : x = y := by
  rcases ReflTransGen.cases_head ways with same | ⟨z,edge,-⟩
  · exact same
  · exact absurd edge (none z)

end MmDrivers.Edges

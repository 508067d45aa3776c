import Mathlib

/-! Two versions of a table, related row by row under the row's number. -/
namespace MmDrivers

variable {α : Type}

structure Rows (R : Nat → α → α → Prop) (l l' : List α) : Prop where
  length : l'.length = l.length
  each : ∀ i b, l'[i]? = some b → ∃ a, l[i]? = some a ∧ R i a b

namespace Rows
variable {R Q P : Nat → α → α → Prop} {l m n : List α}

theorem trans (first : Rows R l m) (second : Rows Q m n)
    (compose : ∀ i a b c, R i a b → Q i b c → P i a c) : Rows P l n := by
  refine ⟨second.length.trans first.length,fun i c found => ?_⟩
  obtain ⟨b,middle,bc⟩ := second.each i c found
  obtain ⟨a,start,ab⟩ := first.each i b middle
  exact ⟨a,start,compose i a b c ab bc⟩

theorem refl (l : List α) (keep : ∀ i a, R i a a) : Rows R l l :=
  ⟨rfl,fun i a found => ⟨a,found,keep i a⟩⟩

theorem modify (l : List α) (i : Nat) {g : α → α} (change : ∀ a, R i a (g a))
    (keep : ∀ j a, j ≠ i → R j a a) : Rows R l (l.modify i g) := by
  refine ⟨List.length_modify _ _ _,fun j b found => ?_⟩
  rw [List.getElem?_modify] at found
  obtain ⟨a,start,rfl⟩ := Option.map_eq_some_iff.mp found
  refine ⟨a,start,?_⟩
  by_cases same : i = j
  · rw [if_pos same]
    exact same ▸ change a
  · rw [if_neg same]
    exact keep j a (Ne.symm same)

theorem ofMap {β : Type} {f : α → β} (same : m.map f = l.map f)
    (related : ∀ i a b, f b = f a → R i a b) : Rows R l m := by
  refine ⟨by simpa using congrArg List.length same,fun i b found => ?_⟩
  have row := congrArg (·[i]?) same
  simp only [List.getElem?_map,found,Option.map_some] at row
  obtain ⟨a,start,eq⟩ := Option.map_eq_some_iff.mp row.symm
  exact ⟨a,start,related i a b eq.symm⟩

end Rows
end MmDrivers

import Mathlib

/-! Regions of a memory laid out one after another, and offsets that are kept
modulo a bound while they are summed. -/
namespace MmDrivers.Layout

structure Region where
  start : Nat
  size : Nat
  deriving DecidableEq, Repr

def Region.Apart (a b : Region) : Prop := a.start+a.size ≤ b.start ∨ b.start+b.size ≤ a.start

def stack : Nat → List Nat → List Region
  | _,[] => []
  | base,size::rest => ⟨base,size⟩::stack (base+size) rest

theorem stackBounds {base : Nat} {sizes : List Nat} {r : Region} (mem : r ∈ stack base sizes) :
    base ≤ r.start ∧ r.start+r.size ≤ base+sizes.sum := by
  induction sizes generalizing base with
  | nil => simp [stack] at mem
  | cons size rest ih =>
    rw [List.sum_cons]
    rcases List.mem_cons.mp mem with rfl | later
    · simp only
      omega
    · have bounds := ih later
      omega

theorem stackSizes (base : Nat) (sizes : List Nat) : (stack base sizes).map Region.size = sizes := by
  induction sizes generalizing base with
  | nil => rfl
  | cons size rest ih => simp [stack,ih]

theorem stackApart (base : Nat) (sizes : List Nat) :
    (stack base sizes).Pairwise Region.Apart := by
  induction sizes generalizing base with
  | nil => exact List.Pairwise.nil
  | cons size rest ih =>
    refine List.Pairwise.cons ?_ (ih (base+size))
    intro r mem
    exact .inl (stackBounds mem).1

theorem wrappedSum (bound base : Nat) (sizes : List Nat) :
    sizes.foldl (fun acc size => (acc+size) % bound) (base % bound) = (base+sizes.sum) % bound := by
  induction sizes generalizing base with
  | nil => simp
  | cons size rest ih =>
    rw [List.foldl_cons,List.sum_cons,Nat.mod_add_mod,ih,Nat.add_assoc]

end MmDrivers.Layout

import Mathlib

/-! Locks that are taken and given back by hand along a list of events. -/
namespace MmDrivers.Locks

inductive LockStep (L : Type) where
  | acquire (l : L)
  | release (l : L)
  | neither

variable {ε L : Type} [DecidableEq L]

/-- A lock that is held cannot be taken again, one that is not held cannot be given back. -/
def hold (held : List L) : LockStep L → Option (List L)
  | .acquire l => if l ∈ held then none else some (l::held)
  | .release l => if l ∈ held then some (held.erase l) else none
  | .neither => some held

def heldAfter (step : ε → LockStep L) : List ε → List L → Option (List L)
  | [],held => some held
  | e::rest,held => (hold held (step e)).bind (heldAfter step rest)

def Balanced (step : ε → LockStep L) (events : List ε) : Prop := heldAfter step events [] = some []

variable {step : ε → LockStep L} {held : List L}

theorem heldAppend (left right : List ε) (held : List L) :
    heldAfter step (left ++ right) held = (heldAfter step left held).bind (heldAfter step right) := by
  induction left generalizing held with
  | nil => rfl
  | cons e rest ih =>
    simp only [List.cons_append,heldAfter,Option.bind_assoc]
    exact Option.bind_congr fun held' _ => ih held'

theorem heldNeither {events : List ε} (neither : ∀ e ∈ events, step e = .neither) :
    heldAfter step events held = some held := by
  induction events with
  | nil => rfl
  | cons e rest ih =>
    simp only [heldAfter,neither e List.mem_cons_self,hold,Option.bind_some]
    exact ih fun e mem => neither e (List.mem_cons_of_mem _ mem)

theorem balancedNil : Balanced step [] := rfl

theorem Balanced.append {left right : List ε} (first : Balanced step left)
    (second : Balanced step right) : Balanced step (left ++ right) := by
  unfold Balanced at *
  rw [heldAppend,first]
  exact second

theorem balancedNeither {events : List ε} (neither : ∀ e ∈ events, step e = .neither) :
    Balanced step events := heldNeither neither

theorem heldUnder {l : L} {e e' : ε} (inner : List ε) (acquires : step e = .acquire l)
    (releases : step e' = .release l) (free : l ∉ held)
    (passes : heldAfter step inner (l::held) = some (l::held)) :
    heldAfter step (e::inner ++ [e']) held = some held := by
  simp [heldAppend,heldAfter,acquires,releases,hold,free,passes]

theorem balancedUnder {l : L} {e e' : ε} (inner : List ε) (acquires : step e = .acquire l)
    (releases : step e' = .release l) (passes : heldAfter step inner [l] = some [l]) :
    Balanced step (e::inner ++ [e']) :=
  heldUnder inner acquires releases List.not_mem_nil passes

end MmDrivers.Locks

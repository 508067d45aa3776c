import Mathlib

/-! A word that agents change with a load exclusive and a store exclusive. The load
leaves a reservation; the store needs it, and any write in between ends it. So a
store that goes through is one update of the word with the load it follows. -/
namespace MmDrivers.Exclusives

structure Cell (ι ω : Type) where
  word : ω
  reserved : ι → Bool

variable {ι ω β : Type}

namespace Cell

def write (_ : Cell ι ω) (word : ω) : Cell ι ω := ⟨word,fun _ => false⟩

@[simp] theorem writeWord (c : Cell ι ω) (word : ω) : (c.write word).word = word := rfl

variable [DecidableEq ι]

def loadExclusive (c : Cell ι ω) (t : ι) : Cell ι ω :=
  {c with reserved := Function.update c.reserved t true}

/-- A store may fail with its reservation standing, but never goes through without. -/
def storeExclusive (c : Cell ι ω) (t : ι) (word : ω) (lets : Bool) : Bool × Cell ι ω :=
  if lets && c.reserved t then (true,c.write word)
  else (false,{c with reserved := Function.update c.reserved t false})

@[simp] theorem loadWord (c : Cell ι ω) (t : ι) : (c.loadExclusive t).word = c.word := rfl

theorem storeCases (c : Cell ι ω) (t : ι) (word : ω) (lets : Bool) :
    (c.reserved t = true ∧ c.storeExclusive t word lets = (true,c.write word)) ∨
      c.storeExclusive t word lets =
        (false,{c with reserved := Function.update c.reserved t false}) := by
  unfold storeExclusive
  split
  · rename_i through
    exact .inl ⟨(Bool.and_eq_true_iff.mp through).2,rfl⟩
  · exact .inr rfl

end Cell

/-- What an agent still has a reservation for is what it saw. -/
def Coherent (view : ω → β) (seen : ι → Option β) (c : Cell ι ω) : Prop :=
  ∀ t b, c.reserved t = true → seen t = some b → view c.word = b

namespace Coherent
variable {view : ω → β} {seen : ι → Option β} {c : Cell ι ω} {t : ι}

theorem write (c : Cell ι ω) (word : ω) : Coherent view seen (c.write word) := by
  intro t b reserved
  cases reserved

variable [DecidableEq ι]

theorem load (h : Coherent view seen c) {saw : Option β}
    (own : ∀ b, saw = some b → view c.word = b) :
    Coherent view (Function.update seen t saw) (c.loadExclusive t) := by
  intro u b reserved sees
  by_cases ut : u = t
  · subst ut
    exact own b (by simpa using sees)
  · rw [Function.update_of_ne ut] at sees
    exact h u b (by simpa [Cell.loadExclusive,ut] using reserved) sees

theorem forget (h : Coherent view seen c) : Coherent view (Function.update seen t none) c := by
  intro u b reserved sees
  by_cases ut : u = t
  · subst ut
    simp at sees
  · exact h u b reserved (by rwa [Function.update_of_ne ut] at sees)

theorem fail (h : Coherent view seen c) (saw : Option β) : Coherent view (Function.update seen t saw)
    {c with reserved := Function.update c.reserved t false} := by
  intro u b reserved sees
  by_cases ut : u = t
  · subst ut
    simp at reserved
  · rw [Function.update_of_ne ut] at sees
    exact h u b (by simpa [ut] using reserved) sees

end Coherent
end MmDrivers.Exclusives

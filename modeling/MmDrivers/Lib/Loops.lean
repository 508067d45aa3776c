import MmDrivers.Lib.Sections

/-! Loops that run until a pass stops them, with locals carried from pass to pass.
Fuel bounds the passes; a loop ends if some fuel is enough. -/
namespace MmDrivers.Loops
open Sections Sections.Prog

variable {ε σ α β : Type}

/-- A pass goes on with its locals or stops with a result. -/
inductive Pass (β α : Type) where
  | next (carried : β)
  | stop (result : α)

section Loop
variable (body : β → Prog ε σ (Pass β α))

def loop : Nat → β → Prog ε σ (Option α)
  | 0,_ => pure none
  | fuel+1,b => do
    let pass ← body b
    match pass with
    | .next b' => loop fuel b'
    | .stop a => pure (some a)

def EndsWith (b : β) (s : σ) (a : α) (s' : σ) : Prop := ∃ fuel, (loop body fuel b).run s = (some a,s')

def Ends (b : β) (s : σ) : Prop := ∃ a s', EndsWith body b s a s'

end Loop

section Rules
variable {body : β → Prog ε σ (Pass β α)} {b b' : β} {s s' s₁ : σ} {a : α}

theorem endsStop (stopped : (body b).run s = (.stop a,s')) : EndsWith body b s a s' :=
  ⟨1,by simp [loop,stopped]⟩

theorem endsNext (next : (body b).run s = (.next b',s₁)) :
    EndsWith body b s a s' ↔ EndsWith body b' s₁ a s' := by
  constructor
  · rintro ⟨fuel,ran⟩
    cases fuel with
    | zero => simp [loop] at ran
    | succ fuel => exact ⟨fuel,by simpa [loop,next] using ran⟩
  · rintro ⟨fuel,ran⟩
    exact ⟨fuel+1,by simpa [loop,next] using ran⟩

theorem eachLoop {P : (σ → σ) → (σ → List ε) → Prop} (each : ∀ b, (body b).Each P) (fuel : Nat) (b : β) :
    (loop body fuel b).Each P := by
  induction fuel generalizing b with
  | zero => trivial
  | succ fuel ih =>
    refine eachBind (each b) fun pass => ?_
    cases pass with
    | next b' => exact ih b'
    | stop a => trivial

theorem endsOnce {a' : α} {s'' : σ} (one : EndsWith body b s a s') (other : EndsWith body b s a' s'') :
    a = a' ∧ s' = s'' := by
  obtain ⟨fuel,ran⟩ := one
  induction fuel generalizing b s with
  | zero => simp [loop] at ran
  | succ fuel ih =>
    cases pass : (body b).run s with
    | mk p s₁ =>
      cases p with
      | next b₁ => exact ih ((endsNext pass).mp other) (by simpa [loop,pass] using ran)
      | stop a₁ =>
        have stopped : a₁ = a ∧ s₁ = s' := by simpa [loop,pass] using ran
        obtain ⟨fuel',ran'⟩ := other
        cases fuel' with
        | zero => simp [loop] at ran'
        | succ fuel' =>
          have stopped' : a₁ = a' ∧ s₁ = s'' := by simpa [loop,pass] using ran'
          exact ⟨stopped.1.symm.trans stopped'.1,stopped.2.symm.trans stopped'.2⟩

variable (Inv : β → σ → Prop)

theorem loopEnds (variant : β → σ → Nat) (pass : ∀ b s, Inv b s →
      (∃ a s', (body b).run s = (.stop a,s')) ∨
      ∃ b' s', (body b).run s = (.next b',s') ∧ Inv b' s' ∧ variant b' s' < variant b s)
    (start : Inv b s) : Ends body b s := by
  induction left : variant b s using Nat.strong_induction_on generalizing b s with
  | _ left ih =>
    rcases pass b s start with ⟨a,s',stopped⟩ | ⟨b',s',next,inv,less⟩
    · exact ⟨a,s',endsStop stopped⟩
    · obtain ⟨a,s'',ends⟩ := ih _ (left ▸ less) inv rfl
      exact ⟨a,s'',(endsNext next).mpr ends⟩

theorem loopRuns (pass : ∀ b s, Inv b s → ∃ b' s', (body b).run s = (.next b',s') ∧ Inv b' s')
    (start : Inv b s) : ¬ Ends body b s := by
  rintro ⟨a,s',fuel,ran⟩
  induction fuel generalizing b s with
  | zero => simp [loop] at ran
  | succ fuel ih =>
    obtain ⟨b',s₁,next,inv⟩ := pass b s start
    exact ih inv (by simpa [loop,next] using ran)

end Rules
end MmDrivers.Loops

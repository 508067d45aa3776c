import MmDrivers.Lib.Sections

/-! Programs on a part of a larger state. -/
namespace MmDrivers.Parts
open Sections Sections.Prog

variable {ε ε' σ τ α : Type}

structure Part (τ σ : Type) where
  look : τ → σ
  put : σ → τ → τ
  lookPut : ∀ s t, look (put s t) = s
  putLook : ∀ t, put (look t) t = t
  putPut : ∀ s s' t, put s (put s' t) = put s t

def within (part : Part τ σ) (emit : ε → ε') : Prog ε σ α → Prog ε' τ α
  | .ret a => .ret a
  | .sec upd ev next =>
    .sec (fun t => part.put (upd (part.look t)) t) (fun t => (ev (part.look t)).map emit)
      fun t => within part emit (next (part.look t))

variable (part : Part τ σ) (emit : ε → ε') (p : Prog ε σ α)

@[simp] theorem runWithin (t : τ) :
    (within part emit p).run t = ((p.run (part.look t)).1,part.put (p.run (part.look t)).2 t) := by
  induction p generalizing t with
  | ret a => simp [within,part.putLook]
  | sec upd ev next ih => simp [within,ih,part.lookPut,part.putPut]

@[simp] theorem eventsWithin (t : τ) :
    (within part emit p).events t = (p.events (part.look t)).map emit := by
  induction p generalizing t with
  | ret a => rfl
  | sec upd ev next ih => simp [within,ih,part.lookPut]

theorem eachWithin {part emit p} {Q : (τ → τ) → (τ → List ε') → Prop}
    (own : ∀ (upd : σ → σ) (ev : σ → List ε),
      Q (fun t => part.put (upd (part.look t)) t) (fun t => (ev (part.look t)).map emit)) :
    (within part emit p : Prog ε' τ α).Each Q := by
  induction p with
  | ret a => trivial
  | sec upd ev next ih => exact ⟨own upd ev,fun t => ih _⟩

theorem eachPart {part p} {P : (σ → σ) → (σ → List ε) → Prop} {Q : (τ → τ) → (τ → List ε') → Prop}
    (own : ∀ upd ev, P upd ev →
      Q (fun t => part.put (upd (part.look t)) t) (fun t => (ev (part.look t)).map emit))
    (each : p.Each P) : (within part emit p : Prog ε' τ α).Each Q := by
  induction p with
  | ret a => trivial
  | sec upd ev next ih => exact ⟨own upd ev each.1,fun t => ih _ (each.2 _)⟩

end MmDrivers.Parts

import Mathlib

/-! Programs cut into atomic sections. A section reads and writes the shared
state in one step, emits events, and hands what it read to the rest of the
program. Sequential runs are one reading of a program; interleavings, where any
other party moves between two sections, are another. -/
namespace MmDrivers.Sections

inductive Prog (ε σ α : Type) where
  | ret (a : α)
  | sec (upd : σ → σ) (ev : σ → List ε) (next : σ → Prog ε σ α)

variable {ε σ α β γ : Type}

namespace Prog

def bind : Prog ε σ α → (α → Prog ε σ β) → Prog ε σ β
  | .ret a, k => k a
  | .sec upd ev next, k => .sec upd ev (fun s => (next s).bind k)

instance : Monad (Prog ε σ) where
  pure := .ret
  bind := .bind

/-- One section on its own: `read` sees the state before `upd`. -/
def atomic (upd : σ → σ) (ev : σ → List ε) (read : σ → α) : Prog ε σ α :=
  .sec upd ev (fun s => .ret (read s))

def observe (read : σ → α) : Prog ε σ α := atomic id (fun _ => []) read

def whenever (c : Prop) [Decidable c] (p : Prog ε σ Unit) : Prog ε σ Unit :=
  if c then p else .ret ()

def result? : Prog ε σ α → Option α
  | .ret a => some a
  | .sec _ _ _ => none

@[simp] theorem pureRet (a : α) : (pure a : Prog ε σ α) = .ret a := rfl
@[simp] theorem retBind (a : α) (k : α → Prog ε σ β) : (Prog.ret a >>= k) = k a := rfl
@[simp] theorem secBind (upd : σ → σ) (ev : σ → List ε) (next : σ → Prog ε σ α)
    (k : α → Prog ε σ β) :
    (Prog.sec upd ev next >>= k) = .sec upd ev (fun s => next s >>= k) := rfl

@[simp] theorem mapBind (f : α → β) (p : Prog ε σ α) : f <$> p = p >>= fun a => .ret (f a) := rfl

def run : Prog ε σ α → σ → α × σ
  | .ret a, s => (a,s)
  | .sec upd _ next, s => (next s).run (upd s)

def events : Prog ε σ α → σ → List ε
  | .ret _, _ => []
  | .sec upd ev next, s => ev s ++ (next s).events (upd s)

@[simp] theorem runRet (a : α) (s : σ) : (Prog.ret a : Prog ε σ α).run s = (a,s) := rfl
@[simp] theorem runSec (upd : σ → σ) (ev : σ → List ε) (next : σ → Prog ε σ α) (s : σ) :
    (Prog.sec upd ev next).run s = (next s).run (upd s) := rfl
@[simp] theorem eventsRet (a : α) (s : σ) : (Prog.ret a : Prog ε σ α).events s = [] := rfl
@[simp] theorem eventsSec (upd : σ → σ) (ev : σ → List ε) (next : σ → Prog ε σ α) (s : σ) :
    (Prog.sec upd ev next).events s = ev s ++ (next s).events (upd s) := rfl

@[simp] theorem runAtomic (upd : σ → σ) (ev : σ → List ε) (read : σ → α) (s : σ) :
    (atomic upd ev read).run s = (read s,upd s) := rfl
@[simp] theorem eventsAtomic (upd : σ → σ) (ev : σ → List ε) (read : σ → α) (s : σ) :
    (atomic upd ev read).events s = ev s := by simp [atomic]
@[simp] theorem runObserve (read : σ → α) (s : σ) :
    (observe read : Prog ε σ α).run s = (read s,s) := rfl
@[simp] theorem eventsObserve (read : σ → α) (s : σ) :
    (observe read : Prog ε σ α).events s = [] := rfl

@[simp] theorem runBind (p : Prog ε σ α) (k : α → Prog ε σ β) (s : σ) :
    (p >>= k).run s = (k (p.run s).1).run (p.run s).2 := by
  induction p generalizing s with
  | ret a => rfl
  | sec upd ev next ih => simp only [secBind,runSec,ih]

@[simp] theorem eventsBind (p : Prog ε σ α) (k : α → Prog ε σ β) (s : σ) :
    (p >>= k).events s = p.events s ++ (k (p.run s).1).events (p.run s).2 := by
  induction p generalizing s with
  | ret a => rfl
  | sec upd ev next ih => simp only [secBind,eventsSec,runSec,ih,List.append_assoc]

def Each (P : (σ → σ) → (σ → List ε) → Prop) : Prog ε σ α → Prop
  | .ret _ => True
  | .sec upd ev next => P upd ev ∧ ∀ s, (next s).Each P

section Each
variable {P Q : (σ → σ) → (σ → List ε) → Prop}

theorem eachPure (a : α) : (pure a : Prog ε σ α).Each P := trivial

theorem eachAtomic {upd : σ → σ} {ev : σ → List ε} {read : σ → α} (own : P upd ev) :
    (atomic upd ev read).Each P := ⟨own,fun _ => trivial⟩

theorem eachBind {p : Prog ε σ α} {k : α → Prog ε σ β} (first : p.Each P)
    (later : ∀ a, (k a).Each P) : (p >>= k).Each P := by
  induction p with
  | ret a => exact later a
  | sec upd ev next ih => exact ⟨first.1,fun s => ih s (first.2 s)⟩

theorem eachIte {c : Prop} [Decidable c] {p q : Prog ε σ α} (yes : c → p.Each P)
    (no : ¬ c → q.Each P) : (if c then p else q).Each P := by
  by_cases h : c
  · simpa [h] using yes h
  · simpa [h] using no h

theorem eachWhenever {c : Prop} [Decidable c] {p : Prog ε σ Unit} (yes : c → p.Each P) :
    (whenever c p).Each P := eachIte yes fun _ => trivial

theorem eachMono {p : Prog ε σ α} (imp : ∀ upd ev, P upd ev → Q upd ev) (each : p.Each P) :
    p.Each Q := by
  induction p with
  | ret a => trivial
  | sec upd ev next ih => exact ⟨imp _ _ each.1,fun s => ih s (each.2 s)⟩

theorem eachAnd {p : Prog ε σ α} (left : p.Each P) (right : p.Each Q) :
    p.Each fun upd ev => P upd ev ∧ Q upd ev := by
  induction p with
  | ret a => trivial
  | sec upd ev next ih => exact ⟨⟨left.1,right.1⟩,fun s => ih s (left.2 s) (right.2 s)⟩

theorem eachRun {R : σ → σ → Prop} {p : Prog ε σ α} (each : p.Each P)
    (step : ∀ upd ev, P upd ev → ∀ s, R s (upd s)) (refl : ∀ s, R s s)
    (trans : ∀ a b c, R a b → R b c → R a c) (s : σ) : R s (p.run s).2 := by
  induction p generalizing s with
  | ret a => exact refl s
  | sec upd ev next ih => exact trans _ _ _ (step _ _ each.1 s) (ih s (each.2 s) (upd s))

theorem eachEvents {E : ε → Prop} {p : Prog ε σ α} (each : p.Each P)
    (step : ∀ upd ev, P upd ev → ∀ s, ∀ e ∈ ev s, E e) (s : σ) : ∀ e ∈ p.events s, E e := by
  induction p generalizing s with
  | ret a => simp
  | sec upd ev next ih =>
    intro e mem
    rcases List.mem_append.mp mem with now | later
    · exact step _ _ each.1 s e now
    · exact ih s (each.2 s) (upd s) e later

theorem eachKeeps {I : σ → Prop} {E : List ε → Prop} {p : Prog ε σ α}
    (each : p.Each fun upd ev => ∀ s, I s → I (upd s) ∧ E (ev s)) (none : E [])
    (append : ∀ a b, E a → E b → E (a ++ b)) {s : σ} (start : I s) :
    I (p.run s).2 ∧ E (p.events s) := by
  induction p generalizing s with
  | ret a => exact ⟨start,none⟩
  | sec upd ev next ih =>
    obtain ⟨kept,now⟩ := each.1 s start
    obtain ⟨last,later⟩ := ih s (each.2 s) kept
    exact ⟨last,append _ _ now later⟩

end Each

def Returns (Q : α → Prop) : Prog ε σ α → Prop
  | .ret a => Q a
  | .sec _ _ next => ∀ s, (next s).Returns Q

section Returns
variable {Q : α → Prop} {R : β → Prop}

theorem returnsBind {p : Prog ε σ α} {k : α → Prog ε σ β} (first : p.Returns Q)
    (later : ∀ a, Q a → (k a).Returns R) : (p >>= k).Returns R := by
  induction p with
  | ret a => exact later a first
  | sec upd ev next ih => exact fun s => ih s (first s)

theorem eachReturns {P : (σ → σ) → (σ → List ε) → Prop} {p : Prog ε σ α} {k : α → Prog ε σ β}
    (first : p.Each P) (returns : p.Returns Q) (later : ∀ a, Q a → (k a).Each P) :
    (p >>= k).Each P := by
  induction p with
  | ret a => exact later a returns
  | sec upd ev next ih => exact ⟨first.1,fun s => ih s (first.2 s) (returns s)⟩

theorem returnsAny (p : Prog ε σ α) : p.Returns fun _ => True := by
  induction p with
  | ret a => trivial
  | sec upd ev next ih => exact ih

theorem returnsMono {S : α → Prop} {p : Prog ε σ α} (imp : ∀ a, Q a → S a) (returns : p.Returns Q) :
    p.Returns S := by
  induction p with
  | ret a => exact imp a returns
  | sec upd ev next ih => exact fun s => ih s (returns s)

theorem returnsIte {c : Prop} [Decidable c] {p q : Prog ε σ α} (yes : c → p.Returns Q)
    (no : ¬ c → q.Returns Q) : (if c then p else q).Returns Q := by
  by_cases h : c
  · simpa [h] using yes h
  · simpa [h] using no h

theorem returnsRun {p : Prog ε σ α} (returns : p.Returns Q) (s : σ) : Q (p.run s).1 := by
  induction p generalizing s with
  | ret a => exact returns
  | sec upd ev next ih => exact ih s (returns s) (upd s)

end Returns
end Prog
end MmDrivers.Sections

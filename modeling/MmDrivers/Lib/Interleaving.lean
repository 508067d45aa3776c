import Mathlib
import MmDrivers.Lib.Runs
import MmDrivers.Lib.Sections

/-! Threads that run programs over one shared state, one section at a time, in
any order. A thread is verified on its own, against all moves the others may
make between two of its sections; each of its sections has to be a move the
others allow for. -/
namespace MmDrivers.Interleaving
open Sections Sections.Prog Runs

structure World (ι ε σ : Type) where
  shared : σ
  log : List (ι × ε)

structure Config (ι ε σ α : Type) where
  world : World ι ε σ
  threads : ι → Prog ε σ α

variable {ι ε σ α β : Type}

namespace World

def act (w : World ι ε σ) (t : ι) (ev : List ε) (s : σ) : World ι ε σ :=
  ⟨s,w.log ++ ev.map (Prod.mk t)⟩

@[simp] theorem actShared (w : World ι ε σ) (t : ι) (ev : List ε) (s : σ) :
    (w.act t ev s).shared = s := rfl
@[simp] theorem actLog (w : World ι ε σ) (t : ι) (ev : List ε) (s : σ) :
    (w.act t ev s).log = w.log ++ ev.map (Prod.mk t) := rfl

variable [DecidableEq ι]

def own (w : World ι ε σ) (t : ι) : List ε :=
  w.log.filterMap fun e => if e.1 = t then some e.2 else none

theorem ownActSelf (w : World ι ε σ) (t : ι) (ev : List ε) (s : σ) :
    (w.act t ev s).own t = w.own t ++ ev := by
  simp [own,List.filterMap_map]

theorem ownActOther (w : World ι ε σ) {t u : ι} (ne : u ≠ t) (ev : List ε) (s : σ) :
    (w.act u ev s).own t = w.own t := by
  simp [own,List.filterMap_map,ne]

end World

def nextEvents : Prog ε σ α → σ → List ε
  | .ret _,_ => []
  | .sec _ ev _,s => ev s

namespace Config

def result (c : Config ι ε σ α) (t : ι) : Option α := (c.threads t).result?

theorem resultRet {c : Config ι ε σ α} {t : ι} {a : α} (done : c.result t = some a) :
    c.threads t = .ret a := by
  unfold result at done
  cases running : c.threads t with
  | ret b =>
    rw [running] at done
    cases done
    rfl
  | sec upd ev next =>
    rw [running] at done
    cases done

variable [DecidableEq ι]

def offers (c : Config ι ε σ α) (t : ι) : List ε := nextEvents (c.threads t) c.world.shared

def turn (c : Config ι ε σ α) (t : ι) : Config ι ε σ α :=
  match c.threads t with
  | .ret _ => c
  | .sec upd ev next =>
    ⟨c.world.act t (ev c.world.shared) (upd c.world.shared),
      Function.update c.threads t (next c.world.shared)⟩

theorem turnRet {c : Config ι ε σ α} {t : ι} {a : α} (ended : c.threads t = .ret a) :
    c.turn t = c := by
  simp [turn,ended]

theorem turnSec {c : Config ι ε σ α} {t : ι} {upd : σ → σ} {ev : σ → List ε}
    {next : σ → Prog ε σ α} (running : c.threads t = .sec upd ev next) :
    c.turn t = ⟨c.world.act t (ev c.world.shared) (upd c.world.shared),
      Function.update c.threads t (next c.world.shared)⟩ := by
  simp [turn,running]

theorem turnOther {c : Config ι ε σ α} {t u : ι} (ne : u ≠ t) : (c.turn t).threads u = c.threads u := by
  cases running : c.threads t with
  | ret a => rw [turnRet running]
  | sec upd ev next =>
    rw [turnSec running]
    exact Function.update_of_ne ne ..

theorem turnEach {P : ι → (σ → σ) → (σ → List ε) → Prop} {c : Config ι ε σ α}
    (each : ∀ t, (c.threads t).Each (P t)) (t u : ι) : ((c.turn t).threads u).Each (P u) := by
  by_cases ut : u = t
  · subst ut
    have own := each u
    cases running : c.threads u with
    | ret a =>
      rw [turnRet running]
      exact own
    | sec upd ev next =>
      rw [running] at own
      rw [turnSec running]
      dsimp only
      rw [Function.update_self]
      exact own.2 _
  · rw [turnOther ut]
    exact each u

theorem turnRuns {P : (σ → σ) → (σ → List ε) → Prop} {c : Config ι ε σ α} {t : ι}
    (each : (c.threads t).Each P) : c.turn t = c ∧ c.offers t = [] ∨
      ∃ upd ev, P upd ev ∧ c.offers t = ev c.world.shared ∧
        (c.turn t).world = c.world.act t (ev c.world.shared) (upd c.world.shared) := by
  cases running : c.threads t with
  | ret a => exact .inl ⟨turnRet running,by simp [offers,nextEvents,running]⟩
  | sec upd ev next =>
    rw [running] at each
    exact .inr ⟨upd,ev,each.1,by simp [offers,nextEvents,running],by rw [turnSec running]⟩

theorem runningBefore {c : Config ι ε σ α} {u : ι} {schedule : List ι}
    (running : (after turn c schedule).result u = none) : c.result u = none := by
  induction schedule generalizing c with
  | nil => exact running
  | cons t rest ih =>
    have next : (c.turn t).result u = none := ih running
    cases ended : c.threads u with
    | sec upd ev next => simp [result,result?,ended]
    | ret a =>
      have same : (c.turn t).threads u = .ret a := by
        by_cases ut : u = t
        · rwa [turnRet (ut ▸ ended)]
        · rwa [turnOther ut]
      rw [result,same] at next
      cases next

def Keeping (I : σ → Prop) (c : Config ι ε σ α) : Prop :=
  I c.world.shared ∧ ∀ t, (c.threads t).Each fun upd _ => ∀ s, I s → I (upd s)

theorem turnKeeps {I : σ → Prop} {c : Config ι ε σ α} (keeping : Keeping I c) (t : ι) :
    Keeping I (c.turn t) := by
  cases running : c.threads t with
  | ret a =>
    rw [turnRet running]
    exact keeping
  | sec upd ev next =>
    have own := keeping.2 t
    rw [running] at own
    rw [turnSec running]
    refine ⟨own.1 _ keeping.1,fun u => ?_⟩
    by_cases same : u = t
    · subst same
      simpa only [Function.update_self] using own.2 _
    · simpa only [Function.update_of_ne same] using keeping.2 u

theorem everywhere {I : σ → Prop} {c : Config ι ε σ α} (keeping : Keeping I c) (schedule : List ι) :
    Along turn (fun c _ => I c.world.shared) c schedule ∧ I (after turn c schedule).world.shared := by
  have keep : ∀ (c : Config ι ε σ α) t, Keeping I c → True → Keeping I (c.turn t) :=
    fun _ t keeping _ => turnKeeps keeping t
  obtain ⟨along,last⟩ := invariant keep keeping (alongAlways fun _ _ => trivial)
  exact ⟨alongMono (fun _ _ => And.left) along,last.1⟩

end Config

/-- What a thread may emit next, and the moves a section of it makes: from a world,
emitting events, to a shared state. -/
structure Rules (ι ε σ : Type) where
  allow : ι → World ι ε σ → List ε → Prop
  move : ι → World ι ε σ → List ε → σ → Prop

namespace Rules
variable (R : Rules ι ε σ) (t : ι)

def Other (w w' : World ι ε σ) : Prop :=
  ∃ u ≠ t, ∃ ev s, R.move u w ev s ∧ w' = w.act u ev s

def Stable (P : World ι ε σ → Prop) : Prop :=
  ∀ w u ev s, u ≠ t → R.move u w ev s → P w → P (w.act u ev s)

/-- From `w`, whatever the others do in between, every section of the program is a move of `t`
and its result has `Q`. -/
def Meets (Q : α → World ι ε σ → Prop) : Prog ε σ α → World ι ε σ → Prop
  | .ret a,w => ∀ w', Relation.ReflTransGen (R.Other t) w w' → Q a w'
  | .sec upd ev next,w => ∀ w', Relation.ReflTransGen (R.Other t) w w' →
    R.allow t w' (ev w'.shared) → R.move t w' (ev w'.shared) (upd w'.shared) ∧
      Meets Q (next w'.shared) (w'.act t (ev w'.shared) (upd w'.shared))

def Triple (P : World ι ε σ → Prop) (p : Prog ε σ α) (Q : α → World ι ε σ → Prop) : Prop :=
  ∀ w, P w → R.Meets t Q p w

end Rules

namespace Rules
variable {R : Rules ι ε σ} {t : ι} {P P' : World ι ε σ → Prop} {Q Q' : α → World ι ε σ → Prop}
  {S : β → World ι ε σ → Prop} {p : Prog ε σ α} {w w' : World ι ε σ}

theorem Stable.others (stable : R.Stable t P) (others : Relation.ReflTransGen (R.Other t) w w')
    (holds : P w) : P w' := by
  induction others with
  | refl => exact holds
  | tail _ last ih =>
    obtain ⟨u,ne,ev,s,move,rfl⟩ := last
    exact stable _ u ev s ne move ih

theorem Stable.and (left : R.Stable t P) (right : R.Stable t P') :
    R.Stable t fun w => P w ∧ P' w :=
  fun w u ev s ne move holds => ⟨left w u ev s ne move holds.1,right w u ev s ne move holds.2⟩

theorem meetsOthers (meets : R.Meets t Q p w) (others : Relation.ReflTransGen (R.Other t) w w') :
    R.Meets t Q p w' := by
  cases p with
  | ret a => exact fun w'' later => meets w'' (others.trans later)
  | sec upd ev next => exact fun w'' later => meets w'' (others.trans later)

theorem meetsMono (imp : ∀ a w, Q a w → Q' a w) (meets : R.Meets t Q p w) : R.Meets t Q' p w := by
  induction p generalizing w with
  | ret a => exact fun w' others => imp a w' (meets w' others)
  | sec upd ev next ih =>
    intro w' others allowed
    obtain ⟨move,later⟩ := meets w' others allowed
    exact ⟨move,ih _ later⟩

theorem meetsBind {k : α → Prog ε σ β} (first : R.Meets t Q p w)
    (later : ∀ a, R.Triple t (Q a) (k a) S) : R.Meets t S (p >>= k) w := by
  induction p generalizing w with
  | ret a => exact later a w (first w .refl)
  | sec upd ev next ih =>
    intro w' others allowed
    obtain ⟨move,rest⟩ := first w' others allowed
    exact ⟨move,ih _ rest⟩

theorem tripleBind {k : α → Prog ε σ β} (first : R.Triple t P p Q)
    (later : ∀ a, R.Triple t (Q a) (k a) S) : R.Triple t P (p >>= k) S :=
  fun w holds => meetsBind (first w holds) later

theorem tripleMono (pre : ∀ w, P' w → P w) (post : ∀ a w, Q a w → Q' a w)
    (triple : R.Triple t P p Q) : R.Triple t P' p Q' :=
  fun w holds => meetsMono post (triple w (pre w holds))

theorem triplePure {a : α} (stable : R.Stable t P) (post : ∀ w, P w → Q a w) :
    R.Triple t P (pure a) Q :=
  fun _ holds w' others => post w' (stable.others others holds)

theorem tripleAtomic {upd : σ → σ} {ev : σ → List ε} {read : σ → α} (stable : R.Stable t P)
    (stable' : ∀ a, R.Stable t (Q a))
    (step : ∀ w, P w → R.allow t w (ev w.shared) →
      R.move t w (ev w.shared) (upd w.shared) ∧
        Q (read w.shared) (w.act t (ev w.shared) (upd w.shared))) :
    R.Triple t P (atomic upd ev read) Q := by
  intro w holds w' others allowed
  obtain ⟨move,post⟩ := step w' (stable.others others holds) allowed
  exact ⟨move,fun w'' later => (stable' _).others later post⟩

theorem tripleIte {c : Prop} [Decidable c] {p q : Prog ε σ α} (yes : c → R.Triple t P p Q)
    (no : ¬ c → R.Triple t P q Q) : R.Triple t P (if c then p else q) Q := by
  split
  · rename_i h
    exact yes h
  · rename_i h
    exact no h

theorem tripleEach (stable : R.Stable t P)
    (each : p.Each fun upd ev => ∀ w, P w → R.allow t w (ev w.shared) →
      R.move t w (ev w.shared) (upd w.shared) ∧ P (w.act t (ev w.shared) (upd w.shared))) :
    R.Triple t P p fun _ => P := by
  induction p with
  | ret a => exact fun w holds w' others => stable.others others holds
  | sec upd ev next ih =>
    intro w holds w' others allowed
    obtain ⟨move,post⟩ := each.1 w' (stable.others others holds) allowed
    exact ⟨move,ih _ (each.2 _) _ post⟩

def Sound (R : Rules ι ε σ) (Q : ι → α → World ι ε σ → Prop) (c : Config ι ε σ α) : Prop :=
  ∀ t, R.Meets t (Q t) (c.threads t) c.world

variable {Q : ι → α → World ι ε σ → Prop} {c : Config ι ε σ α}

theorem soundResult {a : α} (sound : R.Sound Q c) (done : c.result t = some a) :
    Q t a c.world := by
  have own := sound t
  rw [Config.resultRet done] at own
  exact own c.world .refl

variable [DecidableEq ι]

def Moved (R : Rules ι ε σ) (c : Config ι ε σ α) (t : ι) : Prop :=
  (c.result t).isSome ∨ R.move t c.world (c.offers t) (c.turn t).world.shared

theorem soundTurn (sound : R.Sound Q c) (allowed : R.allow t c.world (c.offers t)) :
    R.Moved c t ∧ R.Sound Q (c.turn t) := by
  cases running : c.threads t with
  | ret a =>
    rw [Config.turnRet running]
    exact ⟨.inl (by simp [Config.result,result?,running]),sound⟩
  | sec upd ev next =>
    have own := sound t
    rw [running] at own
    have offered : c.offers t = ev c.world.shared := by simp [Config.offers,nextEvents,running]
    rw [offered] at allowed
    obtain ⟨move,later⟩ := own c.world .refl allowed
    rw [Moved,offered,Config.turnSec running]
    refine ⟨.inr move,fun u => ?_⟩
    by_cases same : u = t
    · subst same
      simpa only [Function.update_self] using later
    · simp only [Function.update_of_ne same]
      exact meetsOthers (sound u) (.single ⟨t,Ne.symm same,_,_,move,rfl⟩)

theorem soundAlong {schedule : List ι} (sound : R.Sound Q c)
    (allowed : Along Config.turn (fun c t => R.allow t c.world (c.offers t)) c schedule) :
    Along Config.turn (fun c t => R.Sound Q c ∧ R.Moved c t) c schedule := by
  have keep : ∀ c t, R.Sound Q c → R.allow t c.world (c.offers t) → R.Sound Q (c.turn t) :=
    fun _ _ sound allowed => (soundTurn sound allowed).2
  exact alongMono (fun c t h => ⟨h.1,(soundTurn h.1 h.2).1⟩) (alongInvariant keep sound allowed)

theorem soundRun {schedule : List ι} (sound : R.Sound Q c)
    (allowed : Along Config.turn (fun c t => R.allow t c.world (c.offers t)) c schedule) :
    Along Config.turn (fun c t => R.Moved c t) c schedule ∧
      R.Sound Q (after Config.turn c schedule) := by
  have keep : ∀ c t, R.Sound Q c → R.allow t c.world (c.offers t) → R.Sound Q (c.turn t) :=
    fun _ _ sound allowed => (soundTurn sound allowed).2
  obtain ⟨along,last⟩ := invariant keep sound allowed
  exact ⟨alongMono (fun c t h => (soundTurn h.1 h.2).1) (alongAnd along allowed),last⟩

end Rules
end MmDrivers.Interleaving

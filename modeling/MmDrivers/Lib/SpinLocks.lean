import MmDrivers.Lib.Interleaving
import MmDrivers.Lib.Locks

/-! Sections cut once more, at the locks they take. A thread takes the next lock of its section
when the lock is free and spins while it is not; once it has them all it runs the section, which
gives them back. -/
namespace MmDrivers.SpinLocks
open Sections Sections.Prog Interleaving Locks Runs

variable {ι ε σ α L : Type}

def takes (step : ε → LockStep L) (events : List ε) : List L :=
  events.filterMap fun e => match step e with
    | .acquire l => some l
    | _ => none

section Takes
variable {step : ε → LockStep L}

@[simp] theorem takesNil : takes step [] = [] := rfl

@[simp] theorem takesAppend (left right : List ε) :
    takes step (left ++ right) = takes step left ++ takes step right := by
  simp [takes]

theorem takesNeither {events : List ε} (neither : ∀ e ∈ events, step e = .neither) :
    takes step events = [] := by
  refine List.filterMap_eq_nil_iff.mpr fun e mem => ?_
  rw [neither e mem]

theorem takesUnder {l : L} {e e' : ε} {inner : List ε} (acquires : step e = .acquire l)
    (releases : step e' = .release l) (neither : ∀ e ∈ inner, step e = .neither) :
    takes step (e::inner ++ [e']) = [l] := by
  have none : takes step inner = [] := takesNeither neither
  unfold takes at none ⊢
  simp [acquires,releases,none]

theorem nextTaken {held taken locks : List L} {l : L} (begun : held <+: locks) (ahead : taken <+: locks)
    (next : taken[held.length]? = some l) : held ++ [l] <+: taken := by
  obtain ⟨inside,same⟩ := List.getElem?_eq_some_iff.mp next
  have shorter : held <+: taken := List.prefix_of_prefix_length_le begun ahead inside.le
  have taking : held = taken.take held.length := List.prefix_iff_eq_take.mp shorter
  rw [← same]
  nth_rewrite 1 [taking]
  rw [← List.take_succ_eq_append_getElem inside]
  exact List.take_prefix ..

end Takes

def Fixed (step : ε → LockStep L) (_upd : σ → σ) (ev : σ → List ε) : Prop :=
  ∃ locks, ∀ s, takes step (ev s) <+: locks

/-- The words of the locks, and what each thread has taken for its next section. -/
structure Spin (ι ε L σ α : Type) where
  config : Config ι ε σ α
  locked : L → Bool
  held : ι → List L

namespace Spin

def begin (c : Config ι ε σ α) : Spin ι ε L σ α := ⟨c,fun _ => false,fun _ => []⟩

variable (step : ε → LockStep L)

def wants (s : Spin ι ε L σ α) (t : ι) : Option L := (takes step (s.config.offers t))[(s.held t).length]?

structure Fits (s : Spin ι ε L σ α) : Prop where
  ahead : ∀ t, (s.config.threads t).Each (Fixed step)
  begun : ∀ t, ∃ locks, (∀ d, takes step (nextEvents (s.config.threads t) d) <+: locks) ∧ s.held t <+: locks
  idle : ∀ t, (s.config.result t).isSome → s.held t = []
  word : ∀ l, s.locked l = true ↔ ∃ t, l ∈ s.held t
  apart : ∀ l t u, l ∈ s.held t → l ∈ s.held u → t = u

def WaitsFor (s : Spin ι ε L σ α) (t u : ι) : Prop := ∃ l, s.wants step t = some l ∧ l ∈ s.held u

def Moves (s : Spin ι ε L σ α) (t : ι) : Prop :=
  s.config.result t = none ∧ ∀ l, s.wants step t = some l → s.locked l = false

section Threads
variable {step} {s : Spin ι ε L σ α} {t : ι} {l : L}

theorem wantsRet {a : α} (ended : s.config.threads t = .ret a) : s.wants step t = none := by
  simp [wants,Config.offers,ended,nextEvents]

theorem wantsRunning (wants : s.wants step t = some l) : s.config.result t = none := by
  cases running : s.config.threads t with
  | ret a =>
    rw [wantsRet running] at wants
    cases wants
  | sec upd ev next => simp [Config.result,result?,running]

theorem fixedNext {p : Prog ε σ α} (ahead : p.Each (Fixed step)) :
    ∃ locks, ∀ d, takes step (nextEvents p d) <+: locks := by
  cases p with
  | ret a => exact ⟨[],fun _ => List.prefix_rfl⟩
  | sec upd ev next => exact ahead.1

theorem fitsBegin {c : Config ι ε σ α} (ahead : ∀ t, (c.threads t).Each (Fixed step)) :
    Fits step (begin (L := L) c) := by
  refine ⟨ahead,fun t => ?_,fun _ _ => rfl,fun l => by simp [begin],fun l t u mem => ?_⟩
  · obtain ⟨locks,fixed⟩ := fixedNext (ahead t)
    exact ⟨locks,fixed,List.nil_prefix⟩
  · cases mem

theorem Fits.taking (fits : Fits step s) (wants : s.wants step t = some l) :
    s.held t ++ [l] <+: takes step (s.config.offers t) := by
  obtain ⟨locks,ahead,begun⟩ := fits.begun t
  exact nextTaken begun (ahead _) wants

theorem Fits.holderRuns (fits : Fits step s) (mem : l ∈ s.held t) : s.config.result t = none := by
  cases ended : s.config.result t with
  | none => rfl
  | some a =>
    rw [fits.idle t (by rw [ended]; rfl)] at mem
    cases mem

theorem Fits.movesOrWaits (fits : Fits step s) (running : s.config.result t = none) :
    s.Moves step t ∨ ∃ u, WaitsFor step s t u := by
  cases wants : s.wants step t with
  | none => exact .inl ⟨running,fun l same => by cases wants.symm.trans same⟩
  | some l =>
    cases locked : s.locked l with
    | false =>
      refine .inl ⟨running,fun k same => ?_⟩
      cases wants.symm.trans same
      exact locked
    | true =>
      obtain ⟨u,mem⟩ := (fits.word l).mp locked
      exact .inr ⟨u,l,wants,mem⟩

/-- Where the ranks of threads that wait with locks in hand fall along the way, all waiting ends at a
thread that moves. -/
theorem Fits.served (fits : Fits step s) (rank : ι → Nat)
    (falls : ∀ t u v, s.held t ≠ [] → WaitsFor step s t u → WaitsFor step s u v → rank u < rank t)
    (running : s.config.result t = none) : ∃ u, Relation.ReflTransGen (WaitsFor step s) t u ∧ s.Moves step u := by
  have holders : ∀ n t, rank t = n → s.held t ≠ [] → s.config.result t = none →
      ∃ u, Relation.ReflTransGen (WaitsFor step s) t u ∧ s.Moves step u := by
    intro n
    induction n using Nat.strongRecOn with
    | ind n ih =>
      intro t ranked holds running
      rcases fits.movesOrWaits running with moves | ⟨u,waits⟩
      · exact ⟨t,.refl,moves⟩
      · obtain ⟨l,wants,mem⟩ := waits
        have busy := fits.holderRuns mem
        rcases fits.movesOrWaits busy with moves | ⟨v,later⟩
        · exact ⟨u,.single ⟨l,wants,mem⟩,moves⟩
        · have lower := falls t u v holds ⟨l,wants,mem⟩ later
          obtain ⟨w,chain,moves⟩ := ih (rank u) (by omega) u rfl (List.ne_nil_of_mem mem) busy
          exact ⟨w,.head ⟨l,wants,mem⟩ chain,moves⟩
  rcases fits.movesOrWaits running with moves | ⟨u,waits⟩
  · exact ⟨t,.refl,moves⟩
  · obtain ⟨l,wants,mem⟩ := waits
    obtain ⟨v,chain,moves⟩ := holders _ u rfl (List.ne_nil_of_mem mem) (fits.holderRuns mem)
    exact ⟨v,.head ⟨l,wants,mem⟩ chain,moves⟩

end Threads

section Turns
variable [DecidableEq ι] [DecidableEq L]

def turn (s : Spin ι ε L σ α) (t : ι) : Spin ι ε L σ α :=
  match s.wants step t with
  | some l =>
    if s.locked l then s
    else ⟨s.config,Function.update s.locked l true,Function.update s.held t (s.held t ++ [l])⟩
  | none => ⟨s.config.turn t,fun l => s.locked l && !decide (l ∈ s.held t),Function.update s.held t []⟩

variable {step} {s : Spin ι ε L σ α} {t : ι} {l : L}

theorem turnSpins (wants : s.wants step t = some l) (locked : s.locked l = true) : s.turn step t = s := by
  simp [turn,wants,locked]

theorem turnTakes (wants : s.wants step t = some l) (free : s.locked l = false) :
    s.turn step t =
      ⟨s.config,Function.update s.locked l true,Function.update s.held t (s.held t ++ [l])⟩ := by
  simp [turn,wants,free]

theorem turnRuns (ready : s.wants step t = none) :
    s.turn step t =
      ⟨s.config.turn t,fun l => s.locked l && !decide (l ∈ s.held t),Function.update s.held t []⟩ := by
  simp [turn,ready]

theorem Fits.takes (fits : Fits step s) (wants : s.wants step t = some l) (free : s.locked l = false) :
    Fits step (s.turn step t) := by
  have unheld : ∀ u, l ∉ s.held u := by
    intro u mem
    have locked := (fits.word l).mpr ⟨u,mem⟩
    rw [free] at locked
    cases locked
  have held : ∀ u k, k ∈ Function.update s.held t (s.held t ++ [l]) u ↔ k ∈ s.held u ∨ u = t ∧ k = l := by
    intro u k
    by_cases ut : u = t
    · subst ut
      simp
    · simp [ut]
  rw [turnTakes wants free]
  refine ⟨fits.ahead,fun u => ?_,fun u ended => ?_,fun k => ?_,fun k u v hu hv => ?_⟩
  · obtain ⟨locks,ahead,begun⟩ := fits.begun u
    refine ⟨locks,ahead,?_⟩
    by_cases ut : u = t
    · subst ut
      dsimp only
      rw [Function.update_self]
      exact (fits.taking wants).trans (ahead _)
    · dsimp only
      rwa [Function.update_of_ne ut]
  · by_cases ut : u = t
    · subst ut
      rw [wantsRunning wants] at ended
      cases ended
    · dsimp only
      rw [Function.update_of_ne ut]
      exact fits.idle u ended
  · simp only [held]
    by_cases kl : k = l
    · subst kl
      simp only [Function.update_self,true_iff]
      exact ⟨t,.inr (by simp)⟩
    · simp [kl,fits.word]
  · rcases (held u k).mp hu with ku | ⟨ut,rfl⟩ <;> rcases (held v _).mp hv with kv | ⟨vt,same⟩
    · exact fits.apart k u v ku kv
    · exact absurd (same ▸ ku) (unheld u)
    · exact absurd kv (unheld v)
    · rw [ut,vt]

theorem Fits.runs (fits : Fits step s) (ready : s.wants step t = none) : Fits step (s.turn step t) := by
  have ahead := Config.turnEach (P := fun _ => Fixed step) fits.ahead t
  rw [turnRuns ready]
  refine ⟨ahead,fun u => ?_,fun u ended => ?_,fun k => ?_,fun k u v hu hv => ?_⟩ <;> dsimp only at *
  · by_cases ut : u = t
    · subst ut
      obtain ⟨locks,fixed⟩ := fixedNext (ahead u)
      rw [Function.update_self]
      exact ⟨locks,fixed,List.nil_prefix⟩
    · rw [Function.update_of_ne ut,Config.turnOther ut]
      exact fits.begun u
  · by_cases ut : u = t
    · rw [ut,Function.update_self]
    · rw [Function.update_of_ne ut]
      rw [Config.result,Config.turnOther ut] at ended
      exact fits.idle u ended
  · rw [Bool.and_eq_true,Bool.not_eq_true',decide_eq_false_iff_not,fits.word]
    constructor
    · rintro ⟨⟨u,mem⟩,free⟩
      have ne : u ≠ t := by
        rintro rfl
        exact free mem
      exact ⟨u,by rwa [Function.update_of_ne ne]⟩
    · rintro ⟨u,mem⟩
      by_cases ut : u = t
      · rw [ut,Function.update_self] at mem
        cases mem
      · rw [Function.update_of_ne ut] at mem
        exact ⟨⟨u,mem⟩,fun own => ut (fits.apart k u t mem own)⟩
  · by_cases ut : u = t
    · rw [ut,Function.update_self] at hu
      cases hu
    · by_cases vt : v = t
      · rw [vt,Function.update_self] at hv
        cases hv
      · rw [Function.update_of_ne ut] at hu
        rw [Function.update_of_ne vt] at hv
        exact fits.apart k u v hu hv

theorem Fits.turn (fits : Fits step s) (t : ι) : Fits step (s.turn step t) := by
  cases wants : s.wants step t with
  | none => exact fits.runs wants
  | some l =>
    cases locked : s.locked l with
    | false => exact fits.takes wants locked
    | true => rwa [turnSpins wants locked]

theorem Fits.after (fits : Fits step s) (schedule : List ι) : Fits step (after (Spin.turn step) s schedule) :=
  invariantAlways _ (fun _ t fits => fits.turn t) fits schedule

theorem ranTurns (step : ε → LockStep L) (s : Spin ι ε L σ α) (schedule : List ι) :
    ∃ turns, (Runs.after (Spin.turn step) s schedule).config = Runs.after Config.turn s.config turns ∧
      ∀ P : Config ι ε σ α → ι → Prop,
        Along (Spin.turn step) (fun s t => s.wants step t = none → P s.config t) s schedule →
          Along Config.turn P s.config turns := by
  induction schedule generalizing s with
  | nil => exact ⟨[],rfl,fun P _ => trivial⟩
  | cons t rest ih =>
    obtain ⟨turns,same,along⟩ := ih (s.turn step t)
    cases wants : s.wants step t with
    | none =>
      rw [turnRuns wants] at same along
      refine ⟨t::turns,?_,fun P allowed => ⟨allowed.1 wants,along P ?_⟩⟩
      · rw [afterCons,turnRuns wants]
        exact same
      · rw [← turnRuns wants]
        exact allowed.2
    | some l =>
      have kept : (s.turn step t).config = s.config := by
        cases locked : s.locked l with
        | false => rw [turnTakes wants locked]
        | true => rw [turnSpins wants locked]
      rw [kept] at same along
      exact ⟨turns,same,fun P allowed => along P allowed.2⟩

end Turns
end Spin
end MmDrivers.SpinLocks

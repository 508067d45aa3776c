import Mathlib

/-! Runs of a system that answers one call after another. -/
namespace MmDrivers.Runs

variable {σ ι : Type} (step : σ → ι → σ)

def after (s : σ) (calls : List ι) : σ := calls.foldl step s

/-- `P` holds of every call of the run, in the state the call starts from. -/
def Along (P : σ → ι → Prop) : σ → List ι → Prop
  | _,[] => True
  | s,c::rest => P s c ∧ Along P (step s c) rest

instance decidableAlong {P : σ → ι → Prop} [∀ s c, Decidable (P s c)] :
    ∀ s calls, Decidable (Along step P s calls)
  | _,[] => inferInstanceAs (Decidable True)
  | s,c::rest =>
    have := decidableAlong (P := P) (step s c) rest
    inferInstanceAs (Decidable (P s c ∧ Along step P (step s c) rest))

variable {step} {P Q : σ → ι → Prop} {Inv : σ → Prop} {s : σ} {calls : List ι}

@[simp] theorem afterNil (s : σ) : after step s [] = s := rfl
@[simp] theorem afterCons (s : σ) (c : ι) (rest : List ι) :
    after step s (c::rest) = after step (step s c) rest := rfl

theorem afterAppend (s : σ) (pre post : List ι) :
    after step s (pre ++ post) = after step (after step s pre) post := by
  simp [after,List.foldl_append]

theorem alongAppend (pre post : List ι) :
    Along step P s (pre ++ post) ↔ Along step P s pre ∧ Along step P (after step s pre) post := by
  induction pre generalizing s with
  | nil => simp [Along]
  | cons c rest ih => simp [Along,ih,and_assoc]

theorem alongSplit :
    Along step P s calls ↔ ∀ pre c post, calls = pre ++ c::post → P (after step s pre) c := by
  constructor
  · rintro h pre c post rfl
    exact ((alongAppend pre (c::post)).mp h).2.1
  · intro h
    induction calls generalizing s with
    | nil => trivial
    | cons c rest ih =>
      exact ⟨h [] c rest rfl,ih (fun pre e post split => h (c::pre) e post (by simp [split]))⟩

theorem alongAnd (left : Along step P s calls) (right : Along step Q s calls) :
    Along step (fun s c => P s c ∧ Q s c) s calls := by
  induction calls generalizing s with
  | nil => trivial
  | cons c rest ih => exact ⟨⟨left.1,right.1⟩,ih left.2 right.2⟩

theorem invariant (keep : ∀ s c, Inv s → P s c → Inv (step s c)) (start : Inv s)
    (allowed : Along step P s calls) :
    Along step (fun s _ => Inv s) s calls ∧ Inv (after step s calls) := by
  induction calls generalizing s with
  | nil => exact ⟨trivial,start⟩
  | cons c rest ih =>
    have next := ih (keep s c start allowed.1) allowed.2
    exact ⟨⟨start,next.1⟩,next.2⟩

theorem alongInvariant (keep : ∀ s c, Inv s → P s c → Inv (step s c)) (start : Inv s)
    (allowed : Along step P s calls) : Along step (fun s c => Inv s ∧ P s c) s calls :=
  alongAnd (invariant keep start allowed).1 allowed

theorem alongMono (imp : ∀ s c, P s c → Q s c) (h : Along step P s calls) :
    Along step Q s calls := by
  induction calls generalizing s with
  | nil => trivial
  | cons c rest ih => exact ⟨imp s c h.1,ih h.2⟩

theorem alongAlways (h : ∀ s c, P s c) : Along step P s calls := by
  induction calls generalizing s with
  | nil => trivial
  | cons c rest ih => exact ⟨h s c,ih⟩

theorem invariantAlways (I : σ → Prop) (keep : ∀ s c, I s → I (step s c)) (start : I s)
    (calls : List ι) : I (after step s calls) :=
  (invariant (P := fun _ _ => True) (fun s c h _ => keep s c h) start
    (alongAlways fun _ _ => trivial)).2

theorem alongIff {I : σ → Prop} (keep : ∀ s c, I s → P s c → I (step s c))
    (same : ∀ s c, I s → (Q s c ↔ P s c)) (start : I s) : Along step Q s calls ↔ Along step P s calls := by
  induction calls generalizing s with
  | nil => exact Iff.rfl
  | cons c rest ih =>
    have first := same s c start
    constructor
    · intro h
      exact ⟨first.mp h.1,(ih (keep s c start (first.mp h.1))).mp h.2⟩
    · intro h
      exact ⟨first.mpr h.1,(ih (keep s c start h.1)).mpr h.2⟩

/-- What a call keeps exactly if it is allowed, a run has throughout exactly if all its calls are. -/
theorem throughoutIff {Good : σ → Prop} (inv : ∀ s c, Inv s → Inv (step s c))
    (exact : ∀ s c, Inv s → Q s c → Good s → (Good (step s c) ↔ P s c)) (start : Inv s) (good : Good s)
    (h : Along step Q s calls) :
    Along step (fun s _ => Good s) s calls ∧ Good (after step s calls) ↔ Along step P s calls := by
  induction calls generalizing s with
  | nil => exact ⟨fun _ => trivial,fun _ => ⟨trivial,good⟩⟩
  | cons c rest ih =>
    have first := exact s c start h.1 good
    constructor
    · rintro ⟨along,last⟩
      have next : Good (step s c) := by
        cases rest with
        | nil => exact last
        | cons d rest => exact along.2.1
      exact ⟨first.mp next,(ih (inv s c start) next h.2).mp ⟨along.2,last⟩⟩
    · intro allowed
      have next := first.mpr allowed.1
      obtain ⟨along,last⟩ := (ih (inv s c start) next h.2).mpr allowed.2
      exact ⟨⟨good,along⟩,last⟩

def Since (step : σ → ι → σ) (Sets Keeps : σ → ι → Prop) (s : σ) (calls : List ι) : Prop :=
  ∃ pre c post, calls = pre ++ c::post ∧ Sets (after step s pre) c ∧
    Along step Keeps (step (after step s pre) c) post

variable {Sets Keeps : σ → ι → Prop}

theorem sinceNil : ¬ Since step Sets Keeps s [] := by
  rintro ⟨pre,c,post,split,-⟩
  simp at split

theorem sinceCons (c : ι) (rest : List ι) : Since step Sets Keeps s (c::rest) ↔
    Sets s c ∧ Along step Keeps (step s c) rest ∨ Since step Sets Keeps (step s c) rest := by
  constructor
  · rintro ⟨pre,d,post,split,sets,keeps⟩
    cases pre with
    | nil =>
      cases split
      exact .inl ⟨sets,keeps⟩
    | cons e pre =>
      cases split
      exact .inr ⟨pre,d,post,rfl,sets,keeps⟩
  · rintro (⟨sets,keeps⟩ | ⟨pre,d,post,rfl,sets,keeps⟩)
    · exact ⟨[],c,rest,rfl,sets,keeps⟩
    · exact ⟨c::pre,d,post,rfl,sets,keeps⟩

theorem sinceIff {Up : σ → Prop} (exact : ∀ s c, Q s c → (Up (step s c) ↔ Sets s c ∨ Up s ∧ Keeps s c))
    (h : Along step Q s calls) :
    Up (after step s calls) ↔ Up s ∧ Along step Keeps s calls ∨ Since step Sets Keeps s calls := by
  induction calls generalizing s with
  | nil => simp [sinceNil,Along]
  | cons c rest ih =>
    rw [afterCons,ih h.2,exact s c h.1,sinceCons]
    simp only [Along]
    tauto

end MmDrivers.Runs

import Mathlib

/-! Circular probing of a table with `m` slots. From any start the first `m`
positions meet every slot once, and a scan stops at the first slot that passes
its test: the facts an open-addressing table without tombstones rests on. -/
namespace MmDrivers.Probe

variable {m : Nat}

def position (start : Nat) (k : Fin m) : Fin m := ⟨(start+k) % m,Nat.mod_lt _ k.pos⟩

def order (m start : Nat) : List (Fin m) := (List.finRange m).map (position start)

theorem positionInjective (start : Nat) : Function.Injective (position start : Fin m → Fin m) := by
  have ordered : ∀ a b : Fin m, a.val ≤ b.val → (start+a) % m = (start+b) % m → a = b := by
    intro a b le same
    have dvd : m ∣ (start+b)-(start+a) :=
      Nat.dvd_of_mod_eq_zero (Nat.sub_mod_eq_zero_of_mod_eq same.symm)
    have none : (start+b)-(start+a) = 0 := Nat.eq_zero_of_dvd_of_lt dvd (by omega)
    exact Fin.ext (by omega)
  intro a b same
  have h : (start+a) % m = (start+b) % m := congrArg Fin.val same
  rcases Nat.le_total a.val b.val with le | le
  · exact ordered a b le h
  · exact (ordered b a le h.symm).symm

theorem orderNodup (m start : Nat) : (order m start).Nodup :=
  (List.nodup_finRange m).map (positionInjective start)

theorem memOrder (start : Nat) (i : Fin m) : i ∈ order m start := by
  obtain ⟨k,hk⟩ := (Finite.injective_iff_surjective.mp (positionInjective start)) i
  exact List.mem_map.mpr ⟨k,List.mem_finRange k,hk⟩

@[simp] theorem orderLength (m start : Nat) : (order m start).length = m := by simp [order]

theorem orderDrop (start : Nat) {k : Nat} (h : k < m) :
    (order m start).drop k = position start ⟨k,h⟩ :: (order m start).drop (k+1) := by
  rw [List.drop_eq_getElem_cons (by simpa using h)]
  simp [order]

/-- The slots met before `i`. -/
def before (start : Nat) (i : Fin m) : List (Fin m) := (order m start).takeWhile (· ≠ i)

theorem notMemBefore (start : Nat) (i : Fin m) : i ∉ before start i := by
  intro mem
  simpa using List.mem_takeWhile_imp mem

theorem beforeOfSplit {start : Nat} {i : Fin m} {pre rest}
    (h : order m start = pre ++ i :: rest) : before start i = pre := by
  have absent : i ∉ pre := by
    intro mem
    have nodup := orderNodup m start
    rw [h] at nodup
    exact (List.nodup_append.mp nodup).2.2 i mem i List.mem_cons_self rfl
  have keep : ∀ j ∈ pre, decide (j ≠ i) = true := by
    intro j mem
    simp only [decide_eq_true_eq]
    rintro rfl
    exact absent mem
  rw [before,h,List.takeWhile_append_of_pos keep,List.takeWhile_cons]
  simp

theorem orderSplit (start : Nat) (i : Fin m) :
    ∃ rest, order m start = before start i ++ i :: rest := by
  obtain ⟨pre,rest,split⟩ := List.append_of_mem (memOrder start i)
  exact ⟨rest,by rw [beforeOfSplit split]; exact split⟩

theorem beforeTotal (start : Nat) {i j : Fin m} (ne : i ≠ j) :
    i ∈ before start j ∨ j ∈ before start i := by
  obtain ⟨rest,split⟩ := orderSplit start i
  have mem := memOrder start j
  rw [split] at mem
  rcases List.mem_append.mp mem with early | late
  · exact .inr early
  · rcases List.mem_cons.mp late with same | later
    · exact absurd same.symm ne
    · obtain ⟨pre,post,rfl⟩ := List.append_of_mem later
      have whole : order m start = (before start i ++ i::pre) ++ j::post := by simpa using split
      have earlier : before start j = before start i ++ i::pre := beforeOfSplit whole
      exact .inl (by simp [earlier])

theorem beforeZero {i j : Fin m} : j ∈ before 0 i ↔ j < i := by
  have table : order m 0 = List.finRange m := by
    refine (List.map_congr_left fun k _ => ?_).trans (List.map_id _)
    exact Fin.ext (by simp [position,Nat.mod_eq_of_lt k.isLt])
  obtain ⟨rest,split⟩ := orderSplit 0 i
  have ascending := List.pairwise_lt_finRange m
  rw [← table,split] at ascending
  obtain ⟨-,later,earlier⟩ := List.pairwise_append.mp ascending
  refine ⟨fun mem => earlier j mem i List.mem_cons_self,fun less => ?_⟩
  rcases beforeTotal 0 (Fin.ne_of_lt less) with before | after
  · exact before
  · obtain ⟨rest',split'⟩ := orderSplit 0 j
    have order := List.pairwise_lt_finRange m
    rw [← table,split'] at order
    exact absurd ((List.pairwise_append.mp order).2.2 i after j List.mem_cons_self)
      (by simpa using Fin.le_of_lt less)

def first (start : Nat) (p : Fin m → Bool) : Option (Fin m) := (order m start).find? p

theorem firstNone {start : Nat} {p : Fin m → Bool} :
    first start p = none ↔ ∀ i, p i = false := by
  simp only [first,List.find?_eq_none,Bool.not_eq_true]
  exact ⟨fun h i => h i (memOrder start i),fun h i _ => h i⟩

theorem firstSome {start : Nat} {p : Fin m → Bool} {i : Fin m} :
    first start p = some i ↔ p i = true ∧ ∀ j ∈ before start i, p j = false := by
  rw [first,List.find?_eq_some_iff_append]
  constructor
  · rintro ⟨hit,pre,rest,split,miss⟩
    exact ⟨hit,by rw [beforeOfSplit split]; simpa using miss⟩
  · rintro ⟨hit,miss⟩
    obtain ⟨rest,split⟩ := orderSplit start i
    exact ⟨hit,_,rest,split,by simpa using miss⟩

theorem firstPasses {start : Nat} {p : Fin m → Bool} {i : Fin m} (h : first start p = some i) :
    p i = true := (firstSome.mp h).1

theorem firstExists (start : Nat) (p : Fin m → Bool) {i : Fin m} (h : p i = true) :
    ∃ j, first start p = some j := by
  cases hf : first start p with
  | some j => exact ⟨j,rfl⟩
  | none => simp [firstNone.mp hf i] at h

end MmDrivers.Probe

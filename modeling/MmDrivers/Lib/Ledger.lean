import Mathlib

/-! Accounts of counted references. A count for each name is kept apart from the
holders: rows of a table, standing holders, and the hand of the operation under way. -/
namespace MmDrivers.Ledger

variable {K : Type} [DecidableEq K]

def adjust (refs : K → Int) (k : K) (d : Int) : K → Int := Function.update refs k (refs k+d)

def rowsHolding (rows : List (List K)) (k : K) : Nat := (rows.map (List.count k)).sum

/-- Every reference counted is in exactly one of the three kinds of hands. -/
def Balanced (refs : K → Int) (standing : List K) (rows : List (List K)) (hand : List K) : Prop :=
  ∀ k, refs k = hand.count k+standing.count k+rowsHolding rows k

theorem adjustApply (refs : K → Int) (k j : K) (d : Int) :
    adjust refs k d j = refs j+if k = j then d else 0 := by
  unfold adjust
  by_cases same : k = j
  · rw [same,Function.update_self,if_pos rfl]
  · rw [Function.update_of_ne (Ne.symm same),if_neg same,add_zero]

theorem rowsHoldingAppend (rows : List (List K)) (row : List K) (k : K) :
    rowsHolding (rows ++ [row]) k = rowsHolding rows k+row.count k := by
  simp [rowsHolding]

theorem rowsHoldingModify {rows : List (List K)} {i : Nat} {row : List K} (f : List K → List K)
    (found : rows[i]? = some row) (k : K) :
    rowsHolding (rows.modify i f) k+row.count k = rowsHolding rows k+(f row).count k := by
  induction rows generalizing i with
  | nil => simp at found
  | cons head tail ih =>
    cases i with
    | zero =>
      obtain rfl : head = row := by simpa using found
      simp only [rowsHolding,List.modify_zero_cons,List.map_cons,List.sum_cons]
      omega
    | succ i =>
      have rest := ih (i := i) (by simpa using found)
      simp only [rowsHolding,List.modify_succ_cons,List.map_cons,List.sum_cons] at rest ⊢
      omega

theorem countSet {row : List K} {n : Nat} {old : K} (new : K) (found : row[n]? = some old) (k : K) :
    (row.set n new).count k+[old].count k = row.count k+[new].count k := by
  induction row generalizing n with
  | nil => simp at found
  | cons head tail ih =>
    cases n with
    | zero =>
      obtain rfl : head = old := by simpa using found
      simp only [List.set_cons_zero,List.count_cons,List.count_nil]
      omega
    | succ n =>
      have rest := ih (n := n) (by simpa using found)
      simp only [List.set_cons_succ,List.count_cons,List.count_nil] at rest ⊢
      omega

theorem mapModify {α β : Type} {g : α → β} {f : α → α} {l : List α} {i : Nat} (f' : β → β)
    (same : ∀ a, l[i]? = some a → g (f a) = f' (g a)) :
    (l.modify i f).map g = (l.map g).modify i f' := by
  induction l generalizing i with
  | nil => simp
  | cons head tail ih =>
    cases i with
    | zero => simp [same head rfl]
    | succ i => simpa using ih fun a found => same a (by simpa using found)

theorem mapModifySame {α β : Type} {g : α → β} {f : α → α} (same : ∀ a, g (f a) = g a) (l : List α)
    (i : Nat) : (l.modify i f).map g = l.map g := by
  rw [mapModify id fun a _ => same a,List.modify_id]

namespace Balanced
variable {refs : K → Int} {standing : List K} {rows : List (List K)} {hand : List K}

theorem perm (h : Balanced refs standing rows hand) {hand' : List K} (same : hand.Perm hand') :
    Balanced refs standing rows hand' := by
  intro k
  rw [← same.count_eq]
  exact h k

theorem get (h : Balanced refs standing rows hand) (k : K) :
    Balanced (adjust refs k 1) standing rows (k::hand) := by
  intro j
  have count := h j
  rw [adjustApply,List.count_cons]
  simp only [beq_iff_eq]
  split <;> omega

theorem put {k : K} (h : Balanced refs standing rows (k::hand)) :
    Balanced (adjust refs k (-1)) standing rows hand := by
  intro j
  have count := h j
  rw [List.count_cons] at count
  rw [adjustApply]
  simp only [beq_iff_eq] at count
  by_cases same : k = j
  · rw [if_pos same] at count ⊢
    omega
  · rw [if_neg same] at count ⊢
    omega

theorem adopt {row : List K} (h : Balanced refs standing rows (row ++ hand)) :
    Balanced refs standing (rows ++ [row]) hand := by
  intro k
  have count := h k
  rw [List.count_append] at count
  rw [rowsHoldingAppend]
  omega

theorem disband {i : Nat} {row : List K} (h : Balanced refs standing rows hand)
    (found : rows[i]? = some row) :
    Balanced refs standing (rows.modify i fun _ => []) (row ++ hand) := by
  intro k
  have count := h k
  have moved := rowsHoldingModify (fun _ => []) found k
  rw [List.count_append]
  simp only [List.count_nil] at moved
  omega

theorem exchange {i n : Nat} {row : List K} {old new : K}
    (h : Balanced refs standing rows (new::hand)) (found : rows[i]? = some row)
    (entry : row[n]? = some old) :
    Balanced refs standing (rows.modify i fun row => row.set n new) (old::hand) := by
  intro k
  have count := h k
  have moved := rowsHoldingModify (fun row => row.set n new) found k
  have swapped := countSet new entry k
  rw [← List.singleton_append,List.count_append] at count ⊢
  omega

theorem lend {k : K} (h : Balanced refs standing rows (k::hand)) :
    Balanced refs (standing ++ [k]) rows hand := by
  intro j
  have count := h j
  rw [← List.singleton_append,List.count_append] at count
  rw [List.count_append]
  omega

theorem reclaim {k : K} (h : Balanced refs standing rows hand) (mem : k ∈ standing) :
    Balanced refs (standing.erase k) rows (k::hand) := by
  intro j
  have count := h j
  have moved := (List.perm_cons_erase mem).count_eq j
  rw [← List.singleton_append,List.count_append] at moved ⊢
  omega

theorem positive {k : K} (h : Balanced refs standing rows hand) (mem : k ∈ hand) : 0 < refs k := by
  have count := h k
  have one := List.count_pos_iff.mpr mem
  omega

theorem nonneg (h : Balanced refs standing rows hand) (k : K) : 0 ≤ refs k := by
  have count := h k
  omega

end Balanced
end MmDrivers.Ledger

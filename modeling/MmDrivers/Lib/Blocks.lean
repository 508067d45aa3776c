import Mathlib

/-! Ids handed out in consecutive blocks, some of which are kept. A bound that
counts the kept ids tells them from the others only if they come first. -/
namespace MmDrivers.Blocks

structure Block where
  width : Nat
  used : Nat
  kept : Bool

namespace Block

def keptIds (b : Block) : Nat := if b.kept then b.used else 0

def Full (b : Block) : Prop := b.keptIds = b.width

theorem keptFits {b : Block} (fits : b.used ≤ b.width) : b.keptIds ≤ b.width := by
  unfold keptIds
  split <;> omega

end Block

def total (bs : List Block) : Nat := (bs.map Block.keptIds).sum

def start (bs : List Block) (i : Nat) : Nat := ((bs.take i).map Block.width).sum

/-- The ids below the bound are the ones of kept blocks. -/
def Separates (bound base : Nat) (bs : List Block) : Prop :=
  ∀ (i : Nat) (b : Block), bs[i]? = some b → ∀ j < b.used, base+start bs i+j < bound ↔ b.kept = true

/-- Every block before one with kept ids is full of them. -/
def Packed (bs : List Block) : Prop :=
  ∀ (i k : Nat) (a b : Block), i < k → bs[i]? = some a → bs[k]? = some b → 0 < b.keptIds → a.Full

variable {b : Block} {bs : List Block} {bound base : Nat}

theorem totalCons : total (b::bs) = b.keptIds+total bs := by simp [total]

theorem startSucc (i : Nat) : start (b::bs) (i+1) = b.width+start bs i := by simp [start]

theorem startNext {i : Nat} (found : bs[i]? = some b) : start bs (i+1) = start bs i+b.width := by
  simp [start,List.take_add_one,found]

theorem totalZero : total bs = 0 ↔ ∀ b ∈ bs, b.keptIds = 0 := by
  simp [total,List.sum_eq_zero_iff]

theorem separatesCons : Separates bound base (b::bs) ↔
    (∀ j < b.used, base+j < bound ↔ b.kept = true) ∧ Separates bound (base+b.width) bs := by
  constructor
  · intro separates
    refine ⟨fun j inside => by simpa [start] using separates 0 b rfl j inside,fun i c found j inside => ?_⟩
    have own := separates (i+1) c found j inside
    rwa [startSucc,← Nat.add_assoc] at own
  · intro ⟨first,rest⟩ i c found j inside
    cases i with
    | zero =>
      cases Option.some.inj found
      simpa [start] using first j inside
    | succ i =>
      rw [startSucc,← Nat.add_assoc]
      exact rest i c found j inside

theorem packedCons : Packed (b::bs) ↔ (total bs = 0 ∨ b.Full) ∧ Packed bs := by
  constructor
  · intro packed
    refine ⟨?_,fun i k a c lt => packed (i+1) (k+1) a c (by omega)⟩
    by_cases none : total bs = 0
    · exact .inl none
    · rw [totalZero] at none
      simp only [not_forall] at none
      obtain ⟨c,mem,some⟩ := none
      obtain ⟨k,found⟩ := List.mem_iff_getElem?.mp mem
      exact .inr (packed 0 (k+1) b c (by omega) rfl found (Nat.pos_of_ne_zero some))
  · intro ⟨first,rest⟩ i k a c lt foundA foundC some
    obtain ⟨k,rfl⟩ := Nat.exists_eq_succ_of_ne_zero (show k ≠ 0 by omega)
    cases i with
    | zero =>
      cases Option.some.inj foundA
      refine first.resolve_left fun none => ?_
      have zero := totalZero.mp none c (List.mem_iff_getElem?.mpr ⟨k,foundC⟩)
      omega
    | succ i => exact rest i k a c (by omega) foundA foundC some

theorem separatesRoom (fits : ∀ b ∈ bs, b.used ≤ b.width) (separates : Separates bound base bs) :
    total bs = 0 ∨ base+total bs ≤ bound := by
  induction bs generalizing base with
  | nil => exact .inl rfl
  | cons b rest ih =>
    obtain ⟨first,later⟩ := separatesCons.mp separates
    have own := Block.keptFits (fits b List.mem_cons_self)
    rw [totalCons]
    rcases ih (fun c mem => fits c (List.mem_cons_of_mem _ mem)) later with none | room
    · rw [none]
      by_cases some : b.kept = true ∧ 0 < b.used
      · have last := (first (b.used-1) (by omega)).mpr some.1
        have ids : b.keptIds = b.used := if_pos some.1
        omega
      · have ids : b.keptIds = 0 := by
          unfold Block.keptIds
          split <;> grind
        omega
    · omega

theorem separatesIff (fits : ∀ b ∈ bs, b.used ≤ b.width) :
    Separates (base+total bs) base bs ↔ Packed bs := by
  induction bs generalizing base with
  | nil => exact ⟨fun _ i k a c _ found => by simp at found,fun _ i c found => by simp at found⟩
  | cons b rest ih =>
    have fitsRest : ∀ c ∈ rest, c.used ≤ c.width := fun c mem => fits c (List.mem_cons_of_mem _ mem)
    have own := Block.keptFits (fits b List.mem_cons_self)
    have used := fits b List.mem_cons_self
    have ids : b.keptIds = if b.kept then b.used else 0 := rfl
    rw [separatesCons,packedCons,totalCons]
    by_cases full : b.Full
    · have width : b.keptIds = b.width := full
      have bound : base+(b.keptIds+total rest) = base+b.width+total rest := by omega
      rw [bound,ih fitsRest]
      refine and_congr_left fun _ => ⟨fun _ => .inr full,fun _ j inside => ?_⟩
      cases kept : b.kept <;> simp [kept] at ids ⊢ <;> omega
    · have lt : b.keptIds < b.width := by
        unfold Block.Full at full
        omega
      constructor
      · intro ⟨first,later⟩
        have none : total rest = 0 := by
          rcases separatesRoom fitsRest later with none | room
          · exact none
          · omega
        refine ⟨.inl none,fun i k a c _ _ found some => ?_⟩
        have zero := totalZero.mp none c (List.mem_iff_getElem?.mpr ⟨k,found⟩)
        omega
      · intro ⟨first,packed⟩
        have none := first.resolve_right full
        rw [none]
        refine ⟨fun j inside => ?_,fun i c found j inside => ?_⟩
        · cases kept : b.kept <;> simp [kept] at ids ⊢ <;> omega
        · have zero := totalZero.mp none c (List.mem_iff_getElem?.mpr ⟨i,found⟩)
          unfold Block.keptIds at zero
          cases kept : c.kept <;> simp [kept] at zero ⊢ <;> omega

end MmDrivers.Blocks

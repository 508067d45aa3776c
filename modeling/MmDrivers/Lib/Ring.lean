import Mathlib

/-! A circular buffer of `n` slots read at one index and written at another. One
slot stays unused, so equal indices mean empty, and the indices and the slots
between them determine a list: a bounded first-in first-out queue. -/
namespace MmDrivers.Ring

variable {α : Type} {n r w : Nat} {get : Nat → α} {xs : List α} {x : α}

structure Holds (n r w : Nat) (get : Nat → α) (xs : List α) : Prop where
  room : xs.length < n
  reader : r < n
  writer : w = (r+xs.length) % n
  kept : ∀ k (h : k < xs.length), get ((r+k) % n) = xs[k]

theorem Holds.fresh (some : 0 < n) (get : Nat → α) : Holds n 0 0 get [] :=
  ⟨by simpa using some,some,by simp,by simp⟩

theorem holdsBetween (reader : r < n) (writer : w < n) (get : Nat → α) : ∃ xs, Holds n r w get xs := by
  refine ⟨(List.range ((w+n-r) % n)).map fun k => get ((r+k) % n),?_,reader,?_,?_⟩
  · rw [List.length_map,List.length_range]
    exact Nat.mod_lt _ (by omega)
  · rw [List.length_map,List.length_range,Nat.add_mod_mod,Nat.add_sub_of_le (by omega),
      Nat.add_mod_right,Nat.mod_eq_of_lt writer]
  · intro k inside
    simp

theorem Holds.writerInside (h : Holds n r w get xs) : w < n := by
  have some : 0 < n := Nat.zero_lt_of_lt h.reader
  rw [h.writer]
  exact Nat.mod_lt _ some

theorem Holds.unwrapped (h : Holds n r w get xs) :
    (r ≤ w ∧ w = r+xs.length) ∨ (w < r ∧ w+n = r+xs.length) := by
  have room := h.room
  have reader := h.reader
  by_cases inside : r+xs.length < n
  · left
    have writer := h.writer
    rw [Nat.mod_eq_of_lt inside] at writer
    omega
  · right
    have wraps : (r+xs.length) % n = r+xs.length-n := by
      rw [Nat.mod_eq_sub_mod (by omega),Nat.mod_eq_of_lt (by omega)]
    have writer := h.writer
    omega

theorem Holds.emptyIff (h : Holds n r w get xs) : r = w ↔ xs = [] := by
  have reader := h.reader
  rw [← List.length_eq_zero_iff]
  rcases h.unwrapped with ⟨le,same⟩ | ⟨lt,same⟩ <;> omega

theorem Holds.free (h : Holds n r w get xs) :
    (if r ≤ w then n-(w-r) else r-w) = n-xs.length := by
  have room := h.room
  rcases h.unwrapped with ⟨le,same⟩ | ⟨lt,same⟩
  · rw [if_pos le]
    omega
  · rw [if_neg (by omega)]
    omega

theorem Holds.same {ys : List α} (h : Holds n r w get xs) (h' : Holds n r w get ys) : xs = ys := by
  have room := h.room
  have room' := h'.room
  have length : xs.length = ys.length := by
    rcases h.unwrapped with one | one <;> rcases h'.unwrapped with other | other <;> omega
  refine List.ext_getElem length fun k inside inside' => ?_
  rw [← h.kept k inside,← h'.kept k inside']

theorem nextMod {i : Nat} (inside : i < n) : (i+1) % n = if n ≤ i+1 then 0 else i+1 := by
  by_cases last : n ≤ i+1
  · have whole : i+1 = n := by omega
    rw [if_pos last,whole,Nat.mod_self]
  · rw [if_neg last,Nat.mod_eq_of_lt (by omega)]

theorem Holds.slotNe (h : Holds n r w get xs) {k : Nat} (pending : k < xs.length) :
    (r+k) % n ≠ w := by
  have room := h.room
  rw [h.writer]
  intro same
  have dvd : n ∣ (r+xs.length)-(r+k) :=
    Nat.dvd_of_mod_eq_zero (Nat.sub_mod_eq_zero_of_mod_eq same.symm)
  have none : (r+xs.length)-(r+k) = 0 := Nat.eq_zero_of_dvd_of_lt dvd (by omega)
  omega

theorem Holds.push {get' : Nat → α} (h : Holds n r w get xs) (room : xs.length+1 < n)
    (written : get' w = x) (others : ∀ k < n, k ≠ w → get' k = get k) :
    Holds n r ((w+1) % n) get' (xs ++ [x]) := by
  refine ⟨by simpa using room,h.reader,?_,?_⟩
  · rw [h.writer,Nat.mod_add_mod,List.length_append,List.length_singleton,Nat.add_assoc]
  · intro k inside
    simp only [List.length_append,List.length_singleton] at inside
    by_cases last : k = xs.length
    · subst last
      rw [← h.writer,written]
      simp
    · have pending : k < xs.length := by omega
      rw [others _ (Nat.mod_lt _ (Nat.zero_lt_of_lt h.reader)) (h.slotNe pending),
        h.kept k pending,List.getElem_append_left pending]

theorem Holds.head (h : Holds n r w get (x::xs)) : get r = x := by
  have first := h.kept 0 (by simp)
  simpa [Nat.mod_eq_of_lt h.reader] using first

theorem Holds.pop (h : Holds n r w get (x::xs)) : Holds n ((r+1) % n) w get xs := by
  have room := h.room
  simp only [List.length_cons] at room
  refine ⟨by omega,Nat.mod_lt _ (Nat.zero_lt_of_lt h.reader),?_,?_⟩
  · rw [h.writer,Nat.mod_add_mod,List.length_cons]
    congr 1
    omega
  · intro k inside
    have kept := h.kept (k+1) (by simpa using inside)
    rw [List.getElem_cons_succ] at kept
    rw [← kept,Nat.mod_add_mod]
    congr 2
    omega

end MmDrivers.Ring

import MmDrivers.SpecBind

/-! Which fences a bind stores, and in which slots. -/
namespace MmDrivers.SpecStores
open FenceTypes Runs SpecFence SyncDevice SpecAccounts SpecBind

section Stores
variable {s t : SyncDevice} {fds : Nat → Int}

def stores (s : SyncDevice) (fds : Nat → Int) : (left n : Nat) → List FenceId
  | 0,_ => []
  | left+1,n =>
    match s.fenceOf (fds n) with
    | none => []
    | some userFence => userFence::stores s fds left (n+1)

theorem storesFiles (files : ∀ fd, t.fenceOf fd = s.fenceOf fd) (left n : Nat) :
    stores t fds left n = stores s fds left n := by
  induction left generalizing n with
  | zero => rfl
  | succ left ih =>
    rw [stores,stores,files,ih]

theorem storesNamed {left n : Nat} {f : FenceId} (mem : f ∈ stores s fds left n) :
    ∃ k, n ≤ k ∧ k < n+left ∧ s.fenceOf (fds k) = some f := by
  induction left generalizing n with
  | zero => cases mem
  | succ left ih =>
    unfold stores at mem
    split at mem
    · cases mem
    · rename_i g found
      rcases List.mem_cons.mp mem with rfl | later
      · exact ⟨n,Nat.le_refl n,by omega,found⟩
      · obtain ⟨k,lo,hi,here⟩ := ih later
        exact ⟨k,by omega,by omega,here⟩

def overwrite (fences stored : List FenceId) (n : Nat) : List FenceId :=
  fences.take n ++ stored ++ fences.drop (n+stored.length)

theorem overwriteNone (fences : List FenceId) (n : Nat) : overwrite fences [] n = fences := by
  simp [overwrite]

theorem overwriteCons {fences stored : List FenceId} {n : Nat} (f : FenceId) (inside : n < fences.length) :
    overwrite (fences.set n f) stored (n+1) = overwrite fences (f::stored) n := by
  have front : (fences.set n f).take (n+1) = fences.take n ++ [f] := by
    rw [List.take_succ_eq_append_getElem (by simpa using inside),List.getElem_set_self,
      List.take_set_of_le (Nat.le_refl n)]
  have back : (fences.set n f).drop (n+1+stored.length) = fences.drop (n+(stored.length+1)) := by
    rw [List.drop_set_of_lt (by omega),Nat.add_assoc,Nat.add_comm 1]
  simp [overwrite,front,back]

theorem overwriteMem {fences stored : List FenceId} {n : Nat} {f : FenceId}
    (mem : f ∈ overwrite fences stored n) : f ∈ fences ∨ f ∈ stored := by
  rcases List.mem_append.mp mem with front | back
  · rcases List.mem_append.mp front with old | new
    · exact .inl (List.mem_of_mem_take old)
    · exact .inr new
  · exact .inl (List.mem_of_mem_drop back)

abbrev StoresOnly (i : Nat) (stored : List FenceId) (n last : Nat) (s t : SyncDevice) : Prop :=
  Rows (fun j a b => if j = i then last ≤ a.fences.length → b.fences = overwrite a.fences stored n
    else b.fences = a.fences) s.arrays t.arrays

theorem StoresOnly.none (i n last : Nat) (s : SyncDevice) : StoresOnly i [] n last s s := by
  refine Rows.refl _ fun j a => ?_
  split
  · exact fun _ => (overwriteNone a.fences n).symm
  · rfl

theorem StoresOnly.same {i n last : Nat} {stored : List FenceId} {s t u : SyncDevice}
    (first : StoresOnly i stored n last s t)
    (same : Rows (fun _ a b => b.fences = a.fences) t.arrays u.arrays) :
    StoresOnly i stored n last s u := by
  refine Rows.trans first same fun j a b c ab bc => ?_
  rwa [bc]

theorem replaceStores (i : Nat) (left n : Nat) (s : SyncDevice) :
    StoresOnly i (stores s fds left n) n (n+left) s (s.replaceFences i fds left n).2 := by
  induction left generalizing n s with
  | zero => exact .none i n (n+0) s
  | succ left ih =>
    unfold replaceFences stores
    cases file : s.fenceOf (fds n) with
    | none => exact .none i n _ s
    | some f =>
      dsimp only
      generalize stored : (s.dmaFenceGet f).onArray i _ = t
      have store : Rows (fun j a b => b = if j = i then {a with fences := a.fences.set n f} else a)
          s.arrays t.arrays := by
        rw [← stored]
        exact Rows.modify s.arrays i (fun a => by rw [if_pos rfl]) fun j a other => by rw [if_neg other]
      have drops := Drops.put t dummyFence
      have files : ∀ fd, (t.dmaFencePut dummyFence).fenceOf fd = s.fenceOf fd := by
        intro fd
        unfold fenceOf
        rw [drops.files,← stored]
        rfl
      have put : Rows (fun j a b => Kept (if j = i then {a with fences := a.fences.set n f} else a) b)
          s.arrays (t.dmaFencePut dummyFence).arrays :=
        store.trans (Keeps.drops drops) fun j a b c same kept => same ▸ kept
      refine put.trans (ih (n+1) _) fun j a b c kept rest => ?_
      have kept := kept.fences
      rw [storesFiles files] at rest
      by_cases here : j = i
      · rw [if_pos here] at kept rest ⊢
        intro fits
        rw [rest (by rw [kept,List.length_set]; omega),kept]
        exact overwriteCons f (by omega)
      · rw [if_neg here] at kept rest ⊢
        exact rest.trans kept

theorem Keeps.fences (keeps : Keeps s t) : Rows (fun _ a b => b.fences = a.fences) s.arrays t.arrays :=
  ⟨keeps.length,fun i b found => by
    obtain ⟨a,start,kept⟩ := keeps.each i b found
    exact ⟨a,start,kept.fences⟩⟩

theorem onArrayFences (s : SyncDevice) (i : Nat) {g : FenceArray → FenceArray}
    (same : ∀ a, (g a).fences = a.fences) :
    Rows (fun _ a b => b.fences = a.fences) s.arrays (s.onArray i g).arrays :=
  Rows.modify s.arrays i same fun _ _ _ => rfl

theorem bindStores (s : SyncDevice) (i numFences : Nat) (fds : Nat → Int) (a : BindAnswers) :
    StoresOnly i (stores s fds numFences 0) 0 numFences s (s.bindFences i numFences fds a).2 := by
  have replaced : StoresOnly i (stores s fds numFences 0) 0 (0+numFences) s _ := replaceStores i numFences 0 s
  rw [Nat.zero_add] at replaced
  unfold bindFences
  generalize s.replaceFences i fds numFences 0 = done at replaced ⊢
  obtain ⟨full,t⟩ := done
  cases full with
  | true =>
    have enabled := replaced.same (onArrayFences t i (g := fun array => {array with enableSignal := false})
      fun _ => rfl)
    have started := enabled.same (Keeps.fences (Keeps.enable i a _))
    have cleared := started.same (Keeps.fences (Keeps.clear false _))
    exact cleared.same (onArrayFences _ i fun _ => rfl)
  | false =>
    have bound := replaced.same (onArrayFences t i (g := fun array => {array with bound := true})
      fun _ => rfl)
    have failed := bound.same (onArrayFences _ i
      (g := fun array => {array with error := -22,signaled := true}) fun _ => rfl)
    exact failed.same (Keeps.fences (Keeps.clear false _))

end Stores
end MmDrivers.SpecStores

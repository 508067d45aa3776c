import MmDrivers.FenceTable

/-! Destroying by handle. The owner is looked up in the slot of the handle, the
fence to free by the key found there; the two agree as long as the probes for
that key meet no other slot that carries it. -/
namespace MmDrivers.DestroyHandle
open Sections Sections.Prog FenceTypes FenceLookup FenceTable Probe Runs

section Handle
variable {m : Nat}

def Unowned (d : DriverData m) : Prop := ∀ i, (d.tbl i).valid = false → (d.tbl i).fenceAllocator = 0

theorem unownedStep {d : DriverData m} (unowned : Unowned d) (c : TableCall) :
    Unowned (c.step d) := by
  intro i free
  cases stepEffect d c with
  | unchanged same =>
    rw [same] at free ⊢
    exact unowned i free
  | reserved k f creates wasFree valid missed same =>
    by_cases ik : i = k
    · subst ik
      rw [same,Function.update_self,valid] at free
      cases free
    · rw [same,Function.update_of_ne ik] at free ⊢
      exact unowned i free
  | unreserved k same =>
    by_cases ik : i = k
    · subst ik
      rw [same,Function.update_self]
      rfl
    · rw [same,Function.update_of_ne ik] at free ⊢
      exact unowned i free

theorem runsUnowned (d : DriverData m) (calls : List TableCall) :
    Unowned (after TableCall.step (zeroTable d) calls) :=
  invariantAlways Unowned (fun _ c unowned => unownedStep unowned c) (fun _ _ => rfl) calls

def FreesHandle (d : DriverData m) (client : HwFenceClient) (hash : Nat) : Prop :=
  match (hwFenceDestroyWithHash client hash).run d with
  | (.error _,d') => d' = d
  | (.ok _,d') => ∃ i : Fin m, i.val = hash ∧ (d.tbl i).valid = true ∧
      (d.tbl i).fenceAllocator = client.clientId ∧ d' = d.onSlot i unreserveHwFence

/-- If the client owns the slot of the handle, no slot probed before it carries its key. -/
def FirstOfKey (d : DriverData m) (client : HwFenceClient) (hash : Nat) : Prop :=
  ∀ i : Fin m, i.val = hash → (d.tbl i).fenceAllocator = client.clientId →
    ∀ j ∈ before (firstHash m (d.tbl i).key) i, (d.tbl j).key ≠ (d.tbl i).key

instance (d : DriverData m) (client hash) : Decidable (FirstOfKey d client hash) :=
  inferInstanceAs (Decidable (∀ _ : Fin m,_))

variable {d : DriverData m} {client : HwFenceClient} {i : Fin m}

theorem destroyOwn {j : Fin m} (own : (d.tbl i).fenceAllocator = client.clientId)
    (carries : (d.tbl j).key = (d.tbl i).key)
    (earliest : ∀ k ∈ before (firstHash m (d.tbl i).key) j, (d.tbl k).key ≠ (d.tbl i).key) :
    (hwFenceDestroyWithHash client i.val).run d = (.ok (),d.onSlot j unreserveHwFence) := by
  have slot : getHwFence m i.val = some i := by simp [getHwFence]
  have hit : probed .destroy (d.tbl i).ctxId (d.tbl i).seqId (d.tbl j) = .processed :=
    (matchesProcessed rfl).mpr carries
  have missed : ∀ k ∈ before (firstHash m ((d.tbl i).ctxId,(d.tbl i).seqId)) j,
      probed .destroy (d.tbl i).ctxId (d.tbl i).seqId (d.tbl k) = .missed :=
    fun k mem => (matchesMissed rfl).mpr (earliest k mem)
  have destroyed : (hwFenceLookupAndProcess .destroy (d.tbl i).ctxId (d.tbl i).seqId
      client.clientId 0).run d = ((some j,j.val),d.onSlot j unreserveHwFence) := by
    rw [lookupStops (by rw [hit]; simp) missed,if_pos hit]
    rfl
  simp only [hwFenceDestroyWithHash,slot,runBind,runObserve,own,ne_eq,not_true_eq_false,if_false,
    cleanupRun,destroyed]
  rfl

theorem destroyForeign (foreign : (d.tbl i).fenceAllocator ≠ client.clientId) :
    (hwFenceDestroyWithHash client i.val).run d = (.error .einval,d) := by
  have slot : getHwFence m i.val = some i := by simp [getHwFence]
  simp [hwFenceDestroyWithHash,slot,foreign]

theorem destroyOutside {hash : Nat} (outside : ¬ hash < m) :
    (hwFenceDestroyWithHash client hash).run d = (.error .einval,d) := by
  simp [hwFenceDestroyWithHash,getHwFence,outside]

theorem destroyFreesHandleIff (d₀ : DriverData m) (calls : List TableCall) (client : HwFenceClient)
    (hash : Nat) : let d := after TableCall.step (zeroTable d₀) calls
    FreesHandle d client hash ↔ FirstOfKey d client hash := by
  have unowned := runsUnowned d₀ calls
  generalize after TableCall.step (zeroTable d₀) calls = d at unowned
  dsimp only
  by_cases inside : hash < m
  · obtain ⟨i,rfl⟩ : ∃ i : Fin m, i.val = hash := ⟨⟨hash,inside⟩,rfl⟩
    by_cases own : (d.tbl i).fenceAllocator = client.clientId
    · have used : (d.tbl i).valid = true := by
        by_contra free
        have nobody := unowned i (by simpa using free)
        have known := client.known.1
        omega
      obtain ⟨j,found⟩ := firstExists (firstHash m (d.tbl i).key)
        (fun k => decide ((d.tbl k).key = (d.tbl i).key)) (i := i) (by simp)
      obtain ⟨carries,earliest⟩ := firstSome.mp found
      have ran := destroyOwn own (by simpa using carries)
        fun k mem => by simpa using earliest k mem
      unfold FreesHandle
      rw [ran]
      constructor
      · rintro ⟨k,same,-,-,freed⟩ k' same' - l early
        obtain rfl : k = i := Fin.ext same
        obtain rfl : k' = k := Fin.ext same'
        -- the slot that was freed is the slot of the handle
        have jk : j = k' := by
          by_contra ne
          have slot := congrArg (fun d : DriverData m => (d.tbl k').valid) freed
          simp [Ne.symm ne,used,unreserveHwFence] at slot
        subst jk
        simpa using earliest l early
      · intro firstOfKey
        have ij : j = i := by
          by_contra ne
          rcases beforeTotal (firstHash m (d.tbl i).key) ne with early | late
          · exact firstOfKey i rfl own j early (by simpa using carries)
          · simpa using earliest i late
        exact ⟨i,rfl,used,own,by rw [ij]⟩
    · unfold FreesHandle
      rw [destroyForeign own]
      refine ⟨fun _ k same mine => ?_,fun _ => rfl⟩
      obtain rfl : k = i := Fin.ext same
      exact absurd mine own
  · unfold FreesHandle
    rw [destroyOutside inside]
    exact ⟨fun _ k same => absurd k.isLt (same ▸ inside),fun _ => rfl⟩

def repeatedKey : List TableCall :=
  [⟨.create (.plain 1 oneKnown) 1 1,0⟩,⟨.create (.plain 1 oneKnown) 1 3,0⟩,
    ⟨.destroy (.plain 1 oneKnown) 1 1,0⟩,⟨.create (.plain 2 twoKnown) 1 3,0⟩]

theorem handleFreesAnother :
    ¬ FreesHandle (after TableCall.step (zeroTable (.unused 2 twoEntries)) repeatedKey)
      (.plain 1 oneKnown) 1 := by
  intro frees
  have ran : ((hwFenceDestroyWithHash (m := 2) (.plain 1 oneKnown) 1).run
      (after TableCall.step (zeroTable (.unused 2 twoEntries)) repeatedKey)).1 = .ok () := by
    decide +kernel
  have kept : (((hwFenceDestroyWithHash (m := 2) (.plain 1 oneKnown) 1).run
      (after TableCall.step (zeroTable (.unused 2 twoEntries)) repeatedKey)).2.tbl 1).valid =
      true := by
    decide +kernel
  unfold FreesHandle at frees
  generalize (hwFenceDestroyWithHash (m := 2) (.plain 1 oneKnown) 1).run _ = r at ran kept frees
  obtain ⟨status,d'⟩ := r
  obtain rfl : status = .ok () := ran
  obtain ⟨i,here,-,-,rfl⟩ := frees
  obtain rfl : i = 1 := Fin.ext here
  rw [DriverData.onSlotSame] at kept
  cases kept

end Handle
end MmDrivers.DestroyHandle

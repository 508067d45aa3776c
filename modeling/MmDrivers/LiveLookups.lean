import MmDrivers.ChildLinks
import MmDrivers.Parties

/-! Lookups against slots that are not in use. A slot nobody uses carries the key of
zeros, whatever its history, so that key alone can be found there. -/
namespace MmDrivers.LiveLookups
open Sections Sections.Prog Interleaving FenceTypes FenceLookup FenceTable FenceSignal JoinFence
open ResetRun JoinAccounting ChildLinks OpSections Parties Probe Runs

section Cleared
variable {m : Nat}

def Cleared (d : DriverData m) : Prop := ∀ i, (d.tbl i).valid = false → (d.tbl i).key = (0,0)

def KeepsCleared (upd : DriverData m → DriverData m) (_ev : DriverData m → List Event) : Prop :=
  ∀ d, Cleared d → Cleared (upd d)

theorem clearedSlot {i : Fin m} {g : DriverData m → HwFence → HwFence}
    {ev : DriverData m → List Event}
    (kept : ∀ d f, (f.valid = false → f.key = (0,0)) → (g d f).valid = false → (g d f).key = (0,0)) :
    KeepsCleared (fun d => d.onSlot i (g d)) ev := by
  intro d cleared x
  by_cases xi : x = i
  · subst xi
    rw [DriverData.onSlotSame]
    exact kept d _ (cleared x)
  · rw [DriverData.onSlotOther d _ xi]
    exact cleared x

theorem clearedRelinked {d : DriverData m} (cleared : Cleared d) (i : Fin m) {g : HwFence → HwFence}
    (relinked : ∀ f, Relinked f (g f)) : Cleared (d.onSlot i g) := by
  have slot : KeepsCleared (m := m) (fun d => d.onSlot i g) fun _ => [] := by
    refine clearedSlot fun d f kept free => ?_
    rw [(relinked f).key]
    exact kept ((relinked f).valid.symm.trans free)
  exact slot d cleared

theorem asideCleared {upd : DriverData m → DriverData m} {ev : DriverData m → List Event}
    (aside : Aside upd ev) : KeepsCleared upd ev := by
  intro d cleared i
  rw [(aside d).1]
  exact cleared i

theorem clearedProbe (op : LookupOp) (context seqno : U64) (clientId : Nat) (pending : U32)
    (i : Fin m) : (probeSlot op context seqno clientId pending i).Each KeepsCleared := by
  refine eachAtomic fun d cleared => ?_
  have slot : KeepsCleared (m := m) (fun d => d.onSlot i
      (op.processFnc d.qtime clientId context seqno pending)) fun _ => [] := by
    refine clearedSlot fun d f kept free => ?_
    cases op with
    | create | createJoin => cases free
    | destroy => rfl
    | findFence => exact kept free
  cases probed op context seqno (d.tbl i) with
  | processed => exact slot d cleared
  | duplicate | missed => exact cleared

theorem clearedTable : TableSections (m := m) KeepsCleared := by
  refine ⟨⟨fun ev looks => asideCleared (asideSignals.looks ev looks),
    fun _ _ _ _ _ _ _ _ => eachMono (fun _ _ => asideCleared) (asideSignals.update ..)⟩,
    fun _ _ _ _ _ _ => clearedProbe ..,fun _ _ _ => clearedSlot fun _ _ => id,
    fun _ _ => clearedSlot fun d f kept free => ?_,
    fun _ => eachMono (fun _ _ => asideCleared) (asideQuiet (quietResetQueues ..))⟩
  rw [clearWaitBitKeeps] at free ⊢
  exact kept free

theorem clearedArray (client : HwFenceClient) (array : DmaFenceArray) (clientData : U64) :
    (hwFenceProcessFenceArray (m := m) client array clientData).Each KeepsCleared := by
  have sections : ArraySections (m := m) KeepsCleared client clientData := by
    refine ⟨fun _ _ => asideCleared,fun _ _ _ _ _ _ => clearedProbe ..,
      fun join c hash => eachAtomic fun d cleared => ?_,fun hash c => eachAtomic fun d cleared => ?_,
      fun join => clearedSlot fun _ _ => id,fun _ join => clearedSlot fun _ _ => id⟩
    · split
      · exact clearedRelinked cleared join fun _ => rfl
      · split
        · exact cleared
        · exact clearedRelinked cleared c (linkRelinked hash)
    · exact clearedRelinked cleared c fun f => (unlinkRelinked hash f).1
  exact sections.each array

theorem clearedProg (party : Party m) : party.prog.Each KeepsCleared := by
  cases party with
  | clock qtime => exact eachAtomic fun d cleared => cleared
  | controller i =>
    refine eachAtomic fun d cleared x => ?_
    rw [(controllerCounted i d).slots x]
    exact cleared x
  | call op => exact clearedTable.call clearedArray op

end Cleared

section Reached
variable {m : Nat} {ι : Type} [DecidableEq ι] (parties : ι → Party m) (start : DriverData m)
  (schedule : List ι)

def reached : DriverData m :=
  (after Config.turn (pool parties (zeroTable start)) schedule).world.shared

theorem reachedCleared : Cleared (reached parties start schedule) :=
  (Config.everywhere (c := pool parties (zeroTable start))
    ⟨fun _ _ => rfl,fun t => clearedProg (parties t)⟩ schedule).2

end Reached

section Lookups
variable {m : Nat} {d : DriverData m} {key : Key}

/-- Finding and destroying the key end at a slot in use that carries it, and at none only if there is none. -/
structure LookupsLive (d : DriverData m) (key : Key) : Prop where
  found : ∀ client i, ((msmHwFenceFind client key.1 key.2).run d).1.1 = some i → d.live key i
  finds : ∀ client i, d.live key i → ((msmHwFenceFind client key.1 key.2).run d).1.1.isSome
  destroyed : ∀ client, ((hwFenceDestroy client key.1 key.2).run d).1 = .ok () →
    ∃ i, d.live key i ∧ ((hwFenceDestroy client key.1 key.2).run d).2 = d.onSlot i unreserveHwFence
  destroys : ∀ client i, d.live key i → ((hwFenceDestroy client key.1 key.2).run d).1 = .ok ()

theorem livesExists {i : Fin m} (live : d.live key i) : ∃ j, finds d key = some j :=
  firstExists _ _ (by simpa using live.2)

theorem destroyRun (client : HwFenceClient) (d : DriverData m) (key : Key) :
    (hwFenceDestroy client key.1 key.2).run d =
      (finds d key).elim (.error .einval,d) fun i => (.ok (),d.onSlot i unreserveHwFence) := by
  obtain ⟨hash,ran⟩ := matchRun .destroy rfl client.clientId 0 d key
  rw [hwFenceDestroy,cleanupRun,ran]
  cases finds d key <;> rfl

theorem lookupsFound : LookupsLive d key ↔ ∀ i, finds d key = some i → d.live key i := by
  constructor
  · intro live i found
    obtain ⟨hash,ran⟩ := findRun none d key
    exact live.found none i (by rw [ran]; exact found)
  · intro live
    constructor
    · intro client i found
      obtain ⟨hash,ran⟩ := findRun client d key
      rw [ran] at found
      exact live i found
    · intro client i held
      obtain ⟨hash,ran⟩ := findRun client d key
      obtain ⟨j,found⟩ := livesExists held
      rw [ran,found]
      rfl
    · intro client destroyed
      rw [destroyRun] at destroyed ⊢
      cases found : finds d key with
      | none =>
        rw [found] at destroyed
        cases destroyed
      | some i => exact ⟨i,live i found,rfl⟩
    · intro client i held
      obtain ⟨j,found⟩ := livesExists held
      rw [destroyRun,found]
      rfl

theorem zerosFound (cleared : Cleared d) : (∀ i, finds d (0,0) = some i → d.live (0,0) i) ↔
    ∀ i, (d.tbl i).valid = false → ∃ j < i, d.live (0,0) j := by
  have start : firstHash m (0,0) = 0 := by simp [firstHash]
  unfold finds
  rw [start]
  constructor
  · intro live i free
    obtain ⟨j,found⟩ := firstExists (i := i) 0 (fun x => decide ((d.tbl x).key = (0,0)))
      (by simpa using cleared i free)
    have held := live j found
    refine ⟨j,?_,held⟩
    have ne : j ≠ i := by
      rintro rfl
      exact absurd (held.1.symm.trans free) (by simp)
    rcases beforeTotal 0 ne with early | late
    · exact beforeZero.mp early
    · exact absurd (cleared i free) (by simpa using (firstSome.mp found).2 i late)
  · intro lives i found
    obtain ⟨hit,missed⟩ := firstSome.mp found
    refine ⟨?_,by simpa using hit⟩
    by_contra free
    obtain ⟨j,less,held⟩ := lives i (by simpa using free)
    exact absurd held.2 (by simpa using missed j (beforeZero.mpr less))

end Lookups

section Exact
variable {m : Nat} {ι : Type} [DecidableEq ι]

theorem lookupsLiveIff (parties : ι → Party m) (start : DriverData m) (schedule : List ι) (key : Key) :
    LookupsLive (reached parties start schedule) key ↔ key ≠ (0,0) ∨
      ∀ i, ((reached parties start schedule).tbl i).valid = false →
        ∃ j < i, (reached parties start schedule).live (0,0) j := by
  have cleared := reachedCleared parties start schedule
  rw [lookupsFound]
  by_cases zeros : key = (0,0)
  · subst zeros
    rw [zerosFound cleared]
    simp
  · refine iff_of_true (fun i found => ?_) (.inl zeros)
    have carries : ((reached parties start schedule).tbl i).key = key := by
      simpa using firstPasses found
    refine ⟨?_,carries⟩
    by_contra free
    exact zeros (carries.symm.trans (cleared i (by simpa using free)))

theorem zerosFoundUnused : ¬ LookupsLive
    (reached (fun _ : Unit => Party.clock 0) (.unused 1 oneEntry) []) (0,0) := by
  intro live
  have held := live.found none 0 (by decide +kernel)
  exact absurd held.1 (by decide +kernel)

end Exact
end MmDrivers.LiveLookups

import MmDrivers.Parties

/-! What a reset of a client promises, and when it keeps the promise. The wait
bit of a client is the bit of its id; ids past the width of the mask have none. -/
namespace MmDrivers.ResetClient
open Sections Sections.Prog FenceTypes FenceLookup FenceTable FenceSignal ResetRun DriverRuns
open Parties Runs

section Bits
variable {f : HwFence}

theorem bitLsb (id k : Nat) : (bit id).getLsbD k = decide (k = id % 64) := by
  have inside : id % 64 < 64 := Nat.mod_lt _ (by omega)
  simp only [bit,BitVec.getLsbD_shiftLeft,BitVec.getLsbD_one]
  by_cases same : k = id % 64
  · simp [same,inside]
  · by_cases low : k < id % 64
    · simp [same,low]
    · have high : k-id % 64 ≠ 0 := by omega
      simp [same,high]

theorem waitsIff (id : Nat) :
    f.waitClientMask &&& bit id ≠ 0 ↔ f.waitClientMask.getLsbD (id % 64) = true := by
  constructor
  · intro set
    by_contra unset
    have clear : f.waitClientMask.getLsbD (id % 64) = false := by simpa using unset
    refine set (BitVec.eq_of_getLsbD_eq fun k inside => ?_)
    rw [BitVec.getLsbD_and,bitLsb]
    by_cases same : k = id % 64
    · simp [same,clear]
    · simp [same]
  · intro set none
    have own := congrArg (BitVec.getLsbD · (id % 64)) none
    simp [bitLsb,set] at own

theorem clearedLsb (id k : Nat) : (clearWaitBit id f).waitClientMask.getLsbD k =
    (f.waitClientMask.getLsbD k && decide (k ≠ id % 64)) := by
  unfold clearWaitBit
  split
  · by_cases inside : k < 64
    · simp only [BitVec.getLsbD_and,BitVec.getLsbD_not,bitLsb,inside,decide_true,Bool.true_and,
        decide_not]
    · simp only [BitVec.getLsbD_of_ge _ _ (Nat.le_of_not_lt inside),Bool.false_and]
  · rename_i unset
    have none : f.waitClientMask.getLsbD (id % 64) = false := by
      simpa using fun set => unset ((waitsIff id).mpr set)
    by_cases same : k = id % 64
    · simp [same,none]
    · simp [same]

end Bits

section Promise
variable {m : Nat}

def owed (client : HwFenceClient) (flags : ResetFlags) (d : DriverData m) (i : Fin m) :
    List Signal :=
  if (d.tbl i).fenceAllocator = client.clientId ∧ ¬ (d.tbl i).signaled then
    ((List.range' 0 (d.rxqClientsNum+1)).filter fun id => id ≠ client.clientId ∧
      (d.tbl i).waitClientMask.getLsbD id ∧ (d.clients id).isSome).map
        (told (d.tbl i) i.val flags.error)
  else []

structure ResetSound (client : HwFenceClient) (flags : ResetFlags) (d : DriverData m) : Prop where
  noBit : ∀ i, (((msmHwFenceResetClient client flags).run d).2.tbl i).waitClientMask.getLsbD
    client.clientId = false
  destroyed : ¬ flags.withoutDestroy → ∀ i,
    (((msmHwFenceResetClient client flags).run d).2.tbl i).valid = true →
      (((msmHwFenceResetClient client flags).run d).2.tbl i).fenceAllocator ≠ client.clientId
  kept : flags.withoutDestroy → ∀ i, (d.tbl i).valid = true →
    (d.tbl i).fenceAllocator = client.clientId →
      (((msmHwFenceResetClient client flags).run d).2.tbl i).valid = true
  others : ∀ i, (d.tbl i).fenceAllocator ≠ client.clientId →
    ∃ mask, ((msmHwFenceResetClient client flags).run d).2.tbl i =
        {d.tbl i with waitClientMask := mask} ∧
      ∀ id ≠ client.clientId, mask.getLsbD id = (d.tbl i).waitClientMask.getLsbD id
  told : ((signals ((msmHwFenceResetClient client flags).events d)).map blind).Perm
    ((List.finRange m).flatMap (owed client flags d))

/-- The client has a bit of its own, or the bit its id falls on is not the bit of a client the
reset would wrong. -/
def OwnBit (client : HwFenceClient) (d : DriverData m) : Prop :=
  client.clientId < 64 ∨
    ∀ i, (d.tbl i).waitClientMask.getLsbD (client.clientId % 64) = true →
      (d.tbl i).fenceAllocator = client.clientId ∧ ((d.tbl i).signaled = true ∨
        d.clients (client.clientId % 64) = none ∨ d.rxqClientsNum < client.clientId % 64)

variable {d : DriverData m} {client : HwFenceClient} {flags : ResetFlags}

theorem resetMask (f : HwFence) (k : Nat) :
    (resetSlot client flags f).waitClientMask.getLsbD k = true →
      f.waitClientMask.getLsbD k = true ∧ k ≠ client.clientId % 64 := by
  intro set
  unfold resetSlot at set
  split at set
  · simp [unreserveHwFence,cleanupHwFence,HwFence.zeroed] at set
  · simpa [clearedLsb] using set

theorem resetSignalsOwed (small : d.rxqClientsNum < 64) (i : Fin m)
    (own : OwnBit client d) : resetSignals client flags d i = owed client flags d i := by
  unfold resetSignals owed
  have allocator : (clearWaitBit client.clientId (d.tbl i)).fenceAllocator =
      (d.tbl i).fenceAllocator := by rw [clearWaitBitKeeps]
  have signaled : (clearWaitBit client.clientId (d.tbl i)).signaled = (d.tbl i).signaled := by
    rw [clearWaitBitKeeps]
    rfl
  have same : told (clearWaitBit client.clientId (d.tbl i)) i.val flags.error =
      told (d.tbl i) i.val flags.error := by
    rw [clearWaitBitKeeps]
    rfl
  simp only [allocator,signaled,same]
  split
  · rename_i mine
    congr 1
    refine List.filter_congr fun id mem => ?_
    have inside : id ≤ d.rxqClientsNum := by
      have bound := (List.mem_range'_1.mp mem).2
      omega
    have low : id % 64 = id := Nat.mod_eq_of_lt (by omega)
    simp only [waitsIff,clearedLsb,low,decide_eq_decide,Bool.and_eq_true,decide_eq_true_eq]
    constructor
    · intro ⟨⟨set,other⟩,registered⟩
      refine ⟨fun same => other ?_,set,registered⟩
      rw [← same,low]
    · intro ⟨other,set,registered⟩
      refine ⟨⟨set,fun same => ?_⟩,registered⟩
      rcases own with inside | aliased
      · exact other (by rw [same,Nat.mod_eq_of_lt inside])
      · rw [← same] at aliased
        rcases (aliased i set).2 with signaled | none | past
        · exact mine.2 signaled
        · simp [none] at registered
        · omega
  · rfl

theorem resetNotReady (ready : ¬ d.vmReady = true) :
    let p := msmHwFenceResetClient client flags
    (p.run d).2 = d ∧ signals (p.events d) = [] := by
  simp only [msmHwFenceResetClient,runBind,eventsBind,runObserve,eventsObserve,ready]
  exact ⟨rfl,rfl⟩

theorem resetSound (settled : Settled d) (early : d.vmReady = false → ∀ i, d.tbl i = .zeroed)
    (small : d.rxqClientsNum < 64) (own : OwnBit client d) : ResetSound client flags d := by
  by_cases ready : d.vmReady = true
  · obtain ⟨-,each,list⟩ := resetRun client flags settled ready
    refine ⟨fun i => ?_,fun destroy i used mine => ?_,fun keep i used mine => ?_,fun i theirs => ?_,?_⟩
    · by_contra set
      have set := resetMask (d.tbl i) client.clientId (by simpa [each] using set)
      by_cases inside : client.clientId < 64
      · exact set.2 (Nat.mod_eq_of_lt inside).symm
      · rw [BitVec.getLsbD_of_ge _ _ (Nat.le_of_not_lt inside)] at set
        exact absurd set.1 (by simp)
    · rw [each,resetSlot] at used mine
      by_cases freed : (d.tbl i).fenceAllocator = client.clientId
      · rw [if_pos ⟨freed,destroy⟩] at used
        cases used
      · rw [if_neg fun h => freed h.1,clearWaitBitKeeps] at mine
        exact freed mine
    · rw [each,resetSlot,if_neg fun h => h.2 keep,clearWaitBitKeeps]
      exact used
    · rw [each,resetSlot,if_neg fun h => theirs h.1]
      refine ⟨_,clearWaitBitKeeps ..,fun id other => ?_⟩
      rw [clearedLsb]
      by_cases cleared : id = client.clientId % 64
      · -- the bit is the client's own, or no fence of another client holds it
        have unset : (d.tbl i).waitClientMask.getLsbD id = false := by
          by_contra set
          rcases own with inside | aliased
          · exact other (cleared.trans (Nat.mod_eq_of_lt inside))
          · exact theirs (aliased i (by simpa [cleared] using set)).1
        rw [unset]
        rfl
      · simp [cleared]
    · rw [list]
      exact List.Perm.of_eq (List.flatMap_congr fun i _ => resetSignalsOwed small i own)
  · have zeroed := early (by simpa using ready)
    obtain ⟨same,quiet⟩ := @resetNotReady _ d client flags ready
    refine ⟨fun i => ?_,fun _ i used => ?_,fun _ i used => ?_,fun i _ => ?_,?_⟩
    · simp [same,zeroed,HwFence.zeroed]
    · simp [same,zeroed,HwFence.zeroed] at used
    · simp [zeroed,HwFence.zeroed] at used
    · exact ⟨(d.tbl i).waitClientMask,by rw [same],fun _ _ => rfl⟩
    · have known := client.known.1
      have none : ∀ i, owed client flags d i = [] := by
        intro i
        rw [owed,zeroed,if_neg]
        intro mine
        exact absurd mine.1 (by simp [HwFence.zeroed]; omega)
      rw [quiet]
      simp [none]

theorem ownBit (settled : Settled d) (early : d.vmReady = false → ∀ i, d.tbl i = .zeroed)
    (sound : ResetSound client flags d) : OwnBit client d := by
  by_cases inside : client.clientId < 64
  · exact .inl inside
  refine .inr fun i set => ?_
  have low : client.clientId % 64 < 64 := Nat.mod_lt _ (by omega)
  have ready : d.vmReady = true := by
    by_contra ready
    simp [early (by simpa using ready),HwFence.zeroed] at set
  obtain ⟨-,each,list⟩ := resetRun client flags settled ready
  have mine : (d.tbl i).fenceAllocator = client.clientId := by
    by_contra theirs
    obtain ⟨mask,reset,same⟩ := sound.others i theirs
    have kept : (resetSlot client flags (d.tbl i)).waitClientMask.getLsbD
        (client.clientId % 64) = true := by
      rw [← each,reset,same _ (by omega)]
      exact set
    exact (resetMask _ _ kept).2 rfl
  refine ⟨mine,?_⟩
  by_contra wronged
  simp only [not_or,Bool.not_eq_true,not_lt] at wronged
  obtain ⟨unsignaled,registered,within⟩ := wronged
  -- the waiter whose bit was cleared is owed a signal that is not sent
  have owes : told (d.tbl i) i.val flags.error (client.clientId % 64) ∈
      (List.finRange m).flatMap (owed client flags d) := by
    refine List.mem_flatMap.mpr ⟨i,List.mem_finRange i,?_⟩
    rw [owed,if_pos ⟨mine,by simp [unsignaled]⟩]
    refine List.mem_map_of_mem (List.mem_filter.mpr ⟨List.mem_range'_1.mpr ⟨by omega,by omega⟩,?_⟩)
    have other : client.clientId % 64 ≠ client.clientId := by omega
    have some : (d.clients (client.clientId % 64)).isSome := Option.isSome_iff_ne_none.mpr registered
    simp only [decide_eq_true_eq]
    exact ⟨other,set,some⟩
  have sent := sound.told.symm.mem_iff.mp owes
  rw [list] at sent
  obtain ⟨j,-,mem⟩ := List.mem_flatMap.mp sent
  unfold resetSignals at mem
  dsimp only at mem
  split at mem
  · obtain ⟨id,waits,same⟩ := List.mem_map.mp mem
    simp only [told,Signal.mk.injEq] at same
    have set := (List.mem_filter.mp waits).2
    simp only [decide_eq_true_eq,waitsIff,clearedLsb,same.1,Nat.mod_mod,Bool.and_eq_true] at set
    exact set.1.2 rfl
  · cases mem

end Promise

section Runs
variable {m : Nat} {d d' : DriverData m}

inductive Move (m : Nat) where
  | call (c : DriverCall)
  | controller (i : Fin m)

def Move.step (d : DriverData m) : Move m → DriverData m
  | .call c => c.step d
  | .controller i => (controllerSignals i d).1

def Move.Allowed (d : DriverData m) : Move m → Prop
  | .call c => DriverRuns.Allowed d c
  | .controller _ => True

/-- The table of a driver, whatever else has changed since, is one that a run leaves. Before the VM
is ready the entry points turn every create away. -/
def Reached (d : DriverData m) : Prop :=
  ∃ start moves, Along Move.step Move.Allowed (zeroTable start) moves ∧
    d.tbl = (after Move.step (zeroTable start) moves).tbl ∧ (d.vmReady = false → moves = [])

theorem countedSettled (settled : Settled d) (counted : CountedOnly d d') : Settled d' := by
  refine settled.keep (fun i used => (counted.live _ i).mp ⟨used,rfl⟩) fun i free => ?_
  have slot := counted.slots i
  rw [slot] at free
  have blank := settled.blank i free
  unfold Blank Counted at *
  rw [slot,blank]

theorem moveSettled (d : DriverData m) (move : Move m) (settled : Settled d)
    (allowed : Move.Allowed d move) : Settled (Move.step d move) := by
  cases move with
  | call c => exact settledStep settled allowed
  | controller i => exact countedSettled settled (controllerCounted i d)

theorem Reached.settled (reached : Reached d) : Settled d := by
  obtain ⟨start,moves,allowed,same,-⟩ := reached
  exact (invariant moveSettled (zeroSettled start) allowed).2.sameTable same

theorem Reached.early (reached : Reached d) (closed : d.vmReady = false) (i : Fin m) :
    d.tbl i = .zeroed := by
  obtain ⟨start,moves,-,same,none⟩ := reached
  rw [same,none closed]
  rfl

def creator : HwFenceClient := .plain 1 oneKnown
def waiter : HwFenceClient := .plain 2 twoKnown
def sender : HwFenceClient := .plain 66 (by decide)

def registered : DriverData 2 :=
  {DriverData.unused 2 twoEntries with
    entries := twoEntries
    rxqClientsNum := 16
    clients := fun id => [creator,waiter,sender].find? fun c => c.clientId = id
    ownId := by
      intro id c found
      simpa using List.find?_some found}

def waitMoves : List (Move 2) :=
  [.call ⟨.create creator 1 1,0⟩,.call ⟨.registerWait none waiter 1 1 0,0⟩]

def waited : DriverData 2 := after Move.step (zeroTable registered) waitMoves

theorem waitAllowed : Along Move.step Move.Allowed (zeroTable registered) waitMoves := by
  refine ⟨⟨contextsOf (by decide),?_⟩,⟨contextsOf (by decide),?_⟩,trivial⟩
  · intro key creates i held
    cases held.1
  · intro key creates
    cases creates

theorem waitedReached : Reached waited :=
  ⟨registered,waitMoves,waitAllowed,rfl,by decide +kernel⟩

theorem firstInside : 0 < 2 := by decide

def signaledMoves : List (Move 2) := waitMoves ++ [.controller ⟨0,firstInside⟩,.call ⟨.create creator 1 3,0⟩,
  .call ⟨.registerWait none waiter 1 3 0,0⟩]

def signaled : DriverData 2 := after Move.step (zeroTable registered) signaledMoves

theorem signaledReached : Reached signaled := by
  refine ⟨registered,signaledMoves,(alongAppend ..).mpr ⟨waitAllowed,trivial,⟨contextsOf (by decide),?_⟩,
    ⟨contextsOf (by decide),?_⟩,trivial⟩,rfl,by decide +kernel⟩
  · intro key creates i held
    cases Option.some.inj creates
    revert i
    decide +kernel
  · intro key creates
    cases creates

end Runs
end MmDrivers.ResetClient

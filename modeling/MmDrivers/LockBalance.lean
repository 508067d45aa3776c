import MmDrivers.OpSections
import MmDrivers.Lib.Locks

/-! The locks of the core operations: the lock of a slot, taken inside the lookup and
around each change of a slot, and the lock of a client's Rx queue. -/
namespace MmDrivers.LockBalance
open Sections Sections.Prog Locks FenceTypes FenceLookup FenceTable FenceSignal ClientQueue JoinFence
open DriverRuns OpSections

inductive Lock where
  | slot (i : Nat)
  | client (idx : Nat)
  deriving DecidableEq

def lockStep : Event → LockStep Lock
  | .lock i => .acquire (.slot i)
  | .unlock i => .release (.slot i)
  | .lockClient idx => .acquire (.client idx)
  | .unlockClient idx => .release (.client idx)
  | _ => .neither

section Balance
variable {m : Nat}

def Balances (_upd : DriverData m → DriverData m) (ev : DriverData m → List Event) : Prop :=
  ∀ d, Balanced lockStep (ev d)

theorem slotBalanced {i : Nat} (inner : List Event) (neither : ∀ e ∈ inner, lockStep e = .neither) :
    Balanced lockStep (.lock i::inner ++ [.unlock i]) :=
  balancedUnder inner rfl rfl (heldNeither neither)

theorem plainNeither {e : Event} (looks : plain e = true) : lockStep e = .neither := by
  cases e <;> first | rfl | cases looks

theorem wordsNeither {client queueType : Nat} {words : List Nat} :
    ∀ e ∈ words.map (Event.queueWord client queueType), lockStep e = .neither := by
  intro e mem
  obtain ⟨word,-,rfl⟩ := List.mem_map.mp mem
  rfl

theorem balancesObserve {α : Type} (read : DriverData m → α) :
    (observe read : Driver m α).Each Balances := eachAtomic fun _ => balancedNil

theorem balancesUpdate (client : HwFenceClient) (ctxtId seqno hash flags clientData : U64)
    (error : U32) (queueType : Nat) : (hwFenceUpdateQueue (m := m) client ctxtId seqno hash flags
      clientData error queueType).Each Balances := by
  unfold hwFenceUpdateQueue
  refine eachBind (balancesObserve _) fun queuesNum => eachIte (fun _ => trivial) fun _ =>
    eachIte (fun _ => trivial) fun _ => eachBind (balancesObserve _) fun lockCnt =>
      eachIte (fun _ => trivial) fun _ => eachAtomic fun d => ?_
  split
  · exact balancedUnder _ rfl rfl (heldNeither wordsNeither)
  · exact balancedNeither wordsNeither

theorem balancesSignals : SignalSections (m := m) Balances :=
  ⟨fun _ looks d => balancedNeither fun e mem => plainNeither (looks d e mem),balancesUpdate⟩

theorem balancesProbe (op : LookupOp) (context seqno : U64) (clientId : Nat) (pending : U32)
    (i : Fin m) : (probeSlot op context seqno clientId pending i).Each Balances := by
  refine eachAtomic fun d => ?_
  cases probed op context seqno (d.tbl i) with
  | processed => exact slotBalanced [_] (by cases op <;> simp [LookupOp.event,lockStep])
  | duplicate | missed => exact slotBalanced [] (by simp)

theorem balancesReset (client : HwFenceClient) : (hwFenceUtilsResetQueues (m := m) client).Each Balances := by
  unfold hwFenceUtilsResetQueues
  refine eachBind (eachAtomic fun d => balancedNil) fun _ => eachWhenever fun _ => ?_
  refine eachBind (balancesObserve _) fun lockCnt => eachWhenever fun _ => eachAtomic fun d => ?_
  exact balancedUnder [] rfl rfl rfl

theorem balancesTable : TableSections (m := m) Balances :=
  ⟨balancesSignals,balancesProbe,fun _ _ _ _ => slotBalanced [_] (by simp [lockStep]),
    fun _ _ _ => slotBalanced [] (by simp),balancesReset⟩

section Join
variable (join : Fin m)

def JoinBalances (upd : DriverData m → DriverData m) (ev : DriverData m → List Event) : Prop :=
  ∀ d, (d.tbl join).signaled = false →
    ((upd d).tbl join).signaled = false ∧ Balanced lockStep (ev d)

variable {join}

theorem joinSlot {i : Fin m} {g : DriverData m → HwFence → HwFence} {ev : DriverData m → List Event}
    (kept : ∀ d f, f.signaled = false → (g d f).signaled = false)
    (balances : ∀ d, Balanced lockStep (ev d)) :
    JoinBalances join (fun d => d.onSlot i (g d)) ev := by
  refine fun d unsignaled => ⟨?_,balances d⟩
  by_cases same : join = i
  · subst same
    rw [DriverData.onSlotSame]
    exact kept d _ unsignaled
  · rwa [DriverData.onSlotOther d _ same]

theorem joinSignals : SignalSections (JoinBalances join) := by
  refine ⟨fun ev looks d unsignaled => ⟨unsignaled,balancesSignals.looks ev looks d⟩,
    fun client ctxtId seqno hash flags clientData error queueType => ?_⟩
  refine eachMono (fun upd ev both d unsignaled => ⟨?_,both.2 d⟩)
    (eachAnd (deliverUpdate ..) (balancesUpdate ..))
  rw [both.1.1 d]
  exact unsignaled

theorem processUnsignaled (op : LookupOp) (qtime : U64) (clientId : Nat) (context seqno : U64)
    (pending : U32) {f : HwFence} (unsignaled : f.signaled = false) :
    (op.processFnc qtime clientId context seqno pending f).signaled = false := by
  cases op with
  | findFence => exact unsignaled
  | create | createJoin | destroy => simp [LookupOp.processFnc,reserveHwFence,reserveJoinFence,
      unreserveHwFence,cleanupHwFence,HwFence.zeroed,HwFence.signaled]

theorem joinProbe (op : LookupOp) (context seqno : U64) (clientId : Nat) (pending : U32)
    (i : Fin m) : (probeSlot op context seqno clientId pending i).Each (JoinBalances join) := by
  have slot : JoinBalances join (fun d => d.onSlot i
      (op.processFnc d.qtime clientId context seqno pending)) fun _ => [] :=
    joinSlot (fun d f unsignaled => processUnsignaled op _ _ _ _ _ unsignaled) fun _ => balancedNil
  refine eachAtomic fun d unsignaled => ⟨?_,(balancesProbe op context seqno clientId pending i).1 d⟩
  cases probed op context seqno (d.tbl i) with
  | processed => exact (slot d unsignaled).1
  | duplicate | missed => exact unsignaled

theorem joinChild (c : Fin m) (hash : Nat) : (processChild join c hash).Each (JoinBalances join) := by
  have slot : ∀ (i : Fin m) (g : DriverData m → HwFence → HwFence), (∀ d f, (g d f).signaled = f.signaled) →
      JoinBalances join (fun d => d.onSlot i (g d)) fun _ => [] := fun i g kept =>
    joinSlot (fun d f unsignaled => (kept d f).trans unsignaled) fun _ => balancedNil
  refine eachAtomic fun d unsignaled => ?_
  by_cases signaled : (d.tbl c).signaled = true
  · -- the child is another slot than the join fence
    have other : join ≠ c := by
      rintro rfl
      exact absurd (unsignaled.symm.trans signaled) (by simp)
    have free : Lock.slot join.val ∉ [Lock.slot c.val] := by
      simpa [Fin.val_inj] using other
    simp only [signaled,if_true]
    have inner : heldAfter lockStep [.lock join.val,.unlock join.val] [.slot c.val] = some [.slot c.val] :=
      heldUnder [] rfl rfl free rfl
    have nested : Balanced lockStep (.lock c.val::[.lock join.val,.unlock join.val] ++ [.unlock c.val]) :=
      balancedUnder _ rfl rfl inner
    exact ⟨(slot join (fun d f => {f with pendingChildCnt := (d.tbl join).pendingChildCnt-1})
      (fun _ _ => rfl) d unsignaled).1,nested⟩
  · simp only [signaled,Bool.false_eq_true,if_false]
    by_cases exceeded : parentsExceeded (d.tbl c) = true
    · simp only [exceeded,if_true]
      exact ⟨unsignaled,slotBalanced [] (by simp)⟩
    · simp only [exceeded,Bool.false_eq_true,if_false]
      exact ⟨(slot c (fun _ => linkParent hash) (fun _ f => (linkRelinked hash f).signaled) d unsignaled).1,
        slotBalanced [_] (by simp [lockStep])⟩

theorem joinSections (client : HwFenceClient) (array : DmaFenceArray) (clientData : U64) :
    JoinSections (JoinBalances join) client array clientData join := by
  have emits : ∀ e : Event, plain e = true → JoinBalances join id fun _ => [e] := fun e looks =>
    joinSignals.looks _ fun d e' mem => by rwa [List.mem_singleton.mp mem]
  refine ⟨joinProbe,joinChild,fun hash c => eachAtomic (joinSlot (fun d f unsignaled => ?_) fun d => ?_),
    joinSlot (fun _ _ => id) fun d => slotBalanced [_] (by simp [lockStep]),
    fun _ => joinSlot (fun _ _ => id) fun _ => balancedNil,joinSignals.signal client,emits _ rfl,fun _ _ => emits _ rfl⟩
  · rwa [(unlinkRelinked hash f).1.signaled]
  · exact slotBalanced [_] (by simp [lockStep])

end Join

theorem balancesEvents {α : Type} {p : Driver m α} (balances : p.Each Balances) (d : DriverData m) :
    Balanced lockStep (p.events d) :=
  (eachKeeps (I := fun _ => True) (eachMono (fun _ _ own d _ => ⟨trivial,own d⟩) balances) balancedNil
    (fun _ _ => Balanced.append) trivial).2

theorem arrayBalanced (client : HwFenceClient) (array : DmaFenceArray) (clientData : U64)
    (d : DriverData m) :
    Balanced lockStep ((hwFenceProcessFenceArray client array clientData).events d) := by
  unfold hwFenceProcessFenceArray
  split
  · exact balancedNil
  · have creates : (hwFenceProcessJoinFence (m := m) array 0 true).Each Balances :=
      joinEach balancesTable.lookup 0 true
    rw [eventsBind]
    refine (balancesEvents creates d).append ?_
    generalize ran : (hwFenceProcessJoinFence array 0 true).run d = r
    obtain ⟨⟨slot,hash⟩,d'⟩ := r
    cases slot with
    | none => exact balancedNil
    | some join =>
      simp only [hwFenceProcessJoinFence,if_true] at ran
      obtain ⟨-,-,-,created⟩ := lookupSome ran
      have unsignaled : (d'.tbl join).signaled = false := by
        rw [created,DriverData.onSlotSame]
        simp [LookupOp.processFnc,reserveJoinFence,cleanupHwFence,HwFence.zeroed,HwFence.signaled]
      exact (eachKeeps (joinedEach (joinSections client array clientData)) balancedNil
        (fun _ _ => Balanced.append) unsignaled).2

end Balance

section Operations
variable {m : Nat}

/-- The operations of the core: those the driver offers and the ones they are made of. -/
inductive CoreOp (m : Nat) where
  | driver (op : DriverOp)
  | find (client : Option HwFenceClient) (context seqno : U64)
  | updateQueue (client : HwFenceClient) (ctxtId seqno hash flags clientData : U64) (error : U32)
    (queueType : Nat)
  | resetQueues (client : HwFenceClient)
  | cleanupFence (client : HwFenceClient) (fence : Fin m) (hash : Nat) (flags : ResetFlags)

def CoreOp.events : CoreOp m → DriverData m → List Event
  | .driver op,d => op.call.events d
  | .find client context seqno,d => (msmHwFenceFind client context seqno).events d
  | .updateQueue client ctxtId seqno hash flags clientData error queueType,d =>
    (hwFenceUpdateQueue client ctxtId seqno hash flags clientData error queueType).events d
  | .resetQueues client,d => (hwFenceUtilsResetQueues client).events d
  | .cleanupFence client fence hash flags,d => (hwFenceUtilsCleanupFence client fence hash flags).events d

theorem locksBalanced (op : CoreOp m) (d : DriverData m) : Balanced lockStep (op.events d) := by
  have status : ∀ {α : Type} {p : Driver m (Status × α)}, Balanced lockStep (p.events d) →
      Balanced lockStep ((Prod.fst <$> p).events d) := by
    intro α p balanced
    simpa using balanced
  cases op with
  | find client context seqno => exact balancesEvents (balancesTable.lookup ..) d
  | updateQueue client ctxtId seqno hash flags clientData error queueType =>
    exact balancesEvents (balancesTable.update ..) d
  | resetQueues client => exact balancesEvents (balancesTable.resetQueues _) d
  | cleanupFence client fence hash flags => exact balancesEvents (balancesTable.cleanupFence ..) d
  | driver op =>
    cases op with
    | create client context seqno => exact status (balancesEvents (balancesTable.create ..) d)
    | destroy client context seqno => exact balancesEvents (balancesTable.cleanup ..) d
    | destroyWithHash client hash => exact balancesEvents (balancesTable.destroyWithHash ..) d
    | registerWait fence client context seqno clientData =>
      exact status (balancesEvents (balancesTable.registerWait ..) d)
    | processFence client fence clientData => exact status (balancesEvents (balancesTable.processFence ..) d)
    | processFenceArray client array clientData => exact status (arrayBalanced client array clientData d)
    | resetClient client flags => exact balancesEvents (balancesTable.resetClient ..) d

end Operations
end MmDrivers.LockBalance

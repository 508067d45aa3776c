import MmDrivers.DriverRuns

/-! The count a join fence waits for against the links its children hold. -/
namespace MmDrivers.JoinAccounting
open Sections Sections.Prog FenceTypes FenceLookup FenceTable FenceSignal JoinFence JoinRun ResetRun
open DriverRuns Runs

section Accounts
variable {m : Nat} {d d' : DriverData m}

/-- How often slot `x` lists slot `j` as a parent it still has to tell. -/
def linksFrom (d : DriverData m) (j x : Fin m) : Nat :=
  if (d.tbl x).valid ∧ ¬ (d.tbl x).signaled then (d.tbl x).parents.count j.val else 0

def isJoin (d : DriverData m) (j : Fin m) : Prop :=
  (d.tbl j).valid = true ∧ (d.tbl j).fenceAllocator = hwFenceJoinFenceClientId

def Accounted (d : DriverData m) : Prop :=
  ∀ j, isJoin d j → (d.tbl j).pendingChildCnt.toNat = ∑ x, linksFrom d j x

instance (d : DriverData m) (j : Fin m) : Decidable (isJoin d j) :=
  inferInstanceAs (Decidable (_ ∧ _))

instance (d : DriverData m) : Decidable (Accounted d) :=
  inferInstanceAs (Decidable (∀ j, isJoin d j → _))

/-- What runs keep besides: nobody signals, and a free slot lists nothing. -/
structure Booked (d : DriverData m) : Prop where
  settled : Settled d
  unsignaled : ∀ x, (d.tbl x).signaled = false
  freeParents : ∀ x, (d.tbl x).valid = false → (d.tbl x).parents = []
  accounted : Accounted d

def reserves (d : DriverData m) : DriverOp → Fin m → Prop
  | .processFenceArray client array clientData,j =>
    (clientData = 0 ∨ (hwFenceGetClientDataId client.clientId).isSome) ∧
      (∀ x, ¬ d.live (arrayKey array) x) ∧ FreeAt d (arrayKey array) j
  | _,_ => False

structure Unlinked (d : DriverData m) (c : DriverCall) : Prop where
  frees : ∀ i, c.op.frees d i → (d.tbl i).valid = true →
    ∀ j ≠ i, isJoin d j → j.val ∉ (d.tbl i).parents
  joins : ∀ j, reserves d c.op j → ∀ x, (d.tbl x).valid = true → j.val ∉ (d.tbl x).parents

theorem Accounted.keep (accounted : Accounted d)
    (joins : ∀ j, isJoin d' j → isJoin d j ∧ (d'.tbl j).pendingChildCnt = (d.tbl j).pendingChildCnt ∧
      ∀ x, linksFrom d' j x = linksFrom d j x) : Accounted d' := by
  intro j held
  obtain ⟨old,pending,links⟩ := joins j held
  rw [pending,accounted j old]
  exact Finset.sum_congr rfl fun x _ => (links x).symm

theorem linksFromSame {j x : Fin m} (valid : (d'.tbl x).valid = (d.tbl x).valid)
    (signaled : (d'.tbl x).signaled = (d.tbl x).signaled)
    (parents : (d'.tbl x).parents.count j.val = (d.tbl x).parents.count j.val) :
    linksFrom d' j x = linksFrom d j x := by
  unfold linksFrom
  rw [valid,signaled,parents]

theorem linksFromFree {j x : Fin m} (free : (d.tbl x).valid = false) : linksFrom d j x = 0 := by
  simp [linksFrom,free]

theorem linksFromNone {j x : Fin m} (none : j.val ∉ (d.tbl x).parents) : linksFrom d j x = 0 := by
  unfold linksFrom
  split
  · exact List.count_eq_zero.mpr none
  · rfl

theorem unsignaledFlags {f : HwFence} (flags : f.flags = 0) : f.signaled = false := by
  simp [HwFence.signaled,flags]

theorem zeroBooked (d : DriverData m) : Booked (zeroTable d) := by
  refine ⟨zeroSettled d,fun _ => unsignaledFlags rfl,fun _ _ => rfl,fun j held => ?_⟩
  exact absurd held.1 (by simp [zeroTable,HwFence.zeroed])

end Accounts

section Steps
variable {m : Nat} {d d' : DriverData m} {c : DriverCall} {i : Fin m} {f : HwFence}

theorem Booked.created (booked : Booked d) (settled : Settled d')
    (same : d'.tbl = Function.update d.tbl i f) (free : (d.tbl i).valid = false)
    (plain : f.fenceAllocator ≠ hwFenceJoinFenceClientId) (unsignaled : f.signaled = false)
    (alone : f.parents = []) : Booked d' := by
  have own : d'.tbl i = f := by rw [same,Function.update_self]
  have other : ∀ x ≠ i, d'.tbl x = d.tbl x := fun x ne => by rw [same,Function.update_of_ne ne]
  refine ⟨settled,fun x => ?_,fun x used => ?_,booked.accounted.keep fun j held => ?_⟩
  · by_cases xi : x = i
    · rw [xi,own,unsignaled]
    · rw [other x xi,booked.unsignaled]
  · by_cases xi : x = i
    · rw [xi,own,alone]
    · rw [other x xi] at used ⊢
      exact booked.freeParents x used
  · have ji : j ≠ i := by
      intro ji
      rw [isJoin,ji,own] at held
      exact plain held.2
    rw [isJoin,other j ji] at held
    refine ⟨held,by rw [other j ji],fun x => ?_⟩
    by_cases xi : x = i
    · rw [xi,linksFromFree free,linksFromNone (by rw [own,alone]; exact List.not_mem_nil)]
    · exact linksFromSame (by rw [other x xi]) (by rw [other x xi]) (by rw [other x xi])

structure SameLinks (f f' : HwFence) : Prop where
  valid : f'.valid = f.valid
  allocator : f'.fenceAllocator = f.fenceAllocator
  signaled : f'.signaled = f.signaled
  parents : f'.parents = f.parents
  pending : f'.pendingChildCnt = f.pendingChildCnt

theorem Booked.freed (booked : Booked d) (settled : Settled d')
    (each : ∀ x, SameLinks (d.tbl x) (d'.tbl x) ∨
      d'.tbl x = unreserveHwFence (d.tbl x) ∧ ((d.tbl x).valid = true →
        ∀ j ≠ x, isJoin d j → j.val ∉ (d.tbl x).parents)) : Booked d' := by
  refine ⟨settled,fun x => ?_,fun x free => ?_,booked.accounted.keep fun j held => ?_⟩
  · rcases each x with same | ⟨freed,-⟩
    · rw [same.signaled,booked.unsignaled]
    · rw [freed]
      exact unsignaledFlags rfl
  · rcases each x with same | ⟨freed,-⟩
    · rw [same.parents]
      exact booked.freeParents x (same.valid ▸ free)
    · rw [freed]
      rfl
  · rcases each j with same | ⟨freed,-⟩
    · have old : isJoin d j := by rwa [isJoin,same.valid,same.allocator] at held
      refine ⟨old,same.pending,fun x => ?_⟩
      rcases each x with same | ⟨freed,alone⟩
      · exact linksFromSame same.valid same.signaled (by rw [same.parents])
      · have jx : j ≠ x := by
          intro jx
          subst jx
          exact absurd held.1 (by simp [freed,unreserveHwFence])
        rw [linksFromFree (by simp [freed,unreserveHwFence])]
        by_cases used : (d.tbl x).valid = true
        · rw [linksFromNone (alone used j jx old)]
        · rw [linksFromFree (by simpa using used)]
    · exact absurd held.1 (by simp [freed,unreserveHwFence])

theorem clearedLinks (clientId : Nat) (f : HwFence) : SameLinks f (clearWaitBit clientId f) := by
  rw [clearWaitBitKeeps]
  exact ⟨rfl,rfl,rfl,rfl,rfl⟩

theorem storedLinks (client : HwFenceClient) (clientData : U64) (f : HwFence) :
    SameLinks f (storeClientData client clientData f) := by
  rw [storeKeeps]
  exact ⟨rfl,rfl,rfl,rfl,rfl⟩

end Steps

section Arrays
variable {m : Nat} {d d' : DriverData m} {client : HwFenceClient} {array : DmaFenceArray}
  {data : U64} {join : Fin m}

theorem joinedUnsignaled (client : HwFenceClient) (array : DmaFenceArray) (data : U64)
    (join : Fin m) (booked : Booked d) (x : Fin m) :
    ((joined client array data join d).tbl x).signaled = false := by
  by_cases xj : x = join
  · rw [xj,joinedSlot]
    exact unsignaledFlags rfl
  · rw [joinedTbl,Function.update_of_ne xj,booked.unsignaled]

theorem Booked.unlisted (booked : Booked d)
    (joins : ∀ x, (d.tbl x).valid = true → join.val ∉ (d.tbl x).parents) :
    Unlisted join (joined client array data join d) := by
  refine joinedUnlisted fun x => ?_
  by_cases used : (d.tbl x).valid = true
  · exact joins x used
  · rw [booked.freeParents x (by simpa using used)]
    exact List.not_mem_nil

theorem linksTotal {n : Nat} {d₀ : DriverData m} {children : List DmaFence} {cs : List (Fin m)}
    {signal : Bool} (unlisted : Unlisted join d₀) (unsignaled : ∀ x, (d₀.tbl x).signaled = false)
    (progress : Progress n join d₀ children cs signal d') :
    ∑ x, linksFrom d' join x = children.length := by
  have each : ∀ x, linksFrom d' join x = cs.count x := by
    intro x
    have relinked := progress.linking.slots x
    have listed : ((d'.tbl x).parents).count join.val = cs.count x := by
      rw [progress.parents,List.count_append,List.count_eq_zero.mpr (unlisted x),linksOf,unsignaled]
      simp
    by_cases used : (d₀.tbl x).valid = true
    · rw [linksFrom,relinked.valid,relinked.signaled,used,unsignaled,listed]
      simp
    · have free : (d'.tbl x).valid = false := by simpa [relinked.valid] using used
      rw [linksFromFree free,progress.absent free]
  rw [progress.slots.length_eq]
  simp only [each]
  have total := Multiset.sum_count_eq_card (s := Finset.univ) (m := (cs : Multiset (Fin m)))
    fun x _ => Finset.mem_univ x
  simpa using total

theorem otherSlot {x : Fin m} {k : Nat} (xj : x ≠ join)
    (relinked : Relinked ((joined client array data join d).tbl x) (d'.tbl x))
    (parents : (d'.tbl x).parents =
      ((joined client array data join d).tbl x).parents ++ List.replicate k join.val)
    (j : Fin m) (other : j ≠ join) :
    (isJoin d' x ↔ isJoin d x) ∧ linksFrom d' j x = linksFrom d j x := by
  have same : (joined client array data join d).tbl x = d.tbl x := by
    rw [joinedTbl,Function.update_of_ne xj]
  rw [same] at relinked parents
  refine ⟨by rw [isJoin,isJoin,relinked.valid,relinked.allocator],?_⟩
  refine linksFromSame relinked.valid relinked.signaled ?_
  have none : (List.replicate k join.val).count j.val = 0 :=
    List.count_eq_zero.mpr fun mem => other (Fin.ext (List.eq_of_mem_replicate mem))
  rw [parents,List.count_append,none,Nat.add_zero]

theorem Booked.rolledBack (booked : Booked d) (free : (d.tbl join).valid = false)
    (settled : Settled (d'.onSlot join unreserveHwFence))
    (unlisted : Unlisted join (joined client array data join d))
    (undone : Undoing join (joined client array data join d) [] d') :
    Booked (d'.onSlot join unreserveHwFence) := by
  have parents : ∀ x, (d'.tbl x).parents = ((joined client array data join d).tbl x).parents ++
      List.replicate 0 join.val := fun x => by simpa using undone.finished unlisted x
  have others : ∀ x ≠ join, (d'.tbl x).valid = (d.tbl x).valid ∧
      (d'.tbl x).parents = (d.tbl x).parents ∧
      (d'.tbl x).pendingChildCnt = (d.tbl x).pendingChildCnt := by
    intro x xj
    have same : (joined client array data join d).tbl x = d.tbl x := by
      rw [joinedTbl,Function.update_of_ne xj]
    refine ⟨?_,?_,?_⟩
    · rw [(undone.linking.slots x).valid,same]
    · rw [undone.finished unlisted x,same]
    · rw [undone.linking.pending x xj,same]
  refine ⟨settled,fun x => ?_,fun x unused => ?_,booked.accounted.keep fun j held => ?_⟩
  · by_cases xj : x = join
    · rw [xj,DriverData.onSlotSame]
      exact unsignaledFlags rfl
    · rw [DriverData.onSlotOther _ _ xj,(undone.linking.slots x).signaled,joinedUnsignaled _ _ _ _ booked]
  · by_cases xj : x = join
    · rw [xj,DriverData.onSlotSame]
      rfl
    · rw [DriverData.onSlotOther _ _ xj] at unused ⊢
      rw [(others x xj).2.1,booked.freeParents x ((others x xj).1 ▸ unused)]
  · have jj : j ≠ join := by
      intro same
      rw [isJoin,same,DriverData.onSlotSame] at held
      exact absurd held.1 (by simp [unreserveHwFence])
    rw [isJoin,DriverData.onSlotOther _ _ jj] at held
    refine ⟨(otherSlot jj (undone.linking.slots j) (parents j) j jj).1.mp held,?_,fun x => ?_⟩
    · rw [DriverData.onSlotOther _ _ jj,(others j jj).2.2]
    · by_cases xj : x = join
      · rw [xj,linksFromFree free,linksFromFree (by simp [unreserveHwFence])]
      · rw [← (otherSlot xj (undone.linking.slots x) (parents x) j jj).2]
        exact linksFromSame (by rw [DriverData.onSlotOther _ _ xj])
          (by rw [DriverData.onSlotOther _ _ xj]) (by rw [DriverData.onSlotOther _ _ xj])

theorem Booked.waiting {cs : List (Fin m)} {clientData : U64} (booked : Booked d)
    (free : (d.tbl join).valid = false)
    (settled : Settled (d'.onSlot join (storeClientData client clientData)))
    (unlisted : Unlisted join (joined client array 0 join d))
    (progress : Progress array.numFences.toNat join (joined client array 0 join d) array.children cs
      false d') : Booked (d'.onSlot join (storeClientData client clientData)) := by
  have stored : ∀ x, SameLinks (d'.tbl x)
      ((d'.onSlot join (storeClientData client clientData)).tbl x) := by
    intro x
    by_cases xj : x = join
    · rw [xj,DriverData.onSlotSame]
      exact storedLinks client clientData _
    · rw [DriverData.onSlotOther _ _ xj]
      exact ⟨rfl,rfl,rfl,rfl,rfl⟩
  have unsignaled := joinedUnsignaled client array 0 join booked
  have linked := linksTotal unlisted unsignaled progress
  generalize d'.onSlot join (storeClientData client clientData) = d'' at settled stored ⊢
  have links : ∀ j x, linksFrom d'' j x = linksFrom d' j x := fun j x =>
    linksFromSame (stored x).valid (stored x).signaled (by rw [(stored x).parents])
  refine ⟨settled,fun x => ?_,fun x unused => ?_,fun j held => ?_⟩
  · rw [(stored x).signaled,(progress.linking.slots x).signaled,unsignaled]
  · rw [(stored x).valid] at unused
    have xj : x ≠ join := by
      intro same
      have used := ((progress.linking.live _ _).mpr (joinedLive client array 0 join d)).1
      rw [← same,unused] at used
      cases used
    have before : (d.tbl x).valid = false := by
      rw [(progress.linking.slots x).valid,joinedTbl,Function.update_of_ne xj] at unused
      exact unused
    rw [(stored x).parents,progress.parents,linksOf,unsignaled,joinedTbl,Function.update_of_ne xj,
      booked.freeParents x before,progress.absent unused]
    rfl
  · simp only [links]
    by_cases jj : j = join
    · have none : signaledOf (joined client array 0 join d) cs = 0 := by
        simpa [signaledOf] using fun c _ => unsignaled c
      have pending := progress.pending
      rw [jj,(stored join).pending,linked,array.childrenLength]
      omega
    · rw [isJoin,(stored j).valid,(stored j).allocator] at held
      have old := (otherSlot jj (progress.linking.slots j) (progress.parents j) j jj).1.mp held
      rw [(stored j).pending,progress.linking.pending j jj,joinedTbl,Function.update_of_ne jj,
        booked.accounted j old]
      refine Finset.sum_congr rfl fun x _ => ?_
      by_cases xj : x = join
      · have alone : j.val ∉ (d'.tbl join).parents := by
          rw [progress.parents,joinedParents]
          intro mem
          exact jj (Fin.ext (List.eq_of_mem_replicate (by simpa using mem)))
        rw [xj,linksFromFree free,linksFromNone alone]
      · exact (otherSlot xj (progress.linking.slots x) (progress.parents x) j jj).2.symm

theorem Booked.arrayCall {clientData : U64} {status : Status} (booked : Booked d) (settled : Settled d')
    (joins : ∀ j, FreeAt d (arrayKey array) j → ∀ x, (d.tbl x).valid = true →
      j.val ∉ (d.tbl x).parents) (ends : ArrayEnds client array clientData d status d') :
    Booked d' := by
  cases ends with
  | rejected => exact booked
  | rolledBack free undone =>
    exact booked.rolledBack free.free settled (booked.unlisted (joins _ free)) undone
  | waiting free progress =>
    exact booked.waiting free.free settled (booked.unlisted (joins _ free)) progress
  | @completed join cs d' free progress =>
    -- a join fence is signalled at once only if a child was signalled before
    have unsignaled := joinedUnsignaled client array 0 join booked
    have none : signaledOf (joined client array 0 join d) cs = 0 := by
      simpa [signaledOf] using fun c _ => unsignaled c
    have some := progress.signal.mp rfl
    omega

end Arrays

section Runs
variable {m : Nat} {d : DriverData m} {c : DriverCall}

theorem Booked.sameTable {d' : DriverData m} (booked : Booked d) (same : d'.tbl = d.tbl) :
    Booked d' := by
  refine booked.freed (booked.settled.sameTable same) fun x => .inl ?_
  rw [same]
  exact ⟨rfl,rfl,rfl,rfl,rfl⟩

theorem refusedTable {client : HwFenceClient} {array : DmaFenceArray} {clientData : U64}
    (op : c.op = .processFenceArray client array clientData)
    (refused : clientData ≠ 0 ∧ (hwFenceGetClientDataId client.clientId).isNone) :
    (c.step d).tbl = d.tbl := by
  have quits : hwFenceProcessFenceArray (m := m) client array clientData = pure (.error .einval,none) := by
    rw [hwFenceProcessFenceArray,if_pos refused]
  rw [DriverCall.step,op,DriverOp.call,quits]
  rfl

theorem bookedStep (booked : Booked d) (allowed : Allowed d c) (unlinked : Unlinked d c) :
    Booked (c.step d) := by
  have settled := settledStep booked.settled allowed
  have effect := stepEffect booked.settled allowed
  have quits := fun client array clientData => @refusedTable m d c client array clientData
  obtain ⟨frees,joins⟩ := unlinked
  generalize same : (c.step d).tbl = tbl at effect quits
  generalize c.op = op at effect frees joins quits
  cases effect with
  | same => exact booked.sameTable same
  | @created client context seqno i qtime free fresh named =>
    exact booked.created (f := reserveHwFence qtime client.clientId context seqno 0 (d.tbl i))
      settled same free client.notJoin (unsignaledFlags rfl) rfl
  | @freed _ i mine used =>
    refine booked.freed settled fun x => ?_
    by_cases xi : x = i
    · subst xi
      exact .inr ⟨by rw [same,Function.update_self],frees x mine⟩
    · rw [same,Function.update_of_ne xi]
      exact .inl ⟨rfl,rfl,rfl,rfl,rfl⟩
  | @waited _ i qtime clientId clientData used =>
    refine booked.freed settled fun x => .inl ?_
    by_cases xi : x = i
    · rw [xi,same,Function.update_self]
      exact ⟨rfl,rfl,rfl,rfl,rfl⟩
    · rw [same,Function.update_of_ne xi]
      exact ⟨rfl,rfl,rfl,rfl,rfl⟩
  | @array client array clientData status d' qtime fresh named ends =>
    have timed : Booked {d with qtime := qtime} := booked.sameTable rfl
    by_cases refused : clientData ≠ 0 ∧ (hwFenceGetClientDataId client.clientId).isNone
    · exact booked.sameTable (same.trans (quits client array clientData rfl refused))
    · have accepted : clientData = 0 ∨ (hwFenceGetClientDataId client.clientId).isSome := by
        rw [not_and_or,not_not] at refused
        exact refused.imp_right fun known => by simpa [Option.isSome_iff_ne_none] using known
      have after : Booked d' := timed.arrayCall (arraySettled timed.settled fresh named ends)
        (fun j free => joins j ⟨accepted,fresh,free⟩) ends
      exact after.sameTable same
  | @reset client flags ready =>
    refine booked.freed settled fun x => ?_
    rw [congrFun same x,resetSlot]
    split
    · rename_i mine
      exact .inr ⟨rfl,frees x ⟨ready,mine.2,mine.1⟩⟩
    · exact .inl (clearedLinks client.clientId _)

theorem accountedAlong (d : DriverData m) (calls : List DriverCall)
    (allowed : Along DriverCall.step Allowed (zeroTable d) calls)
    (unlinked : Along DriverCall.step Unlinked (zeroTable d) calls) :
    Along DriverCall.step (fun d _ => Accounted d) (zeroTable d) calls ∧
      Accounted (after DriverCall.step (zeroTable d) calls) := by
  have keep : ∀ d c, Booked d → Allowed d c ∧ Unlinked d c → Booked (DriverCall.step (m := m) d c) :=
    fun _ _ booked both => bookedStep booked both.1 both.2
  have run := invariant keep (zeroBooked d) (alongAnd allowed unlinked)
  exact ⟨alongMono (fun _ _ booked => booked.accounted) run.1,run.2.accounted⟩

def creator : HwFenceClient := .plain 1 oneKnown
def waiter : HwFenceClient := .plain 2 twoKnown
def oneChild : DmaFenceArray where
  context := 2
  seqno := 1
  numFences := 1
  fences := some fun _ => some ⟨1,1,false,true⟩
  filled := fun _ _ => ⟨_,rfl,rfl⟩

def joinCalls : List DriverCall := [⟨.create creator 1 1,0⟩,⟨.processFenceArray waiter oneChild 0,0⟩]

theorem joinCallsAllowed (d : DriverData 2) (same : d = .unused 2 twoEntries) :
    Along DriverCall.step Allowed (zeroTable d) joinCalls := by
  subst same
  refine ⟨⟨contextsOf (by decide),?_⟩,⟨contextsOf (by decide),?_⟩,trivial⟩
  · intro key creates i held
    cases held.1
  · intro key creates i held
    cases Option.some.inj creates
    revert i
    decide +kernel

theorem joinCallsAccounted : Accounted
    (after DriverCall.step (zeroTable (.unused 2 twoEntries)) joinCalls) := by
  refine (accountedAlong _ joinCalls (joinCallsAllowed _ rfl) ?_).2
  refine ⟨⟨fun i frees => frees.elim,fun j reserved => reserved.elim⟩,⟨fun i frees => frees.elim,?_⟩,trivial⟩
  intro j reserved x used
  have alone : ∀ x : Fin 2, ((DriverCall.step (zeroTable (.unused 2 twoEntries))
    ⟨.create creator 1 1,0⟩).tbl x).parents = [] := by decide +kernel
  rw [alone]
  exact List.not_mem_nil

def destroyedChild : List DriverCall := joinCalls ++ [⟨.destroy creator 1 1,0⟩]

theorem destroyedChildPending :
    Along DriverCall.step Allowed (zeroTable (.unused 2 twoEntries)) destroyedChild ∧
      ¬ Accounted (after DriverCall.step (zeroTable (.unused 2 twoEntries)) destroyedChild) := by
  refine ⟨(alongAppend _ _).mpr ⟨joinCallsAllowed _ rfl,⟨contextsOf (by decide),nofun⟩,trivial⟩,?_⟩
  decide +kernel

end Runs
end MmDrivers.JoinAccounting

import MmDrivers.FenceSignal

/-! Join fences of fence arrays: the links a call leaves in the children of its
array and the rollback that takes them out again. -/
namespace MmDrivers.JoinFence
open Sections Sections.Prog FenceTypes FenceLookup FenceTable FenceSignal

def linkParent (join : Nat) (f : HwFence) : HwFence :=
  let cnt := f.parentsCnt+1
  {f with parentsCnt := cnt, parentList := f.parentList.setIfInBounds (cnt-1).toNat join}

def parentsExceeded (f : HwFence) : Bool :=
  BitVec.ofNat 32 msmHwFenceMaxJoinParents ≤ f.parentsCnt+1 ∨ f.parentsCnt+1 < 1

def unlinkEntry (join j : Nat) (f : HwFence) : HwFence :=
  if f.parentList[j]? = some join then
    {f with
      parentList := f.parentList.setIfInBounds j hwFenceInvalidParentFence
      parentsCnt := if f.parentsCnt ≠ 0 then f.parentsCnt-1 else f.parentsCnt}
  else f

def unlinkFrom (join : Nat) : Nat → HwFence → HwFence
  | 0,f => f
  | j+1,f => unlinkFrom join j (unlinkEntry join j f)

-- the count is read as an int, and reset to the maximum when it exceeds it
def unlinkParent (join : Nat) (f : HwFence) : HwFence :=
  unlinkFrom join (min f.parentsCnt.toInt.toNat msmHwFenceMaxJoinParents) f

section Model
variable {m : Nat}

inductive ChildStep where | signaled (last : Bool) | linked | exceeded
  deriving DecidableEq, Repr

/-- The section of one child, under its lock; the lock of the join fence nests inside. -/
def processChild (join child : Fin m) (hash : Nat) : Driver m ChildStep :=
  let pending (d : DriverData m) : U32 := (d.tbl join).pendingChildCnt-1
  atomic
    (fun d =>
      if (d.tbl child).signaled then
        d.onSlot join fun f => {f with pendingChildCnt := pending d}
      else if parentsExceeded (d.tbl child) then d
      else d.onSlot child (linkParent hash))
    (fun d =>
      if (d.tbl child).signaled then [.lock child,.lock join,.unlock join,.unlock child]
      else if parentsExceeded (d.tbl child) then [.lock child,.unlock child]
      else [.lock child,.link child hash,.unlock child])
    (fun d =>
      if (d.tbl child).signaled then .signaled (decide (pending d = 0))
      else if parentsExceeded (d.tbl child) then .exceeded
      else .linked)

def processChildren (client : HwFenceClient) (join : Fin m) (hash : Nat) :
    List DmaFence → Nat → Bool → Driver m (Except Nat Bool)
  | [],_,signalJoinFence => pure (.ok signalJoinFence)
  | child::rest,i,signalJoinFence => do
    emit fun _ => [.fencesAt i]
    -- nested fence-arrays are not supported, and all elements must be hw-fences
    if child.isArray ∨ ¬ child.hwFenceEnabled then pure (.error i)
    else
      let (slot,_) ← msmHwFenceFind (some client) child.context child.seqno
      match slot with
      | none => pure (.error i)
      | some c => do
        match ← processChild join c hash with
        | .exceeded => pure (.error i)
        | .signaled last => processChildren client join hash rest (i+1) (signalJoinFence || last)
        | .linked => processChildren client join hash rest (i+1) signalJoinFence

def unlinkChild (hash : Nat) (child : Fin m) : Driver m Unit :=
  atomic (fun d => d.onSlot child (unlinkParent hash))
    (fun _ => [.lock child,.unlink child hash,.unlock child]) (fun _ => ())

def cleanupChild (client : HwFenceClient) (hash : Nat) : Option DmaFence → Driver m Unit
  | none => pure ()
  | some child => do
    let (slot,_) ← msmHwFenceFind (some client) child.context child.seqno
    match slot with
    | none => pure ()
    | some c => unlinkChild hash c

-- the rollback goes down from iteration i-1
def cleanupChildren (client : HwFenceClient) (array : DmaFenceArray) (hash : Nat) :
    Nat → Driver m Unit
  | 0 => pure ()
  | i+1 => do
    emit fun _ => [.fencesAt i]
    cleanupChild client hash (array.child i)
    cleanupChildren client array hash i

def cleanupJoinAndChildFences (client : HwFenceClient) (iteration : Nat) (array : DmaFenceArray)
    (hashJoinFence : Nat) : Driver m Unit := do
  whenever array.fences.isSome (cleanupChildren client array hashJoinFence (iteration+1))
  let _ ← hwFenceProcessJoinFence (m := m) array hashJoinFence false

def waitOnJoin (clientId : Nat) (f : HwFence) : HwFence :=
  {f with waitClientMask := f.waitClientMask ||| bit clientId}

def setClientData (clientId : Nat) (clientData : U64) (f : HwFence) : HwFence :=
  {f with clientData := fun id =>
    if hwFenceGetClientDataId clientId = some id then clientData else f.clientData id}

def finishArray (client : HwFenceClient) (array : DmaFenceArray) (join : Fin m) (hash : Nat)
    (clientData : U64) : Except Nat Bool → Driver m Status
  | .error i => do
    cleanupJoinAndChildFences client i array hash
    pure (.error .einval)
  | .ok signalJoinFence => do
    whenever (clientData ≠ 0)
      (atomic (fun d => d.onSlot join (setClientData client.clientId clientData)) (fun _ => [])
        (fun _ => ()))
    if signalJoinFence then
      -- client_data stands where the error is expected
      fenceCtlSignal client join hash 0 0 (clientData.setWidth 32)
      emit fun _ => [.setSignaledBit array.context array.seqno]
      let _ ← hwFenceProcessJoinFence (m := m) array hash false
      pure (.ok ())
    else if array.numFences = 0 then
      cleanupJoinAndChildFences client 0 array hash
      pure (.error .einval)
    else pure (.ok ())

def hwFenceProcessFenceArray (client : HwFenceClient) (array : DmaFenceArray) (clientData : U64) :
    Driver m (Status × Option Nat) :=
  if clientData ≠ 0 ∧ (hwFenceGetClientDataId client.clientId).isNone then
    pure (.error .einval,none)
  else do
    let (slot,hash) ← hwFenceProcessJoinFence array 0 true
    match slot with
    | none => pure (.error .einval,some hash)
    | some join => do
      atomic (fun d => d.onSlot join (waitOnJoin client.clientId))
        (fun _ => [.lock join,.waitBit join client.clientId,.unlock join]) (fun _ => ())
      let ended ← processChildren client join hash array.children 0 false
      let status ← finishArray client array join hash clientData ended
      pure (status,some hash)

section Each
variable {P : (DriverData m → DriverData m) → (DriverData m → List Event) → Prop}
  {client : HwFenceClient} {array : DmaFenceArray} {clientData : U64} {hash : Nat}

theorem childrenEach {join : Fin m}
    (find : ∀ context seqno, (msmHwFenceFind (some client) context seqno).Each P)
    (child : ∀ c, (processChild join c hash).Each P) (children : List DmaFence) (i : Nat)
    (reads : ∀ k, i ≤ k → k < i+children.length → P id fun _ => [.fencesAt k]) (signal : Bool) :
    (processChildren client join hash children i signal).Each P ∧
      (processChildren client join hash children i signal).Returns fun ended =>
        ∀ k, ended = .error k → k < i+children.length := by
  induction children generalizing i signal with
  | nil => exact ⟨trivial,nofun⟩
  | cons fence rest ih =>
    have inside : i < i+(fence::rest).length := by simp
    have failed : (pure (.error i) : Driver m (Except Nat Bool)).Returns fun ended =>
        ∀ k, ended = .error k → k < i+(fence::rest).length := by
      intro k same
      cases same
      exact inside
    have later := ih (i+1) fun k after before =>
      reads k (by omega) (by rw [List.length_cons]; omega)
    have longer : i+1+rest.length = i+(fence::rest).length := by
      rw [List.length_cons]
      omega
    rw [longer] at later
    unfold processChildren
    constructor
    · refine eachBind (eachAtomic (reads i (Nat.le_refl _) inside)) fun _ => eachIte (fun _ => trivial)
        fun _ => eachBind (find ..) fun found => ?_
      obtain ⟨slot,hash⟩ := found
      cases slot with
      | none => trivial
      | some c =>
        refine eachBind (child c) fun step => ?_
        cases step with
        | exceeded => trivial
        | signaled last => exact (later _).1
        | linked => exact (later _).1
    · refine returnsBind (returnsAny _) fun _ _ => returnsIte (fun _ => failed) fun _ =>
        returnsBind (returnsAny _) fun found _ => ?_
      obtain ⟨slot,hash⟩ := found
      cases slot with
      | none => exact failed
      | some c =>
        refine returnsBind (returnsAny _) fun step _ => ?_
        cases step with
        | exceeded => exact failed
        | signaled last => exact (later _).2
        | linked => exact (later _).2

theorem rollbackEach (find : ∀ context seqno, (msmHwFenceFind (some client) context seqno).Each P)
    (unlink : ∀ c, (unlinkChild hash c).Each P) {i : Nat}
    (reads : ∀ k < i, P id fun _ => [.fencesAt k]) :
    (cleanupChildren (m := m) client array hash i).Each P := by
  have child : ∀ child, (cleanupChild (m := m) client hash child).Each P := by
    intro child
    cases child with
    | none => trivial
    | some child =>
      refine eachBind (find ..) fun found => ?_
      obtain ⟨slot,hash⟩ := found
      cases slot with
      | none => trivial
      | some c => exact unlink c
  induction i with
  | zero => trivial
  | succ i ih =>
    exact eachBind (eachAtomic (reads i (by omega))) fun _ => eachBind (child _) fun _ =>
      ih fun k below => reads k (by omega)

/-- The sections of a fence-array call. It reads entries of `fences` below `num_fences`, or the
first one. -/
structure CallSections (P : (DriverData m → DriverData m) → (DriverData m → List Event) → Prop)
    (client : HwFenceClient) (array : DmaFenceArray) (clientData : U64) : Prop where
  probe : ∀ op context seqno clientId pending i,
    (probeSlot op context seqno clientId pending i).Each P
  child : ∀ join c hash, (processChild join c hash).Each P
  unlink : ∀ hash c, (unlinkChild hash c).Each P
  wait : ∀ join, P (fun d => d.onSlot join (waitOnJoin client.clientId))
    fun _ => [.lock join,.waitBit join client.clientId,.unlock join]
  store : clientData ≠ 0 → ∀ join, P (fun d => d.onSlot join
    (setClientData client.clientId clientData)) fun _ => []
  signal : ∀ fence hash flags data error, (fenceCtlSignal client fence hash flags data error).Each P
  setBit : P id fun _ => [.setSignaledBit array.context array.seqno]
  fencesAt : ∀ k < max array.numFences.toNat 1, P id fun _ => [.fencesAt k]

theorem joinEach (lookup : ∀ op context seqno clientId pending,
    (hwFenceLookupAndProcess op context seqno clientId pending).Each P) (hash : Nat) (create : Bool) :
    (hwFenceProcessJoinFence (m := m) array hash create).Each P := by
  unfold hwFenceProcessJoinFence hwFenceCleanup
  refine eachIte (fun _ => lookup ..) fun _ => eachBind ?_ fun _ => trivial
  refine eachBind (lookup ..) fun found => ?_
  obtain ⟨slot,hash⟩ := found
  cases slot <;> trivial

structure JoinSections (P : (DriverData m → DriverData m) → (DriverData m → List Event) → Prop)
    (client : HwFenceClient) (array : DmaFenceArray) (clientData : U64) (join : Fin m) : Prop where
  probe : ∀ op context seqno clientId pending i,
    (probeSlot op context seqno clientId pending i).Each P
  child : ∀ c hash, (processChild join c hash).Each P
  unlink : ∀ hash c, (unlinkChild hash c).Each P
  wait : P (fun d => d.onSlot join (waitOnJoin client.clientId))
    fun _ => [.lock join,.waitBit join client.clientId,.unlock join]
  store : clientData ≠ 0 → P (fun d => d.onSlot join (setClientData client.clientId clientData)) fun _ => []
  signal : ∀ fence hash flags data error, (fenceCtlSignal client fence hash flags data error).Each P
  setBit : P id fun _ => [.setSignaledBit array.context array.seqno]
  fencesAt : ∀ k < max array.numFences.toNat 1, P id fun _ => [.fencesAt k]

theorem CallSections.joined (sections : CallSections P client array clientData) (join : Fin m) :
    JoinSections P client array clientData join :=
  ⟨sections.probe,sections.child join,sections.unlink,sections.wait join,fun some => sections.store some join,
    sections.signal,sections.setBit,sections.fencesAt⟩

section Joined
variable {join : Fin m} (sections : JoinSections P client array clientData join)
include sections

theorem JoinSections.lookup (hash : Nat) (create : Bool) :
    (hwFenceProcessJoinFence (m := m) array hash create).Each P :=
  joinEach (fun _ _ _ _ _ => lookupEach fun _ => sections.probe ..) hash create

theorem cleanupEach {i : Nat} (inside : i < max array.numFences.toNat 1) :
    (cleanupJoinAndChildFences (m := m) client i array hash).Each P := by
  have children : (cleanupChildren (m := m) client array hash (i+1)).Each P :=
    rollbackEach (fun _ _ => lookupEach fun _ => sections.probe ..) (sections.unlink hash)
      fun k below => sections.fencesAt k (by omega)
  exact eachBind (eachWhenever fun _ => children) fun _ =>
    eachBind (sections.lookup ..) fun _ => trivial

theorem loopEach : (processChildren client join hash array.children 0 false).Each P ∧
    (processChildren client join hash array.children 0 false).Returns fun ended =>
      ∀ i, ended = .error i → i < max array.numFences.toNat 1 := by
  have loop := @childrenEach m P client hash join (fun _ _ => lookupEach fun _ => sections.probe ..)
    (fun c => sections.child c hash) array.children 0
    (fun k _ inside => sections.fencesAt k (by rw [array.childrenLength] at inside; omega)) false
  refine ⟨loop.1,returnsMono (fun ended below i same => ?_) loop.2⟩
  have inside := below i same
  rw [array.childrenLength] at inside
  omega

theorem finishEach {ended : Except Nat Bool} (inside : ∀ i, ended = .error i → i < max array.numFences.toNat 1) :
    (finishArray client array join hash clientData ended).Each P := by
  cases ended with
  | error i => exact eachBind (cleanupEach sections (inside i rfl)) fun _ => trivial
  | ok signalJoinFence =>
    refine eachBind (eachWhenever fun some => eachAtomic (sections.store some)) fun _ => ?_
    refine eachIte (fun _ => ?_) fun _ => eachIte (fun _ => ?_) fun _ => trivial
    · exact eachBind (sections.signal ..) fun _ => eachBind (eachAtomic sections.setBit) fun _ =>
        eachBind (sections.lookup ..) fun _ => trivial
    · exact eachBind (cleanupEach sections (by omega)) fun _ => trivial

theorem joinedEach : (do
      atomic (fun d => d.onSlot join (waitOnJoin client.clientId))
        (fun _ => [.lock join,.waitBit join client.clientId,.unlock join]) (fun _ => ())
      let ended ← processChildren client join hash array.children 0 false
      let status ← finishArray client array join hash clientData ended
      pure (status,some hash) : Driver m (Status × Option Nat)).Each P := by
  have loop := @loopEach m P client array clientData hash join sections
  exact eachBind (eachAtomic sections.wait) fun _ => eachReturns loop.1 loop.2 fun ended inside =>
    eachBind (finishEach sections inside) fun _ => trivial

end Joined

theorem callEach (sections : CallSections P client array clientData) :
    (hwFenceProcessFenceArray (m := m) client array clientData).Each P := by
  unfold hwFenceProcessFenceArray
  refine eachIte (fun _ => trivial) fun _ => eachBind (joinEach (fun _ _ _ _ _ => lookupEach fun _ =>
    sections.probe ..) ..) fun found => ?_
  obtain ⟨slot,hash⟩ := found
  cases slot with
  | none => trivial
  | some join => exact joinedEach (sections.joined join)

end Each

end Model

def Relinked (f f' : HwFence) : Prop :=
  f' = {f with
    parentList := f'.parentList
    parentsCnt := f'.parentsCnt
    pendingChildCnt := f'.pendingChildCnt}

section Relinked
variable {f f' : HwFence} (relinked : Relinked f f')
include relinked

theorem Relinked.valid : f'.valid = f.valid := by rw [relinked]
theorem Relinked.key : f'.key = f.key := by rw [relinked]; rfl
theorem Relinked.signaled : f'.signaled = f.signaled := by rw [relinked]; rfl
theorem Relinked.allocator : f'.fenceAllocator = f.fenceAllocator := by rw [relinked]

end Relinked

theorem Relinked.trans {f f' f'' : HwFence} (left : Relinked f f') (right : Relinked f' f'') :
    Relinked f f'' := by
  unfold Relinked at *
  rw [right,left]

theorem linkRelinked (join : Nat) (f : HwFence) : Relinked f (linkParent join f) := rfl

theorem unlinkRelinked (join : Nat) (f : HwFence) :
    Relinked f (unlinkParent join f) ∧ (unlinkParent join f).pendingChildCnt = f.pendingChildCnt := by
  have entries : ∀ j f, Relinked f (unlinkFrom join j f) ∧
      (unlinkFrom join j f).pendingChildCnt = f.pendingChildCnt := by
    intro j
    induction j with
    | zero => exact fun f => ⟨rfl,rfl⟩
    | succ j ih =>
      intro f
      have entry : Relinked f (unlinkEntry join j f) ∧
          (unlinkEntry join j f).pendingChildCnt = f.pendingChildCnt := by
        unfold unlinkEntry
        split <;> exact ⟨rfl,rfl⟩
      obtain ⟨later,pending⟩ := ih (unlinkEntry join j f)
      exact ⟨entry.1.trans later,pending.trans entry.2⟩
  exact entries _ f

theorem parentListLength (f : HwFence) : f.parentList.toList.length = 3 := Vector.length_toList

theorem parentsLength {f : HwFence} : f.parents.length = min f.parentsCnt.toNat 3 := by
  rw [HwFence.parents,List.length_take,parentListLength]

theorem exceededIff {f : HwFence} : parentsExceeded f = false ↔ f.parentsCnt.toNat+1 < 3 := by
  have bound := f.parentsCnt.isLt
  have one : (1 : U32).toNat = 1 := rfl
  simp only [parentsExceeded,msmHwFenceMaxJoinParents,decide_eq_false_iff_not,not_or,
    BitVec.not_le,BitVec.lt_def,BitVec.toNat_add,BitVec.toNat_ofNat,not_lt,one]
  omega

theorem linkCount (join : Nat) {f : HwFence} (room : parentsExceeded f = false) :
    (linkParent join f).parentsCnt.toNat = f.parentsCnt.toNat+1 := by
  have small := exceededIff.mp room
  have one : (1 : U32).toNat = 1 := rfl
  simp only [linkParent,BitVec.toNat_add,one]
  omega

theorem linkParents {join : Nat} {f : HwFence} (room : parentsExceeded f = false) :
    (linkParent join f).parents = f.parents ++ [join] := by
  have small := exceededIff.mp room
  have count := linkCount join room
  have last : (f.parentsCnt+1-1).toNat = f.parentsCnt.toNat := by
    congr 1
    exact BitVec.add_sub_cancel _ _
  have full := parentListLength f
  have inside : f.parentsCnt.toNat < (f.parentList.toList.set f.parentsCnt.toNat join).length := by
    rw [List.length_set]
    omega
  unfold HwFence.parents
  rw [count]
  simp only [linkParent,last,Vector.toList_setIfInBounds]
  rw [List.take_succ_eq_append_getElem inside,List.take_set_of_le (by omega),List.getElem_set_self]

theorem unlinkFromNone {join j : Nat} {f : HwFence}
    (none : ∀ i < j, f.parentList[i]? ≠ some join) : unlinkFrom join j f = f := by
  induction j with
  | zero => rfl
  | succ j ih =>
    have entry : unlinkEntry join j f = f := if_neg (none j (by omega))
    rw [unlinkFrom,entry,ih fun i inside => none i (by omega)]

theorem entryParents {f : HwFence} {i : Nat} (inside : i < f.parentsCnt.toNat) :
    f.parentList[i]? = f.parents[i]? := by
  rw [HwFence.parents,List.getElem?_take_of_lt inside,Vector.getElem?_toList]

theorem unlinkUnlisted {join : Nat} {f : HwFence} (unlisted : join ∉ f.parents) :
    unlinkParent join f = f := by
  refine unlinkFromNone fun i inside listed => ?_
  have nonneg : f.parentsCnt.toInt.toNat ≤ f.parentsCnt.toNat := by
    rw [BitVec.toInt]
    split <;> omega
  rw [entryParents (by omega)] at listed
  exact unlisted (List.mem_of_getElem? listed)

theorem unlinkTail {join k : Nat} {rest : List Nat} {f : HwFence}
    (tail : f.parents = rest ++ List.replicate k join) (unlisted : join ∉ rest)
    (count : f.parentsCnt.toNat = rest.length+k) (small : f.parentsCnt.toNat ≤ 3) :
    (unlinkFrom join (rest.length+k) f).parents = rest := by
  induction k generalizing f with
  | zero =>
    have same : f.parents = rest := by simpa using tail
    rw [unlinkFromNone,same]
    intro i inside listed
    rw [entryParents (by omega),same] at listed
    exact unlisted (List.mem_of_getElem? listed)
  | succ k ih =>
    have last : f.parentList[rest.length+k]? = some join := by
      rw [entryParents (by omega),tail]
      simp
    have entry : unlinkEntry join (rest.length+k) f = {f with
        parentList := f.parentList.setIfInBounds (rest.length+k) hwFenceInvalidParentFence
        parentsCnt := f.parentsCnt-1} := by
      have counted : f.parentsCnt ≠ 0 := by
        intro zero
        simp [zero] at count
      rw [unlinkEntry,if_pos last,if_pos counted]
    have one : (1 : U32).toNat = 1 := rfl
    have counted : (f.parentsCnt-1).toNat = rest.length+k := by
      rw [BitVec.toNat_sub,one]
      omega
    rw [← Nat.add_assoc,unlinkFrom,entry]
    refine ih ?_ counted (counted.le.trans (by omega))
    have shorter : f.parents.take (rest.length+k) = rest ++ List.replicate k join := by
      rw [tail,List.take_append,List.take_of_length_le (by omega),List.take_replicate]
      simp
    unfold HwFence.parents at shorter ⊢
    rw [List.take_take] at shorter
    simp only [counted,Vector.toList_setIfInBounds,List.take_set_of_le (Nat.le_refl _)]
    rw [← shorter]
    congr 1
    omega

theorem unlinkLast {join k : Nat} {rest : List Nat} {f : HwFence}
    (tail : f.parents = rest ++ List.replicate k join) (unlisted : join ∉ rest)
    (small : f.parentsCnt.toNat ≤ 3) : (unlinkParent join f).parents = rest := by
  have count : f.parentsCnt.toNat = rest.length+k := by
    have length := congrArg List.length tail
    rw [parentsLength,List.length_append,List.length_replicate] at length
    omega
  have positive : f.parentsCnt.toInt.toNat = f.parentsCnt.toNat := by
    rw [BitVec.toInt]
    split <;> omega
  have start : min f.parentsCnt.toInt.toNat msmHwFenceMaxJoinParents = rest.length+k := by
    rw [positive,msmHwFenceMaxJoinParents]
    omega
  rw [unlinkParent,start]
  exact unlinkTail tail unlisted count small

end MmDrivers.JoinFence

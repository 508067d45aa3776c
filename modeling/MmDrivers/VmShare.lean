import MmDrivers.FenceFlags

/-! How the carve-out comes to be shared with the peer VM. The entry points for the clients are
closed until then, and a share that breaks off halfway closes them for good. -/
namespace MmDrivers.VmShare
open Sections Sections.Prog FenceTypes FenceTable FenceSignal FenceApi FenceFlags Runs

structure VmPerm where
  vmid : Nat
  read : Bool
  write : Bool
  exec : Bool
  deriving DecidableEq, Repr

abbrev Owners := List VmPerm

-- BIT(vmid), kept in an int
def vmidBit (vmid : Nat) : U32 := (1#64 <<< vmid).setWidth 32

def Names (src : U32) (mem : Owners) : Prop := ∀ v, src.getLsbD v = true ↔ ∃ o ∈ mem, o.vmid = v

/-- Answers of `qcom_scm_assign_mem`: it moves memory only from the VMs that hold it. -/
structure Firmware where
  assign : Owners → U32 → List VmPerm → Bool
  names : ∀ mem src dst, assign mem src dst = true → Names src mem

inductive VmStatus where | ready | reset | other
  deriving DecidableEq, Repr

/-- A notification of the resource manager, and what the calls made for it answer. -/
structure Notice where
  vmStatusCmd : Bool
  vmStatus : VmStatus
  vmid : Nat
  peerVmid : Option Nat
  selfVmid : Option Nat
  firmware : Firmware
  aclAllocated : Bool
  sglAllocated : Bool
  shared : Bool

def srcVmlist (self : Nat) : List VmPerm := [⟨self,true,true,true⟩]
def dstVmlist (self peer : Nat) : List VmPerm := [⟨self,true,true,false⟩,⟨peer,true,true,false⟩]

structure VmState (m : Nat) (F : Type) where
  mem : Owners
  parcels : List (Nat × Nat)
  vmReady : Bool
  api : ApiState m F

section Model
variable {m : Nat} {F : Type}

def hwFenceGunyahShareMem (n : Notice) (self peer : Nat) (s : VmState m F) : Bool × VmState m F :=
  if ¬ n.firmware.assign s.mem (vmidBit self) (dstVmlist self peer) then (false,s)
  else
    let s := {s with mem := dstVmlist self peer}
    if ¬ n.aclAllocated then (false,s)
    else if ¬ n.sglAllocated then (false,s)
    else if n.shared then (true,{s with parcels := s.parcels ++ [(self,peer)]})
    -- the attempt to give the memory back to HLOS goes unchecked
    else if n.firmware.assign s.mem (vmidBit self ||| vmidBit peer) (srcVmlist self) then
      (false,{s with mem := srcVmlist self})
    else (false,s)

def hwFenceRmCb (n : Notice) (s : VmState m F) : VmState m F :=
  if ¬ n.vmStatusCmd then s
  else if n.vmStatus ≠ .ready ∧ n.vmStatus ≠ .reset then s
  else
    match n.peerVmid,n.selfVmid with
    | some peer,some self =>
      if peer ≠ n.vmid then s
      else
        match n.vmStatus with
        | .ready =>
          let (shared,s) := hwFenceGunyahShareMem n self peer s
          if shared then {s with vmReady := true} else s
        | _ => s
    | _,_ => s

inductive VmEvent (m : Nat) (F : Type) where
  | notice (n : Notice)
  | call (c : ApiCall m F)

def VmState.gate (s : VmState m F) (c : ApiCall m F) : ApiCall m F :=
  ⟨c.op,{c.around with vmReady := s.vmReady}⟩

variable [DecidableEq F] (w : DmaFences F)

def VmState.step (s : VmState m F) : VmEvent m F → VmState m F
  | .notice n => hwFenceRmCb n s
  | .call c => {s with api := ApiCall.step w s.api (s.gate c)}

end Model

theorem vmidBitOnly {vmid v : Nat} (set : (vmidBit vmid).getLsbD v = true) : v = vmid ∧ v < 32 := by
  simp only [vmidBit,BitVec.getLsbD_setWidth,BitVec.getLsbD_shiftLeft,Bool.and_eq_true,
    decide_eq_true_eq,Bool.not_eq_true',decide_eq_false_iff_not,not_lt] at set
  obtain ⟨small,⟨-,above⟩,one⟩ := set
  have low : v - vmid = 0 := by
    by_contra high
    rw [BitVec.getLsbD_one] at one
    simp at one
    omega
  omega

theorem sharedUnnamed {self a b : Nat} (ab : a ≠ b) (perm perm' : VmPerm) (left : perm.vmid = a)
    (right : perm'.vmid = b) : ¬ Names (vmidBit self) [perm,perm'] := by
  intro names
  have first := (vmidBitOnly ((names a).mpr ⟨perm,by simp,left⟩)).1
  have second := (vmidBitOnly ((names b).mpr ⟨perm',by simp,right⟩)).1
  omega

theorem peerUnnamed {self peer : Nat} (past : 32 ≤ peer) :
    ¬ Names (vmidBit self ||| vmidBit peer) (dstVmlist self peer) := by
  intro names
  have set := (names peer).mpr ⟨⟨peer,true,true,false⟩,by simp [dstVmlist],rfl⟩
  rw [BitVec.getLsbD_or,Bool.or_eq_true] at set
  have small := BitVec.lt_of_getLsbD (x := vmidBit self ||| vmidBit peer)
    (by rw [BitVec.getLsbD_or,Bool.or_eq_true]; exact set)
  omega

section Notices
variable {m : Nat} {F : Type}

/-- A share that ends with the memory at both VMs and nothing shared: after the assignment a
descriptor is not allocated, or the share fails and the memory cannot be had back. -/
def Strands (n : Notice) (self peer : Nat) : Prop :=
  n.aclAllocated = false ∨ n.sglAllocated = false ∨ n.shared = false ∧
    n.firmware.assign (dstVmlist self peer) (vmidBit self ||| vmidBit peer) (srcVmlist self) = false

structure Starts (n : Notice) (own peer : Nat) (s : VmState m F) : Prop where
  cmd : n.vmStatusCmd = true
  ready : n.vmStatus = .ready
  peerVmid : n.peerVmid = some peer
  selfVmid : n.selfVmid = some own
  payload : n.vmid = peer
  assigned : n.firmware.assign s.mem (vmidBit own) (dstVmlist own peer) = true

inductive NoticeEffect (n : Notice) (s : VmState m F) : VmState m F → Prop where
  | idle : NoticeEffect n s s
  | shared {self peer : Nat} (starts : Starts n self peer s) (shares : n.shared = true) (safe : ¬ Strands n self peer) :
      NoticeEffect n s {s with
        mem := dstVmlist self peer, parcels := s.parcels ++ [(self,peer)], vmReady := true}
  | stranded {self peer : Nat} (starts : Starts n self peer s) (strands : Strands n self peer) :
      NoticeEffect n s {s with mem := dstVmlist self peer}
  | back {self peer : Nat} (starts : Starts n self peer s) (fails : n.shared = false) (safe : ¬ Strands n self peer) :
      NoticeEffect n s {s with mem := srcVmlist self}

theorem noticeEffect (n : Notice) (s : VmState m F) : NoticeEffect n s (hwFenceRmCb n s) := by
  unfold hwFenceRmCb
  by_cases cmd : n.vmStatusCmd = true
  swap
  · simpa [cmd] using NoticeEffect.idle
  by_cases other : n.vmStatus ≠ .ready ∧ n.vmStatus ≠ .reset
  · simpa [cmd,other] using NoticeEffect.idle
  simp only [cmd,other,not_true_eq_false,if_false]
  split
  swap
  · exact .idle
  rename_i peer self peerVmid selfVmid
  by_cases foreign : peer ≠ n.vmid
  · simpa [foreign] using NoticeEffect.idle
  rw [if_neg foreign]
  have payload : n.vmid = peer := (not_not.mp foreign).symm
  cases status : n.vmStatus with
  | reset => exact .idle
  | other => exact .idle
  | ready =>
    dsimp only
    unfold hwFenceGunyahShareMem
    by_cases assigned : n.firmware.assign s.mem (vmidBit self) (dstVmlist self peer) = true
    swap
    · simpa [assigned] using NoticeEffect.idle
    have starts : Starts n self peer s := ⟨cmd,status,peerVmid,selfVmid,payload,assigned⟩
    cases acl : n.aclAllocated with
    | false => simpa [assigned] using NoticeEffect.stranded starts (.inl acl)
    | true =>
      cases sgl : n.sglAllocated with
      | false => simpa [assigned] using NoticeEffect.stranded starts (.inr (.inl sgl))
      | true =>
        cases shares : n.shared with
        | true =>
          have safe : ¬ Strands n self peer := by simp [Strands,acl,sgl,shares]
          simpa [assigned] using NoticeEffect.shared starts shares safe
        | false =>
          by_cases home : n.firmware.assign (dstVmlist self peer) (vmidBit self ||| vmidBit peer)
              (srcVmlist self) = true
          · have safe : ¬ Strands n self peer := by simp [Strands,acl,sgl,home]
            simpa [assigned,home] using NoticeEffect.back starts shares safe
          · have strands : Strands n self peer := .inr (.inr ⟨shares,by simpa using home⟩)
            simpa [assigned,home] using NoticeEffect.stranded starts strands

variable {s : VmState m F} {n : Notice}

theorem strandedNotice {own peer : Nat} (starts : Starts n own peer s) (strands : Strands n own peer) :
    hwFenceRmCb n s = {s with mem := dstVmlist own peer} := by
  obtain ⟨cmd,ready,peerVmid,selfVmid,payload,assigned⟩ := starts
  unfold hwFenceRmCb hwFenceGunyahShareMem
  rcases strands with acl | sgl | ⟨fails,lost⟩
  · simp [cmd,ready,peerVmid,selfVmid,payload,assigned,acl]
  · cases acl : n.aclAllocated <;>
      simp [cmd,ready,peerVmid,selfVmid,payload,assigned,sgl]
  · cases acl : n.aclAllocated <;> cases sgl : n.sglAllocated <;>
      simp [cmd,ready,peerVmid,selfVmid,payload,assigned,fails,lost]

inductive Sharing : VmState m F → Prop where
  | home {s : VmState m F} {o : VmPerm} (mem : s.mem = [o]) (parcels : s.parcels = [])
      (closed : s.vmReady = false) : Sharing s
  | stranded {s : VmState m F} {self peer : Nat} (distinct : self ≠ peer) (mem : s.mem = dstVmlist self peer)
      (parcels : s.parcels = []) (closed : s.vmReady = false) : Sharing s
  | shared {s : VmState m F} {self peer : Nat} (distinct : self ≠ peer) (mem : s.mem = dstVmlist self peer)
      (parcels : s.parcels = [(self,peer)]) (ready : s.vmReady = true) : Sharing s

def Notice.apart (n : Notice) : Prop :=
  ∀ self peer, n.selfVmid = some self → n.peerVmid = some peer → self ≠ peer

theorem startsNot {self peer a b : Nat} (ab : a ≠ b) (mem : s.mem = dstVmlist a b) : ¬ Starts n self peer s := by
  intro starts
  have names := n.firmware.names _ _ _ starts.assigned
  rw [mem] at names
  exact sharedUnnamed ab _ _ rfl rfl names

theorem sharingNotice (sharing : Sharing s) (apart : n.apart) : Sharing (hwFenceRmCb n s) := by
  have effect := noticeEffect n s
  generalize hwFenceRmCb n s = s' at effect ⊢
  cases sharing with
  | @home o mem parcels ready =>
    cases effect with
    | idle => exact .home mem parcels ready
    | @shared self peer starts shares safe =>
      exact .shared (apart _ _ starts.selfVmid starts.peerVmid) rfl (by rw [parcels]; rfl) rfl
    | stranded starts strands => exact .stranded (apart _ _ starts.selfVmid starts.peerVmid) rfl parcels ready
    | back starts fails safe => exact .home rfl parcels ready
  | stranded distinct mem parcels ready =>
    cases effect with
    | idle => exact .stranded distinct mem parcels ready
    | shared starts shares safe => exact absurd starts (startsNot distinct mem)
    | stranded starts strands => exact absurd starts (startsNot distinct mem)
    | back starts fails safe => exact absurd starts (startsNot distinct mem)
  | shared distinct mem parcels ready =>
    cases effect with
    | idle => exact .shared distinct mem parcels ready
    | shared starts shares safe => exact absurd starts (startsNot distinct mem)
    | stranded starts strands => exact absurd starts (startsNot distinct mem)
    | back starts fails safe => exact absurd starts (startsNot distinct mem)

end Notices

section Blocked
variable {m : Nat} {F : Type} {s : ApiState m F}

structure Untouched (s : ApiState m F) : Prop where
  zeroed : ∀ i, s.d.tbl i = .zeroed
  unflagged : ∀ f, s.enabled f = false

theorem blockedDestroy (client : HwFenceClient) (hash : Nat) (zeroed : ∀ i, s.d.tbl i = .zeroed) :
    ((hwFenceDestroyWithHash client hash).run s.d).2 = s.d := by
  unfold hwFenceDestroyWithHash
  split
  · rfl
  · rename_i i found
    have other : ¬ (s.d.tbl i).fenceAllocator = client.clientId := by
      have known := client.known.1
      rw [zeroed i]
      simp only [HwFence.zeroed]
      omega
    simp [other]

theorem blockedReset (client : HwFenceClient) (flags : ResetFlags) (blocked : s.d.vmReady = false) :
    ((driver (msmHwFenceResetClient client flags)).run s).2 = s := by
  simp [msmHwFenceResetClient,blocked]

variable [DecidableEq F] {w : DmaFences F}

theorem blockedCall (op : ApiOp F) (untouched : Untouched s) (blocked : s.d.vmReady = false) :
    ((op.call w).run s).2 = s := by
  cases op with
  | create client fence handle =>
    unfold ApiOp.call msmHwFenceCreate
    cases client <;> cases fence <;> cases handle <;> simp [blocked]
  | destroy client fence =>
    unfold ApiOp.call msmHwFenceDestroy
    cases client with
    | none => rfl
    | some client =>
      cases fence with
      | none => rfl
      | some f =>
        dsimp only
        split
        · rfl
        · simp [untouched.unflagged f]
  | destroyWithHandle client handle =>
    unfold ApiOp.call msmHwFenceDestroyWithHandle
    cases client with
    | none => rfl
    | some client =>
      simp only [runBind,runObserve]
      by_cases known : s.d.clientsNum ≤ client.clientId
      · simp [known]
      · simp [known,blockedDestroy client handle untouched.zeroed]
  | waitUpdate client fences list =>
    unfold ApiOp.call msmHwFenceWaitUpdateV2
    cases client <;> cases fences <;> simp [blocked]
  | resetClient client flags =>
    cases client with
    | none => rfl
    | some client => exact blockedReset client flags blocked
  | resetClientById types clientIdExt flags =>
    simp only [ApiOp.call,msmHwFenceResetClientById]
    split
    · rfl
    · split
      · rfl
      · simp only [runBind,runObserve]
        cases s.d.clients (DeviceTree.hwFenceUtilsGetClientIdPriv types clientIdExt) with
        | none => rfl
        | some client => exact blockedReset client flags blocked
  | updateTxq client handle flags error =>
    unfold ApiOp.call msmHwFenceUpdateTxq
    simp [blocked]
  | triggerSignal client txClientPid rxClientVid signalId => exact triggerRun ..

end Blocked

section Runs
variable {m : Nat} {F : Type} [DecidableEq F] {w : DmaFences F} {s : VmState m F} {events : List (VmEvent m F)}

def unshared (F : Type) (o : VmPerm) (d : DriverData m) : VmState m F := ⟨[o],[],false,unflagged F d⟩

def VmEvent.apart : VmEvent m F → Prop
  | .notice n => n.apart
  | .call _ => True

structure VmInv (s : VmState m F) : Prop where
  sharing : Sharing s
  closed : s.vmReady = false → Untouched s.api

omit [DecidableEq F] in
theorem unsharedInv (o : VmPerm) (d : DriverData m) : VmInv (unshared F o d) :=
  ⟨.home rfl rfl rfl,fun _ => ⟨fun _ => rfl,fun _ => rfl⟩⟩

omit [DecidableEq F] in
theorem noticeApi (n : Notice) (s : VmState m F) : (hwFenceRmCb n s).api = s.api := by
  have effect := noticeEffect n s
  generalize hwFenceRmCb n s = s' at effect ⊢
  cases effect <;> rfl

omit [DecidableEq F] in
theorem noticeReady {n : Notice} (closed : (hwFenceRmCb n s).vmReady = false) : s.vmReady = false := by
  have effect := noticeEffect n s
  generalize hwFenceRmCb n s = s' at effect closed
  cases effect with
  | shared starts shares safe => cases closed
  | idle => exact closed
  | stranded starts strands => exact closed
  | back starts fails safe => exact closed

theorem blockedStep (c : ApiCall m F) (closed : s.vmReady = false) (untouched : Untouched s.api) :
    Untouched (s.step w (.call c)).api := by
  have zeroed : ∀ i, ((s.gate c).start s.api).d.tbl i = .zeroed := fun i => by
    have free : (s.api.d.tbl i).valid = false := by
      rw [untouched.zeroed]
      rfl
    exact (controlledFree free).trans (untouched.zeroed i)
  have start : Untouched ((s.gate c).start s.api) := ⟨zeroed,untouched.unflagged⟩
  dsimp only [VmState.step,ApiCall.step]
  rw [blockedCall (s.gate c).op start closed]
  exact start

theorem vmInvStep {e : VmEvent m F} (inv : VmInv s) (apart : e.apart) : VmInv (s.step w e) := by
  cases e with
  | notice n =>
    refine ⟨sharingNotice inv.sharing apart,fun closed => ?_⟩
    rw [VmState.step,noticeApi]
    exact inv.closed (noticeReady closed)
  | call c =>
    refine ⟨?_,fun closed => blockedStep c closed (inv.closed closed)⟩
    cases inv.sharing with
    | home mem parcels closed => exact .home mem parcels closed
    | stranded distinct mem parcels closed => exact .stranded distinct mem parcels closed
    | shared distinct mem parcels ready => exact .shared distinct mem parcels ready

theorem vmRun (o : VmPerm) (d : DriverData m)
    (apart : Along (VmState.step w) (fun _ e => e.apart) (unshared F o d) events) :
    VmInv (after (VmState.step w) (unshared F o d) events) :=
  (invariant (fun _ _ => vmInvStep) (unsharedInv o d) apart).2

theorem trustyNames (mem : Owners) (src : U32) (_ : List VmPerm)
    (given : decide (mem = srcVmlist 3 ∧ src = vmidBit 3) = true) : Names src mem := by
  obtain ⟨rfl,rfl⟩ := of_decide_eq_true given
  intro v
  constructor
  · intro set
    exact ⟨_,List.mem_singleton.mpr rfl,(vmidBitOnly set).1.symm⟩
  · rintro ⟨o,mem,rfl⟩
    cases List.mem_singleton.mp mem
    decide

def trusty : Firmware := ⟨fun mem src _ => decide (mem = srcVmlist 3 ∧ src = vmidBit 3),trustyNames⟩

def peerUp (shared : Bool) : Notice := ⟨true,.ready,45,some 45,some 3,trusty,true,true,shared⟩

def createCall : VmEvent 2 Bool := .call ⟨.create (some (.plain 1 oneKnown)) (some false) true,twoClients⟩

def opening (shared : Bool) : List (VmEvent 2 Bool) := [createCall] ++ .notice (peerUp shared)::[createCall]

theorem peerApart (shared : Bool) : (peerUp shared).apart := by
  intro own peer selfVmid peerVmid
  cases selfVmid
  cases peerVmid
  decide

theorem openingApart (shared : Bool) : Along (VmState.step twoFences) (fun _ e => e.apart)
    (unshared Bool ⟨3,true,true,true⟩ twoClients) (opening shared) :=
  ⟨trivial,peerApart shared,trivial,trivial⟩

theorem opensOnceShared (o : VmPerm) (d : DriverData m)
    (apart : Along (VmState.step w) (fun _ e => e.apart) (unshared F o d) events) :
    let s := after (VmState.step w) (unshared F o d) events
    (s.vmReady = true ↔ s.parcels ≠ []) ∧
      (s.vmReady = true → ∃ self peer, s.parcels = [(self,peer)] ∧ s.mem = dstVmlist self peer) ∧
      (s.vmReady = false → Untouched s.api) := by
  have inv := vmRun o d apart
  refine ⟨?_,fun open_ => ?_,inv.closed⟩
  · cases inv.sharing with
    | home mem parcels closed => simp [parcels,closed]
    | stranded distinct mem parcels closed => simp [parcels,closed]
    | shared distinct mem parcels ready => simp [parcels,ready]
  · cases inv.sharing with
    | home mem parcels closed => simp [closed] at open_
    | stranded distinct mem parcels closed => simp [closed] at open_
    | shared distinct mem parcels ready => exact ⟨_,_,parcels,mem⟩

theorem opensOnceSharedPeer :
    let s := after (VmState.step twoFences) (unshared Bool ⟨3,true,true,true⟩ twoClients) (opening true)
    s.vmReady = true ↔ s.parcels ≠ [] :=
  (opensOnceShared ⟨3,true,true,true⟩ twoClients (openingApart true)).1

structure Stuck (s : VmState m F) (own peer : Nat) : Prop where
  mem : s.mem = dstVmlist own peer
  parcels : s.parcels = []
  closed : s.vmReady = false
  untouched : Untouched s.api

theorem stuckStep {own peer : Nat} {e : VmEvent m F} (distinct : own ≠ peer) (stuck : Stuck s own peer) :
    Stuck (s.step w e) own peer := by
  obtain ⟨mem,parcels,closed,untouched⟩ := stuck
  cases e with
  | notice n =>
    have effect := noticeEffect n s
    dsimp only [VmState.step]
    generalize hwFenceRmCb n s = s' at effect ⊢
    cases effect with
    | idle => exact ⟨mem,parcels,closed,untouched⟩
    | shared starts shares safe => exact absurd starts (startsNot distinct mem)
    | stranded starts strands => exact absurd starts (startsNot distinct mem)
    | back starts fails safe => exact absurd starts (startsNot distinct mem)
  | call c => exact ⟨mem,parcels,closed,blockedStep c closed untouched⟩

theorem pastStrands {n : Notice} {self peer : Nat} (fails : n.shared = false) (past : 32 ≤ peer) :
    Strands n self peer := by
  refine .inr (.inr ⟨fails,?_⟩)
  by_contra home
  exact peerUnnamed past (n.firmware.names _ _ _ (by simpa using home))

theorem strandedForGood (o : VmPerm) (d : DriverData m) {pre post : List (VmEvent m F)} {n : Notice}
    {own peer : Nat}
    (apart : Along (VmState.step w) (fun _ e => e.apart) (unshared F o d) (pre ++ .notice n::post))
    (starts : Starts n own peer (after (VmState.step w) (unshared F o d) pre))
    (strands : Strands n own peer ∨ n.shared = false ∧ 32 ≤ peer) :
    let s := after (VmState.step w) (unshared F o d) (pre ++ .notice n::post)
    s.mem = dstVmlist own peer ∧ s.parcels = [] ∧ s.vmReady = false ∧ Untouched s.api := by
  have strands : Strands n own peer := strands.elim id fun past => pastStrands past.1 past.2
  obtain ⟨before,now,-⟩ := (alongAppend pre (.notice n::post)).mp apart
  have inv := vmRun o d before
  generalize reached : after (VmState.step w) (unshared F o d) pre = s₀ at starts now inv
  have distinct : own ≠ peer := now _ _ starts.selfVmid starts.peerVmid
  have stuck : Stuck (s₀.step w (.notice n)) own peer := by
    dsimp only [VmState.step]
    rw [strandedNotice starts strands]
    cases inv.sharing with
    | home mem parcels closed => exact ⟨rfl,parcels,closed,inv.closed closed⟩
    | stranded other mem parcels closed => exact absurd starts (startsNot other mem)
    | shared other mem parcels ready => exact absurd starts (startsNot other mem)
  have kept := @invariantAlways _ _ (VmState.step w) _ (fun s => Stuck s own peer)
    (fun s e stuck => stuckStep distinct stuck) stuck post
  simp only [afterAppend,afterCons,reached]
  exact ⟨kept.mem,kept.parcels,kept.closed,kept.untouched⟩

theorem peerStarts : Starts (peerUp false) 3 45 (after (VmState.step twoFences)
    (unshared Bool ⟨3,true,true,true⟩ twoClients) [createCall]) := ⟨rfl,rfl,rfl,rfl,rfl,by decide⟩

theorem strandedPeer :
    (after (VmState.step twoFences) (unshared Bool ⟨3,true,true,true⟩ twoClients) (opening false)).vmReady =
      false :=
  (strandedForGood ⟨3,true,true,true⟩ twoClients (openingApart false) peerStarts (.inr ⟨rfl,by decide⟩)).2.2.1

end Runs

end MmDrivers.VmShare

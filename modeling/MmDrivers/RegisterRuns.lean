import MmDrivers.FenceSignal
import MmDrivers.Registration

/-! Histories of registrations. The memory of a client's queues outlives the
client; registration writes their headers but not the indices. -/
namespace MmDrivers.RegisterRuns
open Sections Sections.Prog FenceTypes DeviceTree CarveOut ClientQueue FenceSignal Runs Registration

section Register
variable {m : Nat} {p : Platform} {clientId : Nat}

def OwnHeaders (p : Platform) (client : HwFenceClient) : Prop :=
  ∀ queueType, (client.queues queueType).vaHeader = true →
    queueType < (p.dt.hwFenceClientQueueSize client.clientId).queuesNum

def configuredQueue (p : Platform) (clientId queueType : Nat) : QueueDesc :=
  if queueType < (p.dt.hwFenceClientQueueSize clientId).queuesNum then
    ⟨BitVec.ofNat 32 (u32 (hwFenceClientQueuePayload*(p.dt.hwFenceClientQueueSize clientId).queueEntries)),true⟩
  else ⟨0,false⟩

theorem allocReturns : (hwFenceAllocClientResources p clientId : Registering m _).Returns
    fun queues => ∀ q, queues = .ok q → q.queues = configuredQueue p clientId := by
  unfold hwFenceAllocClientResources initHwFencesQueues
  intro s
  refine returnsIte (fun _ => nofun) fun _ => ?_
  intro s s
  split
  · nofun
  · intro q same
    cases same
    rfl

theorem txqOnlyReturns (updateRxq : Bool) :
    (updatesRxqOfTxqOnly p clientId updateRxq : Registering m Bool).Returns fun txqOnly =>
      ¬ txqOnly = true → updateRxq = true →
        hwFenceClientQueues ≤ (p.dt.hwFenceClientQueueSize clientId).queuesNum := by
  unfold updatesRxqOfTxqOnly
  refine returnsIte (fun _ s enough _ => ?_) fun off _ on => absurd on off
  simpa using enough

structure Configured (p : Platform) (clientId : Nat) (client : HwFenceClient) : Prop where
  id : client.clientId = clientId
  queues : client.queues = configuredQueue p clientId
  both : client.updateRxq = true → hwFenceClientQueues ≤ (p.dt.hwFenceClientQueueSize clientId).queuesNum

theorem registerClientReturns (below : clientId < hwFenceClientMax) :
    (registerClient p clientId below : Registering m _).Returns fun client =>
      ∀ c, client = .ok c → Configured p clientId c := by
  unfold registerClient
  refine returnsBind (returnsAny _) fun vid _ => returnsBind (returnsAny _) fun pid _ =>
    returnsIte (fun _ => nofun) fun _ => returnsBind (returnsAny _) fun signalId _ =>
    returnsIte (fun _ => nofun) fun _ => returnsBind (returnsAny _) fun updateRxq _ =>
    returnsBind (txqOnlyReturns updateRxq) fun txqOnly enough =>
    returnsIte (fun _ => nofun) fun both =>
    returnsBind (returnsAny _) fun sendIpc _ => returnsBind (returnsAny _) fun skipTxqWrIdx _ =>
    returnsBind allocReturns fun queues own => ?_
  split
  · nofun
  · rename_i queues
    refine returnsBind (returnsAny _) fun status _ => ?_
    split
    · nofun
    · intro c same
      cases same
      exact ⟨rfl,own queues rfl,enough both⟩

theorem Configured.headers {client : HwFenceClient} (configured : Configured p clientId client) :
    OwnHeaders p client := by
  intro queueType header
  rw [configured.queues,configuredQueue] at header
  rw [configured.id]
  by_contra outside
  rw [if_neg outside] at header
  cases header

theorem registerClientKeeps (below : clientId < hwFenceClientMax) (s : Registry m) :
    ((registerClient p clientId below).run s).2.d = s.d :=
  eachRun (R := fun s s' => s'.d = s.d) (registerClientLooks below) (fun _ _ own => own.keeps)
    (fun _ => rfl) (fun a _ c ab bc => show c.d = a.d from Eq.trans bc ab) s

inductive Registered (p : Platform) (s : Registry m) : Except Errno HwFenceClient × Registry m → Prop
  | error {e : Errno} {s' : Registry m} (kept : s'.d = s.d) : Registered p s (.error e,s')
  | ok {client : HwFenceClient} {s' : Registry m} (free : s.d.clients client.clientId = none)
      (headers : OwnHeaders p client)
      (stored : s'.d.clients = Function.update s.d.clients client.clientId (some client))
      (kept : s'.d.queue = s.d.queue) : Registered p s (.ok client,s')

theorem registered (clientIdExt : Nat) (memDescriptor kzalloc : Bool) (s : Registry m) :
    Registered p s ((msmHwFenceRegister p clientIdExt memDescriptor kzalloc).run s) := by
  unfold msmHwFenceRegister
  rw [runBind,runObserve]
  by_cases ready : s.d.resourcesReady = true
  swap
  · rw [if_pos ready]
    exact .error rfl
  rw [if_neg (not_not.mpr ready)]
  by_cases params : ¬ memDescriptor = true ∨ hwFenceClientMax ≤ clientIdExt
  · rw [if_pos params]
    exact .error rfl
  rw [if_neg params,runBind,privRun]
  by_cases unknown : hwFenceClientMax ≤
      hwFenceUtilsGetClientIdPriv p.dt.hwFenceClientTypes clientIdExt
  · rw [dif_pos unknown]
    exact .error rfl
  rw [dif_neg unknown]
  by_cases alloc : kzalloc = true
  swap
  · rw [if_pos alloc]
    exact .error rfl
  rw [if_neg (not_not.mpr alloc),runBind,touch,runAtomic]
  cases free : s.d.clients (hwFenceUtilsGetClientIdPriv p.dt.hwFenceClientTypes clientIdExt) with
  | some client => exact .error rfl
  | none =>
    have below := Nat.lt_of_not_le unknown
    have own := returnsRun (registerClientReturns (p := p) below) s
    have kept := registerClientKeeps (p := p) below s
    rw [if_neg (by simp),runBind]
    simp only [id_eq]
    generalize (registerClient p _ below).run s = done at own kept
    obtain ⟨client,s'⟩ := done
    cases client with
    | error e => exact .error kept
    | ok client =>
      have configured := own client rfl
      refine .ok (configured.id ▸ free) configured.headers ?_ ?_
      · simp only [setClient]
        rw [kept]
      · simp only [setClient]
        rw [kept]

end Register

inductive ClientOp (m : Nat) where
  | register (clientIdExt : Nat) (memDescriptor kzalloc : Bool)
  | deregister (clientId : Nat)
  | updateQueue (clientId : Nat) (payload : Payload) (queueType : Nat)
  | readQueue (clientId queueType : Nat)
  | signal (clientId : Nat) (fence : Fin m) (hash : Nat) (flags clientData : U64) (error : U32)
  | signalWaitClients (fence : Fin m) (hash : Nat) (error : U32)

section Histories
variable {m : Nat} (p : Platform)

def byClient {α : Type} (s : Registry m) (clientId : Nat) (prog : HwFenceClient → Driver m α) :
    Registry m :=
  match s.d.clients clientId with
  | none => s
  | some client => {s with d := ((prog client).run s.d).2}

def ClientOp.step (s : Registry m) : ClientOp m → Registry m
  | .register clientIdExt memDescriptor kzalloc =>
    ((msmHwFenceRegister p clientIdExt memDescriptor kzalloc).run s).2
  | .deregister clientId => ((msmHwFenceDeregister p (s.d.clients clientId)).run s).2
  | .updateQueue clientId payload queueType =>
    byClient s clientId fun client => updatePayload client payload queueType
  | .readQueue clientId queueType => byClient s clientId fun client => hwFenceReadQueue client queueType
  | .signal clientId fence hash flags clientData error =>
    byClient s clientId fun client => fenceCtlSignal client fence hash flags clientData error
  | .signalWaitClients fence hash error =>
    {s with d := ((signalAllWaitClients fence hash error).run s.d).2}

def emptyQueue (skipWrIdx : Bool) (q : ClientQueue) : Prop :=
  q.readIndex = q.writeIndex ∧ (skipWrIdx = true → q.readIndex = q.txWm)

def QueuesEmpty (d : DriverData m) (clientId : Nat) : Prop :=
  ∀ queueType < (p.dt.hwFenceClientQueueSize clientId).queuesNum,
    emptyQueue (queueType = hwFenceTxQueue-1 && (p.dt.hwFenceClientQueueSize clientId).skipTxqWrIdx)
      (d.queue clientId queueType)

/-- A registration that succeeds hands out empty queues: the first read of any finds nothing. -/
def StartsEmpty (s : Registry m) : ClientOp m → Prop
  | .register clientIdExt memDescriptor kzalloc =>
    let done := (msmHwFenceRegister p clientIdExt memDescriptor kzalloc).run s
    ∀ client, done.1 = .ok client → QueuesEmpty p done.2.d client.clientId ∧
      ∀ queueType, ((hwFenceReadQueue client queueType).run done.2.d).1.2 = none
  | _ => True

/-- A client is deregistered with empty queues only. -/
def Drained (s : Registry m) : ClientOp m → Prop
  | .deregister clientId => (s.d.clients clientId).isSome → QueuesEmpty p s.d clientId
  | _ => True

structure Fresh (s : Registry m) : Prop where
  clients : ∀ clientId, s.d.clients clientId = none
  queues : ∀ clientId queueType, s.d.queue clientId queueType = ⟨0,0,0,fun _ => 0⟩

def FreeEmpty (s : Registry m) : Prop :=
  ∀ clientId, s.d.clients clientId = none → QueuesEmpty p s.d clientId

end Histories

section Frames
variable {m : Nat} {p : Platform} {s : Registry m}

structure OthersKept (clientId : Nat) (d d' : DriverData m) : Prop where
  clients : d'.clients = d.clients
  queues : ∀ id ≠ clientId, d'.queue id = d.queue id

theorem OthersKept.refl (clientId : Nat) (d : DriverData m) : OthersKept clientId d d :=
  ⟨rfl,fun _ _ => rfl⟩

theorem OthersKept.trans {clientId : Nat} {a b c : DriverData m} (ab : OthersKept clientId a b)
    (bc : OthersKept clientId b c) : OthersKept clientId a c :=
  ⟨bc.clients.trans ab.clients,fun id other => (bc.queues id other).trans (ab.queues id other)⟩

def OwnQueues (clientId : Nat) (upd : DriverData m → DriverData m) (_ev : DriverData m → List Event) :
    Prop :=
  ∀ d, OthersKept clientId d (upd d)

theorem ownAtomic {α : Type} {clientId queueType : Nat} {f : DriverData m → ClientQueue → ClientQueue}
    {ev : DriverData m → List Event} {read : DriverData m → α} :
    (atomic (fun d => d.onQueue clientId queueType (f d)) ev read : Driver m α).Each
      (OwnQueues clientId) :=
  eachAtomic fun d => ⟨rfl,fun id other => by simp [DriverData.onQueue,other]⟩

theorem ownLook {α : Type} {clientId : Nat} {ev : DriverData m → List Event}
    {read : DriverData m → α} : (atomic id ev read : Driver m α).Each (OwnQueues clientId) :=
  eachAtomic fun _ => ⟨rfl,fun _ _ => rfl⟩

theorem ownUpdate (client : HwFenceClient) (ctxtId seqno hash flags clientData : U64) (error : U32)
    (queueType : Nat) : (hwFenceUpdateQueue (m := m) client ctxtId seqno hash flags clientData error
      queueType).Each (OwnQueues client.clientId) := by
  unfold hwFenceUpdateQueue
  refine eachBind ownLook fun _ => eachIte (fun _ => eachPure _) fun _ =>
    eachIte (fun _ => eachPure _) fun _ => eachBind ownLook fun _ =>
    eachIte (fun _ => eachPure _) fun _ => ownAtomic

theorem ownRead (client : HwFenceClient) (queueType : Nat) :
    (hwFenceReadQueue (m := m) client queueType).Each (OwnQueues client.clientId) := by
  unfold hwFenceReadQueue
  exact eachIte (fun _ => eachPure _) fun _ => eachIte (fun _ => eachPure _) fun _ => ownAtomic

theorem ownSignal (client : HwFenceClient) (fence : Fin m) (hash : Nat) (flags clientData : U64)
    (error : U32) : (fenceCtlSignal client fence hash flags clientData error).Each
      (OwnQueues client.clientId) := by
  unfold fenceCtlSignal emit
  refine eachBind ownLook fun context => eachBind ownLook fun seqno => eachBind ownLook fun _ => ?_
  exact deliverSections client (fun ev _ d => ⟨rfl,fun _ _ => rfl⟩) (ownUpdate client)
    context seqno hash flags clientData error

structure FreeKept (d d' : DriverData m) : Prop where
  clients : d'.clients = d.clients
  queues : ∀ id, d.clients id = none → d'.queue id = d.queue id

theorem FreeKept.trans {a b c : DriverData m} (ab : FreeKept a b) (bc : FreeKept b c) :
    FreeKept a c :=
  ⟨bc.clients.trans ab.clients,fun id absent =>
    (bc.queues id (ab.clients ▸ absent)).trans (ab.queues id absent)⟩

theorem ownKept {α : Type} {prog : Driver m α} {d : DriverData m} {client : HwFenceClient}
    (found : d.clients client.clientId = some client)
    (own : prog.Each (OwnQueues client.clientId)) : FreeKept d (prog.run d).2 := by
  have run := eachRun own (fun _ _ own => own) (OthersKept.refl _) (fun _ _ _ => OthersKept.trans) d
  refine ⟨run.clients,fun id absent => run.queues id fun same => ?_⟩
  rw [same,found] at absent
  contradiction

theorem signalWaitKept (fence : Fin m) (hash : Nat) (error : U32) (left waitClientId : Nat)
    (clientData : U64) (d : DriverData m) :
    FreeKept d ((signalWaitClients fence hash error left waitClientId clientData).run d).2 := by
  induction left generalizing waitClientId clientData d with
  | zero => exact ⟨rfl,fun _ _ => rfl⟩
  | succ left ih =>
    have told : ∀ data c, d.clients waitClientId = some c → FreeKept d
        ((do fenceCtlSignal c fence hash 0 data error
             signalWaitClients fence hash error left (waitClientId+1) data).run d).2 := by
      intro data c found
      have own : d.clients c.clientId = some c := by rw [d.ownId waitClientId c found,found]
      rw [runBind]
      exact (ownKept own (ownSignal c fence hash 0 data error)).trans (ih _ _ _)
    by_cases waits : (d.tbl fence).waitClientMask &&& bit waitClientId = 0#64
    · simpa [signalWaitClients,waits] using ih (waitClientId+1) clientData d
    · cases found : d.clients waitClientId with
      | none =>
        cases dataId : hwFenceGetClientDataId waitClientId with
        | none => simpa [signalWaitClients,waits,found,dataId] using ih (waitClientId+1) clientData d
        | some id => simpa [signalWaitClients,waits,found,dataId] using ih (waitClientId+1) _ d
      | some c =>
        cases dataId : hwFenceGetClientDataId waitClientId with
        | none => simpa [signalWaitClients,waits,found,dataId] using told clientData c found
        | some id => simpa [signalWaitClients,waits,found,dataId] using told _ c found

theorem signalAllKept (fence : Fin m) (hash : Nat) (error : U32) (d : DriverData m) :
    FreeKept d ((signalAllWaitClients fence hash error).run d).2 := by
  unfold signalAllWaitClients
  rw [runBind]
  exact signalWaitKept fence hash error _ _ _ d

theorem byClientKept {α : Type} {prog : HwFenceClient → Driver m α}
    (own : ∀ client, (prog client).Each (OwnQueues client.clientId)) (clientId : Nat) :
    FreeKept s.d (byClient s clientId prog).d := by
  unfold byClient
  split
  · exact ⟨rfl,fun _ _ => rfl⟩
  · rename_i client found
    exact ownKept (by rw [s.d.ownId clientId client found,found]) (own client)

theorem freeEmptyKept {s' : Registry m} (empty : FreeEmpty p s) (kept : FreeKept s.d s'.d) :
    FreeEmpty p s' := by
  intro clientId absent queueType inside
  rw [kept.clients] at absent
  rw [kept.queues clientId absent]
  exact empty clientId absent queueType inside

end Frames

section Runs
variable {m : Nat} {p : Platform} {s : Registry m}

theorem registerEmpty (empty : FreeEmpty p s) (clientIdExt : Nat) (memDescriptor kzalloc : Bool) :
    FreeEmpty p (ClientOp.step p s (.register clientIdExt memDescriptor kzalloc)) := by
  have done := registered (p := p) clientIdExt memDescriptor kzalloc s
  change FreeEmpty p ((msmHwFenceRegister p clientIdExt memDescriptor kzalloc).run s).2
  generalize (msmHwFenceRegister p clientIdExt memDescriptor kzalloc).run s = r at done
  cases done with
  | error kept =>
    intro clientId absent
    rw [kept] at absent ⊢
    exact empty clientId absent
  | @ok client s' free headers stored kept =>
    intro clientId absent queueType inside
    have other : clientId ≠ client.clientId := by
      intro same
      rw [stored,same,Function.update_self] at absent
      contradiction
    rw [stored,Function.update_of_ne other] at absent
    rw [kept]
    exact empty clientId absent queueType inside

theorem deregisterEmpty (empty : FreeEmpty p s) {clientId : Nat}
    (drained : Drained p s (.deregister clientId)) :
    FreeEmpty p (ClientOp.step p s (.deregister clientId)) := by
  change FreeEmpty p ((msmHwFenceDeregister p (s.d.clients clientId)).run s).2
  cases found : s.d.clients clientId with
  | none => exact empty
  | some client =>
    have id := s.d.ownId clientId client found
    rw [msmHwFenceDeregister]
    split
    · exact empty
    · intro other absent
      by_cases same : other = clientId
      · rw [same]
        exact drained (by simp [found])
      · refine empty other ?_
        have kept : Function.update s.d.clients client.clientId none other = s.d.clients other :=
          Function.update_of_ne (by rw [id]; exact same) _ _
        exact kept.symm.trans absent

theorem freeEmptyStep (op : ClientOp m) (empty : FreeEmpty p s) (drained : Drained p s op) :
    FreeEmpty p (op.step p s) := by
  cases op with
  | register clientIdExt memDescriptor kzalloc => exact registerEmpty empty _ _ _
  | deregister clientId => exact deregisterEmpty empty drained
  | updateQueue clientId payload queueType =>
    exact freeEmptyKept empty (byClientKept (fun client => ownUpdate client _ _ _ _ _ _ _) _)
  | readQueue clientId queueType =>
    exact freeEmptyKept empty (byClientKept (fun client => ownRead client _) _)
  | signal clientId fence hash flags clientData error =>
    exact freeEmptyKept empty (byClientKept (fun client => ownSignal client _ _ _ _ _) _)
  | signalWaitClients fence hash error => exact freeEmptyKept empty (signalAllKept _ _ _ _)

theorem firstRead {d : DriverData m} {client : HwFenceClient} (headers : OwnHeaders p client)
    (empty : QueuesEmpty p d client.clientId) (queueType : Nat) :
    ((hwFenceReadQueue client queueType).run d).1.2 = none := by
  unfold hwFenceReadQueue
  split
  · rfl
  · dsimp only
    split
    · rfl
    · rename_i header
      have idle := (empty queueType (headers queueType (not_not.mp header))).1
      simp [readIdx,idle]

theorem startsEmpty (op : ClientOp m) (empty : FreeEmpty p s) : StartsEmpty p s op := by
  cases op with
  | register clientIdExt memDescriptor kzalloc =>
    have done := registered (p := p) clientIdExt memDescriptor kzalloc s
    change ∀ client, ((msmHwFenceRegister p clientIdExt memDescriptor kzalloc).run s).1 = .ok client →
      QueuesEmpty p ((msmHwFenceRegister p clientIdExt memDescriptor kzalloc).run s).2.d
        client.clientId ∧ ∀ queueType, ((hwFenceReadQueue client queueType).run
          ((msmHwFenceRegister p clientIdExt memDescriptor kzalloc).run s).2.d).1.2 = none
    generalize (msmHwFenceRegister p clientIdExt memDescriptor kzalloc).run s = r at done
    cases done with
    | error kept => nofun
    | @ok client s' free headers stored kept =>
      intro c same
      cases same
      have own : QueuesEmpty p s'.d client.clientId := by
        intro queueType inside
        rw [kept]
        exact empty client.clientId free queueType inside
      exact ⟨own,firstRead headers own⟩
  | _ => trivial

theorem freshEmpty (fresh : Fresh s) : FreeEmpty p s := by
  intro clientId _ queueType _
  rw [fresh.queues]
  exact ⟨rfl,fun _ => rfl⟩

theorem drainedRunsStartEmpty (fresh : Fresh s) (ops : List (ClientOp m))
    (drained : Along (ClientOp.step p) (Drained p) s ops) :
    Along (ClientOp.step p) (StartsEmpty p) s ops :=
  alongMono (fun _ op empty => startsEmpty op empty)
    (invariant (fun _ op empty drained => freeEmptyStep op empty drained) (freshEmpty fresh) drained).1

instance (skipWrIdx : Bool) (q : ClientQueue) : Decidable (emptyQueue skipWrIdx q) :=
  inferInstanceAs (Decidable (_ ∧ _))

instance (d : DriverData m) (clientId : Nat) : Decidable (QueuesEmpty p d clientId) :=
  inferInstanceAs (Decidable (∀ queueType < (p.dt.hwFenceClientQueueSize clientId).queuesNum, _))

instance (s : Registry m) : (op : ClientOp m) → Decidable (Drained p s op)
  | .deregister _ => inferInstanceAs (Decidable (_ → _))
  | .register .. | .updateQueue .. | .readQueue .. | .signal .. | .signalWaitClients .. =>
    inferInstanceAs (Decidable True)

def freshRegistry (d : DtData) : Registry 1 :=
  ⟨{DriverData.unused 1 oneEntry with
    entries := oneEntry
    ownId := noneRegistered
    queuesNum := fun id => (d.hwFenceClientQueueSize id).queuesNum},false⟩

theorem freshRegistryFresh (d : DtData) : Fresh (freshRegistry d) := ⟨fun _ => rfl,fun _ _ => rfl⟩

def revised (d : DtData) (check : Platform → Bool) : Bool :=
  if ctrlId : (d.hwFenceClientQueueSize 0).memSize = 0 then
    check ⟨true,true,d,0x1000000,(hwFenceIpccHwrevInit true d (fun _ => true) hwFenceIpccHwRev203).2,
      fun _ => .zeroed,ctrlId⟩
  else false

theorem onPlatform (check : Platform → Bool)
    (holds : (hwFenceUtilsParseDtProps pages4k (plainProps 128 64) fun _ => true).toOption.any
      (fun d => revised d check) = true) : ∃ p : Platform,
      hwFenceUtilsParseDtProps pages4k (plainProps 128 64) (fun _ => true) = .ok p.dt ∧
      check p = true := by
  obtain ⟨d,ok,checked⟩ := evaluated (plainProps 128 64) (fun d => revised d check) holds
  unfold revised at checked
  rw [dif_pos (ctrlIdUnused ok)] at checked
  exact ⟨platform ok hwFenceIpccHwRev203,ok,checked⟩

def staleCalls : List (ClientOp 1) :=
  [.register 1 true true,.updateQueue 1 ⟨1,1,0,0,0,0⟩ 0,.deregister 1]
def drainedCalls : List (ClientOp 1) :=
  [.register 1 true true,.updateQueue 1 ⟨1,1,0,0,0,0⟩ 0,.readQueue 1 0,.deregister 1,
    .register 1 true true]

theorem drainedCallsStartEmpty : ∃ p : Platform,
    hwFenceUtilsParseDtProps pages4k (plainProps 128 64) (fun _ => true) = .ok p.dt ∧
    Along (ClientOp.step p) (StartsEmpty p) (freshRegistry p.dt) drainedCalls := by
  obtain ⟨p,ok,drained⟩ := onPlatform (fun p => decide (Along (ClientOp.step p) (Drained p)
    (freshRegistry p.dt) drainedCalls)) (by decide +kernel)
  exact ⟨p,ok,drainedRunsStartEmpty (freshRegistryFresh p.dt) drainedCalls
    (of_decide_eq_true drained)⟩

def inherits (p : Platform) : Bool :=
  match (msmHwFenceRegister p 1 true true).run
      (after (ClientOp.step p) (freshRegistry p.dt) staleCalls) with
  | (.ok client,s) => client.clientId = 1 ∧ 0 < (p.dt.hwFenceClientQueueSize 1).queuesNum ∧
      (s.d.queue 1 0).readIndex ≠ (s.d.queue 1 0).writeIndex
  | (.error _,_) => false

theorem staleCallsInherit : ∃ p : Platform,
    hwFenceUtilsParseDtProps pages4k (plainProps 128 64) (fun _ => true) = .ok p.dt ∧
    Fresh (freshRegistry p.dt) ∧ ¬ Along (ClientOp.step p) (StartsEmpty p) (freshRegistry p.dt)
      (staleCalls ++ [.register 1 true true]) := by
  obtain ⟨p,ok,stale⟩ := onPlatform inherits (by decide +kernel)
  refine ⟨p,ok,freshRegistryFresh p.dt,fun along => ?_⟩
  have last := ((alongAppend staleCalls _).mp along).2.1
  unfold inherits at stale
  change ∀ client, ((msmHwFenceRegister p 1 true true).run
    (after (ClientOp.step p) (freshRegistry p.dt) staleCalls)).1 = .ok client → QueuesEmpty p
      ((msmHwFenceRegister p 1 true true).run
        (after (ClientOp.step p) (freshRegistry p.dt) staleCalls)).2.d client.clientId ∧ _ at last
  generalize (msmHwFenceRegister p 1 true true).run
    (after (ClientOp.step p) (freshRegistry p.dt) staleCalls) = done at stale last
  obtain ⟨client,s⟩ := done
  cases client with
  | error e => contradiction
  | ok client =>
    obtain ⟨id,some,pending⟩ := of_decide_eq_true stale
    have empty := (last client rfl).1
    rw [id] at empty
    exact pending (empty 0 some).1

end Runs
end MmDrivers.RegisterRuns

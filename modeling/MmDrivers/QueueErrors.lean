import MmDrivers.JoinFence

/-! Calls that queue a payload and drop the result: when success means that the
payload is in the queue. -/
namespace MmDrivers.QueueErrors
open Sections Sections.Prog FenceTypes FenceLookup FenceTable ClientQueue FenceSignal JoinFence

section Calls
variable {m : Nat}

inductive QueueingCall where
  | updateTxq (client : Option HwFenceClient) (handle : Nat) (flags : U64) (error : U32)
  | registerWait (fence : Option DmaFence) (client : HwFenceClient) (context seqno clientData : U64)
  | processFenceArray (client : HwFenceClient) (array : DmaFenceArray) (clientData : U64)

def QueueingCall.prog : QueueingCall → Driver m Status
  | .updateTxq client handle flags error => msmHwFenceUpdateTxq client handle flags error
  | .registerWait fence client context seqno clientData =>
    Prod.fst <$> hwFenceRegisterWaitClient fence client context seqno clientData
  | .processFenceArray client array clientData =>
    Prod.fst <$> hwFenceProcessFenceArray client array clientData

def arrayFinds (client : HwFenceClient) (array : DmaFenceArray) (d : DriverData m) :
    Option (Fin m × Nat × Except Nat Bool × DriverData m) :=
  let created := (hwFenceProcessJoinFence array 0 true).run d
  created.1.1.map fun join =>
    (join,created.1.2,(processChildren client join created.1.2 array.children 0 false).run
      (created.2.onSlot join (waitOnJoin client.clientId)))

def acceptsData (client : HwFenceClient) (clientData : U64) : Prop :=
  ¬ (clientData ≠ 0 ∧ (hwFenceGetClientDataId client.clientId).isNone)

/-- The call, started on `d`, has that payload to put in the client's queue: the Tx update of a fence,
or a wait that finds the fence, or all children, signalled already. An array's client data stands in
the place of the error. -/
inductive HasToQueue (d : DriverData m) : QueueingCall → HwFenceClient → Nat → Payload → Prop where
  | updateTxq {client handle flags error i} (ready : d.resourcesReady ∧ d.vmReady)
      (slot : getHwFence m handle = some i) :
      HasToQueue d (.updateTxq (some client) handle flags error) client (hwFenceTxQueue-1)
        ⟨(d.tbl i).ctxId,(d.tbl i).seqId,BitVec.ofNat 64 handle,flags,0,error⟩
  | registerWait {fence client context seqno clientData i hash} (data : acceptsData client clientData)
      (updateRxq : client.updateRxq = true)
      (found : ((msmHwFenceFind (some client) context seqno).run d).1 = (some i,hash))
      (signaled : (d.tbl i).signaled = true) :
      HasToQueue d (.registerWait fence client context seqno clientData) client (hwFenceRxQueue-1)
        ⟨(d.tbl i).ctxId,(d.tbl i).seqId,BitVec.ofNat 64 hash,0,clientData,0⟩
  | processFenceArray {client array clientData join hash d'} (data : acceptsData client clientData)
      (updateRxq : client.updateRxq = true)
      (finds : arrayFinds client array d = some (join,hash,.ok true,d')) :
      HasToQueue d (.processFenceArray client array clientData) client (hwFenceRxQueue-1)
        ⟨array.context,array.seqno,BitVec.ofNat 64 hash,0,0,clientData.setWidth 32⟩

def skipsWrIdx (client : HwFenceClient) (queueType : Nat) : Bool :=
  queueType = hwFenceTxQueue-1 && client.skipTxqWrIdx

structure Queued (client : HwFenceClient) (queueType n : Nat) (d : DriverData m)
    (xs : List Payload) : Prop where
  sized : (client.queues queueType).qSizeBytes.toNat = n*payloadSize
  pending : Pending n (skipsWrIdx client queueType) (d.queue client.clientId queueType) xs

def Appends (client : HwFenceClient) (queueType : Nat) (p : Payload) (d d' : DriverData m) : Prop :=
  ∃ n xs, Queued client queueType n d xs ∧ Queued client queueType n d' (xs ++ [p])

/-- The call returns 0 only if the payload it had to queue has been appended, and an update of the Tx
queue only if it had one. -/
structure Truthful (d : DriverData m) (call : QueueingCall) : Prop where
  appends : ∀ client queueType p, HasToQueue d call client queueType p →
    (call.prog.run d).1 = .ok () → Appends client queueType p d (call.prog.run d).2
  accepted : ∀ client handle flags error, call = .updateTxq client handle flags error →
    (call.prog.run d).1 = .ok () → ∃ client p, HasToQueue d call client (hwFenceTxQueue-1) p

def HasRoom (d : DriverData m) (call : QueueingCall) : Prop :=
  ∀ client queueType p, HasToQueue d call client queueType p →
    Ready d client queueType ∧ ∃ n xs, Queued client queueType n d xs ∧ xs.length < n-1

end Calls

section Update
variable {m : Nat} {d d' : DriverData m} {client : HwFenceClient} {queueType n : Nat}
  {xs ys : List Payload} {p : Payload}

theorem Queued.same (left : Queued client queueType n d xs) (right : Queued client queueType n d ys) :
    xs = ys := by
  obtain ⟨r,w,reader,writer,holds⟩ := left.pending.slots
  obtain ⟨r',w',reader',writer',holds'⟩ := right.pending.slots
  rw [payloadWords] at reader writer reader' writer'
  have sameReader : r' = r := by omega
  have sameWriter : w' = w := by omega
  subst sameReader
  subst sameWriter
  exact holds.same holds'

theorem Queued.sameQueue (queued : Queued client queueType n d xs)
    (same : d'.queue client.clientId queueType = d.queue client.clientId queueType) :
    Queued client queueType n d' xs := ⟨queued.sized,by rw [same]; exact queued.pending⟩

theorem updateAppends (queued : Queued client queueType n d xs) (ready : Ready d client queueType)
    (room : xs.length < n-1) (after : d'.queue client.clientId queueType =
      ((updatePayload client p queueType).run d).2.queue client.clientId queueType) :
    Queued client queueType n d' (xs ++ [p]) := by
  obtain ⟨sized,small⟩ := wordsSized queued.sized
  rw [updateReady ready,DriverData.onQueueSame] at after
  obtain ⟨-,longer,-⟩ := appendFits (p := p) d.qtime sized small queued.pending room
  refine ⟨queued.sized,?_⟩
  rw [after]
  exact longer

theorem updateQueues (queued : Queued client queueType n d xs)
    (after : d'.queue client.clientId queueType =
      ((updatePayload client p queueType).run d).2.queue client.clientId queueType) :
    Queued client queueType n d' (xs ++ [p]) ↔ Ready d client queueType ∧ xs.length < n-1 := by
  obtain ⟨sized,-⟩ := wordsSized queued.sized
  have dropped : d'.queue client.clientId queueType = d.queue client.clientId queueType →
      ¬ Queued client queueType n d' (xs ++ [p]) := by
    intro same longer
    have length := congrArg List.length ((queued.sameQueue same).same longer)
    rw [List.length_append,List.length_singleton] at length
    omega
  by_cases ready : Ready d client queueType
  · by_cases room : xs.length < n-1
    · exact ⟨fun _ => ⟨ready,room⟩,fun _ => updateAppends queued ready room after⟩
    · rw [updateReady ready,DriverData.onQueueSame] at after
      have full := appendFull (p := p) d.qtime sized queued.pending room
      have same : (appended d client queueType p).queue = d.queue client.clientId queueType :=
        congrArg Access.queue full
      exact ⟨fun longer => absurd longer (dropped (after.trans same)),fun h => absurd h.2 room⟩
  · rw [updateRefused ready] at after
    exact ⟨fun longer => absurd longer (dropped after),fun h => absurd h.1 ready⟩

end Update

section Paths
variable {m : Nat} {d : DriverData m} {client : HwFenceClient}

def QueuesPayload (d : DriverData m) (call : QueueingCall) (client : HwFenceClient) (queueType : Nat)
    (p : Payload) : Prop :=
  (call.prog.run d).1 = .ok () ∧
    (call.prog.run d).2.queue = ((updatePayload client p queueType).run d).2.queue

theorem txqQueues {client handle flags error} {i : Fin m} (ready : d.resourcesReady ∧ d.vmReady)
    (slot : getHwFence m handle = some i) :
    QueuesPayload d (.updateTxq (some client) handle flags error) client (hwFenceTxQueue-1)
      ⟨(d.tbl i).ctxId,(d.tbl i).seqId,BitVec.ofNat 64 handle,flags,0,error⟩ := by
  refine ⟨?_,?_⟩ <;>
    simp [QueueingCall.prog,msmHwFenceUpdateTxq,ready.1,ready.2,slot,updatePayload]

theorem txqAccepted {client handle flags error}
    (ok : ((msmHwFenceUpdateTxq (m := m) client handle flags error).run d).1 = .ok ()) :
    ∃ client' p, HasToQueue d (.updateTxq client handle flags error) client' (hwFenceTxQueue-1) p := by
  by_cases ready : d.resourcesReady ∧ d.vmReady
  · cases client with
    | none => simp [msmHwFenceUpdateTxq,ready.1,ready.2] at ok
    | some client =>
      cases slot : getHwFence m handle with
      | none => simp [msmHwFenceUpdateTxq,ready.1,ready.2,slot] at ok
      | some i => exact ⟨client,_,.updateTxq ready slot⟩
  · have turned : ¬ (d.resourcesReady && d.vmReady) = true := by simpa using ready
    simp [msmHwFenceUpdateTxq,turned] at ok

theorem signalQueues (i : Fin m) (hash : Nat) (flags clientData : U64) (error : U32)
    (updateRxq : client.updateRxq = true) (d : DriverData m) :
    ((fenceCtlSignal client i hash flags clientData error).run d).2.queue =
      ((updatePayload client ⟨(d.tbl i).ctxId,(d.tbl i).seqId,BitVec.ofNat 64 hash,flags,clientData,
        error⟩ (hwFenceRxQueue-1)).run d).2.queue := by
  have ipc : ∀ d : DriverData m, ((whenever client.sendIpc (hwFenceIpccTriggerSignal client) :
      Driver m Unit).run d).2 = d := by
    intro d
    unfold whenever hwFenceIpccTriggerSignal emit
    split <;> rfl
  have loopback : ∀ d : DriverData m, ((whenever (hwFenceClientIdVal0 ≤ client.clientId ∧
      client.clientId ≤ hwFenceClientIdVal6) (processValidationClientLoopback client.clientId) :
        Driver m Unit).run d).2 = d := by
    intro d
    unfold whenever processValidationClientLoopback emit
    split
    · split <;> rfl
    · rfl
  simp only [fenceCtlSignal,emit,deliverSignal,runBind,runObserve,runAtomic,id_eq,ipc,loopback]
  simp [whenever,updateRxq,updatePayload]

theorem updateTable (p : Payload) (queueType : Nat) {d d' : DriverData m}
    (only : d' = {d with tbl := d'.tbl}) :
    ((updatePayload client p queueType).run d').2.queue =
      ((updatePayload client p queueType).run d).2.queue := by
  generalize d'.tbl = tbl at only
  subst only
  have same : Ready {d with tbl := tbl} client queueType ↔ Ready d client queueType :=
    ⟨fun h => ⟨h.exist,h.header,h.locked⟩,fun h => ⟨h.exist,h.header,h.locked⟩⟩
  by_cases ready : Ready d client queueType
  · rw [updateReady ready,updateReady (same.mpr ready)]
    rfl
  · rw [updateRefused ready,updateRefused fun h => ready (same.mp h)]

theorem waitQueues (fence) {context seqno clientData hash} {i : Fin m}
    (data : acceptsData client clientData) (updateRxq : client.updateRxq = true)
    (found : ((msmHwFenceFind (some client) context seqno).run d).1 = (some i,hash))
    (signaled : (d.tbl i).signaled = true) :
    QueuesPayload d (.registerWait fence client context seqno clientData) client (hwFenceRxQueue-1)
      ⟨(d.tbl i).ctxId,(d.tbl i).seqId,BitVec.ofNat 64 hash,0,clientData,0⟩ := by
  have kept := findKeeps (d := d) (some client) context seqno
  generalize ran : (msmHwFenceFind (some client) context seqno).run d = r at found kept
  obtain ⟨answer,d'⟩ := r
  dsimp only at found kept
  subst found
  subst kept
  generalize waits : d'.onSlot i (waitOn d'.qtime client.clientId clientData) = d₁
  have only : d₁ = {d' with tbl := d₁.tbl} := by
    rw [← waits]
    rfl
  have slot : d₁.tbl i = waitOn d'.qtime client.clientId clientData (d'.tbl i) := by
    rw [← waits,DriverData.onSlotSame]
  have flag : (d₁.tbl i).signaled = true := by
    rw [slot]
    exact signaled
  have told := signalQueues i hash 0#64 clientData 0#32 updateRxq d₁
  rw [updateTable _ _ only] at told
  have refused : ¬ (clientData ≠ 0 ∧ (hwFenceGetClientDataId client.clientId).isNone = true) := data
  have context : (d₁.tbl i).ctxId = (d'.tbl i).ctxId := by rw [slot]; rfl
  have seqno : (d₁.tbl i).seqId = (d'.tbl i).seqId := by rw [slot]; rfl
  rw [context,seqno] at told
  refine ⟨?_,?_⟩
  · simp only [QueueingCall.prog,hwFenceRegisterWaitClient,if_neg refused,mapBind,runBind,ran]
    simp
  · simp only [QueueingCall.prog,hwFenceRegisterWaitClient,if_neg refused,mapBind,runBind,ran]
    simp [waits,flag,whenever,emit,told]

def TableOnly (upd : DriverData m → DriverData m) (_ev : DriverData m → List Event) : Prop :=
  ∀ d, upd d = {d with tbl := (upd d).tbl}

def KeysKept (upd : DriverData m → DriverData m) (ev : DriverData m → List Event) : Prop :=
  TableOnly upd ev ∧ ∀ d x, ((upd d).tbl x).key = (d.tbl x).key

theorem probeTable (op : LookupOp) (context seqno : U64) (clientId : Nat) (pending : U32)
    (i : Fin m) : (probeSlot op context seqno clientId pending i).Each TableOnly := by
  refine eachAtomic fun d => ?_
  split <;> rfl

theorem findKeys (client : Option HwFenceClient) (context seqno : U64) :
    (msmHwFenceFind (m := m) client context seqno).Each KeysKept := by
  refine lookupEach fun i => eachAtomic ⟨fun d => ?_,fun d x => ?_⟩
  · dsimp only
    split <;> rfl
  · dsimp only
    split
    · by_cases xi : x = i
      · subst xi
        simp [LookupOp.processFnc]
      · simp [xi]
    · rfl
    · rfl

theorem childrenKeys (client : HwFenceClient) (join : Fin m) (hash : Nat)
    (children : List DmaFence) (i : Nat) (signal : Bool) :
    (processChildren client join hash children i signal).Each KeysKept := by
  induction children generalizing i signal with
  | nil => exact eachPure _
  | cons child rest ih =>
    unfold processChildren emit
    refine eachBind (eachAtomic ⟨fun d => rfl,fun d x => rfl⟩) fun _ => eachIte (fun _ => eachPure _)
      fun _ => eachBind (findKeys _ _ _) fun found => ?_
    obtain ⟨slot,hash'⟩ := found
    cases slot with
    | none => exact eachPure _
    | some c =>
      refine eachBind (eachAtomic ⟨fun d => ?_,fun d x => ?_⟩) fun step => ?_
      · dsimp only
        split
        · rfl
        · split <;> rfl
      · dsimp only
        split
        · by_cases xj : x = join
          · subst xj
            rw [DriverData.onSlotSame]
            rfl
          · rw [DriverData.onSlotOther d _ xj]
        · split
          · rfl
          · by_cases xc : x = c
            · subst xc
              rw [DriverData.onSlotSame]
              rfl
            · rw [DriverData.onSlotOther d _ xc]
      · cases step with
        | exceeded => exact eachPure _
        | signaled last => exact ih _ _
        | linked => exact ih _ _

theorem destroyJoinTable (array : DmaFenceArray) (hash : Nat) :
    (hwFenceProcessJoinFence (m := m) array hash false).Each TableOnly := by
  unfold hwFenceProcessJoinFence hwFenceCleanup
  simp only [Bool.false_eq_true,if_false]
  refine eachBind (eachBind (lookupEach fun i => probeTable _ _ _ _ _ i) fun (slot,_) => ?_)
    fun _ => eachPure _
  cases slot <;> exact eachPure _

theorem tableRun {α : Type} {p : Driver m α} (table : p.Each TableOnly) (d : DriverData m) :
    (p.run d).2 = {d with tbl := (p.run d).2.tbl} :=
  eachRun (R := fun d d' : DriverData m => d' = {d with tbl := d'.tbl}) table (fun _ _ h => h)
    (fun _ => rfl) (fun a b c ab bc => by rw [bc,ab]) d

theorem keysRun {α : Type} {p : Driver m α} (kept : p.Each KeysKept) (d : DriverData m) :
    (p.run d).2 = {d with tbl := (p.run d).2.tbl} ∧ ∀ x, ((p.run d).2.tbl x).key = (d.tbl x).key := by
  refine ⟨tableRun (eachMono (fun _ _ h => h.1) kept) d,fun x => ?_⟩
  exact eachRun (R := fun d d' : DriverData m => (d'.tbl x).key = (d.tbl x).key) kept
    (fun _ _ h d => h.2 d x) (fun _ => rfl) (fun a b c ab bc => Eq.trans bc ab) d

theorem createJoinRun {array : DmaFenceArray} {join : Fin m} {hash : Nat} {d₁ : DriverData m}
    (ran : (hwFenceProcessJoinFence array 0 true).run d = ((some join,hash),d₁)) :
    d₁ = {d with tbl := d₁.tbl} ∧ (d₁.tbl join).key = (array.context,array.seqno) := by
  simp only [hwFenceProcessJoinFence,if_true] at ran
  obtain ⟨-,-,-,rfl⟩ := lookupSome ran
  refine ⟨rfl,?_⟩
  rw [DriverData.onSlotSame]
  rfl

theorem arrayQueues {array clientData} {join : Fin m} {hash d'} (data : acceptsData client clientData)
    (updateRxq : client.updateRxq = true)
    (finds : arrayFinds client array d = some (join,hash,.ok true,d')) :
    QueuesPayload d (.processFenceArray client array clientData) client (hwFenceRxQueue-1)
      ⟨array.context,array.seqno,BitVec.ofNat 64 hash,0,0,clientData.setWidth 32⟩ := by
  generalize ran : (hwFenceProcessJoinFence array 0 true).run d = r at finds
  obtain ⟨⟨slot,hash'⟩,d₁⟩ := r
  simp only [arrayFinds,ran,Option.map_eq_some_iff,Prod.mk.injEq] at finds
  obtain ⟨join',slot,rfl,rfl,loop⟩ := finds
  subst slot
  obtain ⟨only₁,key₁⟩ := createJoinRun ran
  have steady := keysRun (childrenKeys client join' hash' array.children 0 false)
    (d₁.onSlot join' (waitOnJoin client.clientId))
  rw [loop] at steady
  obtain ⟨only₂,key₂⟩ := steady
  generalize stores : (whenever (clientData ≠ 0) (atomic
    (fun d => d.onSlot join' (setClientData client.clientId clientData)) (fun _ => []) (fun _ => ())) :
      Driver m Unit) = store
  have stored : store.Each KeysKept := by
    rw [← stores]
    refine eachWhenever fun _ => eachAtomic ⟨fun d => rfl,fun d x => ?_⟩
    by_cases xj : x = join'
    · subst xj
      rw [DriverData.onSlotSame]
      rfl
    · rw [DriverData.onSlotOther d _ xj]
  obtain ⟨only₃,key₃⟩ := keysRun stored d'
  have only : (store.run d').2 = {d with tbl := (store.run d').2.tbl} := by
    rw [only₃]
    dsimp only at only₂
    rw [only₂,DriverData.onSlot,only₁]
  have key : ((store.run d').2.tbl join').key = (array.context,array.seqno) := by
    rw [key₃,key₂,DriverData.onSlotSame,← key₁]
    rfl
  have told := signalQueues join' hash' 0 0 (clientData.setWidth 32) updateRxq (store.run d').2
  rw [updateTable _ _ only] at told
  have refused : ¬ (clientData ≠ 0 ∧ (hwFenceGetClientDataId client.clientId).isNone = true) := data
  have context : ((store.run d').2.tbl join').ctxId = array.context := congrArg Prod.fst key
  have seqno : ((store.run d').2.tbl join').seqId = array.seqno := congrArg Prod.snd key
  rw [context,seqno] at told
  refine ⟨?_,?_⟩
  · simp only [QueueingCall.prog,hwFenceProcessFenceArray,if_neg refused,mapBind,runBind,ran,
      runAtomic,loop,finishArray,stores]
    simp
  · simp only [QueueingCall.prog,hwFenceProcessFenceArray,if_neg refused,mapBind,runBind,ran,
      runAtomic,loop,finishArray,stores,if_true,emit,id_eq]
    exact (congrArg DriverData.queue (tableRun (destroyJoinTable array hash') _)).trans told

theorem queuesPayload {call : QueueingCall} {queueType : Nat} {p : Payload}
    (queues : HasToQueue d call client queueType p) : QueuesPayload d call client queueType p := by
  cases queues with
  | updateTxq ready slot => exact txqQueues ready slot
  | registerWait data updateRxq found signaled => exact waitQueues _ data updateRxq found signaled
  | processFenceArray data updateRxq finds => exact arrayQueues data updateRxq finds

end Paths

theorem truthfulIffRoom {m : Nat} (d : DriverData m) (call : QueueingCall) :
    Truthful d call ↔ HasRoom d call := by
  constructor
  · intro truthful client queueType p queues
    obtain ⟨ok,queue⟩ := queuesPayload queues
    obtain ⟨n,xs,queued,longer⟩ := truthful.appends client queueType p queues ok
    obtain ⟨ready,room⟩ := (updateQueues queued (congrFun (congrFun queue _) _)).mp longer
    exact ⟨ready,n,xs,queued,room⟩
  · intro room
    refine ⟨fun client queueType p queues _ => ?_,fun client handle flags error same ok => ?_⟩
    · obtain ⟨-,queue⟩ := queuesPayload queues
      obtain ⟨ready,n,xs,queued,room⟩ := room client queueType p queues
      exact ⟨n,xs,queued,(updateQueues queued (congrFun (congrFun queue _) _)).mpr ⟨ready,room⟩⟩
    · subst same
      exact txqAccepted ok

def txUpdate : QueueingCall := .updateTxq (some txClient) 0 0 0

def fullTx : DriverData 1 := (txUpdate.prog.run txDriver).2

theorem fullTxNotTruthful : ¬ Truthful fullTx txUpdate := by
  intro truthful
  have first : HasToQueue txDriver txUpdate txClient 0 _ := .updateTxq ⟨rfl,rfl⟩ (i := 0) rfl
  have second : HasToQueue fullTx txUpdate txClient 0 _ :=
    .updateTxq (by decide +kernel) (i := 0) rfl
  have empty : Queued txClient 0 2 txDriver [] := by
    refine ⟨by decide,⟨0,0,rfl,rfl,?_⟩⟩
    exact Ring.Holds.fresh (by decide) _
  have one := (updateQueues empty (congrFun (congrFun (queuesPayload first).2 _) _)).mpr
    ⟨⟨by decide,rfl,by decide⟩,by decide⟩
  obtain ⟨n,xs,before,two⟩ := truthful.appends txClient 0 _ second (queuesPayload second).1
  have size : n = 2 := by
    have sized := before.sized
    have bytes : (txClient.queues 0).qSizeBytes.toNat = 2*payloadSize := by decide
    rw [bytes] at sized
    simp only [payloadSize] at sized
    omega
  subst size
  obtain rfl := one.same before
  have room := (updateQueues before (congrFun (congrFun (queuesPayload second).2 _) _)).mp two
  exact absurd room.2 (by simp)

end MmDrivers.QueueErrors

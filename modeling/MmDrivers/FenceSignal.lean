import MmDrivers.ClientQueue
import MmDrivers.FenceTable

/-! Signalling of waiting clients, registration of a wait and the reset of a
client. Signalling only writes the queue of the client it signals. -/
namespace MmDrivers.FenceSignal
open Sections Sections.Prog FenceTypes FenceLookup FenceTable ClientQueue

section Model
variable {m : Nat}

def emit (ev : DriverData m → List Event) : Driver m Unit := atomic id ev (fun _ => ())

def processValidationClientLoopback (clientId : Nat) : Driver m Unit :=
  if clientId < hwFenceClientIdVal0 ∨ hwFenceClientIdVal6 < clientId then pure ()
  else emit fun d => if (d.clients clientId).isSome then [.valSignal clientId] else []

def hwFenceIpccTriggerSignal (client : HwFenceClient) : Driver m Unit :=
  emit fun d => [.ipc d.ipccClientPid client.ipcClientVid client.ipcSignalId]

def deliverSignal (client : HwFenceClient) (context seqno : U64) (hash : Nat)
    (flags clientData : U64) (error : U32) : Driver m Unit := do
  -- the result of the queue update is dropped
  whenever client.updateRxq do
    let _ ← hwFenceUpdateQueue client context seqno (BitVec.ofNat 64 hash) flags clientData error
      (hwFenceRxQueue-1)
  whenever client.sendIpc (hwFenceIpccTriggerSignal client)
  whenever (hwFenceClientIdVal0 ≤ client.clientId ∧ client.clientId ≤ hwFenceClientIdVal6)
    (processValidationClientLoopback client.clientId)

def fenceCtlSignal (client : HwFenceClient) (fence : Fin m) (hash : Nat) (flags clientData : U64)
    (error : U32) : Driver m Unit := do
  let context ← observe (fun d => (d.tbl fence).ctxId)
  let seqno ← observe (fun d => (d.tbl fence).seqId)
  emit fun _ => [.signal ⟨client.clientId,context,seqno,hash,flags,clientData,error⟩]
  deliverSignal client context seqno hash flags clientData error

def waitOn (qtime : U64) (clientId : Nat) (clientData : U64) (f : HwFence) : HwFence :=
  {f with
    waitClientMask := f.waitClientMask ||| bit clientId
    fenceWaitTime := qtime
    debugRefcount := f.debugRefcount+1
    clientData := fun id => if clientData ≠ 0 ∧ hwFenceGetClientDataId clientId = some id then
      clientData else f.clientData id}

def hwFenceRegisterWaitClient (fence : Option DmaFence) (client : HwFenceClient)
    (context seqno clientData : U64) : Driver m (Status × Option Nat) := do
  if clientData ≠ 0 ∧ (hwFenceGetClientDataId client.clientId).isNone then
    pure (.error .einval,none)
  else
    let (slot,hash) ← msmHwFenceFind (some client) context seqno
    match slot with
    | none => pure (.error .einval,some hash)
    | some i => do
      atomic (fun d => d.onSlot i (waitOn d.qtime client.clientId clientData))
        (fun _ => [.lock i,.waitBit i client.clientId,.unlock i]) (fun _ => ())
      -- the flags are read after the lock is released
      let signaled ← atomic id (fun _ => [.readFlags i]) (fun d => (d.tbl i).signaled)
      whenever signaled do
        emit fun _ => (fence.map fun f => .setSignaledBit f.context f.seqno).toList
        fenceCtlSignal client i hash 0 clientData 0
      pure (.ok (),some hash)

def hwFenceProcessFence (client : HwFenceClient) (fence : DmaFence) (clientData : U64) :
    Driver m (Status × Option Nat) :=
  if ¬ fence.hwFenceEnabled then pure (.error .einval,none)
  else hwFenceRegisterWaitClient (some fence) client fence.context fence.seqno clientData

/-- The turns of the loop from `waitClientId` on; `clientData` keeps its last value. -/
def signalWaitClients (fence : Fin m) (hash : Nat) (error : U32) : Nat → Nat → U64 → Driver m Unit
  | 0,_,_ => pure ()
  | left+1,waitClientId,clientData => do
    let waits ← observe (fun d => decide ((d.tbl fence).waitClientMask &&& bit waitClientId ≠ 0))
    if waits then
      let client ← observe (fun d => d.clients waitClientId)
      let clientData ← match hwFenceGetClientDataId waitClientId with
        | some id => observe (fun d => (d.tbl fence).clientData id)
        | none => pure clientData
      match client with
      | some c => fenceCtlSignal c fence hash 0 clientData error
      | none => pure ()
      signalWaitClients fence hash error left (waitClientId+1) clientData
    else signalWaitClients fence hash error left (waitClientId+1) clientData

def signalAllWaitClients (fence : Fin m) (hash : Nat) (error : U32) : Driver m Unit := do
  let rxqClientsNum ← observe (fun d => d.rxqClientsNum)
  signalWaitClients fence hash error (rxqClientsNum+1) 0 0

/-- The two bits of `reset_flags` and the error code, which the kernel header defines. -/
structure ResetFlags where
  withoutError : Bool
  withoutDestroy : Bool
  errorReset : U32

def ResetFlags.error (flags : ResetFlags) : U32 := if flags.withoutError then 0 else flags.errorReset

def clearWaitBit (clientId : Nat) (f : HwFence) : HwFence :=
  if f.waitClientMask &&& bit clientId ≠ 0 then
    {f with waitClientMask := f.waitClientMask &&& ~~~bit clientId}
  else f

def hwFenceUtilsCleanupFence (client : HwFenceClient) (fence : Fin m) (hash : Nat)
    (flags : ResetFlags) : Driver m Status := do
  atomic
    (fun d => d.onSlot fence (clearWaitBit client.clientId))
    (fun _ => [.lock fence,.unlock fence]) (fun _ => ())
  let allocator ← observe (fun d => (d.tbl fence).fenceAllocator)
  if allocator = client.clientId then
    let signaled ← observe (fun d => (d.tbl fence).signaled)
    whenever (¬ signaled) (signalAllWaitClients fence hash flags.error)
    if flags.withoutDestroy then pure (.ok ())
    else
      let context ← observe (fun d => (d.tbl fence).ctxId)
      let seqno ← observe (fun d => (d.tbl fence).seqId)
      hwFenceDestroy client context seqno
  else pure (.ok ())

def hwFenceUtilsResetQueues (client : HwFenceClient) : Driver m Unit := do
  atomic
    (fun d => d.onQueue client.clientId (hwFenceTxQueue-1) fun q =>
      {q with readIndex := q.writeIndex})
    (fun _ => []) (fun _ => ())
  whenever client.updateRxq do
    let idx := lockIdx client
    let lockCnt ← observe (fun d => d.clientLockTblCnt)
    whenever (¬ lockCnt ≤ idx)
      <| atomic
        (fun d => d.onQueue client.clientId (hwFenceRxQueue-1) fun q =>
          {q with writeIndex := q.readIndex})
        (fun _ => [.lockClient idx,.unlockClient idx]) (fun _ => ())

def cleanupFences (client : HwFenceClient) (flags : ResetFlags) : List (Fin m) → Driver m Unit
  | [] => pure ()
  | i::rest => do
    let _ ← hwFenceUtilsCleanupFence client i i.val flags
    cleanupFences client flags rest

def msmHwFenceResetClient (client : HwFenceClient) (flags : ResetFlags) : Driver m Status := do
  let vmReady ← observe (fun d => d.vmReady)
  if ¬ vmReady then pure (.error .eagain)
  else
    cleanupFences client flags (List.finRange m)
    hwFenceUtilsResetQueues client
    pure (.ok ())

def msmHwFenceUpdateTxq (client : Option HwFenceClient) (handle : Nat) (flags : U64) (error : U32) :
    Driver m Status := do
  let ready ← observe (fun d => d.resourcesReady && d.vmReady)
  if ¬ ready then pure (.error .eagain)
  else
    match client,getHwFence m handle with
    | some client,some i => do
      let context ← observe (fun d => (d.tbl i).ctxId)
      let seqno ← observe (fun d => (d.tbl i).seqId)
      -- the result of the queue update is dropped
      let _ ← hwFenceUpdateQueue client context seqno (BitVec.ofNat 64 handle) flags 0 error
        (hwFenceTxQueue-1)
      pure (.ok ())
    | _,_ => pure (.error .einval)

end Model

section Signalling
variable {m : Nat}

def QueueOnly (d d' : DriverData m) : Prop := d' = {d with queue := d'.queue}

theorem QueueOnly.refl (d : DriverData m) : QueueOnly d d := rfl

theorem QueueOnly.trans {a b c : DriverData m} (ab : QueueOnly a b) (bc : QueueOnly b c) :
    QueueOnly a c := by
  unfold QueueOnly at *
  rw [bc,ab]

def Quiet (upd : DriverData m → DriverData m) (ev : DriverData m → List Event) : Prop :=
  (∀ d, QueueOnly d (upd d)) ∧ ∀ d, ∀ e ∈ ev d, signals [e] = [] ∧ e.onTable = false

theorem quietObserve {α : Type} (read : DriverData m → α) :
    (observe read : Driver m α).Each Quiet :=
  eachAtomic ⟨QueueOnly.refl,by simp⟩

def delivers : Event → Bool
  | .lockClient _ | .unlockClient _ | .queueWord .. | .ipc .. | .valSignal _ => true
  | _ => false

def Delivery (upd : DriverData m → DriverData m) (ev : DriverData m → List Event) : Prop :=
  (∀ d, QueueOnly d (upd d)) ∧ ∀ d, ∀ e ∈ ev d, delivers e = true

theorem Delivery.quiet {upd : DriverData m → DriverData m} {ev : DriverData m → List Event}
    (delivery : Delivery upd ev) : Quiet upd ev := by
  refine ⟨delivery.1,fun d e mem => ?_⟩
  have sent := delivery.2 d e mem
  cases e <;> first | exact ⟨rfl,rfl⟩ | cases sent

theorem deliverObserve {α : Type} (read : DriverData m → α) :
    (observe read : Driver m α).Each Delivery :=
  eachAtomic ⟨QueueOnly.refl,by simp⟩

theorem deliverUpdate (client : HwFenceClient) (ctxtId seqno hash flags clientData : U64) (error : U32)
    (queueType : Nat) : (hwFenceUpdateQueue (m := m) client ctxtId seqno hash flags clientData error
      queueType).Each Delivery := by
  unfold hwFenceUpdateQueue
  refine eachBind (deliverObserve _) fun queuesNum => ?_
  refine eachIte (fun _ => eachPure _) fun _ => ?_
  refine eachIte (fun _ => eachPure _) fun _ => ?_
  refine eachBind (deliverObserve _) fun lockCnt => ?_
  refine eachIte (fun _ => eachPure _) fun _ => ?_
  refine eachAtomic ⟨fun d => rfl,?_⟩
  intro d e mem
  split at mem
  · simp only [List.mem_append,List.mem_singleton,List.mem_map] at mem
    rcases mem with (rfl | ⟨word,-,rfl⟩) | rfl <;> rfl
  · obtain ⟨word,-,rfl⟩ := List.mem_map.mp mem
    rfl

def rings : Event → Bool
  | .ipc .. | .valSignal _ => true
  | _ => false

theorem deliverSections {P : (DriverData m → DriverData m) → (DriverData m → List Event) → Prop}
    (client : HwFenceClient) (looks : ∀ ev, (∀ d, ∀ e ∈ ev d, rings e = true) → P id ev)
    (update : ∀ ctxtId seqno hash flags clientData error queueType,
      (hwFenceUpdateQueue client ctxtId seqno hash flags clientData error queueType).Each P)
    (context seqno : U64) (hash : Nat) (flags clientData : U64) (error : U32) :
    (deliverSignal client context seqno hash flags clientData error).Each P := by
  unfold deliverSignal hwFenceIpccTriggerSignal processValidationClientLoopback
  refine eachBind (eachWhenever fun _ => eachBind (update ..) fun _ => eachPure _) fun _ => ?_
  refine eachBind (eachWhenever fun _ => eachAtomic (looks _ (by simp [rings]))) fun _ => ?_
  refine eachWhenever fun _ => eachIte (fun _ => eachPure _) fun _ => eachAtomic (looks _ fun d e mem => ?_)
  split at mem
  · cases List.mem_singleton.mp mem
    rfl
  · cases mem

def Silent (_upd : DriverData m → DriverData m) (ev : DriverData m → List Event) : Prop :=
  ∀ d, ∀ e ∈ ev d, signals [e] = []

theorem silentEvents {α : Type} {p : Driver m α} (silent : p.Each Silent) (d : DriverData m) :
    signals (p.events d) = [] := by
  have each := eachEvents silent (E := fun e => signals [e] = []) (fun _ _ h => h) d
  simp only [signals,List.filterMap_eq_nil_iff]
  intro e mem
  simpa [signals] using each e mem

theorem quietRun {α : Type} {p : Driver m α} (quiet : p.Each Quiet) (d : DriverData m) :
    QueueOnly d (p.run d).2 ∧ signals (p.events d) = [] :=
  ⟨eachRun quiet (fun _ _ h => h.1) QueueOnly.refl (fun _ _ _ => QueueOnly.trans) d,
    silentEvents (eachMono (fun _ _ h d e mem => (h.2 d e mem).1) quiet) d⟩

theorem silentLookup (op : LookupOp) (context seqno : U64) (clientId : Nat) (pending : U32) :
    (hwFenceLookupAndProcess (m := m) op context seqno clientId pending).Each Silent := by
  refine lookupEach fun i => eachAtomic fun d e mem => ?_
  split at mem
  · cases op <;> simp only [LookupOp.event,List.mem_cons,List.not_mem_nil,or_false] at mem <;>
      rcases mem with rfl | rfl | rfl <;> rfl
  all_goals
    simp only [List.mem_cons,List.not_mem_nil,or_false] at mem
    rcases mem with rfl | rfl <;> rfl

theorem silentDestroy (client : HwFenceClient) (context seqno : U64) :
    (hwFenceDestroy (m := m) client context seqno).Each Silent := by
  unfold hwFenceDestroy hwFenceCleanup
  refine eachBind (silentLookup _ _ _ _ _) fun ⟨fence,hash⟩ => ?_
  cases fence <;> trivial

theorem deliverEach (client : HwFenceClient) (context seqno : U64) (hash : Nat)
    (flags clientData : U64) (error : U32) :
    (deliverSignal (m := m) client context seqno hash flags clientData error).Each Delivery := by
  refine deliverSections client (fun ev ring => ⟨QueueOnly.refl,fun d e mem => ?_⟩) (deliverUpdate client)
    context seqno hash flags clientData error
  have rung := ring d e mem
  cases e <;> first | rfl | cases rung

theorem quietDeliver (client : HwFenceClient) (context seqno : U64) (hash : Nat)
    (flags clientData : U64) (error : U32) :
    (deliverSignal (m := m) client context seqno hash flags clientData error).Each Quiet :=
  eachMono (fun _ _ => Delivery.quiet) (deliverEach ..)

theorem signalRun (client : HwFenceClient) (i : Fin m) (hash : Nat) (flags clientData : U64)
    (error : U32) (d : DriverData m) :
    QueueOnly d ((fenceCtlSignal client i hash flags clientData error).run d).2 ∧
      signals ((fenceCtlSignal client i hash flags clientData error).events d) =
        [⟨client.clientId,(d.tbl i).ctxId,(d.tbl i).seqId,hash,flags,clientData,error⟩] := by
  have delivered := quietRun (quietDeliver client (d.tbl i).ctxId (d.tbl i).seqId hash flags
    clientData error) d
  unfold fenceCtlSignal emit
  simp only [runBind,eventsBind,runObserve,eventsObserve,runAtomic,eventsAtomic,List.nil_append,
    signalsAppend,id_eq,delivered.2]
  exact ⟨delivered.1,rfl⟩

end Signalling
end MmDrivers.FenceSignal

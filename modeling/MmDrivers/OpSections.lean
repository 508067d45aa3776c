import MmDrivers.DriverRuns

/-! Every operation of the driver is built from few kinds of sections. What each kind
keeps, the operations keep, whatever they read on their way. -/
namespace MmDrivers.OpSections
open Sections Sections.Prog FenceTypes FenceLookup FenceTable FenceSignal ClientQueue JoinFence DriverRuns

def plain : Event → Bool
  | .readFlags _ | .signal _ | .ipc .. | .valSignal _ | .setSignaledBit .. | .fencesAt _ => true
  | _ => false

section Structures
variable {m : Nat} (P : (DriverData m → DriverData m) → (DriverData m → List Event) → Prop)

structure SignalSections : Prop where
  looks : ∀ ev, (∀ d, ∀ e ∈ ev d, plain e = true) → P id ev
  update : ∀ client ctxtId seqno hash flags clientData error queueType,
    (hwFenceUpdateQueue client ctxtId seqno hash flags clientData error queueType).Each P

structure TableSections : Prop extends SignalSections P where
  probe : ∀ op context seqno clientId pending i,
    (probeSlot op context seqno clientId pending i).Each P
  wait : ∀ client clientData i, P
    (fun d => d.onSlot i (waitOn d.qtime (HwFenceClient.clientId client) clientData))
    fun _ => [.lock i,.waitBit i client.clientId,.unlock i]
  clear : ∀ client i, P (fun d => d.onSlot i (clearWaitBit (HwFenceClient.clientId client)))
    fun _ => [.lock i,.unlock i]
  resetQueues : ∀ client, (hwFenceUtilsResetQueues client).Each P

end Structures

section Signals
variable {m : Nat} {P : (DriverData m → DriverData m) → (DriverData m → List Event) → Prop}
  (sections : SignalSections P)
include sections

theorem SignalSections.observe {α : Type} (read : DriverData m → α) :
    (observe read : Driver m α).Each P := eachAtomic (sections.looks _ (by simp))

theorem SignalSections.emits {ev : DriverData m → List Event}
    (looks : ∀ d, ∀ e ∈ ev d, plain e = true) : (emit ev).Each P :=
  eachAtomic (sections.looks _ looks)

theorem SignalSections.deliver (client : HwFenceClient) (context seqno : U64) (hash : Nat)
    (flags clientData : U64) (error : U32) :
    (deliverSignal client context seqno hash flags clientData error).Each P := by
  refine deliverSections client (fun ev ring => sections.looks ev fun d e mem => ?_) (sections.update client)
    context seqno hash flags clientData error
  have rung := ring d e mem
  cases e <;> first | rfl | cases rung

theorem SignalSections.signal (client : HwFenceClient) (fence : Fin m) (hash : Nat)
    (flags clientData : U64) (error : U32) :
    (fenceCtlSignal client fence hash flags clientData error).Each P := by
  unfold fenceCtlSignal
  exact eachBind (sections.observe _) fun context => eachBind (sections.observe _) fun seqno =>
    eachBind (sections.emits (by simp [plain])) fun _ => sections.deliver ..

theorem SignalSections.signaled (fence : Option DmaFence) (client : HwFenceClient) (clientData : U64)
    (i : Fin m) (hash : Nat) : (do
      let signaled ← atomic id (fun _ => [.readFlags i]) (fun d => (d.tbl i).signaled)
      whenever signaled do
        emit fun _ => (fence.map fun f => .setSignaledBit f.context f.seqno).toList
        fenceCtlSignal client i hash 0 clientData 0
      pure (.ok (),some hash) : Driver m (Status × Option Nat)).Each P := by
  refine eachBind (eachAtomic (sections.looks _ (by simp [plain]))) fun signaled =>
    eachBind (eachWhenever fun _ => ?_) fun _ => trivial
  refine eachBind (sections.emits fun d e mem => ?_) fun _ => sections.signal ..
  cases fence with
  | none => cases mem
  | some f =>
    cases List.mem_singleton.mp mem
    rfl

theorem SignalSections.signalAll (fence : Fin m) (hash : Nat) (error : U32) :
    (signalAllWaitClients fence hash error).Each P := by
  have turns : ∀ left id data, (signalWaitClients fence hash error left id data).Each P := by
    intro left
    induction left with
    | zero => exact fun _ _ => trivial
    | succ left ih =>
      intro id data
      unfold signalWaitClients
      refine eachBind (sections.observe _) fun waits => eachIte (fun _ => ?_) fun _ => ih _ _
      refine eachBind (sections.observe _) fun client => ?_
      cases client with
      | none =>
        cases hwFenceGetClientDataId id with
        | none => exact ih _ _
        | some k => exact eachBind (sections.observe _) fun data => ih _ _
      | some c =>
        have told : ∀ data, (fenceCtlSignal c fence hash 0 data error >>= fun _ =>
            signalWaitClients fence hash error left (id+1) data).Each P :=
          fun data => eachBind (sections.signal ..) fun _ => ih _ _
        cases hwFenceGetClientDataId id with
        | none => exact told data
        | some k => exact eachBind (sections.observe _) told
  unfold signalAllWaitClients
  exact eachBind (sections.observe _) fun _ => turns _ _ _

end Signals

section Table
variable {m : Nat} {P : (DriverData m → DriverData m) → (DriverData m → List Event) → Prop}
  (sections : TableSections P)
include sections

theorem TableSections.lookup (op : LookupOp) (context seqno : U64) (clientId : Nat) (pending : U32) :
    (hwFenceLookupAndProcess op context seqno clientId pending).Each P :=
  lookupEach fun _ => sections.probe ..

theorem TableSections.create (client : HwFenceClient) (context seqno : U64) :
    (hwFenceCreate client context seqno).Each P := by
  unfold hwFenceCreate
  refine eachBind (sections.lookup ..) fun found => ?_
  obtain ⟨fence,hash⟩ := found
  cases fence <;> trivial

theorem TableSections.cleanup (clientId : Nat) (context seqno : U64) :
    (hwFenceCleanup clientId context seqno).Each P := by
  unfold hwFenceCleanup
  refine eachBind (sections.lookup ..) fun found => ?_
  obtain ⟨fence,hash⟩ := found
  cases fence <;> trivial

theorem TableSections.destroyWithHash (client : HwFenceClient) (hash : Nat) :
    (hwFenceDestroyWithHash client hash).Each P := by
  unfold hwFenceDestroyWithHash
  cases getHwFence m hash with
  | none => trivial
  | some i =>
    refine eachBind (sections.observe _) fun allocator => eachIte (fun _ => trivial) fun _ => ?_
    exact eachBind (sections.observe _) fun _ => eachBind (sections.observe _) fun _ =>
      sections.cleanup ..

theorem TableSections.registerWait (fence : Option DmaFence) (client : HwFenceClient)
    (context seqno clientData : U64) :
    (hwFenceRegisterWaitClient fence client context seqno clientData).Each P := by
  unfold hwFenceRegisterWaitClient
  refine eachIte (fun _ => trivial) fun _ => eachBind (sections.lookup ..) fun found => ?_
  obtain ⟨slot,hash⟩ := found
  cases slot with
  | none => trivial
  | some i =>
    exact eachBind (eachAtomic (sections.wait ..)) fun _ => sections.signaled ..

theorem TableSections.processFence (client : HwFenceClient) (fence : DmaFence) (clientData : U64) :
    (hwFenceProcessFence client fence clientData).Each P :=
  eachIte (fun _ => trivial) fun _ => sections.registerWait ..

theorem TableSections.cleanupFence (client : HwFenceClient) (fence : Fin m) (hash : Nat)
    (flags : ResetFlags) : (hwFenceUtilsCleanupFence client fence hash flags).Each P := by
  unfold hwFenceUtilsCleanupFence
  refine eachBind (eachAtomic (sections.clear ..)) fun _ => eachBind (sections.observe _) fun allocator => ?_
  refine eachIte (fun _ => eachBind (sections.observe _) fun signaled => ?_) fun _ => trivial
  refine eachBind (eachWhenever fun _ => sections.signalAll ..) fun _ => eachIte (fun _ => trivial) fun _ => ?_
  exact eachBind (sections.observe _) fun context => eachBind (sections.observe _) fun seqno =>
    sections.cleanup ..

theorem TableSections.resetClient (client : HwFenceClient) (flags : ResetFlags) :
    (msmHwFenceResetClient client flags).Each P := by
  have slots : ∀ slots : List (Fin m), (cleanupFences client flags slots).Each P := by
    intro slots
    induction slots with
    | nil => trivial
    | cons i rest ih => exact eachBind (sections.cleanupFence ..) fun _ => ih
  unfold msmHwFenceResetClient
  refine eachBind (sections.observe _) fun ready => eachIte (fun _ => trivial) fun _ => ?_
  exact eachBind (slots _) fun _ => eachBind (sections.resetQueues _) fun _ => trivial

theorem TableSections.call
    (arrays : ∀ client array clientData, (hwFenceProcessFenceArray client array clientData).Each P)
    (op : DriverOp) : op.call.Each P := by
  have status : ∀ {α : Type} {p : Driver m (Status × α)}, p.Each P → (Prod.fst <$> p).Each P := by
    intro α p each
    exact eachBind each fun _ => trivial
  cases op with
  | create client context seqno => exact status (sections.create ..)
  | destroy client context seqno => exact sections.cleanup ..
  | destroyWithHash client hash => exact sections.destroyWithHash ..
  | registerWait fence client context seqno clientData => exact status (sections.registerWait ..)
  | processFence client fence clientData => exact status (sections.processFence ..)
  | processFenceArray client array clientData => exact status (arrays ..)
  | resetClient client flags => exact sections.resetClient ..

end Table
end MmDrivers.OpSections

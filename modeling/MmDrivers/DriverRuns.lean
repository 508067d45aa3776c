import MmDrivers.JoinRun
import MmDrivers.ResetRun

/-! The operations of the driver, run one after another, and what each does to the table. -/
namespace MmDrivers.DriverRuns
open Sections Sections.Prog FenceTypes FenceLookup FenceTable FenceSignal JoinFence JoinRun ResetRun
open Probe Runs

inductive DriverOp where
  | create (client : HwFenceClient) (context seqno : U64)
  | destroy (client : HwFenceClient) (context seqno : U64)
  | destroyWithHash (client : HwFenceClient) (hash : Nat)
  | registerWait (fence : Option DmaFence) (client : HwFenceClient) (context seqno clientData : U64)
  | processFence (client : HwFenceClient) (fence : DmaFence) (clientData : U64)
  | processFenceArray (client : HwFenceClient) (array : DmaFenceArray) (clientData : U64)
  | resetClient (client : HwFenceClient) (flags : ResetFlags)

namespace DriverOp
variable {m : Nat}

def call : DriverOp → Driver m Status
  | .create client context seqno => Prod.fst <$> hwFenceCreate client context seqno
  | .destroy client context seqno => hwFenceDestroy client context seqno
  | .destroyWithHash client hash => hwFenceDestroyWithHash client hash
  | .registerWait fence client context seqno clientData =>
    Prod.fst <$> hwFenceRegisterWaitClient fence client context seqno clientData
  | .processFence client fence clientData => Prod.fst <$> hwFenceProcessFence client fence clientData
  | .processFenceArray client array clientData =>
    Prod.fst <$> hwFenceProcessFenceArray client array clientData
  | .resetClient client flags => msmHwFenceResetClient client flags

def createsKey : DriverOp → Option Key
  | .create _ context seqno => some (context,seqno)
  | .processFenceArray _ array _ => some (arrayKey array)
  | _ => none

def keys : DriverOp → List Key
  | .create _ context seqno | .destroy _ context seqno => [(context,seqno)]
  | .registerWait _ _ context seqno _ => [(context,seqno)]
  | .processFence _ fence _ => [waitsFor fence]
  | .processFenceArray _ array _ => arrayKey array :: array.children.map waitsFor
  | .destroyWithHash _ _ | .resetClient _ _ => []

def frees (d : DriverData m) : DriverOp → Fin m → Prop
  | .destroy _ context seqno,i => d.live (context,seqno) i
  | .destroyWithHash client hash,i => i.val = hash ∧ (d.tbl i).fenceAllocator = client.clientId
  | .resetClient client flags,i =>
    d.vmReady ∧ ¬ flags.withoutDestroy ∧ (d.tbl i).fenceAllocator = client.clientId
  | _,_ => False

end DriverOp

structure DriverCall where
  op : DriverOp
  qtime : U64

def DriverCall.step {m : Nat} (d : DriverData m) (c : DriverCall) : DriverData m :=
  (c.op.call.run {d with qtime := c.qtime}).2

/-- Keys have a context, and no create can give a live key a second slot. -/
structure Allowed {m : Nat} (d : DriverData m) (c : DriverCall) : Prop where
  contexts : ∀ key ∈ c.op.keys, key.1 ≠ 0
  noHole : ∀ key ∈ c.op.createsKey, ∀ i, d.live key i →
    ∀ j ∈ before (firstHash m key) i, (d.tbl j).valid = true

theorem contextsOf {keys : List Key} (named : keys.all fun key => key.1 != 0) :
    ∀ key ∈ keys, key.1 ≠ 0 := fun key mem => by
  simpa using List.all_eq_true.mp named key mem

section Effects
variable {m : Nat} {d : DriverData m} {c : DriverCall}

inductive StepEffect (d : DriverData m) : DriverOp → (Fin m → HwFence) → Prop where
  | same {op} : StepEffect d op d.tbl
  | created {client context seqno i} (qtime : U64) (free : (d.tbl i).valid = false)
      (fresh : ∀ j, ¬ d.live (context,seqno) j) (named : context ≠ 0) :
      StepEffect d (.create client context seqno) (Function.update d.tbl i
        (reserveHwFence qtime client.clientId context seqno 0 (d.tbl i)))
  | freed {op i} (frees : op.frees d i) (used : (d.tbl i).valid = true) :
      StepEffect d op (Function.update d.tbl i (unreserveHwFence (d.tbl i)))
  | waited {op i} (qtime : U64) (clientId : Nat) (clientData : U64) (used : (d.tbl i).valid = true) :
      StepEffect d op (Function.update d.tbl i (waitOn qtime clientId clientData (d.tbl i)))
  | array {client array clientData status d'} (qtime : U64)
      (fresh : ∀ j, ¬ d.live (arrayKey array) j) (named : array.context ≠ 0)
      (ends : ArrayEnds client array clientData {d with qtime := qtime} status d') :
      StepEffect d (.processFenceArray client array clientData) d'.tbl
  | reset {client flags} (ready : d.vmReady = true) :
      StepEffect d (.resetClient client flags) fun i => resetSlot client flags (d.tbl i)

theorem createEffect (client : HwFenceClient) (context seqno : U64) (named : context ≠ 0)
    (noHole : ∀ i, d.live (context,seqno) i →
      ∀ j ∈ before (firstHash m (context,seqno)) i, (d.tbl j).valid = true) :
    StepEffect d (.create client context seqno) ((hwFenceCreate client context seqno).run d).2.tbl := by
  have creates : LookupOp.create.creates = true := rfl
  rw [createRun]
  by_cases held : ∃ i, d.live (context,seqno) i
  · obtain ⟨i,held⟩ := held
    obtain ⟨hash,ran⟩ := createHeld client.clientId 0 creates held (noHole i held)
    rw [ran]
    exact .same
  · have fresh : ∀ i, ¬ d.live (context,seqno) i := fun i live => held ⟨i,live⟩
    rcases createFresh client.clientId 0 creates fresh with ⟨i,free,ran⟩ | ⟨-,hash,ran⟩
    · rw [ran]
      exact .created d.qtime free.free fresh named
    · rw [ran]
      exact .same

theorem destroyEffect (client : HwFenceClient) (settled : Settled d) {op : DriverOp}
    {context seqno : U64} (named : context ≠ 0)
    (frees : ∀ i, d.live (context,seqno) i → op.frees d i) :
    StepEffect d op ((hwFenceDestroy client context seqno).run d).2.tbl := by
  unfold hwFenceDestroy
  by_cases held : ∃ i, d.live (context,seqno) i
  · obtain ⟨i,held⟩ := held
    rw [cleanupLive client.clientId settled.tidy named held]
    exact .freed (frees i held) held.1
  · rw [cleanupDead client.clientId settled.tidy named fun i live => held ⟨i,live⟩]
    exact .same

theorem destroyWithHashEffect (client : HwFenceClient) (hash : Nat) (settled : Settled d) :
    StepEffect d (.destroyWithHash client hash)
      ((hwFenceDestroyWithHash client hash).run d).2.tbl := by
  unfold hwFenceDestroyWithHash getHwFence
  split
  · exact .same
  · rename_i i found
    split at found <;> try contradiction
    cases Option.some.inj found
    by_cases own : (d.tbl ⟨hash,by assumption⟩).fenceAllocator = client.clientId
    · have used := ownUsed settled own
      have destroyed := cleanupLive client.clientId settled.tidy (settled.context _ used) ⟨used,rfl⟩
      simp only [HwFence.key] at destroyed
      simp only [runBind,runObserve,own,ne_eq,not_true_eq_false,if_false,destroyed]
      exact .freed ⟨rfl,own⟩ used
    · simp only [runBind,runObserve,own,ne_eq,not_false_eq_true,if_true]
      exact .same

theorem waitEffect (fence : Option DmaFence) (client : HwFenceClient) (context seqno clientData : U64)
    (named : context ≠ 0) (settled : Settled d) (op : DriverOp) : StepEffect d op
      ((hwFenceRegisterWaitClient fence client context seqno clientData).run d).2.tbl := by
  unfold hwFenceRegisterWaitClient
  split
  · exact .same
  · obtain ⟨slot,hash,found,held⟩ := findTidy (some client) (context,seqno) settled.tidy named
    simp only [runBind,found]
    cases slot with
    | none => exact .same
    | some i =>
      have live := (held i).mp rfl
      have waited : StepEffect d op _ := .waited d.qtime client.clientId clientData live.1
      have told : ∀ signaled : Bool, QueueOnly (d.onSlot i (waitOn d.qtime client.clientId clientData))
          ((whenever signaled do
            emit fun _ => (fence.map fun f => .setSignaledBit f.context f.seqno).toList
            fenceCtlSignal client i hash 0 clientData 0).run
              (d.onSlot i (waitOn d.qtime client.clientId clientData))).2 := by
        intro signaled
        cases signaled with
        | false => exact .refl _
        | true => simpa [whenever,emit] using (signalRun client i hash 0#64 clientData 0#32 _).1
      have kept : ∀ p : Driver m Unit, QueueOnly (d.onSlot i (waitOn d.qtime client.clientId clientData))
          (p.run (d.onSlot i (waitOn d.qtime client.clientId clientData))).2 →
          StepEffect d op (p.run (d.onSlot i (waitOn d.qtime client.clientId clientData))).2.tbl := by
        intro p quiet
        rw [quiet]
        exact waited
      simp only [runBind,runAtomic,id_eq]
      exact kept _ (told ((d.onSlot i (waitOn d.qtime client.clientId clientData)).tbl i).signaled)

theorem arrayEffect (client : HwFenceClient) (array : DmaFenceArray) (clientData : U64)
    (settled : Settled d) (named : array.context ≠ 0)
    (contexts : ∀ child ∈ array.children, child.context ≠ 0)
    (noHole : ∀ i, d.live (arrayKey array) i →
      ∀ j ∈ before (firstHash m (arrayKey array)) i, (d.tbl j).valid = true) :
    StepEffect d (.processFenceArray client array clientData)
      ((hwFenceProcessFenceArray client array clientData).run d).2.tbl := by
  by_cases held : ∃ i, d.live (arrayKey array) i
  · obtain ⟨i,held⟩ := held
    rw [(arrayHeld client clientData held (noHole i held)).2]
    exact .same
  · have fresh : ∀ i, ¬ d.live (arrayKey array) i := fun i live => held ⟨i,live⟩
    exact .array d.qtime fresh named (arrayRun client clientData settled.tidy fresh named contexts)

theorem stepEffect (settled : Settled d) (allowed : Allowed d c) :
    StepEffect d c.op (c.step d).tbl := by
  obtain ⟨op,qtime⟩ := c
  obtain ⟨contexts,noHole⟩ := allowed
  have settled' : Settled {d with qtime := qtime} := settled.sameTable rfl
  have moved : ∀ {tbl}, StepEffect {d with qtime := qtime} op tbl → StepEffect d op tbl := by
    intro tbl effect
    cases effect with
    | same => exact .same
    | created qtime free fresh named => exact .created qtime free fresh named
    | freed frees used => exact .freed frees used
    | waited qtime clientId clientData used => exact .waited qtime clientId clientData used
    | array qtime fresh named ends => exact .array qtime fresh named ends
    | reset ready => exact .reset ready
  apply moved
  simp only [DriverCall.step]
  cases op with
  | create client context seqno =>
    simpa [DriverOp.call] using createEffect (d := {d with qtime := qtime}) client context seqno
      (contexts (context,seqno) (by simp [DriverOp.keys])) (noHole (context,seqno) rfl)
  | destroy client context seqno =>
    exact destroyEffect client settled' (contexts (context,seqno) (by simp [DriverOp.keys]))
      fun i live => live
  | destroyWithHash client hash => exact destroyWithHashEffect client hash settled'
  | registerWait fence client context seqno clientData =>
    simpa [DriverOp.call] using waitEffect fence client context seqno clientData
      (contexts (context,seqno) (by simp [DriverOp.keys])) settled'
      (.registerWait fence client context seqno clientData)
  | processFence client fence clientData =>
    simp only [DriverOp.call,hwFenceProcessFence]
    split
    · exact .same
    · simpa using waitEffect (some fence) client fence.context fence.seqno clientData
        (contexts (waitsFor fence) (by simp [DriverOp.keys])) settled'
        (.processFence client fence clientData)
  | processFenceArray client array clientData =>
    have named : array.context ≠ 0 := contexts (arrayKey array) (by simp [DriverOp.keys])
    have children : ∀ child ∈ array.children, child.context ≠ 0 := fun child mem =>
      contexts (waitsFor child) (by simp only [DriverOp.keys]; exact .tail _ (List.mem_map_of_mem mem))
    simpa [DriverOp.call] using arrayEffect client array clientData settled' named children
      (noHole (arrayKey array) rfl)
  | resetClient client flags =>
    by_cases ready : d.vmReady = true
    · have each := (resetRun client flags settled' ready).2.1
      have effect : StepEffect {d with qtime := qtime} (.resetClient client flags)
        fun i => resetSlot client flags (d.tbl i) := .reset ready
      simp only [DriverOp.call]
      rwa [funext each]
    · simp only [DriverOp.call,msmHwFenceResetClient,runBind,runObserve,ready]
      exact .same

end Effects

section Runs
variable {m : Nat} {d : DriverData m} {c : DriverCall}

theorem linkingSettled {join : Fin m} {d₀ : DriverData m} (settled : Settled d₀)
    (linking : Linking join d₀ d) : Settled d := by
  refine settled.keep (fun i used => ?_) (fun i free => ?_)
  · exact (linking.live _ i).mp ⟨used,rfl⟩
  · have relinked := linking.slots i
    have blank := settled.blank i (relinked.valid ▸ free)
    unfold Blank Relinked at *
    rw [relinked,blank]

theorem storedSettled {join : Fin m} {client : HwFenceClient} {clientData : U64}
    (settled : Settled d) (used : (d.tbl join).valid = true) :
    Settled (d.onSlot join (storeClientData client clientData)) := by
  refine settled.keep (fun i held => ?_) (fun i free => ?_)
  · exact storedLive.mp ⟨held,rfl⟩
  · have ij : i ≠ join := by
      intro same
      subst same
      rw [DriverData.onSlotSame,storeKeeps,used] at free
      cases free
    rw [DriverData.onSlotOther d _ ij] at free ⊢
    exact settled.blank i free

theorem joinedSettled {client : HwFenceClient} {array : DmaFenceArray} {data : U64} {join : Fin m}
    (settled : Settled d) (free : (d.tbl join).valid = false)
    (fresh : ∀ i, ¬ d.live (arrayKey array) i) (named : array.context ≠ 0) :
    Settled (joined client array data join d) := by
  have live := joinedLive client array data join d
  have context : ((joined client array data join d).tbl join).ctxId ≠ 0 := by
    rwa [show ((joined client array data join d).tbl join).ctxId = array.context from
      congrArg Prod.fst live.2]
  exact settled.reserve free (live.2 ▸ fresh) live.1 context joinedTbl

theorem arraySettled {client : HwFenceClient} {array : DmaFenceArray} {clientData : U64}
    {status : Status} {d' : DriverData m} (settled : Settled d)
    (fresh : ∀ i, ¬ d.live (arrayKey array) i) (named : array.context ≠ 0)
    (ends : ArrayEnds client array clientData d status d') : Settled d' := by
  cases ends with
  | rejected => exact settled
  | rolledBack free undone =>
    exact (linkingSettled (joinedSettled settled free.free fresh named) undone.linking).unreserve rfl
  | waiting free progress =>
    have linked := linkingSettled (joinedSettled settled free.free fresh named) progress.linking
    exact storedSettled linked ((progress.linking.live _ _).mpr (joinedLive ..)).1
  | @completed join cs d' free progress =>
    have linked := linkingSettled (joinedSettled settled free.free fresh named) progress.linking
    have stored : Settled (d'.onSlot join (storeClientData client clientData)) :=
      storedSettled linked ((progress.linking.live _ _).mpr (joinedLive ..)).1
    exact (stored.sameTable (signaledTbl d')).unreserve rfl

theorem settledStep (settled : Settled d) (allowed : Allowed d c) : Settled (c.step d) := by
  have effect := stepEffect settled allowed
  generalize same : (c.step d).tbl = tbl at effect
  generalize c.op = op at effect
  cases effect with
  | same => exact settled.sameTable same
  | @created client context seqno i qtime free fresh named =>
    exact settled.reserve (f := reserveHwFence qtime client.clientId context seqno 0 (d.tbl i))
      free fresh rfl named same
  | freed frees used => exact settled.unreserve same
  | @waited _ i qtime clientId clientData used =>
    refine settled.keep (fun j held => ?_) (fun j free => ?_)
    · by_cases ji : j = i
      · subst ji
        exact ⟨used,by rw [same,Function.update_self]; rfl⟩
      · rw [same,Function.update_of_ne ji] at held ⊢
        exact ⟨held,rfl⟩
    · by_cases ji : j = i
      · subst ji
        rw [same,Function.update_self] at free
        exact absurd (used.symm.trans free) (by simp)
      · rw [same,Function.update_of_ne ji] at free ⊢
        exact settled.blank j free
  | array qtime fresh named ends =>
    have timed : Settled {d with qtime := qtime} := settled.sameTable rfl
    exact (arraySettled timed fresh named ends).sameTable same
  | @reset client flags ready => exact resetSettled client flags settled fun i => .inr (congrFun same i)

end Runs
end MmDrivers.DriverRuns

import MmDrivers.FenceSignal

/-! What the reset of a client does when nobody else moves. -/
namespace MmDrivers.ResetRun
open Sections Sections.Prog FenceTypes FenceLookup FenceTable FenceSignal

section Signals
variable {m : Nat} {d : DriverData m} {fence : Fin m}

/-- A signal without the client data, which the loop carries over from one client to the next. -/
def blind (s : Signal) : Signal := {s with clientData := 0}

def waiting (clients : Nat → Option HwFenceClient) (f : HwFence) (ids : List Nat) : List Nat :=
  ids.filter fun id => f.waitClientMask &&& bit id ≠ 0 ∧ (clients id).isSome

def told (f : HwFence) (hash : Nat) (error : U32) (id : Nat) : Signal :=
  ⟨id,f.ctxId,f.seqId,hash,0,0,error⟩

theorem waitingCons (clients : Nat → Option HwFenceClient) (f : HwFence) (id : Nat)
    (ids : List Nat) : waiting clients f (id::ids) =
      if f.waitClientMask &&& bit id ≠ 0 ∧ (clients id).isSome then id::waiting clients f ids
      else waiting clients f ids := by
  simp [waiting,List.filter_cons]

theorem signalWaitRun (hash : Nat) (error : U32) (left id : Nat) (data : U64) :
    let p := signalWaitClients fence hash error left id data
    QueueOnly d (p.run d).2 ∧ (signals (p.events d)).map blind =
      (waiting d.clients (d.tbl fence) (List.range' id left)).map (told (d.tbl fence) hash error) := by
  induction left generalizing d id data with
  | zero => exact ⟨.refl d,rfl⟩
  | succ left ih =>
    have later : ∀ d', QueueOnly d d' → ∀ data,
        let p := signalWaitClients fence hash error left (id+1) data
        QueueOnly d (p.run d').2 ∧ (signals (p.events d')).map blind =
          (waiting d.clients (d.tbl fence) (List.range' (id+1) left)).map (told (d.tbl fence) hash error) := by
      intro d' same data
      obtain ⟨only,list⟩ := ih (d := d') (id+1) data
      refine ⟨same.trans only,?_⟩
      rw [list,same]
    -- a registered client that waits is signalled before the loop goes on
    have signaled : ∀ c, d.clients id = some c → ∀ data,
        let p := fenceCtlSignal c fence hash 0#64 data error >>= fun _ =>
          signalWaitClients fence hash error left (id+1) data
        QueueOnly d (p.run d).2 ∧ (signals (p.events d)).map blind =
          told (d.tbl fence) hash error id ::
            (waiting d.clients (d.tbl fence) (List.range' (id+1) left)).map (told (d.tbl fence) hash error) := by
      intro c registered data
      obtain ⟨only,list⟩ := signalRun c fence hash 0#64 data error d
      obtain ⟨rest,tail⟩ := later _ only data
      refine ⟨by simpa using rest,?_⟩
      simp [list,tail,blind,told,d.ownId id c registered]
    rw [List.range'_succ,waitingCons]
    by_cases waits : (d.tbl fence).waitClientMask &&& bit id = 0#64
    · simpa [signalWaitClients,waits] using later d (.refl d) data
    · cases registered : d.clients id with
      | none =>
        cases own : hwFenceGetClientDataId id with
        | none => simpa [signalWaitClients,waits,registered,own] using later d (.refl d) data
        | some k => simpa [signalWaitClients,waits,registered,own] using later d (.refl d) _
      | some c =>
        cases own : hwFenceGetClientDataId id with
        | none => simpa [signalWaitClients,waits,registered,own] using signaled c registered data
        | some k => simpa [signalWaitClients,waits,registered,own] using signaled c registered _

end Signals

section Slot
variable {m : Nat} {d : DriverData m} {i : Fin m} {client : HwFenceClient} {flags : ResetFlags}

def resetSlot (client : HwFenceClient) (flags : ResetFlags) (f : HwFence) : HwFence :=
  if f.fenceAllocator = client.clientId ∧ ¬ flags.withoutDestroy then unreserveHwFence f
  else clearWaitBit client.clientId f

def resetSignals (client : HwFenceClient) (flags : ResetFlags) (d : DriverData m) (i : Fin m) :
    List Signal :=
  let f := clearWaitBit client.clientId (d.tbl i)
  if f.fenceAllocator = client.clientId ∧ ¬ f.signaled then
    (waiting d.clients f (List.range' 0 (d.rxqClientsNum+1))).map (told f i.val flags.error)
  else []

def TableOrQueue (d d' : DriverData m) : Prop := d' = {d with tbl := d'.tbl, queue := d'.queue}

theorem TableOrQueue.trans {a b c : DriverData m} (ab : TableOrQueue a b) (bc : TableOrQueue b c) :
    TableOrQueue a c := by
  unfold TableOrQueue at *
  rw [bc,ab]

theorem clearWaitBitKeeps (clientId : Nat) (f : HwFence) : clearWaitBit clientId f =
    {f with waitClientMask := (clearWaitBit clientId f).waitClientMask} := by
  unfold clearWaitBit
  split <;> rfl

theorem ownUsed (settled : Settled d) (own : (d.tbl i).fenceAllocator = client.clientId) :
    (d.tbl i).valid = true := by
  by_contra unused
  have blank := settled.blank i (by simpa using unused)
  rw [blank] at own
  have known := client.known.1
  simp [HwFence.zeroed] at own
  omega

theorem clearedSettled (settled : Settled d) (clientId : Nat) :
    Settled (d.onSlot i (clearWaitBit clientId)) := by
  refine settled.keep (fun j used => ?_) (fun j free => ?_)
  · by_cases ji : j = i
    · subst ji
      rw [DriverData.onSlotSame,clearWaitBitKeeps] at used ⊢
      exact ⟨used,rfl⟩
    · rw [DriverData.onSlotOther d _ ji] at used ⊢
      exact ⟨used,rfl⟩
  · by_cases ji : j = i
    · subst ji
      rw [DriverData.onSlotSame,clearWaitBitKeeps] at free
      have blank := settled.blank j free
      have kept : clearWaitBit clientId (d.tbl j) = d.tbl j := by
        rw [blank]
        exact if_neg (by simp [HwFence.zeroed])
      rw [DriverData.onSlotSame,kept]
      exact blank
    · rw [DriverData.onSlotOther d _ ji] at free ⊢
      exact settled.blank j free

theorem signalAllRun (hash : Nat) (error : U32) :
    let p := signalAllWaitClients i hash error
    QueueOnly d (p.run d).2 ∧ (signals (p.events d)).map blind =
      (waiting d.clients (d.tbl i) (List.range' 0 (d.rxqClientsNum+1))).map
        (told (d.tbl i) hash error) := by
  simpa [signalAllWaitClients] using signalWaitRun (d := d) hash error
    (d.rxqClientsNum+1) 0 0

theorem destroyRun (client : HwFenceClient) (flags : ResetFlags) {d₁ : DriverData m}
    {p : Driver m Unit} (settled : Settled d₁)
    (used : (d₁.tbl i).valid = true) (quiet : QueueOnly d₁ (p.run d₁).2) :
    let q : Driver m Status := p >>= fun _ =>
      if flags.withoutDestroy then pure (.ok ())
      else do
        let context ← observe (fun d => (d.tbl i).ctxId)
        let seqno ← observe (fun d => (d.tbl i).seqId)
        hwFenceDestroy client context seqno
    TableOrQueue d₁ (q.run d₁).2 ∧
      (q.run d₁).2.tbl = (if flags.withoutDestroy then d₁.tbl
        else Function.update d₁.tbl i (unreserveHwFence (d₁.tbl i))) ∧
      signals (q.events d₁) = signals (p.events d₁) := by
  have tbl : (p.run d₁).2.tbl = d₁.tbl := by rw [quiet]
  have only : TableOrQueue d₁ (p.run d₁).2 := by
    unfold TableOrQueue QueueOnly at *
    rw [quiet]
  by_cases keep : flags.withoutDestroy = true
  · simp [keep,tbl,only]
  · have live : (p.run d₁).2.live (d₁.tbl i).key i := by
      rw [DriverData.live,tbl]
      exact ⟨used,rfl⟩
    have destroyed := cleanupLive client.clientId (settled.sameTable tbl).tidy
      (settled.context i used) live
    have silent := silentEvents (silentDestroy client (d₁.tbl i).ctxId (d₁.tbl i).seqId)
      (p.run d₁).2
    simp only [HwFence.key] at destroyed
    have ran : ((hwFenceDestroy client (d₁.tbl i).ctxId (d₁.tbl i).seqId).run (p.run d₁).2).2 =
        (p.run d₁).2.onSlot i unreserveHwFence := by
      rw [hwFenceDestroy,destroyed]
    simp only [keep,if_false,Bool.false_eq_true,runBind,eventsBind,runObserve,eventsObserve,
      List.nil_append,signalsAppend,tbl,silent,ran,List.append_nil]
    refine ⟨?_,by rw [DriverData.onSlotTbl,tbl],trivial⟩
    unfold TableOrQueue at *
    rw [only]
    rfl

theorem cleanupFenceRun (client : HwFenceClient) (flags : ResetFlags) (i : Fin m)
    (settled : Settled d) :
    let p := hwFenceUtilsCleanupFence client i i.val flags
    TableOrQueue d (p.run d).2 ∧
      (p.run d).2.tbl = Function.update d.tbl i (resetSlot client flags (d.tbl i)) ∧
      (signals (p.events d)).map blind = resetSignals client flags d i := by
  generalize cleared : d.onSlot i (clearWaitBit client.clientId) = d₁
  have slot : d₁.tbl i = clearWaitBit client.clientId (d.tbl i) := by
    rw [← cleared,DriverData.onSlotSame]
  have tbl : d₁.tbl = Function.update d.tbl i (clearWaitBit client.clientId (d.tbl i)) := by
    rw [← cleared,DriverData.onSlotTbl]
  have only : TableOrQueue d d₁ := by
    rw [← cleared]
    rfl
  have allocator : (d₁.tbl i).fenceAllocator = (d.tbl i).fenceAllocator := by
    rw [slot,clearWaitBitKeeps]
  have settled₁ : Settled d₁ := cleared ▸ clearedSettled settled client.clientId
  simp only [hwFenceUtilsCleanupFence,runBind _ _ d,eventsBind _ _ d,runAtomic,eventsAtomic,cleared,
    signalsAppend,List.map_append,runBind (observe fun d : DriverData m => (d.tbl i).fenceAllocator),
    eventsBind (observe fun d : DriverData m => (d.tbl i).fenceAllocator),runObserve,eventsObserve,
    allocator]
  by_cases own : (d.tbl i).fenceAllocator = client.clientId
  · have used := ownUsed settled₁ (allocator.trans own)
    have told : let p : Driver m Unit := (observe fun d => (d.tbl i).signaled) >>= fun signaled =>
          whenever (¬ signaled) (signalAllWaitClients i i.val flags.error)
        QueueOnly d₁ (p.run d₁).2 ∧
          (signals (p.events d₁)).map blind = resetSignals client flags d i := by
      unfold resetSignals
      rw [← slot]
      by_cases done : (d₁.tbl i).signaled = true
      · simpa [whenever,done] using QueueOnly.refl d₁
      · have told := signalAllRun (d := d₁) (i := i) i.val flags.error
        have clients : d.clients = d₁.clients := by rw [only]
        have bound : d.rxqClientsNum = d₁.rxqClientsNum := by rw [only]
        simpa [whenever,done,own,allocator,clients,bound] using told
    obtain ⟨only₁,tbl₁,list⟩ := destroyRun client flags settled₁ used told.1
    simp only [own,if_true]
    refine ⟨only.trans only₁,tbl₁.trans ?_,?_⟩
    · rw [tbl,resetSlot]
      by_cases keep : flags.withoutDestroy = true
      · simp [keep]
      · simp only [keep,own,Function.update_idem]
        rfl
    · rw [← told.2,← list]
      rfl
  · simp only [own,if_false]
    refine ⟨only,?_,?_⟩
    · rw [resetSlot,if_neg (fun h => own h.1)]
      exact tbl
    · rw [resetSignals]
      simp [← slot,allocator,own,signals]

end Slot

section Table
variable {m : Nat} {d : DriverData m} {client : HwFenceClient} {flags : ResetFlags}

theorem resetKey {f : HwFence} (used : (resetSlot client flags f).valid = true) :
    f.valid = true ∧ (resetSlot client flags f).key = f.key := by
  unfold resetSlot at *
  split at used
  · cases used
  · rename_i kept
    rw [if_neg kept]
    rw [clearWaitBitKeeps] at used ⊢
    exact ⟨used,rfl⟩

theorem resetBlank {f : HwFence} (blank : f.valid = false → Blank f)
    (free : (resetSlot client flags f).valid = false) : Blank (resetSlot client flags f) := by
  unfold resetSlot at *
  split at free
  · rename_i freed
    rw [if_pos freed]
    exact unreserveBlank f
  · rename_i kept
    rw [clearWaitBitKeeps] at free
    have cleaned := blank free
    rw [if_neg kept,cleaned]
    have none : HwFence.zeroed.waitClientMask &&& bit client.clientId = 0 := by
      simp [HwFence.zeroed]
    rw [clearWaitBit,if_neg (fun set => set none)]
    rfl

theorem resetSettled (client : HwFenceClient) (flags : ResetFlags) {d' : DriverData m}
    (settled : Settled d)
    (each : ∀ i, d'.tbl i = d.tbl i ∨ d'.tbl i = resetSlot client flags (d.tbl i)) : Settled d' := by
  refine settled.keep (fun i used => ?_) (fun i free => ?_)
  · rcases each i with same | reset
    · rw [same] at used ⊢
      exact ⟨used,rfl⟩
    · rw [reset] at used ⊢
      have kept := resetKey used
      exact ⟨kept.1,kept.2.symm⟩
  · rcases each i with same | reset
    · rw [same] at free ⊢
      exact settled.blank i free
    · rw [reset] at free ⊢
      exact resetBlank (settled.blank i) free

theorem cleanupFencesRun (client : HwFenceClient) (flags : ResetFlags) (settled : Settled d)
    (slots : List (Fin m)) (nodup : slots.Nodup) :
    let p := cleanupFences client flags slots
    TableOrQueue d (p.run d).2 ∧
      (∀ i, (p.run d).2.tbl i =
        if i ∈ slots then resetSlot client flags (d.tbl i) else d.tbl i) ∧
      (signals (p.events d)).map blind = slots.flatMap (resetSignals client flags d) := by
  induction slots generalizing d with
  | nil => exact ⟨rfl,by simp [cleanupFences],rfl⟩
  | cons k rest ih =>
    obtain ⟨fresh,nodup⟩ := List.nodup_cons.mp nodup
    obtain ⟨only,tbl,list⟩ := cleanupFenceRun client flags k settled
    have settled₁ : Settled ((hwFenceUtilsCleanupFence client k k.val flags).run d).2 := by
      refine resetSettled client flags settled fun i => ?_
      rw [tbl]
      by_cases ik : i = k
      · subst ik
        exact .inr (Function.update_self ..)
      · exact .inl (Function.update_of_ne ik ..)
    obtain ⟨later,each,told⟩ := ih settled₁ nodup
    have others : ∀ i ∈ rest,
        resetSignals client flags ((hwFenceUtilsCleanupFence client k k.val flags).run d).2 i =
          resetSignals client flags d i := by
      intro i mem
      have ik : i ≠ k := fun same => fresh (same ▸ mem)
      unfold resetSignals
      rw [tbl,only,Function.update_of_ne ik]
    simp only [cleanupFences,runBind,eventsBind,signalsAppend,List.map_append,List.flatMap_cons]
    refine ⟨only.trans later,fun i => ?_,?_⟩
    · rw [each,tbl]
      by_cases ik : i = k
      · subst ik
        simp [fresh]
      · simp [ik]
    · rw [list,told]
      congr 1
      exact List.flatMap_congr others

theorem quietResetQueues (client : HwFenceClient) :
    (hwFenceUtilsResetQueues (m := m) client).Each Quiet := by
  unfold hwFenceUtilsResetQueues
  refine eachBind (eachAtomic ⟨fun d => rfl,by simp⟩) fun _ => eachWhenever fun _ => ?_
  refine eachBind (quietObserve _) fun lockCnt => eachWhenever fun _ => eachAtomic ⟨fun d => rfl,?_⟩
  simp [signals,Event.onTable]

theorem resetRun (client : HwFenceClient) (flags : ResetFlags) (settled : Settled d) (ready : d.vmReady = true) :
    let p := msmHwFenceResetClient client flags
    TableOrQueue d (p.run d).2 ∧
      (∀ i, (p.run d).2.tbl i = resetSlot client flags (d.tbl i)) ∧
      (signals (p.events d)).map blind =
        (List.finRange m).flatMap (resetSignals client flags d) := by
  obtain ⟨only,each,list⟩ := cleanupFencesRun client flags settled
    (List.finRange m) (List.nodup_finRange m)
  have queues := quietRun (quietResetQueues client) ((cleanupFences client flags (List.finRange m)).run d).2
  have tbl := congrArg DriverData.tbl queues.1
  have quiet : TableOrQueue ((cleanupFences client flags (List.finRange m)).run d).2
      ((hwFenceUtilsResetQueues client).run
        ((cleanupFences client flags (List.finRange m)).run d).2).2 := by
    unfold TableOrQueue QueueOnly at *
    rw [queues.1]
  simp only [msmHwFenceResetClient,runBind,eventsBind,runObserve,eventsObserve,ready,
    not_true_eq_false,if_false,signalsAppend,List.map_append,List.nil_append,queues.2,list]
  refine ⟨only.trans quiet,fun i => ?_,by simp [signals]⟩
  exact (congrFun tbl i).trans (by simpa using each i)

end Table
end MmDrivers.ResetRun

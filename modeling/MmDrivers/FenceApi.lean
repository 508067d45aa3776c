import MmDrivers.DriverRuns
import MmDrivers.ClientIds
import MmDrivers.Lib.Parts

/-! The entry points for the clients. They take dma fences, and know those with a hw-fence
by a flag of the dma fence itself, while the table goes by context and seqno. -/
namespace MmDrivers.FenceApi
open Sections Sections.Prog FenceTypes FenceLookup FenceTable FenceSignal JoinFence JoinRun ResetRun
open DriverRuns DeviceTree Parts Probe Runs

/-- The dma fences there are; a fence-array has children. The kernel numbers contexts from 1
and gives no two fences the same context and seqno. -/
structure DmaFences (F : Type) where
  context : F → U64
  seqno : F → U64
  children : F → Option (List F)
  contexts : ∀ f, context f ≠ 0
  distinct : ∀ f g, context f = context g → seqno f = seqno g → f = g
  counted : ∀ f cs, children f = some cs → cs.length < 2^32

/-- The driver, and the fences with `MSM_HW_FENCE_FLAG_ENABLED_BIT`. -/
structure ApiState (m : Nat) (F : Type) where
  d : DriverData m
  enabled : F → Bool

abbrev Api (m : Nat) (F α : Type) := Prog Event (ApiState m F) α

section Model
variable {m : Nat} {F : Type} (w : DmaFences F)

def DmaFences.key (f : F) : Key := (w.context f,w.seqno f)

def DmaFences.dmaFence (enabled : F → Bool) (f : F) : DmaFence :=
  ⟨w.context f,w.seqno f,(w.children f).isSome,enabled f⟩

theorem arrayFilled (fences : List DmaFence) (small : fences.length < 2^32) :
    ∀ i < (BitVec.ofNat 32 fences.length).toNat, ∃ mem, some (fun i => fences[i]?) = some mem ∧
      (mem i).isSome := by
  intro i inside
  rw [BitVec.toNat_ofNat,Nat.mod_eq_of_lt small] at inside
  exact ⟨_,rfl,by simpa using inside⟩

def DmaFences.toDmaFenceArray (enabled : F → Bool) (f : F) : Option DmaFenceArray :=
  match children : w.children f with
  | none => none
  | some cs => some
    { context := w.context f
      seqno := w.seqno f
      numFences := BitVec.ofNat 32 (cs.map (w.dmaFence enabled)).length
      fences := some fun i => (cs.map (w.dmaFence enabled))[i]?
      filled := arrayFilled _ (by simpa using w.counted f cs children) }

def driverPart (m : Nat) (F : Type) : Part (ApiState m F) (DriverData m) :=
  ⟨fun s => s.d,fun d s => {s with d},fun _ _ => rfl,fun _ => rfl,fun _ _ _ => rfl⟩

def driver {α : Type} (p : Driver m α) : Api m F α := within (driverPart m F) id p

@[simp] theorem runDriver {α : Type} (p : Driver m α) (s : ApiState m F) :
    (driver p).run s = ((p.run s.d).1,{s with d := (p.run s.d).2}) := runWithin ..

@[simp] theorem eventsDriver {α : Type} (p : Driver m α) (s : ApiState m F) :
    (driver p).events s = p.events s.d := (eventsWithin ..).trans (List.map_id _)

variable [DecidableEq F]

def setEnabled (f : F) (on : Bool) : Api m F Unit :=
  atomic (fun s => {s with enabled := Function.update s.enabled f on}) (fun _ => []) (fun _ => ())

@[simp] theorem runSetEnabled (f : F) (on : Bool) (s : ApiState m F) :
    (setEnabled f on).run s = ((),{s with enabled := Function.update s.enabled f on}) := rfl

-- handle: whether the caller has a place for it
def msmHwFenceCreate (client : Option HwFenceClient) (fence : Option F) (handle : Bool) :
    Api m F (Status × Option Nat) :=
  match client,fence,handle with
  | some client,some fence,true => do
    let vmReady ← observe fun s => s.d.vmReady
    if ¬ vmReady then pure (.error .eagain,none)
    else if (w.children fence).isSome then pure (.error .einval,none)
    else do
      let enabled ← observe fun s => s.enabled fence
      if enabled then pure (.error .einval,none)
      else do
        let (status,hash) ← driver (hwFenceCreate client (w.context fence) (w.seqno fence))
        match status with
        | .error e => pure (.error e,some hash)
        | .ok () => do
          setEnabled fence true
          pure (.ok (),some hash)
  | _,_,_ => pure (.error .einval,none)

def msmHwFenceDestroy (client : Option HwFenceClient) (fence : Option F) : Api m F Status :=
  match client,fence with
  | some client,some fence =>
    if (w.children fence).isSome then pure (.error .einval)
    else do
      let enabled ← observe fun s => s.enabled fence
      if ¬ enabled then pure (.error .einval)
      else do
        let status ← driver (hwFenceDestroy client (w.context fence) (w.seqno fence))
        match status with
        | .error e => pure (.error e)
        | .ok () => do
          setEnabled fence false
          pure (.ok ())
  | _,_ => pure (.error .einval)

def msmHwFenceDestroyWithHandle (client : Option HwFenceClient) (handle : Nat) : Api m F Status :=
  match client with
  | none => pure (.error .einval)
  | some client => do
    let clientsNum ← observe fun s => s.d.clientsNum
    if clientsNum ≤ client.clientId then pure (.error .einval)
    else driver (hwFenceDestroyWithHash client handle)

def waitUpdateOne (client : HwFenceClient) (fence : F) (clientData : U64) :
    Api m F (Status × Option Nat) := do
  let enabled ← observe fun s => s.enabled
  match w.toDmaFenceArray enabled fence with
  | some array => driver (hwFenceProcessFenceArray client array clientData)
  | none => driver (hwFenceProcessFence client (w.dmaFence enabled fence) clientData)

def waitUpdateFences (client : HwFenceClient) (clientDataList : Option (Nat → U64)) :
    List F → Nat → List Nat → Api m F (Status × List Nat)
  | [],_,handles => pure (.ok (),handles)
  | fence::rest,i,handles => do
    let (status,hash) ← waitUpdateOne w client fence (clientDataList.elim 0 (· i))
    match status with
    | .error e => pure (.error e,handles)
    | .ok () => waitUpdateFences client clientDataList rest (i+1) (handles ++ [hash.getD 0])

/-- `fenceList` is `none` if it is null or starts with a null fence; the other fences are there.
The handles returned are those stored if the caller has room for them. -/
def msmHwFenceWaitUpdateV2 (client : Option HwFenceClient) (fenceList : Option (List F))
    (clientDataList : Option (Nat → U64)) : Api m F (Status × List Nat) :=
  match client,fenceList with
  | some client,some fenceList => do
    let vmReady ← observe fun s => s.d.vmReady
    if ¬ vmReady then pure (.error .eagain,[])
    else if clientDataList.isSome ∧ (hwFenceGetClientDataId client.clientId).isNone then
      pure (.error .einval,[])
    else do
      let rxqClientsNum ← observe fun s => s.d.rxqClientsNum
      if rxqClientsNum < client.clientId then pure (.error .einval,[])
      else waitUpdateFences w client clientDataList fenceList 0 []
  | _,_ => pure (.error .einval,[])

def msmHwFenceResetClientApi (client : Option HwFenceClient) (flags : ResetFlags) : Api m F Status :=
  match client with
  | none => pure (.error .einval)
  | some client => driver (msmHwFenceResetClient client flags)

def msmHwFenceResetClientById (types : List ClientTypeDesc) (clientIdExt : Nat) (flags : ResetFlags) :
    Api m F Status :=
  if hwFenceClientMax ≤ clientIdExt then pure (.error .einval)
  else
    let clientId := hwFenceUtilsGetClientIdPriv types clientIdExt
    if hwFenceClientMax ≤ clientId then pure (.error .einval)
    else do
      let client ← observe fun s => s.d.clients clientId
      msmHwFenceResetClientApi client flags

def msmHwFenceTriggerSignal (client : Option HwFenceClient) (txClientPid rxClientVid signalId : Nat) :
    Api m F Status := do
  let ready ← observe fun s => s.d.resourcesReady && s.d.vmReady
  if ¬ ready then pure (.error .eagain)
  else if client.isNone then pure (.error .einval)
  else do
    atomic id (fun _ => [.ipc txClientPid rxClientVid signalId]) (fun _ => ())
    pure (.ok ())

inductive ApiOp (F : Type) where
  | create (client : Option HwFenceClient) (fence : Option F) (handle : Bool)
  | destroy (client : Option HwFenceClient) (fence : Option F)
  | destroyWithHandle (client : Option HwFenceClient) (handle : Nat)
  | waitUpdate (client : Option HwFenceClient) (fenceList : Option (List F))
      (clientDataList : Option (Nat → U64))
  | resetClient (client : Option HwFenceClient) (flags : ResetFlags)
  | resetClientById (types : List ClientTypeDesc) (clientIdExt : Nat) (flags : ResetFlags)
  | updateTxq (client : Option HwFenceClient) (handle : Nat) (flags : U64) (error : U32)
  | triggerSignal (client : Option HwFenceClient) (txClientPid rxClientVid signalId : Nat)

def ApiOp.call : ApiOp F → Api m F Status
  | .create client fence handle => Prod.fst <$> msmHwFenceCreate w client fence handle
  | .destroy client fence => msmHwFenceDestroy w client fence
  | .destroyWithHandle client handle => msmHwFenceDestroyWithHandle client handle
  | .waitUpdate client fenceList clientDataList =>
    Prod.fst <$> msmHwFenceWaitUpdateV2 w client fenceList clientDataList
  | .resetClient client flags => msmHwFenceResetClientApi client flags
  | .resetClientById types clientIdExt flags => msmHwFenceResetClientById types clientIdExt flags
  | .updateTxq client handle flags error => driver (msmHwFenceUpdateTxq client handle flags error)
  | .triggerSignal client txClientPid rxClientVid signalId =>
    msmHwFenceTriggerSignal client txClientPid rxClientVid signalId

/-- One call, and the driver as the call finds it. Of its table only what the fence controller
writes into the fences is taken. -/
structure ApiCall (m : Nat) (F : Type) where
  op : ApiOp F
  around : DriverData m

def controlled (told f : HwFence) : HwFence :=
  if f.valid then
    {f with
      flags := told.flags, error := told.error, pendingChildCnt := told.pendingChildCnt,
      fenceTriggerTime := told.fenceTriggerTime}
  else f

def ApiCall.start (s : ApiState m F) (c : ApiCall m F) : ApiState m F :=
  {s with d := {c.around with tbl := fun i => controlled (c.around.tbl i) (s.d.tbl i)}}

def ApiCall.step (s : ApiState m F) (c : ApiCall m F) : ApiState m F :=
  ((c.op.call w).run (c.start s)).2

end Model

section Kept
variable {m : Nat} {d d' d'' : DriverData m}

def Held (d : DriverData m) (key : Key) : Prop := ∃ i, d.live key i

def SameWait (f f' : HwFence) : Prop := f'.waitClientMask = f.waitClientMask ∧ f'.flags = f.flags

def KeepsBut (keys : List Key) (d d' : DriverData m) : Prop :=
  ∀ key, key ∉ keys → ∀ x, (d'.live key x ↔ d.live key x) ∧
    (d.live key x → SameWait (d.tbl x) (d'.tbl x))

theorem KeepsBut.held {keys : List Key} (kept : KeepsBut keys d d') {key : Key} (other : key ∉ keys) :
    Held d' key ↔ Held d key :=
  exists_congr fun x => (kept key other x).1

theorem KeepsBut.more {keys keys' : List Key} (kept : KeepsBut keys d d') (sub : keys ⊆ keys') :
    KeepsBut keys' d d' :=
  fun key other => kept key fun mem => other (sub mem)

theorem KeepsBut.trans {keys : List Key} (first : KeepsBut keys d d') (second : KeepsBut keys d' d'') :
    KeepsBut keys d d'' := by
  intro key other x
  obtain ⟨live,same⟩ := first key other x
  obtain ⟨live',same'⟩ := second key other x
  refine ⟨live'.trans live,fun here => ?_⟩
  have before := same here
  have after := same' (live.mpr here)
  exact ⟨after.1.trans before.1,after.2.trans before.2⟩

theorem keepsTable (same : d'.tbl = d.tbl) (keys : List Key) : KeepsBut keys d d' := by
  intro key _ x
  rw [DriverData.live,DriverData.live,same]
  exact ⟨Iff.rfl,fun _ => ⟨rfl,rfl⟩⟩

theorem keepsLinking {join : Fin m} (linking : Linking join d d') (keys : List Key) :
    KeepsBut keys d d' := by
  refine fun key _ x => ⟨linking.live key x,fun _ => ?_⟩
  have relinked := linking.slots x
  rw [relinked]
  exact ⟨rfl,rfl⟩

theorem keepsStored (client : HwFenceClient) (data : U64) (join : Fin m) (keys : List Key) :
    KeepsBut keys d (d.onSlot join (storeClientData client data)) := by
  refine fun key _ x => ⟨storedLive,fun _ => ?_⟩
  by_cases xj : x = join
  · subst xj
    rw [DriverData.onSlotSame,storeKeeps]
    exact ⟨rfl,rfl⟩
  · rw [DriverData.onSlotOther d _ xj]
    exact ⟨rfl,rfl⟩

theorem KeepsBut.gone {key : Key} (kept : KeepsBut [key] d d') (before : ∀ x, ¬ d.live key x)
    (after : ∀ x, ¬ d'.live key x) : KeepsBut [] d d' := by
  intro k _ x
  by_cases same : k = key
  · subst same
    exact ⟨iff_of_false (after x) (before x),fun live => absurd live (before x)⟩
  · exact kept k (by simpa using same) x

theorem keepsSlot {i : Fin m} {f : HwFence} {keys : List Key} (same : d'.tbl = Function.update d.tbl i f)
    (before : (d.tbl i).valid = true → (d.tbl i).key ∈ keys) (after : f.valid = true → f.key ∈ keys) :
    KeepsBut keys d d' := by
  intro key other x
  by_cases xi : x = i
  · subst xi
    have gone : ¬ d.live key x := fun live => other (live.2 ▸ before live.1)
    have none : ¬ d'.live key x := by
      rw [DriverData.live,same,Function.update_self]
      exact fun live => other (live.2 ▸ after live.1)
    exact ⟨iff_of_false none gone,fun live => absurd live gone⟩
  · rw [DriverData.live,DriverData.live,same,Function.update_of_ne xi]
    exact ⟨Iff.rfl,fun _ => ⟨rfl,rfl⟩⟩

end Kept

section Start
variable {m : Nat} {F : Type} {s : ApiState m F} {c : ApiCall m F} {told f : HwFence}

@[simp] theorem controlledValid : (controlled told f).valid = f.valid := by
  unfold controlled
  split <;> rfl

@[simp] theorem controlledKey : (controlled told f).key = f.key := by
  unfold controlled
  split <;> rfl

@[simp] theorem controlledMask : (controlled told f).waitClientMask = f.waitClientMask := by
  unfold controlled
  split <;> rfl

theorem controlledFree (free : f.valid = false) : controlled told f = f := by
  simp [controlled,free]

theorem startLive (key : Key) (x : Fin m) : (c.start s).d.live key x ↔ s.d.live key x := by
  simp [DriverData.live,ApiCall.start]

theorem startHeld (key : Key) : Held (c.start s).d key ↔ Held s.d key :=
  exists_congr fun x => startLive key x

theorem startSettled (settled : Settled s.d) : Settled (c.start s).d := by
  refine settled.keep (fun i used => ?_) fun i free => ?_
  · have live : (c.start s).d.live ((c.start s).d.tbl i).key i := ⟨used,rfl⟩
    exact (startLive _ i).mp live
  · have unused : (s.d.tbl i).valid = false := controlledValid.symm.trans free
    have same : (c.start s).d.tbl i = s.d.tbl i := controlledFree unused
    rw [same]
    exact settled.blank i unused

end Start

section Turn
variable {m : Nat} {F : Type} {w : DmaFences F} {d : DriverData m} {client : HwFenceClient}
  {enabled : F → Bool} {f : F} {data : U64}

inductive TurnEnds (w : DmaFences F) (client : HwFenceClient) (enabled : F → Bool) (f : F) (data : U64)
    (d : DriverData m) : Status × Option Nat → DriverData m → Prop where
  | refused {e hash d'} (kept : KeepsBut [] d d')
      (why : w.children f = none → enabled f = true → Held d (w.key f) →
        data ≠ 0 ∧ (hwFenceGetClientDataId client.clientId).isNone) :
      TurnEnds w client enabled f data d (.error e,hash) d'
  | waits {x d'} (plain : w.children f = none) (flagged : enabled f = true) (kept : KeepsBut [w.key f] d d')
      (held : d.live (w.key f) x) (stays : d'.live (w.key f) x)
      (mask : (d'.tbl x).waitClientMask = (d.tbl x).waitClientMask ||| bit client.clientId)
      (flags : (d'.tbl x).flags = (d.tbl x).flags) :
      TurnEnds w client enabled f data d (.ok (),some x.val) d'
  | joins {x d'} (array : (w.children f).isSome) (fresh : ¬ Held d (w.key f))
      (free : FreeAt d (w.key f) x) (kept : KeepsBut [w.key f] d d') (joined : d'.live (w.key f) x)
      (mask : (d'.tbl x).waitClientMask = bit client.clientId) :
      TurnEnds w client enabled f data d (.ok (),some x.val) d'
  | completes {x : Fin m} {d' cs} (array : w.children f = some cs) (fresh : ¬ Held d (w.key f))
      (kept : KeepsBut [] d d') (children : 0 < cs.length)
      (signaled : ∀ c ∈ cs, ∃ y, d.live (w.key c) y ∧ (d.tbl y).signaled = true) :
      TurnEnds w client enabled f data d (.ok (),some x.val) d'

theorem waitRun (fence : Option DmaFence) (client : HwFenceClient) {key : Key} (settled : Settled d)
    (named : key.1 ≠ 0) (sends : ¬ (data ≠ 0 ∧ (hwFenceGetClientDataId client.clientId).isNone)) :
    let r := (hwFenceRegisterWaitClient fence client key.1 key.2 data).run d
    (∃ i, d.live key i ∧ r.1 = (.ok (),some i.val) ∧
      r.2.tbl = Function.update d.tbl i (waitOn d.qtime client.clientId data (d.tbl i))) ∨
    ((∀ i, ¬ d.live key i) ∧ r.1.1 = .error .einval ∧ r.2 = d) := by
  obtain ⟨slot,hash,found,held⟩ := findTidy (some client) key settled.tidy named
  unfold hwFenceRegisterWaitClient
  rw [if_neg sends]
  simp only [runBind,found]
  cases slot with
  | none => exact .inr ⟨fun i live => by simpa using (held i).mpr live,rfl,rfl⟩
  | some i =>
    have live := (held i).mp rfl
    have ran := findLive (some client) settled.tidy named live
    rw [found] at ran
    have slot : hash = i.val := by simpa using congrArg (fun r => r.1.2) ran
    subst slot
    have told : ∀ (signaled : Bool) d₁, ((whenever signaled do
        emit fun _ => (fence.map fun f => .setSignaledBit f.context f.seqno).toList
        fenceCtlSignal client i i.val 0 data 0 : Driver m Unit).run d₁).2.tbl = d₁.tbl := by
      intro signaled d₁
      cases signaled with
      | false => rfl
      | true =>
        have quiet := (signalRun client i i.val 0#64 data 0#32 d₁).1
        simpa [whenever,emit] using congrArg DriverData.tbl quiet
    dsimp only
    simp only [runBind,runAtomic]
    exact .inl ⟨i,live,rfl,told _ _⟩

theorem fenceTurn (client : HwFenceClient) (data : U64) (settled : Settled d) (plain : w.children f = none) :
    let r := (hwFenceProcessFence client (w.dmaFence enabled f) data).run d
    Settled r.2 ∧ TurnEnds w client enabled f data d r.1 r.2 := by
  have kept : Settled (DriverCall.step d ⟨.processFence client (w.dmaFence enabled f) data,d.qtime⟩) := by
    refine settledStep settled ⟨fun key mem => ?_,fun key creates => by cases creates⟩
    cases List.mem_singleton.mp mem
    exact w.contexts f
  refine ⟨by simpa [DriverCall.step,DriverOp.call] using kept,?_⟩
  unfold hwFenceProcessFence
  by_cases on : enabled f = true
  · have known : ¬ ¬ (w.dmaFence enabled f).hwFenceEnabled = true := not_not_intro on
    rw [if_neg known]
    by_cases sends : data ≠ 0 ∧ (hwFenceGetClientDataId client.clientId).isNone
    · unfold hwFenceRegisterWaitClient
      rw [if_pos sends]
      exact .refused (keepsTable rfl _) fun _ _ _ => sends
    · have context : (w.key f).1 ≠ 0 := w.contexts f
      have ran := waitRun (some (w.dmaFence enabled f)) client settled context sends
      dsimp only [DmaFences.key,DmaFences.dmaFence] at ran ⊢
      generalize (hwFenceRegisterWaitClient _ client _ _ data).run d = r at ran
      obtain ⟨⟨status,hash⟩,d'⟩ := r
      rcases ran with ⟨i,live,same,tbl⟩ | ⟨none,failed,same⟩
      · cases same
        have own : (waitOn d.qtime client.clientId data (d.tbl i)).key = w.key f := live.2
        refine .waits plain on (keepsSlot tbl (fun _ => ?_) fun _ => ?_) live ?_ ?_ ?_
        · exact List.mem_singleton.mpr live.2
        · exact List.mem_singleton.mpr own
        · rw [DriverData.live,tbl,Function.update_self]
          exact ⟨live.1,own⟩
        · rw [tbl,Function.update_self]
          rfl
        · rw [tbl,Function.update_self]
          rfl
      · dsimp only at failed same
        rw [failed,same]
        exact .refused (keepsTable rfl _) fun _ _ held => held.elim fun i live => absurd live (none i)
  · have unknown : ¬ (w.dmaFence enabled f).hwFenceEnabled = true := on
    rw [if_pos unknown]
    exact .refused (keepsTable rfl _) fun _ flagged => absurd flagged on

theorem plainOf (none : w.toDmaFenceArray enabled f = none) : w.children f = Option.none := by
  unfold DmaFences.toDmaFenceArray at none
  split at none
  · assumption
  · cases none

theorem arrayOf {array : DmaFenceArray} (found : w.toDmaFenceArray enabled f = some array) :
    ∃ cs, w.children f = some cs ∧ array.children = cs.map (w.dmaFence enabled) ∧
      arrayKey array = w.key f := by
  unfold DmaFences.toDmaFenceArray at found
  split at found
  · cases found
  · rename_i cs children
    cases found
    refine ⟨cs,children,?_,rfl⟩
    have small : (BitVec.ofNat 32 (cs.map (w.dmaFence enabled)).length).toNat = (cs.map (w.dmaFence enabled)).length := by
      rw [BitVec.toNat_ofNat,Nat.mod_eq_of_lt]
      simpa using w.counted f cs children
    refine List.ext_getElem? fun i => ?_
    by_cases inside : i < (cs.map (w.dmaFence enabled)).length
    · exact DmaFenceArray.childrenAt _ (small.symm ▸ inside)
    · rw [List.getElem?_eq_none (not_lt.mp inside),List.getElem?_eq_none]
      rw [DmaFenceArray.childrenLength]
      exact (small.trans_le (not_lt.mp inside))

theorem childContexts {array : DmaFenceArray} {cs : List F} (children : array.children = cs.map (w.dmaFence enabled)) :
    ∀ child ∈ array.children, child.context ≠ 0 := by
  intro child mem
  rw [children] at mem
  obtain ⟨c,-,rfl⟩ := List.mem_map.mp mem
  exact w.contexts c

theorem childrenSignaled {array : DmaFenceArray} {join : Fin m} {slots : List (Fin m)} {d' : DriverData m}
    (progress : Progress array.numFences.toNat join (joined client array 0 join d) array.children slots true d') :
    0 < array.children.length ∧
      ∀ child ∈ array.children, ∃ y, d.live (waitsFor child) y ∧ (d.tbl y).signaled = true := by
  obtain ⟨positive,count⟩ := progress.signal.mp rfl
  rw [← array.childrenLength] at positive count
  refine ⟨positive,fun child mem => ?_⟩
  rw [progress.slots.length_eq] at count
  have signaled := List.countP_eq_length.mp count
  obtain ⟨k,inside,rfl⟩ := List.mem_iff_getElem.mp mem
  have held := progress.slots.get inside (progress.slots.length_eq ▸ inside)
  generalize slot : slots.get ⟨k,progress.slots.length_eq ▸ inside⟩ = y at held
  have told := signaled y (slot ▸ List.get_mem ..)
  have other : y ≠ join := by
    intro same
    rw [same,joinedSlot] at told
    simp [HwFence.signaled,HwFence.zeroed] at told
  rw [DriverData.live,joinedTbl,Function.update_of_ne other] at held
  rw [joinedTbl,Function.update_of_ne other] at told
  exact ⟨y,held,told⟩

theorem keepsJoined {array : DmaFenceArray} {join : Fin m} {d' : DriverData m}
    (free : (d.tbl join).valid = false) (linking : Linking join (joined client array data join d) d') :
    KeepsBut [arrayKey array] d d' := by
  have live := joinedLive client array data join d
  have first : KeepsBut [arrayKey array] d (joined client array data join d) := by
    refine keepsSlot joinedTbl (fun used => ?_) fun _ => List.mem_singleton.mpr live.2
    rw [free] at used
    cases used
  exact first.trans (keepsLinking linking _)

theorem keepsFreed {key : Key} {join : Fin m} {d' d'' : DriverData m} (settled : Settled d')
    (before : ∀ x, ¬ d.live key x) (kept : KeepsBut [key] d d') (held : d'.live key join)
    (same : d''.tbl = Function.update d'.tbl join (unreserveHwFence (d'.tbl join))) :
    KeepsBut [] d d'' := by
  have freed : KeepsBut [key] d' d'' :=
    keepsSlot same (fun _ => List.mem_singleton.mpr held.2) fun used => by cases used
  refine (kept.trans freed).gone before fun x live => ?_
  by_cases xj : x = join
  · subst xj
    rw [DriverData.live,same,Function.update_self] at live
    cases live.1
  · rw [DriverData.live,same,Function.update_of_ne xj] at live
    exact xj (settled.distinct key x join live held)

theorem arrayTurn (client : HwFenceClient) (data : U64) {array : DmaFenceArray} (settled : Settled d)
    (isArray : w.toDmaFenceArray enabled f = some array) (unheld : ¬ Held d (w.key f)) :
    let r := (hwFenceProcessFenceArray client array data).run d
    Settled r.2 ∧ TurnEnds w client enabled f data d r.1 r.2 := by
  obtain ⟨cs,children,list,key⟩ := arrayOf isArray
  have contexts := childContexts list
  have named : array.context ≠ 0 := by
    rw [show array.context = w.context f from congrArg Prod.fst key]
    exact w.contexts f
  have fresh : ∀ x, ¬ d.live (arrayKey array) x := fun x live => unheld ⟨x,key ▸ live⟩
  have isSome : (w.children f).isSome := by rw [children]; rfl
  have notPlain : w.children f ≠ none := Option.isSome_iff_ne_none.mp isSome
  by_cases sends : data ≠ 0 ∧ (hwFenceGetClientDataId client.clientId).isNone
  · unfold hwFenceProcessFenceArray
    rw [if_pos sends]
    exact ⟨settled,.refused (keepsTable rfl _) fun plain => absurd plain notPlain⟩
  · have hash : ∀ join, FreeAt d (arrayKey array) join →
        ((hwFenceProcessFenceArray client array data).run d).1.2 = some join.val := by
      intro join free
      have created := createFresh hwFenceJoinFenceClientId array.numFences
        (show LookupOp.createJoin.creates = true from rfl) fresh
      simp only [arrayKey] at created
      unfold hwFenceProcessFenceArray hwFenceProcessJoinFence
      rw [if_neg sends]
      rcases created with ⟨other,here,ran⟩ | ⟨used,-⟩
      · have same : join = other := Option.some.inj (free.symm.trans here)
        subst same
        simp [ran]
      · have isFree := free.free
        simp [used join] at isFree
    have ends := arrayRun client data settled.tidy fresh named contexts
    generalize (hwFenceProcessFenceArray client array data).run d = r at hash ends
    obtain ⟨⟨status,handle⟩,d'⟩ := r
    dsimp only at hash ends
    refine ⟨arraySettled settled fresh named ends,?_⟩
    cases ends with
    | rejected => exact .refused (keepsTable rfl _) fun plain => absurd plain notPlain
    | rolledBack free undone =>
      refine .refused ?_ fun plain => absurd plain notPlain
      have linked := linkingSettled (joinedSettled settled free.free fresh named) undone.linking
      exact keepsFreed linked fresh (keepsJoined free.free undone.linking)
        ((undone.linking.live _ _).mpr (joinedLive ..)) rfl
    | @waiting join cs d' free progress =>
      rw [hash join free]
      have here := (progress.linking.live _ _).mpr (joinedLive client array 0 join d)
      have kept := (keepsJoined free.free progress.linking).trans (keepsStored client data join _)
      refine .joins isSome unheld (key ▸ free) (key ▸ kept) (key ▸ storedLive.mpr here) ?_
      have relinked := progress.linking.slots join
      rw [DriverData.onSlotSame,storeKeeps,relinked,joinedSlot]
    | @completed join cs d' free progress =>
      rw [hash join free]
      have here := (progress.linking.live _ _).mpr (joinedLive client array 0 join d)
      have kept := (keepsJoined free.free progress.linking).trans (keepsStored client data join _)
      have linked := linkingSettled (joinedSettled settled free.free fresh named) progress.linking
      have stored : Settled (d'.onSlot join (storeClientData client data)) := storedSettled linked here.1
      have signaled := childrenSignaled progress
      rw [list] at signaled
      refine .completes children unheld (keepsFreed stored fresh kept (storedLive.mpr here) ?_)
        (by simpa using signaled.1) fun c mem => signaled.2 _ (List.mem_map_of_mem mem)
      rw [DriverData.onSlotTbl,signaledTbl]

theorem heldTurn (client : HwFenceClient) (data : U64) {array : DmaFenceArray} {x : Fin m}
    (isArray : w.toDmaFenceArray enabled f = some array) (held : d.live (w.key f) x)
    (used : ∀ j ∈ before (firstHash m (w.key f)) x, (d.tbl j).valid = true) :
    let r := (hwFenceProcessFenceArray client array data).run d
    TurnEnds w client enabled f data d r.1 r.2 ∧ r.2 = d := by
  obtain ⟨cs,children,-,key⟩ := arrayOf isArray
  have notPlain : w.children f ≠ none := by simp [children]
  rw [← key] at held used
  have ran := arrayHeld client data held used
  generalize (hwFenceProcessFenceArray client array data).run d = r at ran
  obtain ⟨⟨status,handle⟩,d'⟩ := r
  obtain ⟨rfl,rfl⟩ := ran
  exact ⟨.refused (keepsTable rfl _) fun plain => absurd plain notPlain,rfl⟩

section Ends
variable {d' : DriverData m} {r : Status × Option Nat} (ends : TurnEnds w client enabled f data d r d')
include ends

theorem TurnEnds.stays (settled : Settled d) {key : Key} {x : Fin m} (live : d.live key x) :
    d'.live key x ∧ (d'.tbl x).flags = (d.tbl x).flags := by
  have others : ∀ {keys}, KeepsBut keys d d' → key ∉ keys →
      d'.live key x ∧ (d'.tbl x).flags = (d.tbl x).flags := fun kept other =>
    ⟨(kept key other x).1.mpr live,((kept key other x).2 live).2⟩
  cases ends with
  | refused kept why => exact others kept (by simp)
  | @waits y _ plain flagged kept held stays mask flags =>
    by_cases own : key = w.key f
    · subst own
      rw [settled.distinct (w.key f) x y live held]
      exact ⟨stays,flags⟩
    · exact others kept (by simpa using own)
  | joins array fresh free kept joined mask =>
    by_cases own : key = w.key f
    · exact absurd ⟨x,own ▸ live⟩ fresh
    · exact others kept (by simpa using own)
  | completes array fresh kept => exact others kept (by simp)

theorem TurnEnds.enters (settled' : Settled d') {key : Key} {x : Fin m} (live : d'.live key x) :
    d.live key x ∨ key = w.key f ∧ (w.children f).isSome ∧ FreeAt d key x := by
  cases ends with
  | refused kept why => exact .inl ((kept key (by simp) x).1.mp live)
  | @waits y _ plain flagged kept held stays mask =>
    by_cases own : key = w.key f
    · subst own
      rw [settled'.distinct (w.key f) x y live stays]
      exact .inl held
    · exact .inl ((kept key (by simpa using own) x).1.mp live)
  | @joins y _ array fresh free kept joined mask =>
    by_cases own : key = w.key f
    · subst own
      have same := settled'.distinct (w.key f) x y live joined
      exact .inr ⟨rfl,array,same ▸ free⟩
    · exact .inl ((kept key (by simpa using own) x).1.mp live)
  | completes array fresh kept => exact .inl ((kept key (by simp) x).1.mp live)

end Ends

def Gapless (d : DriverData m) (key : Key) : Prop :=
  ∀ i, d.live key i → ∀ j ∈ before (firstHash m key) i, (d.tbl j).valid = true

theorem TurnEnds.gapless {d' : DriverData m} {r : Status × Option Nat}
    (ends : TurnEnds w client enabled f data d r d') (settled : Settled d) (settled' : Settled d')
    {key : Key} (gapless : Gapless d key) : Gapless d' key := by
  have used : ∀ j, (d.tbl j).valid = true → (d'.tbl j).valid = true :=
    fun j valid => (ends.stays settled ⟨valid,rfl⟩).1.1
  intro i live j early
  rcases ends.enters settled' live with was | ⟨-,-,free⟩
  · exact used j (gapless i was j early)
  · exact used j (by simpa using (firstSome.mp free).2 j early)

theorem turnRun (client : HwFenceClient) (data : U64) {s : ApiState m F} (settled : Settled s.d)
    (gapless : (w.children f).isSome → Gapless s.d (w.key f)) :
    let r := (waitUpdateOne w client f data).run s
    r.2.enabled = s.enabled ∧ Settled r.2.d ∧ TurnEnds w client s.enabled f data s.d r.1 r.2.d := by
  simp only [waitUpdateOne,runBind,runObserve]
  cases isArray : w.toDmaFenceArray s.enabled f with
  | none => simpa using fenceTurn client data settled (plainOf isArray)
  | some array =>
    simp only [runDriver,true_and]
    by_cases held : Held s.d (w.key f)
    · obtain ⟨x,live⟩ := held
      obtain ⟨cs,children,-,-⟩ := arrayOf isArray
      have ran := heldTurn client data isArray live (gapless (by simp [children]) x live)
      exact ⟨ran.2.symm ▸ settled,ran.1⟩
    · exact arrayTurn client data settled isArray held

end Turn

section Loop
variable {m : Nat} {F : Type} {w : DmaFences F} {client : HwFenceClient} {d d' d₁ : DriverData m}

inductive Waited (w : DmaFences F) (client : HwFenceClient) (d d' : DriverData m) : F → Nat → Prop where
  | fence {f x} (plain : w.children f = none) (held : d.live (w.key f) x) (stays : d'.live (w.key f) x)
      (mask : (d'.tbl x).waitClientMask = (d.tbl x).waitClientMask ||| bit client.clientId) :
      Waited w client d d' f x.val
  | joined {f x} (array : (w.children f).isSome) (fresh : ¬ Held d (w.key f)) (joined : d'.live (w.key f) x)
      (mask : (d'.tbl x).waitClientMask = bit client.clientId) : Waited w client d d' f x.val
  | complete {f cs} {x : Fin m} (array : w.children f = some cs) (fresh : ¬ Held d (w.key f))
      (children : 0 < cs.length)
      (signaled : ∀ c ∈ cs, ∃ y, d'.live (w.key c) y ∧ (d'.tbl y).signaled = true) :
      Waited w client d d' f x.val

def maskAt (d : DriverData m) (key : Key) (x : Fin m) : U64 :=
  if d.live key x then (d.tbl x).waitClientMask else 0

structure WaitUpdated (w : DmaFences F) (client : HwFenceClient) (enabled : F → Bool) (sent : Nat → U64)
    (d : DriverData m) (fences : List F) (status : Status) (handles : List Nat) (d' : DriverData m) :
    Prop where
  settled : Settled d'
  stays : ∀ key x, d.live key x → d'.live key x ∧ (d'.tbl x).flags = (d.tbl x).flags
  enters : ∀ key, Held d' key → Held d key ∨ ∃ f ∈ fences, key = w.key f ∧ (w.children f).isSome
  kept : KeepsBut ((fences.take handles.length).map w.key) d d'
  waited : List.Forall₂ (Waited w client d d') (fences.take handles.length) handles
  bits : ∀ f ∈ fences.take handles.length, ∀ x, d'.live (w.key f) x →
    (d'.tbl x).waitClientMask = maskAt d (w.key f) x ||| bit client.clientId
  whole : status = .ok () → handles.length = fences.length
  stopped : status ≠ .ok () → ∃ f, fences[handles.length]? = some f ∧
    (w.children f = none → enabled f = true → Held d (w.key f) →
      sent handles.length ≠ 0 ∧ (hwFenceGetClientDataId client.clientId).isNone)

theorem sameKey {f g : F} (same : w.key f = w.key g) : f = g :=
  w.distinct f g (congrArg Prod.fst same) (congrArg Prod.snd same)

variable {f : F} {rest : List F} {enabled : F → Bool} {sent : Nat → U64} {status : Status}
  {hash : Option Nat} {handles : List Nat}

theorem plainHeld {data : U64} {r : Status × Option Nat} (ends : TurnEnds w client enabled f data d r d₁)
    (settled : Settled d) (settled₁ : Settled d₁) {g : F} (plain : w.children g = none) :
    Held d₁ (w.key g) ↔ Held d (w.key g) := by
  refine exists_congr fun x => ⟨fun live => ?_,fun live => (ends.stays settled live).1⟩
  rcases ends.enters settled₁ live with was | ⟨key,array,-⟩
  · exact was
  · rw [← sameKey key,plain] at array
    cases array

section Turned
variable {data : U64} (settled : Settled d) (settled₁ : Settled d₁)
  (ends : TurnEnds w client enabled f data d (.ok (),hash) d₁)
include settled settled₁ ends

omit settled in
theorem turnedBit {x : Fin m} (live : d₁.live (w.key f) x) :
    (d₁.tbl x).waitClientMask = maskAt d (w.key f) x ||| bit client.clientId := by
  cases ends with
  | @waits y _ plain flagged kept held stays mask flags =>
    cases settled₁.distinct _ x y live stays
    rw [maskAt,if_pos held,mask]
  | @joins y _ array fresh free kept joined mask =>
    cases settled₁.distinct _ x y live joined
    rw [maskAt,if_neg fun was => fresh ⟨x,was⟩,mask]
    exact BitVec.zero_or.symm
  | completes array fresh kept children signaled =>
    exact absurd ⟨x,(kept _ (by simp) x).1.mp live⟩ fresh

theorem turnedOr (key : Key) (x : Fin m) :
    maskAt d₁ key x ||| bit client.clientId = maskAt d key x ||| bit client.clientId := by
  have others : ∀ {keys}, KeepsBut keys d d₁ → key ∉ keys → maskAt d₁ key x = maskAt d key x := by
    intro keys kept other
    obtain ⟨was,same⟩ := kept key other x
    unfold maskAt
    by_cases live : d.live key x
    · rw [if_pos live,if_pos (was.mpr live),(same live).1]
    · rw [if_neg live,if_neg fun here => live (was.mp here)]
  by_cases own : key = w.key f
  · subst own
    by_cases live : d₁.live (w.key f) x
    · rw [maskAt,if_pos live,turnedBit settled₁ ends live,BitVec.or_assoc,BitVec.or_self]
    · have unheld : ¬ d.live (w.key f) x := fun was => live (ends.stays settled was).1
      rw [maskAt,maskAt,if_neg live,if_neg unheld]
  · cases ends with
    | waits plain flagged kept => rw [others kept (by simpa using own)]
    | joins array fresh free kept => rw [others kept (by simpa using own)]
    | completes array fresh kept => rw [others kept (by simp)]

theorem turnedRest {g : F} {handle : Nat} (waited : Waited w client d₁ d' g handle) :
    Waited w client d d' g handle := by
  cases waited with
  | @fence x plain held stays mask =>
    have was : d.live (w.key g) x := by
      rcases ends.enters settled₁ held with was | ⟨key,array,-⟩
      · exact was
      · rw [← sameKey key,plain] at array
        cases array
    refine .fence plain was stays ?_
    rw [mask]
    cases ends with
    | @waits y _ plain' flagged kept held' stays' mask' flags =>
      by_cases own : w.key g = w.key f
      · rw [own] at was
        rw [settled.distinct _ x y was held',mask',BitVec.or_assoc,BitVec.or_self]
      · rw [((kept _ (by simpa using own) x).2 was).1]
    | joins array fresh free kept joined mask' =>
      have own : w.key g ≠ w.key f := fun same => fresh ⟨x,same ▸ was⟩
      rw [((kept _ (by simpa using own) x).2 was).1]
    | completes array fresh kept children signaled =>
      rw [((kept _ (by simp) x).2 was).1]
  | joined array fresh joined mask =>
    exact .joined array (fun ⟨x,live⟩ => fresh ⟨x,(ends.stays settled live).1⟩) joined mask
  | complete array fresh children signaled =>
    exact .complete array (fun ⟨x,live⟩ => fresh ⟨x,(ends.stays settled live).1⟩) children signaled

variable (updated : WaitUpdated w client enabled (fun k => sent (k+1)) d₁ rest status handles d')
include updated

theorem turnedHead : Waited w client d d' f (hash.getD 0) := by
  have again : w.key f ∈ (rest.take handles.length).map w.key → ∃ handle, Waited w client d₁ d' f handle := by
    intro mem
    obtain ⟨g,inside,same⟩ := List.mem_map.mp mem
    obtain ⟨k,bound,rfl⟩ := List.mem_iff_getElem.mp inside
    rw [← sameKey same]
    exact ⟨_,updated.waited.get bound (updated.waited.length_eq ▸ bound)⟩
  have first : ∀ key x, d.live key x → d₁.live key x ∧ (d₁.tbl x).flags = (d.tbl x).flags :=
    fun _ _ => ends.stays settled
  cases ends with
  | @waits x _ plain flagged kept held stays mask flags =>
    refine .fence plain held (updated.stays _ _ stays).1 ?_
    by_cases mem : w.key f ∈ (rest.take handles.length).map w.key
    · obtain ⟨handle,waited⟩ := again mem
      cases waited with
      | @fence y _ held' stays' mask' =>
        rw [settled₁.distinct _ y x held' stays] at mask'
        rw [mask',mask,BitVec.or_assoc,BitVec.or_self]
      | joined array fresh joined mask' => simp [plain] at array
      | complete array fresh children signaled => simp [plain] at array
    · rw [((updated.kept _ mem x).2 stays).1,mask]
  | @joins x _ array fresh free kept joined mask =>
    refine .joined array fresh (updated.stays _ _ joined).1 ?_
    by_cases mem : w.key f ∈ (rest.take handles.length).map w.key
    · obtain ⟨handle,waited⟩ := again mem
      cases waited with
      | fence plain held' stays' mask' => simp [plain] at array
      | joined array' fresh' joined' mask' => exact absurd ⟨x,joined⟩ fresh'
      | complete array' fresh' children signaled => exact absurd ⟨x,joined⟩ fresh'
    · rw [((updated.kept _ mem x).2 joined).1,mask]
  | completes array fresh kept children signaled =>
    refine .complete array fresh children fun c mem => ?_
    obtain ⟨y,live,told⟩ := signaled c mem
    have stays := first _ _ live
    have later := updated.stays _ _ stays.1
    refine ⟨y,later.1,?_⟩
    rw [HwFence.signaled,later.2,stays.2]
    exact told

theorem turnedUpdated : WaitUpdated w client enabled sent d (f::rest) status (hash.getD 0::handles) d' where
  settled := updated.settled
  stays := by
    intro key x live
    have first := ends.stays settled live
    have later := updated.stays key x first.1
    exact ⟨later.1,later.2.trans first.2⟩
  enters := by
    intro key held
    rcases updated.enters key held with ⟨x,live⟩ | ⟨g,mem,key,array⟩
    · rcases ends.enters settled₁ live with was | ⟨key,array,-⟩
      · exact .inl ⟨x,was⟩
      · exact .inr ⟨f,.head _,key,array⟩
    · exact .inr ⟨g,.tail _ mem,key,array⟩
  kept := by
    have own : KeepsBut [w.key f] d d₁ := by
      cases ends with
      | waits plain flagged kept held stays mask flags => exact kept
      | joins array fresh free kept joined mask => exact kept
      | completes array fresh kept children signaled => exact kept.more (by simp)
    simp only [List.length_cons,List.take_succ_cons,List.map_cons]
    exact (own.more (by simp)).trans (updated.kept.more fun key mem => .tail _ mem)
  waited := by
    simp only [List.length_cons,List.take_succ_cons]
    exact .cons (turnedHead settled settled₁ ends updated)
      (updated.waited.imp fun g handle waited => turnedRest settled settled₁ ends waited)
  bits := by
    intro g mem x live
    simp only [List.length_cons,List.take_succ_cons,List.mem_cons] at mem
    by_cases later : g ∈ rest.take handles.length
    · rw [updated.bits g later x live,turnedOr settled settled₁ ends]
    · obtain rfl := mem.resolve_right later
      have other : w.key g ∉ (rest.take handles.length).map w.key := by
        intro mem
        obtain ⟨k,inside,same⟩ := List.mem_map.mp mem
        exact later (sameKey same ▸ inside)
      obtain ⟨was,same⟩ := updated.kept _ other x
      rw [(same (was.mp live)).1,turnedBit settled₁ ends (was.mp live)]
  whole := by
    intro ok
    simpa using updated.whole ok
  stopped := by
    intro failed
    obtain ⟨g,here,why⟩ := updated.stopped failed
    refine ⟨g,by simpa using here,fun plain flagged held => ?_⟩
    simpa using why plain flagged ((plainHeld ends settled settled₁ plain).mpr held)

end Turned

theorem loopRun (client : HwFenceClient) (list : Option (Nat → U64)) (fences : List F) (i : Nat)
    (handles : List Nat) {s : ApiState m F} (settled : Settled s.d)
    (gapless : ∀ f ∈ fences, (w.children f).isSome → Gapless s.d (w.key f)) :
    let r := (waitUpdateFences w client list fences i handles).run s
    r.2.enabled = s.enabled ∧ ∃ new, r.1.2 = handles ++ new ∧
      WaitUpdated w client s.enabled (fun k => list.elim 0 (· (i+k))) s.d fences r.1.1 new r.2.d := by
  induction fences generalizing i handles s with
  | nil =>
    refine ⟨rfl,[],(List.append_nil _).symm,settled,fun _ _ live => ⟨live,rfl⟩,fun _ held => .inl held,
      keepsTable rfl _,.nil,fun f mem => by simp at mem,fun _ => rfl,fun failed => absurd rfl failed⟩
  | cons f rest ih =>
    obtain ⟨flags,settled₁,ends⟩ := turnRun client (list.elim 0 (· i)) settled (gapless f (.head _))
    simp only [waitUpdateFences,runBind]
    generalize (waitUpdateOne w client f (list.elim 0 (· i))).run s = t at flags settled₁ ends
    obtain ⟨⟨status,hash⟩,s₁⟩ := t
    dsimp only at flags settled₁ ends
    cases status with
    | error e =>
      refine ⟨flags,[],(List.append_nil _).symm,settled₁,fun _ _ => ends.stays settled,
        fun key ⟨x,live⟩ => ?_,?_,.nil,(fun f mem => by simp at mem),(fun ok => by cases ok),fun _ => ⟨f,rfl,?_⟩⟩
      all_goals cases ends with | refused kept why => ?_
      · exact .inl ⟨x,(kept key (by simp) x).1.mp live⟩
      · exact kept
      · exact why
    | ok done =>
      obtain ⟨flags',new,same,updated⟩ := ih (i+1) (handles ++ [hash.getD 0]) settled₁ fun g mem array =>
        ends.gapless settled settled₁ (gapless g (.tail _ mem) array)
      refine ⟨flags'.trans flags,hash.getD 0::new,by simp [same],?_⟩
      have shift : (fun k => list.elim 0 (· (i+1+k))) = fun k => list.elim 0 (· (i+(k+1))) := by
        funext k
        rw [Nat.add_assoc,Nat.add_comm 1]
      rw [shift,flags] at updated
      exact @turnedUpdated _ _ _ _ _ _ _ _ _ _ (fun k => list.elim 0 (· (i+k))) _ _ _ _ settled settled₁ ends updated

end Loop

end MmDrivers.FenceApi

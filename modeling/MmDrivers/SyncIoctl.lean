import MmDrivers.Lib.Parts
import MmDrivers.QueueDrain
import MmDrivers.Registration

/-! The ioctls of the validation sessions: a session registers as one of the
validation clients and exercises the driver through the handle it is given. -/
namespace MmDrivers.SyncIoctl
open Sections Sections.Prog FenceTypes ClientQueue Loops Parts QueueDrain Registration

/-- What `client_handle` points to. Handles are numbered as they are granted. -/
inductive Handle where
  | null
  | error (e : Errno)
  | client (grant : Nat) (c : HwFenceClient)

def Handle.isNull : Handle → Bool
  | .null => true
  | _ => false

def Handle.client? : Handle → Option HwFenceClient
  | .client _ c => some c
  | _ => none

def Handle.isErrOrNull (h : Handle) : Bool := h.client?.isNone

structure HwSyncObj where
  context : U64
  clientId : Int
  clientHandle : Handle

def HwSyncObj.opened (context : U64) : HwSyncObj := ⟨context,0,.null⟩

structure SyncFence where
  base : Nat
  fence : DmaFence

structure ArrayRefs where
  children : List Nat
  refs : Int

structure FenceRefs where
  fence : Nat → Int
  array : Option ArrayRefs
  arrayReleases : Nat

namespace FenceRefs

def get (base : Nat) (r : FenceRefs) : FenceRefs :=
  {r with fence := Function.update r.fence base (r.fence base+1)}

def put (base : Nat) (r : FenceRefs) : FenceRefs :=
  {r with fence := Function.update r.fence base (r.fence base-1)}

def puts (bases : List Nat) (r : FenceRefs) : FenceRefs := bases.foldl (fun r base => r.put base) r

def createArray (children : List Nat) (r : FenceRefs) : FenceRefs := {r with array := some ⟨children,1⟩}

def getArray (r : FenceRefs) : FenceRefs :=
  {r with array := r.array.map fun a => {a with refs := a.refs+1}}

-- a put past the last reference releases the array once more
def lowerArray (r : FenceRefs) : FenceRefs :=
  match r.array with
  | none => r
  | some a =>
    let lower := {r with array := some {a with refs := a.refs-1}}
    if 1 < a.refs then lower else {lower with arrayReleases := r.arrayReleases+1}

def putArray (r : FenceRefs) : FenceRefs :=
  match r.array with
  | none => r
  | some a => if a.refs = 1 then r.lowerArray.puts a.children else r.lowerArray

def freeArray (r : FenceRefs) : FenceRefs := {r with arrayReleases := r.arrayReleases+1}

end FenceRefs

structure SyncState (m : Nat) where
  obj : HwSyncObj
  grants : Nat
  registry : Registry m
  refs : FenceRefs
  /-- The `client_handle` of an enabled fence, with which its release destroys the hw-fence. -/
  kept : Nat → Option Handle
  /-- The fences that lose their last reference with this one, a fence array. -/
  below : Nat → List Nat

inductive SyncEvent where
  | passed (handle : Handle)
  -- given to the driver by the release of a fence
  | released (handle : Handle)
  | granted (grant : Nat)
  | revoked (grant : Nat)
  | signalCleared (grant : Nat)
  | driver (e : Event)
  | table (a : DataAccess)

inductive Outcome where
  | returned (status : Except Errno Nat)
  | running
  | faulted

abbrev Sync (m : Nat) (α : Type) := Prog SyncEvent (SyncState m) α

section Model
variable {m : Nat}

def fail (e : Errno) : Sync m Outcome := pure (.returned (.error e))
def succeed : Sync m Outcome := pure (.returned (.ok 0))

def registryPart : Part (SyncState m) (Registry m) :=
  ⟨fun s => s.registry,fun r s => {s with registry := r},fun _ _ => rfl,fun _ => rfl,fun _ _ _ => rfl⟩

def dataPart : Part (SyncState m) (DriverData m) :=
  ⟨fun s => s.registry.d,fun d s => {s with registry := {s.registry with d := d}},
    fun _ _ => rfl,fun _ => rfl,fun _ _ _ => rfl⟩

structure DriverCall (m : Nat) where
  answer : Status
  after : Registry m

def passes (h : Handle) : Sync m Unit := atomic id (fun _ => [.passed h]) (fun _ => ())

def callDriver (h : Handle) (call : DriverCall m) : Sync m Status :=
  atomic (fun s => {s with registry := call.after}) (fun _ => [.passed h]) (fun _ => call.answer)

def onObj (f : HwSyncObj → HwSyncObj) : Sync m Unit :=
  atomic (fun s => {s with obj := f s.obj}) (fun _ => []) (fun _ => ())

def onRefs (f : FenceRefs → FenceRefs) : Sync m Unit :=
  atomic (fun s => {s with refs := f s.refs}) (fun _ => []) (fun _ => ())

/-- A count that is not positive saturates when it is raised: that fence is never released again. -/
def SyncState.get (base : Nat) (s : SyncState m) : SyncState m :=
  {s with
    refs := s.refs.get base
    kept := if s.refs.fence base ≤ 0 then Function.update s.kept base none else s.kept
    below := if s.refs.fence base ≤ 0 then Function.update s.below base [] else s.below}

-- of the fence and those that go with it, the ones that were not released before
def SyncState.releases (base : Nat) (s : SyncState m) : List Handle :=
  if s.refs.fence base = 1 then
    ((base::s.below base).filter fun b => 0 < s.refs.fence b).filterMap s.kept
  else []

def SyncState.put (base : Nat) (s : SyncState m) : SyncState m :=
  {s with
    refs := s.refs.put base
    kept := if s.refs.fence base = 1 then
        fun b => if b = base ∨ b ∈ s.below base then none else s.kept b
      else s.kept}

def destroyFences (destroyed : DriverCall m) (handles : List Handle) : Sync m Unit :=
  whenever (handles ≠ []) (atomic (fun s => {s with registry := destroyed.after})
    (fun _ => handles.map .released) (fun _ => ()))

def putFence (destroyed : Nat → DriverCall m) (base : Nat) : Sync m Unit := do
  let handles ← observe (SyncState.releases base)
  atomic (SyncState.put base) (fun _ => []) (fun _ => ())
  destroyFences (destroyed base) handles

def putFences (destroyed : Nat → DriverCall m) : List Nat → Sync m Unit
  | [] => pure ()
  | base::rest => do
    putFence destroyed base
    putFences destroyed rest

def putArray (destroyed : Nat → DriverCall m) : Sync m Unit := do
  let array ← observe fun s => s.refs.array
  onRefs FenceRefs.lowerArray
  match array with
  | none => pure ()
  | some a => whenever (a.refs = 1) (putFences destroyed a.children)

section Steps
variable (h : Handle) (call : DriverCall m) (f : FenceRefs → FenceRefs) (g : HwSyncObj → HwSyncObj)
  (e : Errno) (s : SyncState m)

@[simp] theorem runFail : (fail e).run s = (.returned (.error e),s) := rfl
@[simp] theorem eventsFail : (fail e).events s = [] := rfl
@[simp] theorem runSucceed : succeed.run s = (.returned (.ok 0),s) := rfl
@[simp] theorem eventsSucceed : succeed.events s = [] := rfl
@[simp] theorem runPasses : (passes h).run s = ((),s) := rfl
@[simp] theorem eventsPasses : (passes h).events s = [.passed h] := rfl
@[simp] theorem runCall : (callDriver h call).run s = (call.answer,{s with registry := call.after}) := rfl
@[simp] theorem eventsCall : (callDriver h call).events s = [.passed h] := rfl
@[simp] theorem runOnObj : (onObj g).run s = ((),{s with obj := g s.obj}) := rfl
@[simp] theorem eventsOnObj : (onObj g).events s = [] := rfl
@[simp] theorem runOnRefs : (onRefs f).run s = ((),{s with refs := f s.refs}) := rfl
@[simp] theorem eventsOnRefs : (onRefs f).events s = [] := rfl

end Steps

section Puts
variable (destroyed : Nat → DriverCall m) (base : Nat) (bases : List Nat) (s : SyncState m)

def SyncState.drop : SyncState m :=
  {s.put base with registry := if s.releases base = [] then s.registry else (destroyed base).after}

@[simp] theorem runPutFence : (putFence destroyed base).run s = ((),s.drop destroyed base) := by
  unfold putFence destroyFences SyncState.drop
  rw [runBind,runObserve,runBind,runAtomic]
  by_cases none : s.releases base = []
  · simp [whenever,none]
    rfl
  · simp [whenever,none]

@[simp] theorem eventsPutFence :
    (putFence destroyed base).events s = (s.releases base).map .released := by
  unfold putFence destroyFences
  rw [eventsBind,eventsObserve,runObserve,eventsBind,eventsAtomic,runAtomic]
  by_cases none : s.releases base = []
  · simp [whenever,none]
  · simp [whenever,none]

def SyncState.drops : SyncState m := bases.foldl (fun s base => s.drop destroyed base) s

@[simp] theorem runPutFences :
    (putFences destroyed bases).run s = ((),s.drops destroyed bases) := by
  induction bases generalizing s with
  | nil => rfl
  | cons base rest ih =>
    rw [putFences,runBind,runPutFence,ih]
    rfl

@[simp] theorem dropsRefs : (s.drops destroyed bases).refs = s.refs.puts bases := by
  induction bases generalizing s with
  | nil => rfl
  | cons base rest ih => exact ih (s.drop destroyed base)

@[simp] theorem dropsObj : (s.drops destroyed bases).obj = s.obj := by
  induction bases generalizing s with
  | nil => rfl
  | cons base rest ih => exact ih (s.drop destroyed base)

@[simp] theorem getReleases : (s.get base).releases base = [] := by
  unfold SyncState.releases SyncState.get FenceRefs.get
  by_cases gone : s.refs.fence base ≤ 0
  · simp [gone]
  · have more : ¬ s.refs.fence base+1 = 1 := by omega
    simp [more]

theorem dropNone (destroyed : Nat → DriverCall m) {base : Nat} {s : SyncState m}
    (none : s.releases base = []) : (s.drop destroyed base).registry = s.registry := if_pos none

theorem runPutArray : ((putArray destroyed).run s).2.refs = s.refs.putArray ∧
    ((putArray destroyed).run s).2.obj = s.obj := by
  unfold putArray FenceRefs.putArray
  rw [runBind,runObserve,runBind,runOnRefs]
  cases array : s.refs.array with
  | none => simp [FenceRefs.lowerArray,array]
  | some a =>
    by_cases last : a.refs = 1
    · simp [whenever,last]
    · simp [whenever,last]

end Puts

def isValidClient (obj : HwSyncObj) : Bool :=
  ¬ (obj.clientId < hwFenceClientIdVal0 ∨ hwFenceClientIdVal6 < obj.clientId)

def efaultCode : Int := -14

def getClientId : Option Int → Int
  | none => efaultCode
  | some clientId =>
    if clientId < hwFenceClientIdVal0 ∨ hwFenceClientIdVal6 < clientId then einvalCode else clientId

def clientIdExt (clientId : Int) : Nat := (BitVec.ofInt 32 clientId).toNat

def hwSyncGetFence (syncFileGetFence : Int → Option SyncFence) (fd : Int) : Sync m (Option SyncFence) :=
  if 0 ≤ fd then
    match syncFileGetFence fd with
    | none => pure none
    | some fence => do
      atomic (SyncState.get fence.base) (fun _ => []) (fun _ => ())
      pure (some fence)
  else pure none

@[simp] theorem runGetFence (files : Int → Option SyncFence) (fd : Int) (s : SyncState m) :
    (hwSyncGetFence files fd).run s = (if 0 ≤ fd then files fd else none).elim (none,s)
      fun fence => (some fence,s.get fence.base) := by
  unfold hwSyncGetFence
  by_cases some : 0 ≤ fd
  · rw [if_pos some,if_pos some]
    cases files fd <;> rfl
  · rw [if_neg some,if_neg some]
    rfl

@[simp] theorem eventsGetFence (files : Int → Option SyncFence) (fd : Int) (s : SyncState m) :
    (hwSyncGetFence files fd).events s = [] := by
  unfold hwSyncGetFence
  by_cases some : 0 ≤ fd
  · rw [if_pos some]
    cases files fd <;> rfl
  · rw [if_neg some]
    rfl

-- `IS_ERR` is asked about the address of the local `client_id`: it is never an error
def hwSyncIoctlRegClient (p : Platform) (arg : Option Int) (kzalloc : Bool) : Sync m Outcome := do
  let clientId := getClientId arg
  let obj ← observe fun s => s.obj
  if ¬ obj.clientHandle.isNull then fail .einval
  else do
    onObj fun obj => {obj with clientId := clientId}
    let registered ← within registryPart .table (msmHwFenceRegister p (clientIdExt clientId) true kzalloc)
    match registered with
    | .error e => do
      onObj fun obj => {obj with clientHandle := .error e}
      fail .einval
    | .ok client => do
      atomic
        (fun s => {s with
          obj := {s.obj with clientHandle := .client s.grants client}
          grants := s.grants+1})
        (fun s => [.granted s.grants]) (fun _ => ())
      succeed

def hwSyncIoctlUnregClient (p : Platform) : Sync m Outcome := do
  let obj ← observe fun s => s.obj
  passes obj.clientHandle
  let status ← within registryPart .table (msmHwFenceDeregister p obj.clientHandle.client?)
  match status,obj.clientHandle with
  | .ok (),.client grant _ => do
    atomic id (fun _ => [.revoked grant]) (fun _ => ())
    succeed
  | .ok (),_ => succeed
  | .error e,_ => fail e

structure CreateFence (m : Nat) where
  data : Option (U64 × Bool)
  lockMem : Bool
  fenceMem : Bool
  base : Nat
  created : DriverCall m
  destroyed : DriverCall m
  newContext : U64
  unusedFd : Except Errno Nat
  syncFile : Bool
  copyBack : Bool

def CreateFence.putFence (call : CreateFence m) : Sync m Unit :=
  SyncIoctl.putFence (fun _ => call.destroyed) call.base

def SyncState.init (base : Nat) (s : SyncState m) : SyncState m :=
  {s with
    refs := {s.refs with fence := Function.update s.refs.fence base 1}
    kept := Function.update s.kept base none
    below := Function.update s.below base []}

def SyncState.keep (base : Nat) (handle : Handle) (s : SyncState m) : SyncState m :=
  {s with kept := Function.update s.kept base (some handle)}

def hwSyncIoctlCreateFence (call : CreateFence m) : Sync m Outcome := do
  let obj ← observe fun s => s.obj
  if ¬ isValidClient obj then fail .einval
  else if obj.clientHandle.isErrOrNull then fail .einval
  else
    match call.data with
    | none => fail .efault
    | some (_,incrContext) =>
      if ¬ call.lockMem ∨ ¬ call.fenceMem then fail .enomem
      else do
        atomic (SyncState.init call.base) (fun _ => []) (fun _ => ())
        let status ← callDriver obj.clientHandle call.created
        match status with
        | .error _ => do
          call.putFence
          fail .einval
        | .ok () => do
          atomic (SyncState.keep call.base obj.clientHandle) (fun _ => []) (fun _ => ())
          whenever (incrContext = true) (onObj fun obj => {obj with context := call.newContext})
          match call.unusedFd with
          | .error e => do
            call.putFence
            fail e
          | .ok _ =>
            if ¬ call.syncFile then do
              call.putFence
              fail .einval
            else do
              onRefs (FenceRefs.get call.base)
              call.putFence
              if ¬ call.copyBack then do
                call.putFence
                -- the file's reference
                call.putFence
                fail .efault
              else succeed

structure RegForWait (m : Nat) where
  fd : Option Int
  syncFileGetFence : Int → Option SyncFence
  waited : DriverCall m
  destroyed : Nat → DriverCall m

def hwSyncIoctlRegForWait (call : RegForWait m) : Sync m Outcome := do
  let obj ← observe fun s => s.obj
  if ¬ isValidClient obj then fail .einval
  else
    match call.fd with
    | none => fail .efault
    | some fd => do
      let fence ← hwSyncGetFence call.syncFileGetFence fd
      match fence with
      | none => fail .einval
      | some fence => do
        let status ← callDriver obj.clientHandle call.waited
        putFence call.destroyed fence.base
        match status with
        | .error e => fail e
        | .ok () => succeed

structure FenceSignalCall (m : Nat) where
  copied : Bool
  updated : DriverCall m
  triggered : DriverCall m

def dbgOutClientsSignalIds : List Int := [0,0,2,4,6,8,10,12,21,22,23,24,25,26,27]

def hwSyncIoctlFenceSignal (call : FenceSignalCall m) : Sync m Outcome := do
  let obj ← observe fun s => s.obj
  if ¬ isValidClient obj then fail .einval
  else if obj.clientHandle.isErrOrNull then fail .einval
  else if ¬ call.copied then fail .efault
  else do
    let updated ← callDriver obj.clientHandle call.updated
    match updated with
    | .error e => fail e
    | .ok () =>
      if dbgOutClientsSignalIds.getD obj.clientId.toNat 0 < 0 then fail .einval
      else do
        let triggered ← callDriver obj.clientHandle call.triggered
        match triggered with
        | .error e => fail e
        | .ok () => succeed

/-- The wait meets its argument (fd, timeout), the signal in time or not, and whatever
the local payload holds. -/
structure FenceWait (m : Nat) where
  data : Option (Int × U64)
  syncFileGetFence : Int → Option SyncFence
  arrived : Bool
  payload : Payload
  destroyed : Nat → DriverCall m

def fenceWaitRead (handle : Handle) (client : HwFenceClient) (fence : DmaFence) (payload : Payload) :
    Sync m (Pass Payload (Except Errno Nat)) := do
  passes handle
  within dataPart .driver (fenceWaitPass client fence payload)

def hwSyncIoctlFenceWait (call : FenceWait m) (reads : Nat) : Sync m Outcome := do
  let obj ← observe fun s => s.obj
  if ¬ isValidClient obj then fail .einval
  else
    match call.data with
    | none => fail .efault
    | some (fd,_) => do
      let fence ← hwSyncGetFence call.syncFileGetFence fd
      match fence with
      | none => fail .einval
      | some fence =>
        match obj.clientHandle with
        | .null => do
          putFence call.destroyed fence.base
          fail .einval
        | .error _ => pure .faulted
        | .client grant client =>
          if ¬ call.arrived then do
            putFence call.destroyed fence.base
            fail .etimedout
          else do
            atomic id (fun _ => [.signalCleared grant]) (fun _ => ())
            let read ← loop (fenceWaitRead obj.clientHandle client fence.fence) (reads+1) call.payload
            match read with
            | none => pure .running
            | some read => do
              putFence call.destroyed fence.base
              pure (.returned read)

structure ResetCall (m : Nat) where
  copied : Bool
  reset : DriverCall m

def hwSyncIoctlResetClient (call : ResetCall m) : Sync m Outcome := do
  let obj ← observe fun s => s.obj
  if ¬ isValidClient obj then fail .einval
  else if obj.clientHandle.isErrOrNull then fail .einval
  else if ¬ call.copied then fail .efault
  else do
    let status ← callDriver obj.clientHandle call.reset
    match status with
    | .error e => fail e
    | .ok () => succeed

def hwFenceArraySize : Nat := 10

/-- What `create_fence_array` meets; the first `num_fences` entries of `fences` are descriptors. -/
structure CreateFenceArray (m : Nat) where
  data : Option (Int × (Nat → U64))
  kcalloc : Bool
  syncFileGetFence : Int → Option SyncFence
  arrayMem : Bool
  unusedFd : Except Errno Nat
  syncFile : Bool
  copyBack : Bool
  destroyed : Nat → DriverCall m

-- the loop's index runs down, but the fence put is always `fences[i]`
def putChildFences (i : Int) (fences : List Nat) : List Nat :=
  List.replicate (i+1).toNat (fences.getD i.toNat 0)

def getChildFences (call : CreateFenceArray m) : List Int → List Nat → Sync m (Except Errno (List Nat))
  | [],fences => pure (.ok fences)
  | fd::rest,fences =>
    if fd ≤ 0 then pure (.error .einval)
    else do
      let fence ← hwSyncGetFence call.syncFileGetFence fd
      match fence with
      | none => do
        putFences call.destroyed (putChildFences (fences.length-1) fences)
        pure (.error .einval)
      | some fence => getChildFences call rest (fences ++ [fence.base])

def makeFenceArray (call : CreateFenceArray m) (fences : List Nat) : Sync m Outcome :=
  if ¬ call.arrayMem then do
    putFences call.destroyed fences
    fail .einval
  else do
    onRefs (FenceRefs.createArray fences)
    match call.unusedFd with
    | .error e => do
      putArray call.destroyed
      fail e
    | .ok fd =>
      if fd = 0 then do
        putArray call.destroyed
        succeed
      else if ¬ call.syncFile then do
        putArray call.destroyed
        onRefs FenceRefs.freeArray
        fail .einval
      else do
        onRefs FenceRefs.getArray
        putArray call.destroyed
        if ¬ call.copyBack then do
          -- the file's reference, and one more
          putArray call.destroyed
          putArray call.destroyed
          fail .efault
        else succeed

def hwSyncIoctlCreateFenceArray (call : CreateFenceArray m) : Sync m Outcome := do
  let obj ← observe fun s => s.obj
  if ¬ isValidClient obj then fail .einval
  else if obj.clientHandle.isErrOrNull then fail .einval
  else
    match call.data with
    | none => fail .efault
    | some (numFences,data) =>
      if hwFenceArraySize ≤ numFences then fail .einval
      -- a negative count is too large a size
      else if ¬ call.kcalloc ∨ numFences < 0 then fail .enomem
      else do
        let fds := (List.range numFences.toNat).map fun i => ((data i).setWidth 32).toInt
        let fences ← getChildFences call fds []
        match fences with
        | .error e => fail e
        | .ok fences => makeFenceArray call fences

end Model
end MmDrivers.SyncIoctl

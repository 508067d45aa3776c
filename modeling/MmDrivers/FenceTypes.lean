import Mathlib
import MmDrivers.Lib.Sections

/-! Data of the hw-fence driver: the global fence table, the client queues in the
carved-out memory, the registered clients and the driver data that ties them.
Machine integers keep their width where the code computes with them; a hash is
only ever compared or used as an index once it is reduced, and stays a `Nat`. -/
namespace MmDrivers.FenceTypes
open Sections

abbrev U16 := BitVec 16
abbrev U32 := BitVec 32
abbrev U64 := BitVec 64

/-- `BIT(nr)` of an unsigned long. C leaves a shift by 64 or more undefined; the
arm64 shift the driver is built for takes the amount modulo 64. -/
def bit (nr : Nat) : U64 := 1#64 <<< (nr % 64)

inductive Errno where
  | eperm | enxio | eagain | enomem | efault | eexist | enodev | einval | emfile | erange
  | enodata | etimedout | eprobeDefer
  deriving DecidableEq, Repr

abbrev Status := Except Errno Unit

def hwFenceInvalidParentFence : Nat := 2^64-1
def hwFenceHashAMult : U64 := 4969
def hwFenceHashCMult : U64 := 907
def hwFenceJoinFenceClientId : Nat := 2^32-1
def msmHwFenceFlagSignal : U64 := bit 0
def msmHwFenceMaxJoinParents : Nat := 3
def hwFenceClientQueues : Nat := 2
def hwFenceTxQueue : Nat := 1
def hwFenceRxQueue : Nat := 2

/- The client ids the driver compares against, as the kernel header numbers them. -/
def hwFenceClientIdCtx0 : Nat := 1
def hwFenceClientIdVal0 : Nat := 8
def hwFenceClientIdVal1 : Nat := 9
def hwFenceClientIdVal6 : Nat := 14
def hwFenceClientIdIpe : Nat := 15
def hwFenceClientIdVpu : Nat := 16
def msmHwFenceMaxSignalPerClient : Nat := 32
def hwFenceClientIdIfe (k : Nat) : Nat := 17+msmHwFenceMaxSignalPerClient*k
def hwFenceClientMax : Nat := hwFenceClientIdIfe 7+msmHwFenceMaxSignalPerClient

/-- `enum hw_fence_client_data_id`; its maximum, the invalid id, is `none`. -/
inductive ClientDataId where | ctx0 | ipe | vpu | val0 | val1
  deriving DecidableEq, Repr

instance : Fintype ClientDataId :=
  ⟨{.ctx0,.ipe,.vpu,.val0,.val1},by intro id; cases id <;> decide⟩

def hwFenceGetClientDataId (clientId : Nat) : Option ClientDataId :=
  if clientId = hwFenceClientIdCtx0 then some .ctx0
  else if clientId = hwFenceClientIdVal0 then some .val0
  else if clientId = hwFenceClientIdVal1 then some .val1
  else if clientId = hwFenceClientIdIpe then some .ipe
  else if clientId = hwFenceClientIdVpu then some .vpu
  else none

abbrev Key := U64 × U64

structure HwFence where
  valid : Bool
  error : U32
  ctxId : U64
  seqId : U64
  waitClientMask : U64
  fenceAllocator : Nat
  fenceSignalClient : Nat
  flags : U64
  parentList : Vector Nat msmHwFenceMaxJoinParents
  parentsCnt : U32
  pendingChildCnt : U32
  fenceCreateTime : U64
  fenceTriggerTime : U64
  fenceWaitTime : U64
  debugRefcount : U64
  clientData : ClientDataId → U64
  deriving DecidableEq

namespace HwFence

def zeroed : HwFence :=
  ⟨false,0,0,0,0,0,0,0,Vector.replicate _ 0,0,0,0,0,0,0,fun _ => 0⟩

def signaled (f : HwFence) : Bool := f.flags &&& msmHwFenceFlagSignal ≠ 0

def key (f : HwFence) : Key := (f.ctxId,f.seqId)

def parents (f : HwFence) : List Nat := f.parentList.toList.take f.parentsCnt.toNat

end HwFence

structure Payload where
  ctxtId : U64
  seqno : U64
  hash : U64
  flags : U64
  clientData : U64
  error : U32
  deriving DecidableEq, Repr

structure ClientQueue where
  readIndex : U32
  writeIndex : U32
  txWm : U32
  word : Nat → U32

structure QueueDesc where
  qSizeBytes : U32
  vaHeader : Bool
  deriving DecidableEq, Repr

/-- A registered client; registration turns away id 0 and what lies past the enumeration. -/
structure HwFenceClient where
  clientId : Nat
  queues : Nat → QueueDesc
  ipcSignalId : Nat
  ipcClientVid : Nat
  updateRxq : Bool
  sendIpc : Bool
  skipTxqWrIdx : Bool
  known : 0 < clientId ∧ clientId < hwFenceClientMax

structure DmaFence where
  context : U64
  seqno : U64
  isArray : Bool
  hwFenceEnabled : Bool
  deriving DecidableEq, Repr

/-- A `dma_fence_array`: what lies past `num_fences` is whatever the memory
there holds; the first `num_fences` entries are fences. -/
structure DmaFenceArray where
  context : U64
  seqno : U64
  numFences : U32
  fences : Option (Nat → Option DmaFence)
  filled : ∀ i < numFences.toNat, ∃ mem, fences = some mem ∧ (mem i).isSome

namespace DmaFenceArray

def child (array : DmaFenceArray) (i : Nat) : Option DmaFence := array.fences.bind (· i)

theorem childSome (array : DmaFenceArray) {i : Nat} (inside : i < array.numFences.toNat) :
    (array.child i).isSome := by
  obtain ⟨mem,fences,some⟩ := array.filled i inside
  simpa [child,fences] using some

def children (array : DmaFenceArray) : List DmaFence :=
  (List.finRange array.numFences.toNat).map fun i =>
    (array.child i.val).get (array.childSome i.isLt)

@[simp] theorem childrenLength (array : DmaFenceArray) :
    array.children.length = array.numFences.toNat := by simp [children]

theorem childrenAt (array : DmaFenceArray) {i : Nat} (inside : i < array.numFences.toNat) :
    array.children[i]? = array.child i := by
  simp [children,inside]

end DmaFenceArray

structure Signal where
  clientId : Nat
  context : U64
  seqno : U64
  hash : Nat
  flags : U64
  clientData : U64
  error : U32
  deriving DecidableEq, Repr

inductive Event where
  | lock (slot : Nat)
  | unlock (slot : Nat)
  | lockClient (idx : Nat)
  | unlockClient (idx : Nat)
  | found (slot : Nat)
  | reserve (slot : Nat) (context seqno : U64)
  | unreserve (slot : Nat)
  | waitBit (slot clientId : Nat)
  | readFlags (slot : Nat)
  | link (child join : Nat)
  | unlink (child join : Nat)
  | signal (s : Signal)
  | ipc (txClientId rxClientId signalId : Nat)
  | valSignal (clientId : Nat)
  | setSignaledBit (context seqno : U64)
  | fencesAt (index : Nat)
  | queueWord (clientId queueType word : Nat)
  deriving DecidableEq, Repr

def Event.onTable : Event → Bool
  | .found _ | .reserve .. | .unreserve _ | .waitBit .. | .link .. | .unlink .. => true
  | _ => false

def signals (events : List Event) : List Signal :=
  events.filterMap fun | .signal s => some s | _ => none

@[simp] theorem signalsNil : signals [] = [] := rfl
@[simp] theorem signalsAppend (a b : List Event) : signals (a ++ b) = signals a ++ signals b := by
  simp [signals]

structure DriverData (m : Nat) where
  tbl : Fin m → HwFence
  rxqClientsNum : Nat
  clientsNum : Nat
  clientLockTblCnt : Nat
  ipccClientPid : Nat
  queuesNum : Nat → Nat
  clients : Nat → Option HwFenceClient
  queue : Nat → Nat → ClientQueue
  qtime : U64
  resourcesReady : Bool
  vmReady : Bool
  -- hw_fence_table_entries is a u32
  entries : m < 2^32
  -- registration stores a client under its own id
  ownId : ∀ id c, clients id = some c → c.clientId = id

def HwFenceClient.plain (id : Nat) (known : 0 < id ∧ id < hwFenceClientMax) : HwFenceClient :=
  ⟨id,fun _ => ⟨0,false⟩,0,0,false,false,false,known⟩

theorem oneKnown : 0 < 1 ∧ 1 < hwFenceClientMax := by decide
theorem twoKnown : 0 < 2 ∧ 2 < hwFenceClientMax := by decide
theorem oneEntry : 1 < 2^32 := by decide
theorem twoEntries : 2 < 2^32 := by decide
theorem noneRegistered (id : Nat) (c : HwFenceClient) (found : none = some c) : c.clientId = id := by
  contradiction

theorem HwFenceClient.notJoin (c : HwFenceClient) : c.clientId ≠ hwFenceJoinFenceClientId := by
  have known := c.known.2
  simp only [hwFenceClientMax,hwFenceClientIdIfe,msmHwFenceMaxSignalPerClient] at known
  simp only [hwFenceJoinFenceClientId]
  omega

namespace DriverData
variable {m : Nat}

def unused (m : Nat) (entries : m < 2^32) : DriverData m where
  tbl := fun _ => .zeroed
  rxqClientsNum := 0
  clientsNum := 0
  clientLockTblCnt := 0
  ipccClientPid := 0
  queuesNum := fun _ => 0
  clients := fun _ => none
  queue := fun _ _ => ⟨0,0,0,fun _ => 0⟩
  qtime := 0
  resourcesReady := true
  vmReady := true
  entries := entries
  ownId := by simp

def live (d : DriverData m) (key : Key) (i : Fin m) : Prop :=
  (d.tbl i).valid = true ∧ (d.tbl i).key = key

instance (d : DriverData m) (key i) : Decidable (d.live key i) := inferInstanceAs (Decidable (_ ∧ _))

def onSlot (d : DriverData m) (i : Fin m) (f : HwFence → HwFence) : DriverData m :=
  {d with tbl := Function.update d.tbl i (f (d.tbl i))}

def onQueue (d : DriverData m) (clientId queueType : Nat) (f : ClientQueue → ClientQueue) :
    DriverData m :=
  let queues := Function.update (d.queue clientId) queueType (f (d.queue clientId queueType))
  {d with queue := Function.update d.queue clientId queues}

@[simp] theorem onQueueSame (d : DriverData m) (clientId queueType f) :
    (d.onQueue clientId queueType f).queue clientId queueType =
      f (d.queue clientId queueType) := by simp [onQueue]
theorem onQueueOther (d : DriverData m) (clientId f) {queueType other : Nat} (ne : other ≠ queueType) :
    (d.onQueue clientId queueType f).queue clientId other = d.queue clientId other := by
  simp [onQueue,ne]
@[simp] theorem onQueueQueuesNum (d : DriverData m) (clientId queueType f) :
    (d.onQueue clientId queueType f).queuesNum = d.queuesNum := rfl
@[simp] theorem onQueueLockTblCnt (d : DriverData m) (clientId queueType f) :
    (d.onQueue clientId queueType f).clientLockTblCnt = d.clientLockTblCnt := rfl

@[simp] theorem onSlotTbl (d : DriverData m) (i f) :
    (d.onSlot i f).tbl = Function.update d.tbl i (f (d.tbl i)) := rfl
@[simp] theorem onSlotSame (d : DriverData m) (i f) : (d.onSlot i f).tbl i = f (d.tbl i) := by simp
theorem onSlotOther (d : DriverData m) {i j} (f) (h : j ≠ i) : (d.onSlot i f).tbl j = d.tbl j := by
  simp [h]
@[simp] theorem onSlotId (d : DriverData m) (i) : d.onSlot i (fun f => f) = d := by
  simp [onSlot]

end DriverData

abbrev Driver (m : Nat) (α : Type) := Prog Event (DriverData m) α

end MmDrivers.FenceTypes

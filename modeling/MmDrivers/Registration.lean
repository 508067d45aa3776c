import MmDrivers.IpcMap
import MmDrivers.RxClients

/-! Registering a client: which entries of the per-client tables it looks at, and
whether they are inside of the tables that the initialisation left. -/
namespace MmDrivers.Registration
open Sections Sections.Prog FenceTypes DeviceTree GivenClients CarveOut ClientIds IpcMap RxClients

def hwFenceIpccHwRev100 : Nat := 0x00010000
def hwFenceIpccHwRev110 : Nat := 0x00010100
def hwFenceIpccHwRev170 : Nat := 0x00010700
def hwFenceIpccHwRev203 : Nat := 0x00020003

def hwFenceIpcComputeL1ProtocolIdLahaina : Int := 2
def hwFenceIpcComputeL1ProtocolIdWaipio : Int := 1
def hwFenceIpcComputeL1ProtocolIdKalama : Int := 2
def hwFenceIpcFenceProtocolIdPineapple : Int := 4

structure Ipcc where
  ipccClientVid : Int
  ipccClientPid : Int
  protocolId : Int
  ipcClientsTable : Option (List HwFenceClientIpcMap)
  deriving DecidableEq, Repr

def Ipcc.zeroed : Ipcc := ⟨0,0,0,none⟩

def hwFenceIpccHwrevInit (debugFs : Bool) (d : DtData) (kzalloc : Nat → Bool) (hwrev : Nat) :
    Except Stop Unit × Ipcc :=
  if hwrev = hwFenceIpccHwRev100 then
    (.ok (),⟨hwFenceIpcClientIdAppsVid,hwFenceIpcClientIdAppsVid,
      hwFenceIpcComputeL1ProtocolIdLahaina,some (hwFenceClientsIpcMapNoDpu debugFs)⟩)
  else if hwrev = hwFenceIpccHwRev110 then
    (.ok (),⟨hwFenceIpcClientIdAppsVid,hwFenceIpcClientIdAppsVid,
      hwFenceIpcComputeL1ProtocolIdWaipio,some (hwFenceClientsIpcMapNoDpu debugFs)⟩)
  else if hwrev = hwFenceIpccHwRev170 then
    (.ok (),⟨hwFenceIpcClientIdAppsVid,hwFenceIpcClientIdAppsVid,
      hwFenceIpcComputeL1ProtocolIdKalama,some (hwFenceClientsIpcMap debugFs)⟩)
  else if hwrev = hwFenceIpccHwRev203 then
    let built := hwFenceIpccInitMapWithConfigurableClients d.clientsNum d.hwFenceClientTypes
      (hwFenceClientsIpcMapV2 debugFs) kzalloc
    (built.map fun _ => (),⟨hwFenceIpcClientIdAppsVid,hwFenceIpcClientIdAppsPid,
      hwFenceIpcFenceProtocolIdPineapple,built.toOption⟩)
  else (.error (.failed .eperm),.zeroed)

/-- The build, and what initialisation left; `beyond` is the memory behind the ipc mapping. -/
structure Platform where
  debugFs : Bool
  dpuIpcc : Bool
  dt : DtData
  size : Nat
  ipcc : Ipcc
  beyond : Nat → HwFenceClientIpcMap
  -- id 0 is the control queue: no client type has it
  ctrlId : (dt.hwFenceClientQueueSize 0).memSize = 0

namespace Platform
variable (p : Platform)

def mapLength : Nat := (p.ipcc.ipcClientsTable.getD []).length
def row (i : Nat) : HwFenceClientIpcMap := (p.ipcc.ipcClientsTable.getD []).getD i (p.beyond i)

theorem reservedId {clientId : Nat} {region : Layout.Region}
    (reserved : hwFenceUtilsReserveMem p.dt p.size (.clientQueue clientId) = .ok region) :
    0 < clientId := by
  refine Nat.pos_of_ne_zero fun ctrl => ?_
  subst ctrl
  simp only [hwFenceUtilsReserveMem,p.ctrlId] at reserved
  split at reserved <;> try contradiction
  split at reserved <;> contradiction

end Platform

/-- The accesses to the tables that initialisation allocates, and the register writes. -/
inductive DataAccess where
  | clientTypes (i : Nat)
  | clientQueueSize (i : Nat)
  | clients (i : Nat)
  | ipcClientsTable (i : Nat)
  | writel (offset val : Int)
  deriving DecidableEq, Repr

structure Registry (m : Nat) where
  d : DriverData m
  ipccDpuInitialized : Bool

abbrev Registering (m : Nat) (α : Type) := Prog DataAccess (Registry m) α

section Accessors
variable {m : Nat} (p : Platform) (clientId : Nat)

def touch {α : Type} (a : DataAccess) (read : Registry m → α) : Registering m α :=
  atomic id (fun _ => [a]) read

/-- `-EINVAL` where a function returns an id or an error. -/
def einvalCode : Int := -22

def ipccGet {α : Type} (bound : Nat) (otherwise : α) (field : HwFenceClientIpcMap → α) :
    Registering m α :=
  if bound ≤ clientId then pure otherwise
  else touch (.ipcClientsTable clientId) fun _ => field (p.row clientId)

def hwFenceIpccGetClientVirtId : Registering m Int :=
  ipccGet p clientId p.dt.clientsNum einvalCode HwFenceClientIpcMap.ipcClientIdVirt
def hwFenceIpccGetClientPhysId : Registering m Int :=
  ipccGet p clientId p.dt.clientsNum einvalCode HwFenceClientIpcMap.ipcClientIdPhys
def hwFenceIpccGetSignalId : Registering m Int :=
  ipccGet p clientId p.dt.clientsNum einvalCode HwFenceClientIpcMap.ipcSignalId
def hwFenceIpccNeedsRxqUpdate : Registering m Bool :=
  ipccGet p clientId p.dt.clientsNum false HwFenceClientIpcMap.updateRxq
-- the one accessor that is not bounded by the number of clients
def hwFenceIpccNeedsIpcIrq : Registering m Bool :=
  ipccGet p clientId hwFenceClientMax false HwFenceClientIpcMap.sendIpc

def hwFenceUtilsSkipsTxqWrIdx : Registering m Bool :=
  if p.dt.clientsNum ≤ clientId then pure false
  else touch (.clientQueueSize clientId) fun _ =>
    (p.dt.hwFenceClientQueueSize clientId).skipTxqWrIdx

def getClientIdPriv (clientIdExt : Nat) : Registering m Nat :=
  let clientId := hwFenceUtilsGetClientIdPriv p.dt.hwFenceClientTypes clientIdExt
  let clientType := hwFenceMaxClientTypeStatic+
    (clientIdExt-hwFenceMaxStaticClientsIndex)/msmHwFenceMaxSignalPerClient
  if clientIdExt < hwFenceMaxStaticClientsIndex then pure clientId
  else do
    touch (.clientTypes clientType) fun _ => ()
    if clientId = hwFenceClientMax then pure clientId
    else atomic id (fun _ => (List.range' hwFenceMaxClientTypeStatic
      (clientType-hwFenceMaxClientTypeStatic)).map .clientTypes) (fun _ => clientId)

def ipcProtocolClientConfig (protocol client : Int) : Int := 0x8+0x40000*protocol+0x1000*client
def ipcProtocolClientRecvSignalEnable (protocol client : Int) : Int :=
  0x14+0x40000*protocol+0x1000*client

def writel (offset val : Int) : Registering m Unit := touch (.writel offset val) fun _ => ()

def enableDpuClients : List Nat → Bool → Registering m Unit
  | [],_ => pure ()
  | i::rest,protocolEnabled => do
    let row ← touch (.ipcClientsTable i) fun _ => p.row i
    if row.ipcClientIdVirt ≠ hwFenceIpcClientIdDpuVid then enableDpuClients rest protocolEnabled
    else do
      whenever (¬ protocolEnabled)
        (writel (ipcProtocolClientConfig p.ipcc.protocolId row.ipcClientIdPhys) 1)
      writel (ipcProtocolClientRecvSignalEnable p.ipcc.protocolId row.ipcClientIdPhys)
        (hwFenceIpcClientIdAppsVid*0x10000+row.ipcSignalId % 0x10000)
      enableDpuClients rest true

def hwFenceIpccEnableDpuSignaling : Registering m Status :=
  if p.ipcc.protocolId = 0 ∨ p.ipcc.ipcClientsTable = none then pure (.error .eperm)
  else do
    enableDpuClients p (List.range p.dt.clientsNum) false
    pure (.ok ())

def hwFenceClientIdCtl0 : Nat := 2
def hwFenceClientIdCtl5 : Nat := 7

def hwFenceInitControllerSignal : Registering m Status :=
  if clientId = hwFenceClientIdCtx0 then pure (.ok ())
  else if p.debugFs ∧ hwFenceClientIdVal0 ≤ clientId ∧ clientId ≤ hwFenceClientIdVal6 then
    pure (.ok ())
  else if hwFenceClientIdCtl0 ≤ clientId ∧ clientId ≤ hwFenceClientIdCtl5 then do
    let initialized ← observe Registry.ipccDpuInitialized
    if p.dpuIpcc ∧ ¬ initialized then do
      atomic (fun s => {s with ipccDpuInitialized := true}) (fun _ => []) (fun _ => ())
      let _ ← hwFenceIpccEnableDpuSignaling p
      pure (.ok ())
    else pure (.ok ())
  else if clientId = hwFenceClientIdIpe ∨ clientId = hwFenceClientIdVpu ∨
      (hwFenceClientIdIfe 0 ≤ clientId ∧
        clientId ≤ hwFenceClientIdIfe 7+msmHwFenceMaxSignalPerClient-1) then pure (.ok ())
  else pure (.error .einval)

end Accessors

section Register
variable {m : Nat} (p : Platform)

structure ClientQueues (clientId : Nat) where
  queues : Nat → QueueDesc
  reserved : 0 < clientId

-- the indices of the headers are left as they are
def initHwFencesQueues (clientId queuesNum : Nat) :
    Registering m (Except Errno (ClientQueues clientId)) :=
  if p.dt.clientsNum ≤ clientId then pure (.error .einval)
  else do
    let desc ← touch (.clientQueueSize clientId) fun _ => p.dt.hwFenceClientQueueSize clientId
    let queueSize := u32 (hwFenceClientQueuePayload*desc.queueEntries)
    touch (.clientQueueSize clientId) fun _ => ()
    match reserved : hwFenceUtilsReserveMem p.dt p.size (.clientQueue clientId) with
    | .error _ => pure (.error .enomem)
    | .ok _ => pure (.ok ⟨fun i =>
        if i < queuesNum then ⟨BitVec.ofNat 32 queueSize,true⟩ else ⟨0,false⟩,p.reservedId reserved⟩)

def hwFenceAllocClientResources (clientId : Nat) :
    Registering m (Except Errno (ClientQueues clientId)) := do
  let desc ← touch (.clientQueueSize clientId) fun _ => p.dt.hwFenceClientQueueSize clientId
  initHwFencesQueues p clientId desc.queuesNum

def setClient (s : Registry m) (clientId : Nat) (client : Option HwFenceClient)
    (own : ∀ c, client = some c → c.clientId = clientId) : Registry m :=
  {s with d := {s.d with
    clients := Function.update s.d.clients clientId client
    ownId := fun id c found => by
      by_cases same : id = clientId
      · subst same
        exact own c (by simpa using found)
      · exact s.d.ownId id c (by simpa [same] using found)}}

def updatesRxqOfTxqOnly (clientId : Nat) (updateRxq : Bool) : Registering m Bool :=
  if updateRxq then touch (.clientQueueSize clientId) fun _ =>
    decide ((p.dt.hwFenceClientQueueSize clientId).queuesNum < hwFenceClientQueues)
  else pure false

-- from the mark in clients on; an error takes the mark back
def registerClient (clientId : Nat) (below : clientId < hwFenceClientMax) :
    Registering m (Except Errno HwFenceClient) := do
  let vid ← hwFenceIpccGetClientVirtId p clientId
  let pid ← hwFenceIpccGetClientPhysId p clientId
  if vid ≤ 0 ∨ pid ≤ 0 then pure (.error .einval)
  else do
    let signalId ← hwFenceIpccGetSignalId p clientId
    if signalId < 0 then pure (.error .einval)
    else do
      let updateRxq ← hwFenceIpccNeedsRxqUpdate p clientId
      let txqOnly ← updatesRxqOfTxqOnly p clientId updateRxq
      if txqOnly then pure (.error .einval)
      else do
        let sendIpc ← hwFenceIpccNeedsIpcIrq p clientId
        let skipTxqWrIdx ← hwFenceUtilsSkipsTxqWrIdx p clientId
        match ← hwFenceAllocClientResources p clientId with
        | .error e => pure (.error e)
        | .ok queues =>
          match ← hwFenceInitControllerSignal p clientId with
          | .error e => pure (.error e)
          | .ok () => pure (.ok ⟨clientId,queues.queues,signalId.toNat,vid.toNat,updateRxq,sendIpc,
              skipTxqWrIdx,queues.reserved,below⟩)

def msmHwFenceRegister (clientIdExt : Nat) (memDescriptor kzalloc : Bool) :
    Registering m (Except Errno HwFenceClient) := do
  let ready ← observe fun s => s.d.resourcesReady
  if ¬ ready then pure (.error .eagain)
  else if ¬ memDescriptor ∨ hwFenceClientMax ≤ clientIdExt then pure (.error .einval)
  else do
    let clientId ← getClientIdPriv p clientIdExt
    if unknown : hwFenceClientMax ≤ clientId then pure (.error .einval)
    else if ¬ kzalloc then pure (.error .enomem)
    else do
      let registered ← touch (.clients clientId) fun s => (s.d.clients clientId).isSome
      if registered then pure (.error .einval)
      else do
        let client ← registerClient p clientId (Nat.lt_of_not_le unknown)
        match client with
        | .error e => pure (.error e)
        | .ok client =>
          atomic (fun s => setClient s client.clientId (some client) (by simp)) (fun _ => [])
            (fun _ => .ok client)

def hwFenceCleanupClient (clientId : Nat) : Registering m Unit :=
  atomic (fun s => setClient s clientId none (noneRegistered clientId)) (fun _ => [.clients clientId]) (fun _ => ())

def msmHwFenceDeregister : Option HwFenceClient → Registering m Status
  | none => pure (.error .einval)
  | some client =>
    if p.dt.clientsNum ≤ client.clientId then pure (.error .einval)
    else do
      hwFenceCleanupClient client.clientId
      pure (.ok ())

end Register

section Reads
variable {m : Nat} {p : Platform} {clientId : Nat}

def RowsIn (rows : Nat → Prop) (_upd : Registry m → Registry m)
    (ev : Registry m → List DataAccess) : Prop :=
  ∀ s i, DataAccess.ipcClientsTable i ∈ ev s → rows i

structure Looks (rows : Nat → Prop) (upd : Registry m → Registry m)
    (ev : Registry m → List DataAccess) : Prop where
  keeps : ∀ s, (upd s).d = s.d
  rows : RowsIn rows upd ev

theorem Looks.mono {rows rows' : Nat → Prop} (imp : ∀ i, rows i → rows' i)
    {upd : Registry m → Registry m} {ev : Registry m → List DataAccess} (looks : Looks rows upd ev) :
    Looks rows' upd ev := ⟨looks.keeps,fun s i mem => imp i (looks.rows s i mem)⟩

theorem touchLooks {α : Type} {a : DataAccess} (read : Registry m → α) {rows : Nat → Prop}
    (own : ∀ i, a = .ipcClientsTable i → rows i) :
    (touch a read : Registering m α).Each (Looks rows) :=
  eachAtomic ⟨fun _ => rfl,fun _ i mem => own i (List.mem_singleton.mp mem).symm⟩

theorem ipccGetLooks {α : Type} (bound : Nat) (otherwise : α) (field : HwFenceClientIpcMap → α) :
    (ipccGet p clientId bound otherwise field : Registering m α).Each (Looks (· = clientId)) := by
  unfold ipccGet
  refine eachIte (fun _ => trivial) fun _ => touchLooks _ fun i same => ?_
  injection same with same
  exact same.symm

theorem enableDpuLooks (ids : List Nat) (enabled : Bool) :
    (enableDpuClients p ids enabled : Registering m Unit).Each (Looks (· ∈ ids)) := by
  induction ids generalizing enabled with
  | nil => trivial
  | cons i rest ih =>
    have later : ∀ b, (enableDpuClients p rest b : Registering m Unit).Each (Looks (· ∈ i::rest)) :=
      fun b => eachMono (fun _ _ => Looks.mono fun _ => List.mem_cons_of_mem _) (ih b)
    have write : ∀ offset val, (writel offset val : Registering m Unit).Each (Looks (· ∈ i::rest)) :=
      fun _ _ => touchLooks _ nofun
    unfold enableDpuClients
    refine eachBind (touchLooks _ fun j same => ?_) fun row => ?_
    · injection same with same
      exact same ▸ List.mem_cons_self
    · refine eachIte (fun _ => later _) fun _ => ?_
      exact eachBind (eachWhenever fun _ => write _ _) fun _ =>
        eachBind (write _ _) fun _ => later _

theorem dpuSignalingLooks : (hwFenceIpccEnableDpuSignaling p : Registering m Status).Each
    (Looks (· < p.dt.clientsNum)) := by
  unfold hwFenceIpccEnableDpuSignaling
  refine eachIte (fun _ => trivial) fun _ => eachBind ?_ fun _ => trivial
  exact eachMono (fun _ _ => Looks.mono fun _ => List.mem_range.mp) (enableDpuLooks _ _)

theorem controllerSignalLooks : (hwFenceInitControllerSignal p clientId : Registering m Status).Each
    (Looks (· < p.dt.clientsNum)) := by
  unfold hwFenceInitControllerSignal
  refine eachIte (fun _ => trivial) fun _ => eachIte (fun _ => trivial) fun _ =>
    eachIte (fun _ => ?_) fun _ => eachIte (fun _ => trivial) fun _ => trivial
  refine eachBind (eachAtomic ⟨fun _ => rfl,fun s i mem => by simp at mem⟩) fun initialized =>
    eachIte (fun _ => ?_) fun _ => trivial
  exact eachBind (eachAtomic ⟨fun _ => rfl,fun s i mem => by simp at mem⟩) fun _ =>
    eachBind dpuSignalingLooks fun _ => trivial

theorem allocLooks {rows : Nat → Prop} :
    (hwFenceAllocClientResources p clientId : Registering m _).Each (Looks rows) := by
  unfold hwFenceAllocClientResources initHwFencesQueues
  refine eachBind (touchLooks _ nofun) fun _ => eachIte (fun _ => trivial) fun _ => ?_
  refine eachBind (touchLooks _ nofun) fun desc => eachBind (touchLooks _ nofun) fun _ => ?_
  split <;> trivial

theorem registerClientLooks (below : clientId < hwFenceClientMax) :
    (registerClient p clientId below : Registering m _).Each (Looks (· < p.dt.clientsNum)) := by
  unfold registerClient
  by_cases past : p.dt.clientsNum ≤ clientId
  · simp only [hwFenceIpccGetClientVirtId,hwFenceIpccGetClientPhysId,ipccGet,if_pos past,pureRet,
      retBind]
    exact eachIte (fun _ => trivial) fun valid => absurd (by decide) valid
  · have own : ∀ {α : Type} (bound : Nat) (otherwise : α) (field : HwFenceClientIpcMap → α),
        (ipccGet p clientId bound otherwise field : Registering m α).Each
          (Looks (· < p.dt.clientsNum)) := fun bound otherwise field =>
      eachMono (fun _ _ => Looks.mono fun _ same => by omega) (ipccGetLooks bound otherwise field)
    refine eachBind (own _ _ _) fun vid => eachBind (own _ _ _) fun pid =>
      eachIte (fun _ => trivial) fun _ => eachBind (own _ _ _) fun signalId =>
      eachIte (fun _ => trivial) fun _ => eachBind (own _ _ _) fun updateRxq =>
      eachBind (eachIte (fun _ => touchLooks _ nofun) fun _ => trivial) fun txqOnly =>
      eachIte (fun _ => trivial) fun _ => eachBind (own _ _ _) fun sendIpc =>
      eachBind (eachIte (fun _ => trivial) fun _ => touchLooks _ nofun) fun skipTxqWrIdx =>
      eachBind allocLooks fun queues => ?_
    split
    · trivial
    · refine eachBind controllerSignalLooks fun status => ?_
      split <;> trivial

theorem looksRows {α : Type} {rows : Nat → Prop} {prog : Registering m α}
    (looks : prog.Each (Looks rows)) : prog.Each (RowsIn rows) :=
  eachMono (fun _ _ own => own.rows) looks

theorem registerRows (clientIdExt : Nat) (memDescriptor kzalloc : Bool) :
    (msmHwFenceRegister p clientIdExt memDescriptor kzalloc : Registering m _).Each
      (RowsIn (· < p.dt.clientsNum)) := by
  unfold msmHwFenceRegister getClientIdPriv
  refine eachBind (eachAtomic fun s i mem => by simp at mem) fun ready =>
    eachIte (fun _ => trivial) fun _ => eachIte (fun _ => trivial) fun _ => eachBind ?_ fun id => ?_
  · refine eachIte (fun _ => trivial) fun _ => eachBind (looksRows (touchLooks _ nofun)) fun _ =>
      eachIte (fun _ => trivial) fun _ => eachAtomic fun s i mem => by simp at mem
  · split
    · trivial
    · refine eachIte (fun _ => trivial) fun _ => eachBind (looksRows (touchLooks _ nofun)) fun _ =>
        eachIte (fun _ => trivial) fun _ => eachBind (looksRows (registerClientLooks _)) fun client => ?_
      split
      · trivial
      · exact eachAtomic fun s i mem => by simp at mem

end Reads

section Inside
variable {k : KernelSizes} {dt : DtProps} {kzalloc : Nat → Bool} {p : Platform} {hwrev : Nat}

def RegisterInside (p : Platform) : Prop :=
  ∀ m clientIdExt memDescriptor alloc (s : Registry m) i, DataAccess.ipcClientsTable i ∈
    (msmHwFenceRegister p clientIdExt memDescriptor alloc).events s → i < p.mapLength

def DpuLoopInside (p : Platform) : Prop :=
  ∀ m (s : Registry m) i, DataAccess.ipcClientsTable i ∈
    (hwFenceIpccEnableDpuSignaling p).events s → i < p.mapLength

theorem installedMap {debugFs : Bool} {d : DtData} {ipcc : Ipcc}
    (accepted : hwFenceIpccHwrevInit debugFs d kzalloc hwrev = (.ok (),ipcc)) :
    ipcc.protocolId ≠ 0 ∧ ∃ table, ipcc.ipcClientsTable = some table ∧
      if hwrev = hwFenceIpccHwRev203 then
        hwFenceIpccInitMapWithConfigurableClients d.clientsNum d.hwFenceClientTypes
          (hwFenceClientsIpcMapV2 debugFs) kzalloc = .ok table
      else table.length = hwFenceIpcMapMax := by
  have fixed : ∀ debugFs, (hwFenceClientsIpcMapNoDpu debugFs).length = hwFenceIpcMapMax ∧
      (hwFenceClientsIpcMap debugFs).length = hwFenceIpcMapMax := by decide
  unfold hwFenceIpccHwrevInit at accepted
  split at accepted
  · rename_i rev
    cases accepted
    exact ⟨(by decide : hwFenceIpcComputeL1ProtocolIdLahaina ≠ 0),_,rfl,by rw [rev]; exact (fixed _).1⟩
  split at accepted
  · rename_i rev
    cases accepted
    exact ⟨(by decide : hwFenceIpcComputeL1ProtocolIdWaipio ≠ 0),_,rfl,by rw [rev]; exact (fixed _).1⟩
  split at accepted
  · rename_i rev
    cases accepted
    exact ⟨(by decide : hwFenceIpcComputeL1ProtocolIdKalama ≠ 0),_,rfl,by rw [rev]; exact (fixed _).2⟩
  split at accepted
  · rename_i rev
    cases built : hwFenceIpccInitMapWithConfigurableClients d.clientsNum d.hwFenceClientTypes
        (hwFenceClientsIpcMapV2 debugFs) kzalloc with
    | error stop => simp [built,Except.map] at accepted
    | ok table =>
      rw [built] at accepted
      cases accepted
      exact ⟨(by decide : hwFenceIpcFenceProtocolIdPineapple ≠ 0),table,rfl,by rw [if_pos rev]⟩
  · cases accepted

theorem builtLength {debugFs : Bool} {d : DtData} {table : List HwFenceClientIpcMap}
    (ok : hwFenceUtilsParseDtProps k dt kzalloc = .ok d)
    (built : hwFenceIpccInitMapWithConfigurableClients d.clientsNum d.hwFenceClientTypes
      (hwFenceClientsIpcMapV2 debugFs) kzalloc = .ok table) : table.length = d.clientsNum := by
  have none : ∀ types, hwFenceIpccInitMapWithConfigurableClients 0 types
      (hwFenceClientsIpcMapV2 debugFs) kzalloc ≠ .ok table := by
    intro types
    unfold hwFenceIpccInitMapWithConfigurableClients
    split
    · nofun
    · rw [if_pos (by decide)]
      nofun
  cases parseOutcome ok with
  | noTable => exact absurd built (none _)
  | noQueue => exact absurd built (none _)
  | parsed _ _ _ _ clients =>
    obtain ⟨built',covers,run⟩ := tablesBuilt clients debugFs
    rw [run kzalloc] at built
    split at built
    · cases built
      exact covers.length
    · contradiction

theorem mapLengths (ok : hwFenceUtilsParseDtProps k dt kzalloc = .ok p.dt)
    (accepted : hwFenceIpccHwrevInit p.debugFs p.dt kzalloc hwrev = (.ok (),p.ipcc)) :
    p.mapLength = if hwrev = hwFenceIpccHwRev203 then p.dt.clientsNum else hwFenceIpcMapMax := by
  obtain ⟨-,table,installed,length⟩ := installedMap accepted
  rw [Platform.mapLength,installed,Option.getD_some]
  by_cases rev : hwrev = hwFenceIpccHwRev203
  · rw [if_pos rev] at length ⊢
    exact builtLength ok length
  · rw [if_neg rev] at length ⊢
    exact length

theorem enableDpuReads {m : Nat} (s : Registry m) {i : Nat} (ids : List Nat) (mem : i ∈ ids)
    (enabled : Bool) : DataAccess.ipcClientsTable i ∈ (enableDpuClients p ids enabled).events s := by
  induction ids generalizing enabled s with
  | nil => contradiction
  | cons first rest ih =>
    rw [enableDpuClients,eventsBind]
    rcases List.mem_cons.mp mem with rfl | later
    · exact List.mem_append_left _ (by simp [touch])
    · refine List.mem_append_right _ ?_
      split
      · exact ih _ later _
      · rw [eventsBind,eventsBind]
        exact List.mem_append_right _ (List.mem_append_right _ (ih _ later _))

theorem dpuLoopReads {m : Nat} (s : Registry m) {i : Nat}
    (enabled : p.ipcc.protocolId ≠ 0 ∧ p.ipcc.ipcClientsTable ≠ none) (inside : i < p.dt.clientsNum) :
    DataAccess.ipcClientsTable i ∈ (hwFenceIpccEnableDpuSignaling p).events s := by
  unfold hwFenceIpccEnableDpuSignaling
  rw [if_neg (by simp [enabled]),eventsBind]
  exact List.mem_append_left _ (enableDpuReads s _ (List.mem_range.mpr inside) _)

theorem privRun {m clientIdExt : Nat} (s : Registry m) :
    (getClientIdPriv p clientIdExt).run s =
      (hwFenceUtilsGetClientIdPriv p.dt.hwFenceClientTypes clientIdExt,s) := by
  unfold getClientIdPriv
  split
  · rfl
  · simp only [runBind]
    split <;> rfl

theorem registerReads {m clientIdExt clientId : Nat} {s : Registry m}
    (ready : s.d.resourcesReady = true) (free : s.d.clients clientId = none)
    (external : clientIdExt < hwFenceClientMax)
    (priv : hwFenceUtilsGetClientIdPriv p.dt.hwFenceClientTypes clientIdExt = clientId)
    (known : clientId < hwFenceClientMax) (inside : clientId < p.dt.clientsNum) :
    DataAccess.ipcClientsTable clientId ∈
      (msmHwFenceRegister p clientIdExt true true).events s := by
  have reads : DataAccess.ipcClientsTable clientId ∈
      (registerClient p clientId known : Registering m _).events s := by
    unfold registerClient
    rw [eventsBind]
    refine List.mem_append_left _ ?_
    simp [hwFenceIpccGetClientVirtId,ipccGet,Nat.not_le.mpr inside,touch]
  have small : ¬ hwFenceClientMax ≤ clientIdExt := by omega
  have small' : ¬ hwFenceClientMax ≤ clientId := by omega
  subst priv
  unfold msmHwFenceRegister
  simp only [eventsBind,eventsObserve,runObserve,ready,List.nil_append,privRun,small,small',
    not_true_eq_false,if_false,or_self,dif_neg not_false,touch,runAtomic,id_eq,free,
    Option.isSome_none,Bool.false_eq_true]
  exact List.mem_append_right _ (List.mem_append_right _ (List.mem_append_left _ reads))

theorem clientsNumBound (ok : hwFenceUtilsParseDtProps k dt kzalloc = .ok p.dt) :
    p.dt.clientsNum ≤ hwFenceIpcMapMax ↔ subClients p.dt.hwFenceClientTypes 8 ≤ 8 := by
  have early : subClients ([] : List ClientTypeDesc) 8 = 0 := rfl
  generalize p.dt = d at ok
  cases parseOutcome ok with
  | noTable => simp [DtData.zeroed,early]
  | noQueue => simp [DtData.zeroed,early]
  | parsed _ _ _ _ clients =>
    obtain ⟨-,-,count,-⟩ := parsedClients clients
    simp only [count,hwFenceIpcMapMax,hwFenceMaxClientTypeConfigurable]
    omega

theorem lastClient (ok : hwFenceUtilsParseDtProps k dt kzalloc = .ok p.dt)
    (clients : 0 < p.dt.clientsNum) : ∃ clientIdExt < hwFenceClientMax,
      hwFenceUtilsGetClientIdPriv p.dt.hwFenceClientTypes clientIdExt = p.dt.clientsNum-1 ∧
        p.dt.clientsNum-1 < hwFenceClientMax := by
  generalize p.dt = d at ok clients
  cases parseOutcome ok with
  | noTable => simp [DtData.zeroed] at clients
  | noQueue => simp [DtData.zeroed] at clients
  | @parsed d d' _ _ _ _ _ _ read =>
    obtain ⟨parsed,-,count,-⟩ := parsedClients read
    obtain ⟨-,-,onto⟩ := consolidates parsed
    obtain ⟨clientIdExt,external,priv⟩ := onto.surjOn
      (show d'.clientsNum-1 ∈ Set.Iio _ from Set.mem_Iio.mpr (by rw [← count]; exact Nat.sub_lt clients Nat.one_pos))
    have few := subClientsBound parsed (Nat.le_refl 8)
    refine ⟨clientIdExt,external.1,priv,?_⟩
    simp only [count,hwFenceClientMax,hwFenceClientIdIfe,msmHwFenceMaxSignalPerClient,
      hwFenceMaxStaticClientsIndex] at few ⊢
    omega

theorem insideIff (ok : hwFenceUtilsParseDtProps k dt kzalloc = .ok p.dt)
    (accepted : hwFenceIpccHwrevInit p.debugFs p.dt kzalloc hwrev = (.ok (),p.ipcc)) :
    p.dt.clientsNum ≤ p.mapLength ↔
      hwrev = hwFenceIpccHwRev203 ∨ subClients p.dt.hwFenceClientTypes 8 ≤ 8 := by
  rw [mapLengths ok accepted,← clientsNumBound ok]
  split
  · rename_i rev
    simp [rev]
  · rename_i rev
    simp [rev]

theorem rowsOf {m n : Nat} {α : Type} {prog : Registering m α} (each : prog.Each (RowsIn (· < n)))
    (s : Registry m) {i : Nat} (mem : DataAccess.ipcClientsTable i ∈ prog.events s) : i < n :=
  eachEvents (E := fun e => ∀ i, e = .ipcClientsTable i → i < n) each
    (fun _ _ own s _ here i same => own s i (same ▸ here)) s _ mem i rfl

theorem registerInsideIff (ok : hwFenceUtilsParseDtProps k dt kzalloc = .ok p.dt) :
    RegisterInside p ↔ p.dt.clientsNum ≤ p.mapLength := by
  constructor
  · intro inside
    rcases Nat.eq_zero_or_pos p.dt.clientsNum with none | clients
    · omega
    · obtain ⟨clientIdExt,external,priv,known⟩ := lastClient ok clients
      have last := inside 1 clientIdExt true true ⟨.unused 1 oneEntry,false⟩ _
        (registerReads rfl rfl external priv known (by omega))
      omega
  · intro le m clientIdExt memDescriptor alloc s i mem
    exact Nat.lt_of_lt_of_le (rowsOf (registerRows _ _ _) s mem) le

theorem dpuLoopInsideIff (enabled : p.ipcc.protocolId ≠ 0 ∧ p.ipcc.ipcClientsTable ≠ none) :
    DpuLoopInside p ↔ p.dt.clientsNum ≤ p.mapLength := by
  constructor
  · intro inside
    rcases Nat.eq_zero_or_pos p.dt.clientsNum with none | clients
    · omega
    · have last := inside 1 ⟨.unused 1 oneEntry,false⟩ (p.dt.clientsNum-1)
        (dpuLoopReads _ enabled (by omega))
      omega
  · intro le m s i mem
    exact Nat.lt_of_lt_of_le (rowsOf (looksRows dpuSignalingLooks) s mem) le

theorem mapLookupsInsideIff (ok : hwFenceUtilsParseDtProps k dt kzalloc = .ok p.dt)
    (accepted : hwFenceIpccHwrevInit p.debugFs p.dt kzalloc hwrev = (.ok (),p.ipcc)) :
    (RegisterInside p ↔ hwrev = hwFenceIpccHwRev203 ∨ subClients p.dt.hwFenceClientTypes 8 ≤ 8) ∧
    (DpuLoopInside p ↔ hwrev = hwFenceIpccHwRev203 ∨ subClients p.dt.hwFenceClientTypes 8 ≤ 8) := by
  obtain ⟨protocol,table,installed,-⟩ := installedMap accepted
  rw [← insideIff ok accepted]
  exact ⟨registerInsideIff ok,dpuLoopInsideIff ⟨protocol,by simp [installed]⟩⟩

theorem ctrlIdUnused {d : DtData} (ok : hwFenceUtilsParseDtProps k dt kzalloc = .ok d) :
    (d.hwFenceClientQueueSize 0).memSize = 0 := by
  cases parseOutcome ok with
  | noTable => rfl
  | noQueue => rfl
  | @parsed d d' _ _ _ _ _ _ read =>
    obtain ⟨types,-,-,assigned,-⟩ := parsedClients read
    rw [assignOne] at assigned
    have other : 0 ∉ (configured d'.hwFenceClientTypes).map (privId d'.hwFenceClientTypes) := by
      intro mem
      obtain ⟨c,member,zero⟩ := List.mem_map.mp mem
      have first : 0 < extId c := by
        obtain ⟨i,found⟩ := List.mem_iff_getElem?.mp (memConfigured.mp member).1
        obtain ⟨fixed,here,same⟩ := types.at_ found
        have positive : ∀ desc ∈ hwFenceClientTypes, 0 < desc.initId := by decide
        have init := positive fixed (List.mem_of_getElem? here)
        rw [extId,same.initId]
        omega
      rcases privCases types member with ⟨-,priv⟩ | ⟨t,-,-,-,-,priv⟩
      · omega
      · simp only [hwFenceMaxStaticClientsIndex,hwFenceClientIdIfe] at priv
        omega
    have untouched := assignUntouched d'.hwFenceClientTypes (configured d'.hwFenceClientTypes)
      (fun _ => ⟨0,0,0,0,false⟩,u32 (k.pageAlign (sizeT (d.hwFenceMemCtrlQueuesSize+
        hwFenceMemLocksSize d'.rxqClientsNum+d.hwFenceMemFencesTableSize)))) other
    rw [assigned] at untouched
    exact congrArg ClientQueueSizeDesc.memSize untouched

def platform {d : DtData} (ok : hwFenceUtilsParseDtProps k dt kzalloc = .ok d) (hwrev : Nat) :
    Platform where
  debugFs := true
  dpuIpcc := true
  dt := d
  size := 0x1000000
  ipcc := (hwFenceIpccHwrevInit true d kzalloc hwrev).2
  beyond := fun _ => .zeroed
  ctrlId := ctrlIdUnused ok

theorem sparseLookupsInside : ∃ p : Platform,
    hwFenceUtilsParseDtProps pages4k sparseProps (fun _ => true) = .ok p.dt ∧
    hwFenceIpccHwrevInit p.debugFs p.dt (fun _ => true) hwFenceIpccHwRev203 = (.ok (),p.ipcc) ∧
    (RegisterInside p ↔ hwFenceIpccHwRev203 = hwFenceIpccHwRev203 ∨
      subClients p.dt.hwFenceClientTypes 8 ≤ 8) ∧
    (DpuLoopInside p ↔ hwFenceIpccHwRev203 = hwFenceIpccHwRev203 ∨
      subClients p.dt.hwFenceClientTypes 8 ≤ 8) := by
  obtain ⟨d,ok,holds⟩ := evaluated sparseProps (fun d => decide ((hwFenceIpccHwrevInit true d
    (fun _ => true) hwFenceIpccHwRev203).1 = .ok ())) (by decide +kernel)
  have accepted : hwFenceIpccHwrevInit true d (fun _ => true) hwFenceIpccHwRev203 =
      (.ok (),(platform ok hwFenceIpccHwRev203).ipcc) := Prod.ext (of_decide_eq_true holds) rfl
  exact ⟨platform ok hwFenceIpccHwRev203,ok,accepted,
    mapLookupsInsideIff (p := platform ok hwFenceIpccHwRev203) ok accepted⟩

def crowdedProps : DtProps :=
  ⟨some 128,some 64,fun name => if name = "ife0" then some (9,1,64,1) else none⟩

theorem crowdedLookupsOutside : ∃ p : Platform,
    hwFenceUtilsParseDtProps pages4k crowdedProps (fun _ => true) = .ok p.dt ∧
    hwFenceIpccHwrevInit p.debugFs p.dt (fun _ => true) hwFenceIpccHwRev170 = (.ok (),p.ipcc) ∧
    ¬ RegisterInside p ∧ ¬ DpuLoopInside p := by
  obtain ⟨d,ok,holds⟩ := evaluated crowdedProps (fun d => decide ((hwFenceIpccHwrevInit true d
    (fun _ => true) hwFenceIpccHwRev170).1 = .ok () ∧ 25 < d.clientsNum)) (by decide +kernel)
  obtain ⟨status,many⟩ := of_decide_eq_true holds
  have accepted : hwFenceIpccHwrevInit true d (fun _ => true) hwFenceIpccHwRev170 =
      (.ok (),(platform ok hwFenceIpccHwRev170).ipcc) := Prod.ext status rfl
  have short : ¬ d.clientsNum ≤ (platform ok hwFenceIpccHwRev170).mapLength := by
    have length := mapLengths (p := platform ok hwFenceIpccHwRev170) ok accepted
    rw [if_neg (by decide)] at length
    rw [length]
    exact Nat.not_le.mpr many
  obtain ⟨protocol,table,installed,-⟩ := installedMap accepted
  exact ⟨platform ok hwFenceIpccHwRev170,ok,accepted,mt (registerInsideIff ok).mp short,
    mt (dpuLoopInsideIff ⟨protocol,by simp [installed]⟩).mp short⟩

end Inside

end MmDrivers.Registration

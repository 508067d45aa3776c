import MmDrivers.Registration

/-! The initialisation of the driver, step by step, on what firmware and kernel
answer. Two of its steps report success without having done their work. -/
namespace MmDrivers.DriverInit
open Sections FenceTypes DeviceTree GivenClients CarveOut IpcMap RxClients Registration

/-- The device tree, and how every kernel call of the initialisation ends. -/
structure Environment where
  sizes : KernelSizes
  debugFs : Bool
  dt : DtProps
  kzalloc : Nat → Bool
  memNode : Bool
  gunyahLabel : Except Errno Unit
  sharedBuffer : Bool
  -- the carve-out: the size of the resource, where it has one
  resource : Option Nat
  memRemap : Bool
  rmNotifier : Bool
  ipccReg : Except Errno Unit
  ipccRemap : Bool
  ipcVer : Option U32
  ipccVersion : U32
  ipcMapAlloc : Bool
  qtimeReg : Except Errno Unit
  qtimeRemap : Bool
  debugfsDir : Bool
  dbNode : Bool
  dbLabel : Except Errno Unit
  -- a null pointer, which is no error code, or an error pointer
  rxDbl : Except (Option Errno) Unit

structure InitData where
  dt : DtData
  size : Nat
  clientLockTblCnt : Nat
  hwFencesTblCnt : Nat
  ipcc : Ipcc

section Steps
variable (env : Environment)

def failing {α : Type} : Except Errno α → Except Stop α
  | .ok a => .ok a
  | .error e => .error (.failed e)

def hwFenceUtilsAllocMem (d : InitData) : Except Stop InitData :=
  if ¬ env.memNode then .error (.failed .einval)
  else match env.gunyahLabel with
  | .error e => .error (.failed e)
  | .ok () =>
  if ¬ env.sharedBuffer then .error (.failed .enomem)
  else match env.resource with
  | none => .error (.failed .einval)
  | some size =>
  if ¬ env.memRemap then .error (.failed .enxio)
  else if size < d.dt.usedMemSize then .error (.failed .enomem)
  else if ¬ env.rmNotifier then .error (.failed .eprobeDefer)
  else .ok {d with size := size}

def reserve (d : InitData) (request : MemReserve) : Except Stop Layout.Region :=
  match hwFenceUtilsReserveMem d.dt d.size request with
  | .error _ => .error (.failed .enomem)
  | .ok region => .ok region

def initCtrlQueue (d : InitData) : Except Stop InitData := do
  let _ ← reserve d .ctrlQueue
  .ok d

def initGlobalLocks (d : InitData) : Except Stop InitData := do
  let locks ← reserve d .locksRegion
  .ok {d with clientLockTblCnt := locks.size/8}

def initHwFencesTable (d : InitData) : Except Stop InitData := do
  let table ← reserve d .table
  .ok {d with hwFencesTblCnt := table.size/sizeofHwFence}

-- the register is read where the property is missing or zero
def ipcVersion : Nat :=
  match env.ipcVer with
  | none => env.ipccVersion.toNat
  | some val => if val.toNat = 0 then env.ipccVersion.toNat else val.toNat

def hwFenceIpccEnableSignaling (dt : DtData) : Except Stop Unit × Ipcc :=
  let init := hwFenceIpccHwrevInit env.debugFs dt (fun _ => env.ipcMapAlloc) (ipcVersion env)
  match init.1 with
  | .error (.failed _) => (.error (.failed .einval),init.2)
  | _ => init

def hwFenceUtilsMapIpcc (d : InitData) : Except Stop InitData := do
  failing env.ipccReg
  if ¬ env.ipccRemap then .error (.failed .enomem)
  else
    let enabled := hwFenceIpccEnableSignaling env d.dt
    -- the result is not looked at: only an access that faults ends the call
    if enabled.1 = .error .oops then .error .oops
    else .ok {d with ipcc := enabled.2}

def hwFenceUtilsMapQtime (d : InitData) : Except Stop InitData := do
  failing env.qtimeReg
  if ¬ env.qtimeRemap then .error (.failed .enomem) else .ok d

def hwFenceUtilsMapCtlStart (d : InitData) : Except Stop InitData := .ok d

def hwFenceDebugDebugfsRegister (d : InitData) : Except Stop InitData :=
  if env.debugFs ∧ ¬ env.debugfsDir then .error (.failed .einval) else .ok d

def hwFenceUtilsInitVirq (d : InitData) : Except Stop InitData :=
  if ¬ env.dbNode then .error (.failed .einval)
  else match env.dbLabel with
  | .error e => .error (.failed e)
  | .ok () =>
  match env.rxDbl with
  | .error (some e) => .error (.failed e)
  | .error none => .ok d
  | .ok () => .ok d

def hwFenceInit : Except Stop InitData := do
  let dt ← failing (hwFenceUtilsParseDtProps env.sizes env.dt env.kzalloc)
  let d ← hwFenceUtilsAllocMem env ⟨dt,0,0,0,.zeroed⟩
  let d ← initCtrlQueue d
  let d ← initGlobalLocks d
  let d ← initHwFencesTable d
  let d ← hwFenceUtilsMapIpcc env d
  let d ← hwFenceUtilsMapQtime env d
  let d ← hwFenceUtilsMapCtlStart d
  let d ← hwFenceDebugDebugfsRegister env d
  hwFenceUtilsInitVirq env d

end Steps

section Source
variable {env : Environment} {d d' s : InitData}

theorem bindOk {α β : Type} {x : Except Stop α} {f : α → Except Stop β} {r : β}
    (ok : x >>= f = .ok r) : ∃ a, x = .ok a ∧ f a = .ok r := by
  cases x with
  | error e => contradiction
  | ok a => exact ⟨a,rfl,ok⟩

theorem failingOk {α : Type} {x : Except Errno α} {a : α} (ok : failing x = .ok a) : x = .ok a := by
  cases x with
  | error e => contradiction
  | ok b =>
    cases ok
    rfl

structure Keeps (d d' : InitData) : Prop where
  dt : d'.dt = d.dt
  ipcc : d'.ipcc = d.ipcc

theorem allocKeeps (ok : hwFenceUtilsAllocMem env d = .ok d') : Keeps d d' := by
  unfold hwFenceUtilsAllocMem at ok
  split at ok <;> try contradiction
  split at ok <;> try contradiction
  split at ok <;> try contradiction
  split at ok <;> try contradiction
  split at ok <;> try contradiction
  split at ok <;> try contradiction
  split at ok <;> try contradiction
  cases ok
  exact ⟨rfl,rfl⟩

theorem Keeps.trans {d'' : InitData} (first : Keeps d d') (second : Keeps d' d'') : Keeps d d'' :=
  ⟨second.dt.trans first.dt,second.ipcc.trans first.ipcc⟩

theorem ctrlKeeps (ok : initCtrlQueue d = .ok d') : Keeps d d' := by
  obtain ⟨region,_,same⟩ := bindOk ok
  cases same
  exact ⟨rfl,rfl⟩

theorem locksKeeps (ok : initGlobalLocks d = .ok d') : Keeps d d' := by
  obtain ⟨region,_,same⟩ := bindOk ok
  cases same
  exact ⟨rfl,rfl⟩

theorem tableKeeps (ok : initHwFencesTable d = .ok d') : Keeps d d' := by
  obtain ⟨region,_,same⟩ := bindOk ok
  cases same
  exact ⟨rfl,rfl⟩

theorem qtimeKeeps (ok : hwFenceUtilsMapQtime env d = .ok d') : Keeps d d' := by
  obtain ⟨_,_,ok⟩ := bindOk ok
  split at ok <;> try contradiction
  cases ok
  exact ⟨rfl,rfl⟩

theorem debugfsKeeps (ok : hwFenceDebugDebugfsRegister env d = .ok d') : Keeps d d' := by
  unfold hwFenceDebugDebugfsRegister at ok
  split at ok <;> try contradiction
  cases ok
  exact ⟨rfl,rfl⟩

theorem virqKeeps (ok : hwFenceUtilsInitVirq env d = .ok d') : Keeps d d' := by
  unfold hwFenceUtilsInitVirq at ok
  split at ok <;> try contradiction
  split at ok <;> try contradiction
  split at ok <;> try contradiction
  all_goals
    cases ok
    exact ⟨rfl,rfl⟩

theorem ipccMapped (ok : hwFenceUtilsMapIpcc env d = .ok d') : d'.dt = d.dt ∧
    (hwFenceIpccEnableSignaling env d.dt).1 ≠ .error .oops ∧
    d'.ipcc = (hwFenceIpccEnableSignaling env d.dt).2 := by
  obtain ⟨_,_,ok⟩ := bindOk ok
  split at ok <;> try contradiction
  dsimp only at ok
  split at ok <;> try contradiction
  rename_i alive
  cases ok
  exact ⟨rfl,alive,rfl⟩

theorem initSource (ok : hwFenceInit env = .ok s) :
    hwFenceUtilsParseDtProps env.sizes env.dt env.kzalloc = .ok s.dt ∧
    (hwFenceIpccEnableSignaling env s.dt).1 ≠ .error .oops ∧
    s.ipcc = (hwFenceIpccEnableSignaling env s.dt).2 := by
  obtain ⟨dt,parsed,ok⟩ := bindOk ok
  obtain ⟨alloc,allocated,ok⟩ := bindOk ok
  obtain ⟨queue,queued,ok⟩ := bindOk ok
  obtain ⟨lock,locked,ok⟩ := bindOk ok
  obtain ⟨table,tabled,ok⟩ := bindOk ok
  obtain ⟨mapped,ipcc,ok⟩ := bindOk ok
  obtain ⟨timed,qtime,ok⟩ := bindOk ok
  obtain ⟨started,same,ok⟩ := bindOk ok
  cases same
  obtain ⟨debug,debugfs,virq⟩ := bindOk ok
  have before := ((allocKeeps allocated).trans (ctrlKeeps queued)).trans
    ((locksKeeps locked).trans (tableKeeps tabled))
  have after := (qtimeKeeps qtime).trans ((debugfsKeeps debugfs).trans (virqKeeps virq))
  obtain ⟨same,alive,mapping⟩ := ipccMapped ipcc
  have last : s.dt = table.dt := after.dt.trans same
  have source : table.dt = dt := before.dt
  rw [last,after.ipcc]
  exact ⟨source ▸ failingOk parsed,alive,mapping⟩

end Source

section Success
variable {env : Environment} {s : InitData} {k : KernelSizes} {dt : DtProps} {kzalloc : Nat → Bool}
  {d d' : DtData}

def Present (p : Platform) : DataAccess → Prop
  | .clientTypes _ => p.dt.hwFenceClientTypes ≠ []
  | .clientQueueSize _ => p.dt.queueSizeAllocated = true
  | .clients _ => p.dt.clientsAllocated = true
  | .ipcClientsTable _ => p.ipcc.ipcClientsTable ≠ none
  | .writel _ _ => True

def RegisterSafe (s : InitData) : Prop :=
  ∀ p : Platform, p.dt = s.dt → p.ipcc = s.ipcc →
    ∀ m clientIdExt memDescriptor alloc (r : Registry m),
      ∀ a ∈ (msmHwFenceRegister p clientIdExt memDescriptor alloc).events r, Present p a

structure Initialised (s : InitData) : Prop where
  tableEntries : 1 ≤ s.dt.hwFenceTableEntries
  queueEntries : 1 ≤ s.dt.hwFenceQueueEntries
  clientsNum : hwFenceMaxStaticClientsIndex ≤ s.dt.clientsNum
  clients : s.dt.clientsAllocated = true
  queueSize : s.dt.queueSizeAllocated = true
  mapping : s.ipcc.ipcClientsTable ≠ none

/-- No property read is zero, and the revision has a mapping that could be allocated. -/
structure Complete (env : Environment) : Prop where
  tableEntries : env.dt.tableEntries ≠ some 0
  queueEntries : env.dt.queueEntries ≠ some 0
  revision : ipcVersion env ∈ [hwFenceIpccHwRev100,hwFenceIpccHwRev110,hwFenceIpccHwRev170] ∨
    (ipcVersion env = hwFenceIpccHwRev203 ∧ env.ipcMapAlloc = true)

theorem queueSizeKept (ok : parseClientQueueDtProps k dt kzalloc d = .ok d') :
    d'.queueSizeAllocated = true := by
  obtain ⟨types,-,rfl⟩ := clientProps ok
  rfl

theorem mappedIff (clients : parseClientQueueDtProps k dt kzalloc d = .ok d') (debugFs alloc : Bool)
    (hwrev : Nat) :
    (hwFenceIpccHwrevInit debugFs d' (fun _ => alloc) hwrev).2.ipcClientsTable ≠ none ↔
      hwrev ∈ [hwFenceIpccHwRev100,hwFenceIpccHwRev110,hwFenceIpccHwRev170] ∨
        (hwrev = hwFenceIpccHwRev203 ∧ alloc = true) := by
  unfold hwFenceIpccHwrevInit
  split
  · rename_i rev
    simp [rev]
  split
  · rename_i rev
    simp [rev]
  split
  · rename_i rev
    simp [rev]
  split
  · rename_i rev
    obtain ⟨table,-,built⟩ := tablesBuilt clients debugFs
    rw [rev,built fun _ => alloc]
    cases alloc <;> simp [Except.toOption,hwFenceIpccHwRev203,hwFenceIpccHwRev170,
      hwFenceIpccHwRev110,hwFenceIpccHwRev100]
  · simp [*,Ipcc.zeroed]

theorem enabledMapping (dt : DtData) : (hwFenceIpccEnableSignaling env dt).2 =
    (hwFenceIpccHwrevInit env.debugFs dt (fun _ => env.ipcMapAlloc) (ipcVersion env)).2 := by
  unfold hwFenceIpccEnableSignaling
  dsimp only
  split <;> rfl

theorem initialisedSafe (init : Initialised s) (types : s.dt.hwFenceClientTypes ≠ []) :
    RegisterSafe s := by
  intro p same mapping m clientIdExt memDescriptor alloc r a _
  cases a with
  | clientTypes i => simpa [Present,same] using types
  | clientQueueSize i => simpa [Present,same] using init.queueSize
  | clients i => simpa [Present,same] using init.clients
  | ipcClientsTable i => simpa [Present,mapping] using init.mapping
  | writel offset val => trivial

theorem initialisedIff (ok : hwFenceInit env = .ok s) :
    Initialised s ∧ RegisterSafe s ↔ Complete env := by
  obtain ⟨parsed,-,mapping⟩ := initSource ok
  rw [enabledMapping] at mapping
  generalize same : s.dt = d at parsed mapping
  cases parseOutcome parsed with
  | noTable none =>
    refine ⟨fun ⟨init,_⟩ => ?_,fun complete => absurd none complete.tableEntries⟩
    have entries := init.tableEntries
    rw [same] at entries
    contradiction
  | noQueue _ _ none =>
    refine ⟨fun ⟨init,_⟩ => ?_,fun complete => absurd none complete.queueEntries⟩
    have entries := init.queueEntries
    rw [same] at entries
    contradiction
  | @parsed d d' table queue tableEntries queueEntries nonzero read clients =>
    have counted := parsedClients clients
    obtain ⟨types,-,count,-,sameTable,sameQueue,-⟩ := counted
    have revision := mappedIff clients env.debugFs env.ipcMapAlloc (ipcVersion env)
    constructor
    · intro ⟨init,_⟩
      have mapped := init.mapping
      rw [mapping] at mapped
      refine ⟨fun zero => ?_,fun zero => ?_,revision.mp mapped⟩
      · rw [tableEntries] at zero
        exact nonzero.1 (Option.some.inj zero)
      · rw [queueEntries] at zero
        exact nonzero.2 (Option.some.inj zero)
    · intro complete
      have some : ∀ {v : U32}, v ≠ 0 → 1 ≤ v.toNat := fun nonzero =>
        Nat.one_le_iff_ne_zero.mpr (mt toNatZero.mp nonzero)
      have mapped : s.ipcc.ipcClientsTable ≠ none := by
        rw [mapping]
        exact revision.mpr complete.revision
      have tableRead : s.dt.hwFenceTableEntries = table.toNat := by
        rw [same]
        exact sameTable.trans read.1
      have queueRead : s.dt.hwFenceQueueEntries = queue.toNat := by
        rw [same]
        exact sameQueue.trans read.2
      have init : Initialised s :=
        ⟨tableRead ▸ some nonzero.1,queueRead ▸ some nonzero.2,
          by rw [same]; exact count ▸ Nat.le_add_right _ _,by rw [same],
          by rw [same]; exact (queueSizeKept clients : d'.queueSizeAllocated = true),mapped⟩
      refine ⟨init,initialisedSafe init ?_⟩
      rw [same]
      intro none
      have length := types.length
      have empty : d'.hwFenceClientTypes.length = 0 := congrArg List.length none
      omega

def plainEnvironment (dt : DtProps) (ipcVer : U32) : Environment :=
  ⟨pages4k,true,dt,fun _ => true,true,.ok (),true,some 0x100000,true,true,.ok (),true,some ipcVer,0,
    true,.ok (),true,true,true,.ok (),.ok ()⟩

theorem initialised (env : Environment) (p : InitData → Bool)
    (holds : (hwFenceInit env).toOption.any p = true) :
    ∃ s, hwFenceInit env = .ok s ∧ p s = true := by
  cases h : hwFenceInit env with
  | error e => simp [h,Except.toOption] at holds
  | ok s => exact ⟨s,rfl,by simpa [h,Except.toOption] using holds⟩

theorem plainInitialised : ∃ s, hwFenceInit (plainEnvironment (plainProps 128 64) 0x20003) = .ok s ∧
    (Initialised s ∧ RegisterSafe s ↔ Complete (plainEnvironment (plainProps 128 64) 0x20003)) := by
  obtain ⟨s,ok,-⟩ := initialised (plainEnvironment (plainProps 128 64) 0x20003) (fun _ => true)
    (by decide +kernel)
  exact ⟨s,ok,initialisedIff ok⟩

theorem zeroTableSucceeds :
    (∃ s, hwFenceInit (plainEnvironment (plainProps 0 64) 0x10700) = .ok s ∧ ¬ Initialised s) ∧
    (∃ s, hwFenceInit (plainEnvironment (plainProps 128 64) 0x20004) = .ok s ∧ ¬ Initialised s) := by
  constructor
  · obtain ⟨s,ok,holds⟩ := initialised (plainEnvironment (plainProps 0 64) 0x10700)
      (fun s => s.dt.hwFenceTableEntries = 0) (by decide +kernel)
    refine ⟨s,ok,fun init => ?_⟩
    have entries := init.tableEntries
    rw [of_decide_eq_true holds] at entries
    contradiction
  · obtain ⟨s,ok,holds⟩ := initialised (plainEnvironment (plainProps 128 64) 0x20004)
      (fun s => s.ipcc.ipcClientsTable = none) (by decide +kernel)
    exact ⟨s,ok,fun init => init.mapping (of_decide_eq_true holds)⟩

end Success
end MmDrivers.DriverInit

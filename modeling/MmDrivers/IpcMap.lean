import MmDrivers.ClientIds

/-! The ipc mapping of the clients: fixed tables, or one built for the
configured number of sub-clients. -/
namespace MmDrivers.IpcMap
open FenceTypes DeviceTree CarveOut ClientIds

structure HwFenceClientIpcMap where
  ipcClientIdVirt : Int
  ipcClientIdPhys : Int
  ipcSignalId : Int
  updateRxq : Bool
  sendIpc : Bool
  deriving DecidableEq, Repr

def HwFenceClientIpcMap.zeroed : HwFenceClientIpcMap := ⟨0,0,0,false,false⟩

def hwFenceIpcClientIdAppsVid : Int := 8
def hwFenceIpcClientIdGpuVid : Int := 9
def hwFenceIpcClientIdIpeVid : Int := 11
def hwFenceIpcClientIdVpuVid : Int := 12
def hwFenceIpcClientIdDpuVid : Int := 25
def hwFenceIpcClientIdIfeVid (t : Nat) : Int := 128+t
def hwFenceIpcClientIdAppsPid : Int := 3
def hwFenceIpcClientIdGpuPid : Int := 4
def hwFenceIpcClientIdIpePid : Int := 5
def hwFenceIpcClientIdVpuPid : Int := 8
def hwFenceIpcClientIdDpuPid : Int := 9
def hwFenceIpcClientIdIfePid (t : Nat) : Int := 11+t

def hwFenceMaxClientTypeConfigurable : Nat := 8
def hwFenceIpcMapMax : Nat := hwFenceMaxStaticClientsIndex+hwFenceMaxClientTypeConfigurable
def sizeofHwFenceClientIpcMap : Nat := 16

-- the rows an initializer leaves out are zero
def ipcMap (rows : List HwFenceClientIpcMap) : List HwFenceClientIpcMap :=
  rows ++ List.replicate (hwFenceIpcMapMax-rows.length) .zeroed

/-- The validation clients have a mapping only with `CONFIG_DEBUG_FS`. -/
def valRows (debugFs : Bool) (phys : Int) : List HwFenceClientIpcMap :=
  (List.range 7).map fun (i : Nat) =>
    if debugFs then ⟨hwFenceIpcClientIdAppsVid,phys,21+(i : Int),true,false⟩ else .zeroed

def hwFenceClientsIpcMapNoDpu (debugFs : Bool) : List HwFenceClientIpcMap := ipcMap <|
  ⟨hwFenceIpcClientIdAppsVid,hwFenceIpcClientIdAppsVid,1,true,true⟩ ::
  ⟨hwFenceIpcClientIdGpuVid,hwFenceIpcClientIdGpuVid,0,false,false⟩ ::
  ((List.range 6).map fun (i : Nat) =>
    ⟨hwFenceIpcClientIdAppsVid,hwFenceIpcClientIdAppsVid,14+(i : Int),false,true⟩) ++
  if debugFs then valRows true hwFenceIpcClientIdAppsVid else []

def hwFenceClientsIpcMap (debugFs : Bool) : List HwFenceClientIpcMap := ipcMap <|
  ⟨hwFenceIpcClientIdAppsVid,hwFenceIpcClientIdAppsVid,1,true,true⟩ ::
  ⟨hwFenceIpcClientIdGpuVid,hwFenceIpcClientIdGpuVid,0,false,false⟩ ::
  ((List.range 6).map fun (i : Nat) =>
    ⟨hwFenceIpcClientIdDpuVid,hwFenceIpcClientIdDpuVid,(i : Int),false,true⟩) ++
  valRows debugFs hwFenceIpcClientIdAppsVid ++
  [⟨hwFenceIpcClientIdIpeVid,hwFenceIpcClientIdIpeVid,0,true,true⟩,
   ⟨hwFenceIpcClientIdVpuVid,hwFenceIpcClientIdVpuVid,0,true,true⟩]

def hwFenceClientsIpcMapV2 (debugFs : Bool) : List HwFenceClientIpcMap := ipcMap <|
  ⟨hwFenceIpcClientIdAppsVid,hwFenceIpcClientIdAppsPid,1,true,true⟩ ::
  ⟨hwFenceIpcClientIdGpuVid,hwFenceIpcClientIdGpuPid,0,false,false⟩ ::
  ((List.range 6).map fun (i : Nat) =>
    ⟨hwFenceIpcClientIdDpuVid,hwFenceIpcClientIdDpuPid,(i : Int),false,true⟩) ++
  valRows debugFs hwFenceIpcClientIdAppsPid ++
  [⟨hwFenceIpcClientIdIpeVid,hwFenceIpcClientIdIpePid,0,true,true⟩,
   ⟨hwFenceIpcClientIdVpuVid,hwFenceIpcClientIdVpuPid,0,true,true⟩] ++
  (List.range 8).map fun t =>
    ⟨hwFenceIpcClientIdIfeVid t,hwFenceIpcClientIdIfePid t,0,false,true⟩

/-- An error return, or an access to memory that is not there. -/
inductive Stop where | failed (e : Errno) | oops
  deriving DecidableEq, Repr

section Build
variable (clientsNum : Nat) (types : List ClientTypeDesc) (baseTable : List HwFenceClientIpcMap)

abbrev Mapped := List HwFenceClientIpcMap × Nat

def mapSubClient (row : HwFenceClientIpcMap) (acc : Mapped) (j : Nat) : Except Stop Mapped :=
  if clientsNum ≤ acc.2 then .error (.failed .einval)
  else .ok (acc.1.set acc.2 {row with ipcSignalId := j},acc.2+1)

def mapClientType (acc : Mapped) (i : Nat) : Except Stop Mapped :=
  match types[hwFenceMaxClientTypeStatic+i]? with
  | none => .error .oops
  | some desc => (List.range desc.clientsNum).foldlM (mapSubClient clientsNum
      (baseTable.getD (hwFenceMaxStaticClientsIndex+i) .zeroed)) acc

/-- The copy of the static rows does not look at the size of the allocation. -/
def hwFenceIpccInitMapWithConfigurableClients (kzalloc : Nat → Bool) :
    Except Stop (List HwFenceClientIpcMap) :=
  if ¬ kzalloc (sizeT (clientsNum*sizeofHwFenceClientIpcMap)) then .error (.failed .enomem)
  else if clientsNum < hwFenceMaxStaticClientsIndex then .error .oops
  else
    let copied := baseTable.take hwFenceMaxStaticClientsIndex ++
      List.replicate (clientsNum-hwFenceMaxStaticClientsIndex) .zeroed
    match (List.range hwFenceMaxClientTypeConfigurable).foldlM
        (mapClientType clientsNum types baseTable) (copied,hwFenceMaxStaticClientsIndex) with
    | .error stop => .error stop
    | .ok (table,_) => .ok table

end Build

section Rows
variable {clientsNum t i n : Nat} {types : List ClientTypeDesc} {desc : ClientTypeDesc}
  {baseTable rows : List HwFenceClientIpcMap} {row : HwFenceClientIpcMap} {k : KernelSizes}

def subRows (row : HwFenceClientIpcMap) (n : Nat) : List HwFenceClientIpcMap :=
  (List.range n).map fun (j : Nat) => {row with ipcSignalId := j}

def rowsUpTo (types : List ClientTypeDesc) (baseTable : List HwFenceClientIpcMap) :
    Nat → List HwFenceClientIpcMap
  | 0 => baseTable.take hwFenceMaxStaticClientsIndex
  | t+1 => rowsUpTo types baseTable t ++
      subRows (baseTable.getD (hwFenceMaxStaticClientsIndex+t) .zeroed)
        ((types[hwFenceMaxClientTypeStatic+t]?.map ClientTypeDesc.clientsNum).getD 0)

def padded (clientsNum : Nat) (rows : List HwFenceClientIpcMap) : Mapped :=
  (rows ++ List.replicate (clientsNum-rows.length) .zeroed,rows.length)

theorem mapSubClientRow (clientsNum : Nat) (row : HwFenceClientIpcMap) (rows : List HwFenceClientIpcMap)
    (room : rows.length < clientsNum) (j : Nat) :
    mapSubClient clientsNum row (padded clientsNum rows) j =
      .ok (padded clientsNum (rows ++ [{row with ipcSignalId := j}])) := by
  have one : clientsNum-rows.length = clientsNum-(rows.length+1)+1 := by omega
  unfold mapSubClient padded
  rw [if_neg (by simpa using room),one,List.replicate_succ,List.set_append_right _ _ (Nat.le_refl _)]
  simp

theorem mapSubClients (clientsNum : Nat) (row : HwFenceClientIpcMap)
    (rows : List HwFenceClientIpcMap) (room : rows.length+n ≤ clientsNum) :
    (List.range n).foldlM (mapSubClient clientsNum row) (padded clientsNum rows) =
      .ok (padded clientsNum (rows ++ subRows row n)) := by
  induction n with
  | zero =>
    simp [subRows]
    rfl
  | succ n ih =>
    rw [List.range_succ,List.foldlM_append,ih (by omega)]
    have last := mapSubClientRow clientsNum row (rows ++ subRows row n) (by simp [subRows]; omega) n
    simp only [List.foldlM_cons,List.foldlM_nil,bind,Except.bind,last,pure,Except.pure]
    simp [subRows,List.range_succ]

theorem rowsLength (parsed : ParsedTypes k types)
    (whole : hwFenceMaxStaticClientsIndex ≤ baseTable.length) (few : t ≤ 8) :
    (rowsUpTo types baseTable t).length = hwFenceMaxStaticClientsIndex+subClients types t := by
  induction t with
  | zero => simp [rowsUpTo,subClients,whole]
  | succ t ih =>
    obtain ⟨desc,found,-⟩ := ParsedTypes.typeAt parsed (t := t) (by omega)
    rw [rowsUpTo,List.length_append,ih (by omega),subClientsNext found,found]
    simp [subRows,Nat.add_assoc]

theorem mapClientTypes (clientsNum : Nat) (parsed : ParsedTypes k types)
    (whole : hwFenceMaxStaticClientsIndex ≤ baseTable.length) (few : t ≤ 8)
    (room : hwFenceMaxStaticClientsIndex+subClients types t ≤ clientsNum) :
    (List.range t).foldlM (mapClientType clientsNum types baseTable)
      (padded clientsNum (rowsUpTo types baseTable 0)) =
        .ok (padded clientsNum (rowsUpTo types baseTable t)) := by
  induction t with
  | zero => rfl
  | succ t ih =>
    obtain ⟨desc,found,-⟩ := ParsedTypes.typeAt parsed (t := t) (by omega)
    have length := rowsLength parsed whole (t := t) (by omega)
    rw [subClientsNext found] at room
    have last := mapSubClients clientsNum
      (baseTable.getD (hwFenceMaxStaticClientsIndex+t) .zeroed) (rowsUpTo types baseTable t)
      (n := desc.clientsNum) (by omega)
    rw [List.range_succ,List.foldlM_append,ih (by omega) (by omega)]
    simp only [List.foldlM_cons,List.foldlM_nil,bind,Except.bind,mapClientType,found,last,pure,
      Except.pure,rowsUpTo,Option.map_some,Option.getD_some]

theorem builderRows (parsed : ParsedTypes k types)
    (whole : hwFenceMaxStaticClientsIndex ≤ baseTable.length) (kzalloc : Nat → Bool) :
    let clientsNum := hwFenceMaxStaticClientsIndex+subClients types 8
    hwFenceIpccInitMapWithConfigurableClients clientsNum types baseTable kzalloc =
      if kzalloc (sizeT (clientsNum*sizeofHwFenceClientIpcMap)) then
        .ok (rowsUpTo types baseTable 8) else .error (.failed .enomem) := by
  intro clientsNum
  have length := rowsLength parsed whole (t := 8) (Nat.le_refl _)
  have static := rowsLength parsed whole (t := 0) (by omega)
  have start : padded clientsNum (rowsUpTo types baseTable 0) =
      (baseTable.take hwFenceMaxStaticClientsIndex ++
        List.replicate (clientsNum-hwFenceMaxStaticClientsIndex) .zeroed,
        hwFenceMaxStaticClientsIndex) := by
    have none : subClients types 0 = 0 := by simp [subClients]
    rw [none,Nat.add_zero] at static
    unfold padded
    rw [static]
    rfl
  have full : (padded clientsNum (rowsUpTo types baseTable 8)).1 = rowsUpTo types baseTable 8 := by
    unfold padded
    rw [length]
    simp [clientsNum]
  have run := mapClientTypes clientsNum parsed whole (Nat.le_refl 8) (Nat.le_refl _)
  rw [start] at run
  unfold hwFenceIpccInitMapWithConfigurableClients
  split
  · rfl
  · rename_i allocated
    rw [if_neg (by omega),if_pos (not_not.mp allocated)]
    simp only [hwFenceMaxClientTypeConfigurable,run,full]

theorem rowsPrefix (types : List ClientTypeDesc) (baseTable : List HwFenceClientIpcMap) {u : Nat}
    (le : t ≤ u) :
    rowsUpTo types baseTable t <+: rowsUpTo types baseTable u := by
  induction u, le using Nat.le_induction with
  | base => exact List.prefix_rfl
  | succ u _ ih => exact ih.trans (List.prefix_append _ _)

theorem subRowAt (parsed : ParsedTypes k types)
    (whole : hwFenceMaxStaticClientsIndex ≤ baseTable.length) (type : t < 8)
    (found : types[hwFenceMaxClientTypeStatic+t]? = some desc) {j : Nat}
    (inside : j < desc.clientsNum) :
    (rowsUpTo types baseTable 8)[hwFenceMaxStaticClientsIndex+subClients types t+j]? =
      some {baseTable.getD (hwFenceMaxStaticClientsIndex+t) .zeroed with ipcSignalId := j} := by
  have length := rowsLength parsed whole (t := t) (by omega)
  have own : (rowsUpTo types baseTable (t+1))[hwFenceMaxStaticClientsIndex+subClients types t+j]? =
      some {baseTable.getD (hwFenceMaxStaticClientsIndex+t) .zeroed with ipcSignalId := j} := by
    rw [rowsUpTo,List.getElem?_append_right (by omega),length,Nat.add_sub_cancel_left,found]
    simp [subRows,inside]
  obtain ⟨bound,-⟩ := List.getElem?_eq_some_iff.mp own
  obtain ⟨rest,same⟩ := rowsPrefix types baseTable (t := t+1) (u := 8) type
  rw [← same,List.getElem?_append_left bound]
  exact own

theorem ifeRow : ∀ debugFs, ∀ t < 8,
    (hwFenceClientsIpcMapV2 debugFs).getD (hwFenceMaxStaticClientsIndex+t) .zeroed =
      ⟨hwFenceIpcClientIdIfeVid t,hwFenceIpcClientIdIfePid t,0,false,true⟩ := by decide

theorem v2Length (debugFs : Bool) :
    (hwFenceClientsIpcMapV2 debugFs).length = hwFenceIpcMapMax := by
  cases debugFs <;> rfl

end Rows

section Descriptors
variable {k : KernelSizes} {types : List ClientTypeDesc}

def describes (desc : ClientTypeDesc) (size : ClientQueueSizeDesc) : Prop :=
  size = ⟨desc.queuesNum,desc.queueEntries,desc.memSize,size.startOffset,desc.skipTxqWrIdx⟩

theorem assignDescribes (cs : List (ClientTypeDesc × Nat)) (acc : Assigned)
    (nodup : (cs.map (privId types)).Nodup) {c : ClientTypeDesc × Nat} (mem : c ∈ cs) :
    describes c.1 ((cs.foldl (fun acc c => assignClient types c.1 acc c.2) acc).1
      (privId types c)) := by
  induction cs generalizing acc with
  | nil => contradiction
  | cons first rest ih =>
    simp only [List.map_cons,List.nodup_cons] at nodup
    rw [List.foldl_cons]
    rcases List.mem_cons.mp mem with rfl | later
    · rw [assignUntouched _ _ _ nodup.1,assignClient]
      simp [describes,privId,extId]
    · exact ih _ nodup.2 later

theorem descriptorOf (parsed : ParsedTypes k types) (acc : Assigned)
    {c : ClientTypeDesc × Nat} (mem : c ∈ configured types) :
    describes c.1 ((assignClients types acc).1 (privId types c)) := by
  rw [assignOne]
  exact assignDescribes _ _ (privNodup parsed) mem

end Descriptors

section Agree
variable {k : KernelSizes} {dt : DtProps} {kzalloc : Nat → Bool} {d d' : DtData}

structure SubClientTables (d : DtData) (table : List HwFenceClientIpcMap) (t j : Nat)
    (desc : ClientTypeDesc) : Prop where
  mapping : table[hwFenceUtilsGetClientIdPriv d.hwFenceClientTypes (hwFenceClientIdIfe t+j)]? =
    some ⟨hwFenceIpcClientIdIfeVid t,hwFenceIpcClientIdIfePid t,(j : Int),false,true⟩
  queues : describes desc (d.hwFenceClientQueueSize
    (hwFenceUtilsGetClientIdPriv d.hwFenceClientTypes (hwFenceClientIdIfe t+j)))

theorem subClientMember (parsed : ParsedTypes k d.hwFenceClientTypes) {t j : Nat}
    {desc : ClientTypeDesc}
    (found : d.hwFenceClientTypes[hwFenceMaxClientTypeStatic+t]? = some desc)
    (inside : j < desc.clientsNum) : (desc,j) ∈ configured d.hwFenceClientTypes ∧
      extId (desc,j) = hwFenceClientIdIfe t+j := by
  refine ⟨memConfigured.mpr ⟨List.mem_of_getElem? found,inside⟩,?_⟩
  obtain ⟨fixed,here,same⟩ := parsed.at_ found
  obtain ⟨bound,rfl⟩ := List.getElem?_eq_some_iff.mp here
  have init := ((fixedTypes _ bound).2 (Nat.le_add_right _ _)).1
  rw [Nat.add_sub_cancel_left] at init
  rw [extId,same.initId,init]

structure Covers (d : DtData) (table : List HwFenceClientIpcMap) : Prop where
  length : table.length = d.clientsNum
  subClients : ∀ t < hwFenceMaxClientTypeConfigurable, ∃ desc,
    d.hwFenceClientTypes[hwFenceMaxClientTypeStatic+t]? = some desc ∧
      ∀ j < desc.clientsNum, SubClientTables d table t j desc

theorem tablesBuilt (ok : parseClientQueueDtProps k dt kzalloc d = .ok d') (debugFs : Bool) :
    ∃ table, Covers d' table ∧ ∀ alloc : Nat → Bool,
      hwFenceIpccInitMapWithConfigurableClients d'.clientsNum d'.hwFenceClientTypes
        (hwFenceClientsIpcMapV2 debugFs) alloc =
          if alloc (sizeT (d'.clientsNum*sizeofHwFenceClientIpcMap)) then .ok table
          else .error (.failed .enomem) := by
  obtain ⟨parsed,-,clients,assigned,-⟩ := parsedClients ok
  have whole : hwFenceMaxStaticClientsIndex ≤ (hwFenceClientsIpcMapV2 debugFs).length := by
    rw [v2Length]
    decide
  refine ⟨rowsUpTo d'.hwFenceClientTypes (hwFenceClientsIpcMapV2 debugFs) 8,
    ⟨?_,fun t type => ?_⟩,fun alloc => ?_⟩
  · rw [clients]
    exact rowsLength parsed whole (Nat.le_refl _)
  · obtain ⟨desc,found,few⟩ := ParsedTypes.typeAt parsed type
    refine ⟨desc,found,fun j inside => ⟨?_,?_⟩⟩
    · rw [privConfigured found inside few,subRowAt parsed whole type found inside,
        ifeRow debugFs t type]
    · obtain ⟨mem,ext⟩ := subClientMember parsed found inside
      have described := descriptorOf parsed (fun _ => ⟨0,0,0,0,false⟩,
        u32 (k.pageAlign (sizeT (d.hwFenceMemCtrlQueuesSize+hwFenceMemLocksSize d'.rxqClientsNum+
          d.hwFenceMemFencesTableSize)))) mem
      rw [assigned,privId,ext] at described
      exact described
  · rw [clients]
    exact builderRows parsed whole alloc

theorem clientTablesAgree (ok : parseClientQueueDtProps k dt kzalloc d = .ok d') (debugFs : Bool) :
    Consolidates d'.hwFenceClientTypes d'.clientsNum ∧
    ∃ table, Covers d' table ∧ ∀ alloc : Nat → Bool,
      hwFenceIpccInitMapWithConfigurableClients d'.clientsNum d'.hwFenceClientTypes
        (hwFenceClientsIpcMapV2 debugFs) alloc =
          if alloc (sizeT (d'.clientsNum*sizeofHwFenceClientIpcMap)) then .ok table
          else .error (.failed .enomem) := by
  obtain ⟨parsed,-,clients,-⟩ := parsedClients ok
  rw [clients]
  exact ⟨consolidates parsed,clients ▸ tablesBuilt ok debugFs⟩

def sparseProps : DtProps :=
  ⟨some 128,some 64,fun name =>
    if name = "ife0" then some (3,1,64,1) else if name = "ife2" then some (2,2,64,0) else none⟩

theorem sparseTablesAgree :
    ∃ d, parseClientQueueDtProps pages4k sparseProps (fun _ => true)
        {DtData.zeroed with hwFenceQueueEntries := 64} = .ok d ∧
      Consolidates d.hwFenceClientTypes d.clientsNum ∧
      ∃ table, Covers d table ∧ ∀ alloc : Nat → Bool,
        hwFenceIpccInitMapWithConfigurableClients d.clientsNum d.hwFenceClientTypes
          (hwFenceClientsIpcMapV2 true) alloc =
            if alloc (sizeT (d.clientsNum*sizeofHwFenceClientIpcMap)) then .ok table
            else .error (.failed .enomem) := by
  have holds : (parseClientQueueDtProps pages4k sparseProps (fun _ => true)
      {DtData.zeroed with hwFenceQueueEntries := 64}).toOption.isSome = true := by decide +kernel
  cases ok : parseClientQueueDtProps pages4k sparseProps (fun _ => true)
      {DtData.zeroed with hwFenceQueueEntries := 64} with
  | error e => simp [ok,Except.toOption] at holds
  | ok d => exact ⟨d,rfl,clientTablesAgree ok true⟩

end Agree
end MmDrivers.IpcMap

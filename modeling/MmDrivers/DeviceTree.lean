import Mathlib
import MmDrivers.FenceTypes
import MmDrivers.Lib.Layout

/-! The device-tree properties of the driver: how many clients of each type there
are, which internal id each gets and where its queues lie in the carve-out.
Values are u32 or size_t; `u32` and `sizeT` stand where the code truncates. -/
namespace MmDrivers.DeviceTree
open FenceTypes

def u32 (n : Nat) : Nat := n % 2^32
def sizeT (n : Nat) : Nat := n % 2^64
def u32Max : Nat := 2^32-1

/-- What the build fixes outside of the driver: the pages and the two hfi header
structures, which together stay below one page. -/
structure KernelSizes where
  pageShift : Nat
  tableHeader : Nat
  queueHeader : Nat
  small : pageShift ≤ 16
  headers : tableHeader+2*queueHeader ≤ 4096

namespace KernelSizes
variable (k : KernelSizes)

def page : Nat := 2^k.pageShift
def pageAlign (n : Nat) : Nat := sizeT ((n+k.page-1)/k.page*k.page)
-- U32_MAX & PAGE_MASK
def maskedMax : Nat := u32Max/k.page*k.page
def hfiHeadersSize (queuesNum : Nat) : Nat := sizeT (k.tableHeader+k.queueHeader*queuesNum)

end KernelSizes

def sizeofHwFence : Nat := 160
def hwFenceCtrlQueuePayload : Nat := 24
def hwFenceCtrlQueues : Nat := 2
def hwFenceClientQueuePayload : Nat := 64
def maxClientQueueMemSize : Nat := 0x100000
def hwFenceMaxClientTypeStatic : Nat := 5
def hwFenceMinRxqClients : Nat := hwFenceClientIdVal6
def hwFenceMinRxqClientType : Nat := 3
def hwFenceMaxStaticClientsIndex : Nat := hwFenceClientIdIfe 0
def hwFenceMemLocksSize (rxqClientsNum : Nat) : Nat := sizeT (8*rxqClientsNum)

structure ClientTypeDesc where
  name : String
  initId : Nat
  maxClientsNum : Nat
  clientsNum : Nat
  queuesNum : Nat
  queueEntries : Nat
  memSize : Nat
  skipTxqWrIdx : Bool
  deriving DecidableEq, Repr

def hwFenceClientTypes : List ClientTypeDesc :=
  [⟨"gpu",hwFenceClientIdCtx0,1,1,2,0,0,false⟩,
   ⟨"dpu",2,6,6,2,0,0,false⟩,
   ⟨"val",hwFenceClientIdVal0,7,7,2,0,0,false⟩,
   ⟨"ipe",hwFenceClientIdIpe,1,0,2,0,0,false⟩,
   ⟨"vpu",hwFenceClientIdVpu,1,0,2,0,0,false⟩,
   ⟨"ife0",hwFenceClientIdIfe 0,32,0,1,0,0,true⟩,
   ⟨"ife1",hwFenceClientIdIfe 1,32,0,1,0,0,true⟩,
   ⟨"ife2",hwFenceClientIdIfe 2,32,0,1,0,0,true⟩,
   ⟨"ife3",hwFenceClientIdIfe 3,32,0,1,0,0,true⟩,
   ⟨"ife4",hwFenceClientIdIfe 4,32,0,1,0,0,true⟩,
   ⟨"ife5",hwFenceClientIdIfe 5,32,0,1,0,0,true⟩,
   ⟨"ife6",hwFenceClientIdIfe 6,32,0,1,0,0,true⟩,
   ⟨"ife7",hwFenceClientIdIfe 7,32,0,1,0,0,true⟩]

/-- The properties read, `none` where one is missing or malformed. -/
structure DtProps where
  tableEntries : Option U32
  queueEntries : Option U32
  clientType : String → Option (U32 × U32 × U32 × U32)

structure ClientQueueSizeDesc where
  queuesNum : Nat
  queueEntries : Nat
  memSize : Nat
  startOffset : Nat
  skipTxqWrIdx : Bool
  deriving DecidableEq, Repr

/-- The driver data the properties determine; no client types stands for the null pointer. -/
structure DtData where
  hwFenceTableEntries : Nat
  hwFenceMemFencesTableSize : Nat
  hwFenceQueueEntries : Nat
  hwFenceCtrlQueueSize : Nat
  hwFenceMemCtrlQueuesSize : Nat
  rxqClientsNum : Nat
  clientsNum : Nat
  hwFenceClientTypes : List ClientTypeDesc
  hwFenceClientQueueSize : Nat → ClientQueueSizeDesc
  queueSizeAllocated : Bool
  usedMemSize : Nat
  clientsAllocated : Bool

def DtData.zeroed : DtData :=
  ⟨0,0,0,0,0,0,0,[],fun _ => ⟨0,0,0,0,false⟩,false,0,false⟩

section Parse
variable (k : KernelSizes) (dt : DtProps) (kzalloc : Nat → Bool)

def readClientType (hwFenceQueueEntries : Nat) (desc : ClientTypeDesc) :
    Except Errno ClientTypeDesc :=
  match dt.clientType desc.name with
  | none => .ok {desc with queueEntries := hwFenceQueueEntries}
  | some (clientsNum,queuesNum,queueEntries,skip) =>
    if 1 < skip.toNat then .error .einval
    else .ok {desc with
      clientsNum := clientsNum.toNat, queuesNum := queuesNum.toNat,
      queueEntries := queueEntries.toNat, skipTxqWrIdx := skip.toNat = 1}

def parseClientQueueDtPropsIndv (hwFenceQueueEntries : Nat) (desc : ClientTypeDesc) :
    Except Errno ClientTypeDesc := do
  let desc ← readClientType dt hwFenceQueueEntries desc
  if desc.maxClientsNum < desc.clientsNum ∨ desc.queuesNum = 0 ∨
      hwFenceClientQueues < desc.queuesNum ∨ desc.queueEntries = 0 then .error .einval
  else if u32Max/hwFenceClientQueuePayload ≤ desc.queueEntries then .error .einval
  else
    let queueSize := u32 (hwFenceClientQueuePayload*desc.queueEntries)
    if (k.maskedMax-k.hfiHeadersSize desc.queuesNum)/desc.queuesNum ≤ queueSize then .error .einval
    else
      let memSize := u32 (k.pageAlign
        (sizeT (k.hfiHeadersSize desc.queuesNum+u32 (queueSize*desc.queuesNum))))
      if maxClientQueueMemSize < memSize then .error .einval
      else .ok {desc with memSize := memSize}

def countClients : Nat → List ClientTypeDesc → Nat × Nat → Nat × Nat
  | _,[],acc => acc
  | i,desc::rest,(rxq,configurable) =>
    let rxq := if hwFenceMinRxqClientType ≤ i ∧ desc.queuesNum = hwFenceClientQueues then
      u32 (rxq+desc.clientsNum) else rxq
    let configurable := if hwFenceMaxClientTypeStatic ≤ i then
      u32 (configurable+desc.clientsNum) else configurable
    countClients (i+1) rest (rxq,configurable)

def hwFenceUtilsGetClientIdPriv (types : List ClientTypeDesc) (clientId : Nat) : Nat :=
  if clientId < hwFenceMaxStaticClientsIndex then clientId
  else
    let clientType := hwFenceMaxClientTypeStatic +
      (clientId-hwFenceMaxStaticClientsIndex)/msmHwFenceMaxSignalPerClient
    let offset := (clientId-hwFenceMaxStaticClientsIndex) % msmHwFenceMaxSignalPerClient
    if (types[clientType]?.map ClientTypeDesc.clientsNum).getD 0 ≤ offset then hwFenceClientMax
    else hwFenceMaxStaticClientsIndex + offset +
      (((types.take clientType).drop hwFenceMaxClientTypeStatic).map ClientTypeDesc.clientsNum).sum

abbrev Assigned := (Nat → ClientQueueSizeDesc) × Nat

def assignClient (types : List ClientTypeDesc) (desc : ClientTypeDesc) (acc : Assigned) (j : Nat) :
    Assigned :=
  let clientId := hwFenceUtilsGetClientIdPriv types (desc.initId+j)
  (Function.update acc.1 clientId
    ⟨desc.queuesNum,desc.queueEntries,desc.memSize,acc.2,desc.skipTxqWrIdx⟩,
    u32 (acc.2+desc.memSize))

def assignClients (types : List ClientTypeDesc) (acc : Assigned) : Assigned :=
  types.foldl (fun acc desc => (List.range desc.clientsNum).foldl (assignClient types desc) acc) acc

def parseClientQueueDtProps (d : DtData) : Except Errno DtData := do
  let types ← hwFenceClientTypes.mapM (parseClientQueueDtPropsIndv k dt d.hwFenceQueueEntries)
  let (rxqClientsNum,configurable) := countClients 0 types (hwFenceMinRxqClients,0)
  let clientsNum := u32 (hwFenceMaxStaticClientsIndex+configurable)
  if ¬ kzalloc (sizeT (clientsNum*20)) then .error .enomem
  else
    let startOffset := u32 (k.pageAlign (sizeT (d.hwFenceMemCtrlQueuesSize +
      hwFenceMemLocksSize rxqClientsNum + d.hwFenceMemFencesTableSize)))
    let (queueSize,usedMemSize) := assignClients types (fun _ => ⟨0,0,0,0,false⟩,startOffset)
    .ok {d with
      rxqClientsNum := rxqClientsNum, clientsNum := clientsNum, hwFenceClientTypes := types,
      hwFenceClientQueueSize := queueSize, queueSizeAllocated := true, usedMemSize := usedMemSize}

/-- Returns the driver data with `0`; a property that is present and zero ends the
parsing early, with success. -/
def hwFenceUtilsParseDtProps : Except Errno DtData := do
  let d := DtData.zeroed
  match dt.tableEntries with
  | none => .error .einval
  | some val =>
  if val.toNat = 0 then .ok d
  else
  let d := {d with hwFenceTableEntries := val.toNat}
  if u32Max/sizeofHwFence ≤ d.hwFenceTableEntries then .error .einval
  else
  let d := {d with hwFenceMemFencesTableSize := u32 (sizeofHwFence*d.hwFenceTableEntries)}
  match dt.queueEntries with
  | none => .error .einval
  | some val =>
  if val.toNat = 0 then .ok d
  else
  let d := {d with hwFenceQueueEntries := val.toNat}
  if u32Max/hwFenceCtrlQueuePayload ≤ d.hwFenceQueueEntries then .error .einval
  else
  let d := {d with hwFenceCtrlQueueSize := u32 (hwFenceCtrlQueuePayload*d.hwFenceQueueEntries)}
  if (u32Max-k.hfiHeadersSize hwFenceCtrlQueues)/hwFenceCtrlQueues ≤ d.hwFenceCtrlQueueSize then
    .error .einval
  else
  let ctrlQueues := u32 (hwFenceCtrlQueues*d.hwFenceCtrlQueueSize)
  let d := {d with hwFenceMemCtrlQueuesSize := u32 (k.hfiHeadersSize hwFenceCtrlQueues+ctrlQueues)}
  match parseClientQueueDtProps k dt kzalloc d with
  | .error _ => .error .einval
  | .ok d =>
  if ¬ kzalloc (sizeT (d.clientsNum*8)) then .error .enomem
  else .ok {d with clientsAllocated := true}

end Parse

section Accepted
variable {k : KernelSizes} {dt : DtProps} {kzalloc : Nat → Bool}

theorem KernelSizes.pageBounds (k : KernelSizes) : 0 < k.page ∧ k.page ≤ 2^16 :=
  ⟨Nat.two_pow_pos _,Nat.pow_le_pow_right (by omega) k.small⟩

def KernelSizes.ceil (k : KernelSizes) (n : Nat) : Nat := (n+k.page-1)/k.page*k.page

theorem KernelSizes.ceilBounds (k : KernelSizes) (n : Nat) : n ≤ k.ceil n ∧ k.ceil n < n+2^16 := by
  obtain ⟨some,small⟩ := k.pageBounds
  have split := Nat.div_add_mod (n+k.page-1) k.page
  have rest := Nat.mod_lt (n+k.page-1) some
  unfold KernelSizes.ceil
  rw [Nat.mul_comm]
  omega

theorem KernelSizes.alignCeil (k : KernelSizes) {n : Nat} (small : n < 2^63) :
    k.pageAlign n = k.ceil n := by
  have bounds := k.ceilBounds n
  unfold KernelSizes.ceil at bounds ⊢
  unfold KernelSizes.pageAlign sizeT
  exact Nat.mod_eq_of_lt (by omega)

theorem KernelSizes.headersExact (k : KernelSizes) {queuesNum : Nat} (few : queuesNum ≤ 2) :
    k.hfiHeadersSize queuesNum = k.tableHeader+k.queueHeader*queuesNum ∧
      k.hfiHeadersSize queuesNum ≤ 4096 := by
  have headers := k.headers
  have part : k.queueHeader*queuesNum ≤ k.queueHeader*2 := Nat.mul_le_mul_left _ few
  have exact : k.hfiHeadersSize queuesNum = k.tableHeader+k.queueHeader*queuesNum :=
    Nat.mod_eq_of_lt (by omega)
  exact ⟨exact,by omega⟩

theorem KernelSizes.ceilMasked (k : KernelSizes) {n : Nat} (fits : n ≤ k.maskedMax) :
    k.ceil n < 2^32 := by
  obtain ⟨some,-⟩ := k.pageBounds
  have pages : (n+k.page-1)/k.page ≤ u32Max/k.page := by
    have step : (n+k.page-1)/k.page ≤ (k.page-1+u32Max/k.page*k.page)/k.page :=
      Nat.div_le_div_right (by unfold KernelSizes.maskedMax at fits; omega)
    have rest : (k.page-1)/k.page = 0 := Nat.div_eq_of_lt (by omega)
    rw [Nat.add_mul_div_right _ _ some,rest] at step
    omega
  have whole : u32Max/k.page*k.page ≤ u32Max := Nat.div_mul_le_self _ _
  have scaled : k.ceil n ≤ u32Max/k.page*k.page := Nat.mul_le_mul_right _ pages
  unfold u32Max at whole scaled
  omega

def memExact (k : KernelSizes) (desc : ClientTypeDesc) : Nat :=
  k.ceil (k.tableHeader+k.queueHeader*desc.queuesNum+
    hwFenceClientQueuePayload*desc.queueEntries*desc.queuesNum)

structure Parsed (k : KernelSizes) (fixed desc : ClientTypeDesc) : Prop where
  initId : desc.initId = fixed.initId
  maxClientsNum : desc.maxClientsNum = fixed.maxClientsNum
  clients : desc.clientsNum ≤ desc.maxClientsNum
  queues : 1 ≤ desc.queuesNum ∧ desc.queuesNum ≤ 2
  entries : 1 ≤ desc.queueEntries
  memSize : desc.memSize = memExact k desc
  small : desc.memSize ≤ maxClientQueueMemSize

theorem parsedIndv {entries : Nat} {fixed desc : ClientTypeDesc}
    (ok : parseClientQueueDtPropsIndv k dt entries fixed = .ok desc) : Parsed k fixed desc := by
  unfold parseClientQueueDtPropsIndv at ok
  cases read : readClientType dt entries fixed with
  | error e => simp [read,bind,Except.bind] at ok
  | ok r =>
    have kept : r.initId = fixed.initId ∧ r.maxClientsNum = fixed.maxClientsNum := by
      unfold readClientType at read
      split at read
      · cases read; exact ⟨rfl,rfl⟩
      · split at read
        · contradiction
        · cases read; exact ⟨rfl,rfl⟩
    simp only [read,bind,Except.bind] at ok
    split at ok <;> try contradiction
    rename_i valid
    split at ok <;> try contradiction
    rename_i entriesFit
    split at ok <;> try contradiction
    rename_i queueFits
    split at ok <;> try contradiction
    rename_i memFits
    simp only [not_or,not_lt] at valid
    obtain ⟨clients,some,few,entries⟩ := valid
    cases ok
    have few : r.queuesNum ≤ 2 := few
    obtain ⟨headers,headersSmall⟩ := k.headersExact few
    have queueSize : u32 (hwFenceClientQueuePayload*r.queueEntries) =
        hwFenceClientQueuePayload*r.queueEntries := by
      unfold u32Max hwFenceClientQueuePayload at entriesFit
      unfold u32 hwFenceClientQueuePayload
      exact Nat.mod_eq_of_lt (by omega)
    rw [queueSize] at queueFits
    have queues : hwFenceClientQueuePayload*r.queueEntries*r.queuesNum+k.hfiHeadersSize r.queuesNum ≤
        k.maskedMax := by
      have scaled := (Nat.le_div_iff_mul_le (by omega)).mp (Nat.lt_of_not_le queueFits)
      rw [Nat.succ_mul] at scaled
      omega
    have masked : k.maskedMax < 2^32 := by
      have whole : u32Max/k.page*k.page ≤ u32Max := Nat.div_mul_le_self _ _
      unfold u32Max at whole
      unfold KernelSizes.maskedMax u32Max
      omega
    have memSize : u32 (k.pageAlign (sizeT (k.hfiHeadersSize r.queuesNum+
        u32 (u32 (hwFenceClientQueuePayload*r.queueEntries)*r.queuesNum)))) = memExact k r := by
      have product : u32 (hwFenceClientQueuePayload*r.queueEntries*r.queuesNum) =
          hwFenceClientQueuePayload*r.queueEntries*r.queuesNum := Nat.mod_eq_of_lt (by omega)
      have sum : sizeT (k.hfiHeadersSize r.queuesNum+
          hwFenceClientQueuePayload*r.queueEntries*r.queuesNum) = k.hfiHeadersSize r.queuesNum+
          hwFenceClientQueuePayload*r.queueEntries*r.queuesNum := Nat.mod_eq_of_lt (by omega)
      rw [queueSize,product,sum,k.alignCeil (by omega)]
      unfold memExact
      rw [← headers]
      exact Nat.mod_eq_of_lt (k.ceilMasked (by omega))
    refine ⟨kept.1,kept.2,clients,⟨Nat.one_le_iff_ne_zero.mpr some,few⟩,
      Nat.one_le_iff_ne_zero.mpr entries,memSize,Nat.le_of_not_lt memFits⟩

theorem mapMForall {α β : Type} {f : α → Except Errno β} {xs : List α} {ys : List β}
    (ok : xs.mapM f = .ok ys) : List.Forall₂ (fun x y => f x = .ok y) xs ys := by
  induction xs generalizing ys with
  | nil =>
    cases ok
    exact .nil
  | cons x rest ih =>
    rw [List.mapM_cons] at ok
    cases head : f x with
    | error e => simp [head,bind,Except.bind] at ok
    | ok y =>
      cases tail : rest.mapM f with
      | error e => simp [head,tail,bind,Except.bind] at ok
      | ok zs =>
        simp only [head,tail,bind,Except.bind,pure,Except.pure] at ok
        cases ok
        exact .cons head (ih tail)

theorem clientProps {d d' : DtData} (ok : parseClientQueueDtProps k dt kzalloc d = .ok d') :
    ∃ types, hwFenceClientTypes.mapM (parseClientQueueDtPropsIndv k dt d.hwFenceQueueEntries) =
        .ok types ∧
      d' =
        let counts := countClients 0 types (hwFenceMinRxqClients,0)
        let assigned := assignClients types (fun _ => ⟨0,0,0,0,false⟩,
          u32 (k.pageAlign (sizeT (d.hwFenceMemCtrlQueuesSize+hwFenceMemLocksSize counts.1+
            d.hwFenceMemFencesTableSize))))
        {d with
          rxqClientsNum := counts.1,
          clientsNum := u32 (hwFenceMaxStaticClientsIndex+counts.2),
          hwFenceClientTypes := types, hwFenceClientQueueSize := assigned.1,
          queueSizeAllocated := true, usedMemSize := assigned.2} := by
  unfold parseClientQueueDtProps at ok
  cases read : hwFenceClientTypes.mapM
      (parseClientQueueDtPropsIndv k dt d.hwFenceQueueEntries) with
  | error e => simp [read,bind,Except.bind] at ok
  | ok types =>
    simp only [read,bind,Except.bind] at ok
    split at ok
    · contradiction
    · cases ok
      exact ⟨types,rfl,rfl⟩

def ParsedTypes (k : KernelSizes) (types : List ClientTypeDesc) : Prop :=
  List.Forall₂ (Parsed k) hwFenceClientTypes types

end Accepted

section Ids
variable {k : KernelSizes} {types : List ClientTypeDesc}

def configured (types : List ClientTypeDesc) : List (ClientTypeDesc × Nat) :=
  types.flatMap fun desc => (List.range desc.clientsNum).map (desc,·)

def extId (c : ClientTypeDesc × Nat) : Nat := c.1.initId+c.2

def privId (types : List ClientTypeDesc) (c : ClientTypeDesc × Nat) : Nat :=
  hwFenceUtilsGetClientIdPriv types (extId c)

def subClients (types : List ClientTypeDesc) (t : Nat) : Nat :=
  (((types.take (hwFenceMaxClientTypeStatic+t)).drop hwFenceMaxClientTypeStatic).map
    ClientTypeDesc.clientsNum).sum

theorem ParsedTypes.length (parsed : ParsedTypes k types) : types.length = 13 :=
  (List.Forall₂.length_eq parsed).symm

theorem ParsedTypes.at_ (parsed : ParsedTypes k types) {i : Nat} {desc : ClientTypeDesc}
    (found : types[i]? = some desc) : ∃ fixed, hwFenceClientTypes[i]? = some fixed ∧
      Parsed k fixed desc := by
  have inside : i < types.length := (List.getElem?_eq_some_iff.mp found).1
  have fixedInside : i < hwFenceClientTypes.length := by
    rw [List.Forall₂.length_eq parsed]
    exact inside
  refine ⟨hwFenceClientTypes[i],List.getElem?_eq_getElem fixedInside,?_⟩
  have related := List.Forall₂.get parsed fixedInside inside
  rw [List.getElem?_eq_getElem inside] at found
  cases Option.some.inj found
  simpa using related

theorem subClientsNext {t : Nat} {desc : ClientTypeDesc}
    (found : types[hwFenceMaxClientTypeStatic+t]? = some desc) :
    subClients types (t+1) = subClients types t+desc.clientsNum := by
  unfold subClients
  rw [← Nat.add_assoc,List.take_add_one,found]
  have short : hwFenceMaxClientTypeStatic ≤ (types.take (hwFenceMaxClientTypeStatic+t)).length := by
    have inside := (List.getElem?_eq_some_iff.mp found).1
    rw [List.length_take]
    omega
  rw [List.drop_append_of_le_length short]
  simp

theorem subClientsMono {t u : Nat} (le : t ≤ u) : subClients types t ≤ subClients types u := by
  induction u, le using Nat.le_induction with
  | base => exact Nat.le_refl _
  | succ u _ ih =>
    cases found : types[hwFenceMaxClientTypeStatic+u]? with
    | some desc =>
      rw [subClientsNext found]
      omega
    | none =>
      have ends := List.getElem?_eq_none_iff.mp found
      have same : subClients types (u+1) = subClients types u := by
        unfold subClients
        rw [List.take_of_length_le (by omega),List.take_of_length_le ends]
      omega

theorem privStatic {c : Nat} (static : c < hwFenceMaxStaticClientsIndex) :
    hwFenceUtilsGetClientIdPriv types c = c := by
  rw [hwFenceUtilsGetClientIdPriv,if_pos static]

theorem privConfigured {t offset : Nat} {desc : ClientTypeDesc}
    (found : types[hwFenceMaxClientTypeStatic+t]? = some desc) (inside : offset < desc.clientsNum)
    (few : desc.clientsNum ≤ msmHwFenceMaxSignalPerClient) :
    hwFenceUtilsGetClientIdPriv types (hwFenceClientIdIfe t+offset) =
      hwFenceMaxStaticClientsIndex+subClients types t+offset := by
  have big : ¬ hwFenceClientIdIfe t+offset < hwFenceMaxStaticClientsIndex := by
    simp only [hwFenceMaxStaticClientsIndex,hwFenceClientIdIfe]
    omega
  have type : (hwFenceClientIdIfe t+offset-hwFenceMaxStaticClientsIndex)/
      msmHwFenceMaxSignalPerClient = t := by
    simp only [hwFenceMaxStaticClientsIndex,hwFenceClientIdIfe,msmHwFenceMaxSignalPerClient] at *
    omega
  have rest : (hwFenceClientIdIfe t+offset-hwFenceMaxStaticClientsIndex) %
      msmHwFenceMaxSignalPerClient = offset := by
    simp only [hwFenceMaxStaticClientsIndex,hwFenceClientIdIfe,msmHwFenceMaxSignalPerClient] at *
    omega
  simp only [hwFenceUtilsGetClientIdPriv,if_neg big,type,rest,found,Option.map_some,
    Option.getD_some,if_neg (Nat.not_le.mpr inside)]
  change _ + offset + subClients types t = _
  omega

theorem fixedTypes : ∀ i (h : i < hwFenceClientTypes.length),
    (i < hwFenceMaxClientTypeStatic →
      hwFenceClientTypes[i].initId+hwFenceClientTypes[i].maxClientsNum ≤
        hwFenceMaxStaticClientsIndex) ∧
    (hwFenceMaxClientTypeStatic ≤ i →
      hwFenceClientTypes[i].initId = hwFenceClientIdIfe (i-hwFenceMaxClientTypeStatic) ∧
        hwFenceClientTypes[i].maxClientsNum = msmHwFenceMaxSignalPerClient) := by decide

theorem fixedOrder : hwFenceClientTypes.Pairwise
    (fun a b => a.initId+a.maxClientsNum ≤ b.initId) := by decide

theorem memConfigured {c : ClientTypeDesc × Nat} :
    c ∈ configured types ↔ c.1 ∈ types ∧ c.2 < c.1.clientsNum := by
  simp only [configured,List.mem_flatMap,List.mem_map,List.mem_range]
  constructor
  · rintro ⟨desc,mem,j,inside,rfl⟩
    exact ⟨mem,inside⟩
  · intro ⟨mem,inside⟩
    exact ⟨c.1,mem,c.2,inside,rfl⟩

theorem privCases (parsed : ParsedTypes k types) {c : ClientTypeDesc × Nat}
    (mem : c ∈ configured types) :
    (extId c < hwFenceMaxStaticClientsIndex ∧ privId types c = extId c) ∨
    ∃ t, t < 8 ∧ types[hwFenceMaxClientTypeStatic+t]? = some c.1 ∧
      extId c = hwFenceClientIdIfe t+c.2 ∧ c.1.clientsNum ≤ msmHwFenceMaxSignalPerClient ∧
      privId types c = hwFenceMaxStaticClientsIndex+subClients types t+c.2 := by
  obtain ⟨known,inside⟩ := memConfigured.mp mem
  obtain ⟨i,found⟩ := List.mem_iff_getElem?.mp known
  obtain ⟨fixed,fixedFound,same⟩ := parsed.at_ found
  obtain ⟨short,rfl⟩ := List.getElem?_eq_some_iff.mp fixedFound
  have few := same.clients
  rw [same.maxClientsNum] at few
  obtain ⟨static,configurable⟩ := fixedTypes i short
  by_cases early : i < hwFenceMaxClientTypeStatic
  · have bound := static early
    have small : extId c < hwFenceMaxStaticClientsIndex := by
      rw [extId,same.initId]
      omega
    exact .inl ⟨small,privStatic small⟩
  · obtain ⟨initId,maxClients⟩ := configurable (by omega)
    rw [maxClients] at few
    have whole : hwFenceMaxClientTypeStatic+(i-hwFenceMaxClientTypeStatic) = i := by omega
    have length : hwFenceClientTypes.length = 13 := rfl
    have own : extId c = hwFenceClientIdIfe (i-hwFenceMaxClientTypeStatic)+c.2 := by
      rw [extId,same.initId,initId]
    have late : types[hwFenceMaxClientTypeStatic+(i-hwFenceMaxClientTypeStatic)]? = some c.1 := by
      rw [whole,found]
    refine .inr ⟨i-hwFenceMaxClientTypeStatic,?_,late,own,few,?_⟩
    · unfold hwFenceMaxClientTypeStatic at *
      omega
    · rw [privId,own]
      exact privConfigured late inside few

theorem privIncreasing (parsed : ParsedTypes k types) {a b : ClientTypeDesc × Nat}
    (ma : a ∈ configured types) (mb : b ∈ configured types) (lt : extId a < extId b) :
    privId types a < privId types b := by
  have insideA := (memConfigured.mp ma).2
  rcases privCases parsed ma with ⟨smallA,privA⟩ | ⟨t,-,foundA,extA,fewA,privA⟩
  · rcases privCases parsed mb with ⟨-,privB⟩ | ⟨u,-,-,-,-,privB⟩
    · omega
    · omega
  · rcases privCases parsed mb with ⟨smallB,-⟩ | ⟨u,-,foundB,extB,fewB,privB⟩
    · simp only [hwFenceClientIdIfe,hwFenceMaxStaticClientsIndex] at *
      omega
    · simp only [hwFenceClientIdIfe,msmHwFenceMaxSignalPerClient] at extA extB fewA fewB
      have insideB := (memConfigured.mp mb).2
      by_cases same : t = u
      · subst same
        omega
      · have next := subClientsNext foundA
        have mono : subClients types (t+1) ≤ subClients types u := subClientsMono (by omega)
        omega

theorem extIncreasing (parsed : ParsedTypes k types) :
    (configured types).Pairwise (fun a b => extId a < extId b) := by
  have order : types.Pairwise (fun a b => a.initId+a.maxClientsNum ≤ b.initId) := by
    rw [List.pairwise_iff_getElem] at *
    intro i j hi hj lt
    obtain ⟨fa,foundA,sameA⟩ := parsed.at_ (List.getElem?_eq_getElem hi)
    obtain ⟨fb,foundB,sameB⟩ := parsed.at_ (List.getElem?_eq_getElem hj)
    obtain ⟨shortA,rfl⟩ := List.getElem?_eq_some_iff.mp foundA
    obtain ⟨shortB,rfl⟩ := List.getElem?_eq_some_iff.mp foundB
    rw [sameA.initId,sameA.maxClientsNum,sameB.initId]
    exact List.pairwise_iff_getElem.mp fixedOrder i j shortA shortB lt
  have few : ∀ desc ∈ types, desc.clientsNum ≤ desc.maxClientsNum := by
    intro desc mem
    obtain ⟨i,found⟩ := List.mem_iff_getElem?.mp mem
    obtain ⟨fixed,-,same⟩ := parsed.at_ found
    exact same.clients
  refine List.pairwise_flatMap.mpr ⟨?_,?_⟩
  · intro desc _
    rw [List.pairwise_map]
    exact List.pairwise_lt_range.imp (fun lt => Nat.add_lt_add_left lt _)
  · refine order.imp_of_mem ?_
    intro a b ma mb le x mx y my
    obtain ⟨j,insideA,rfl⟩ := List.mem_map.mp mx
    obtain ⟨l,-,rfl⟩ := List.mem_map.mp my
    have bound := few a ma
    simp only [extId,List.mem_range] at insideA ⊢
    omega

theorem privNodup (parsed : ParsedTypes k types) : ((configured types).map (privId types)).Nodup := by
  rw [List.Nodup,List.pairwise_map]
  refine (extIncreasing parsed).imp_of_mem ?_
  intro a b ma mb lt
  exact Nat.ne_of_lt (privIncreasing parsed ma mb lt)

theorem ParsedTypes.few (parsed : ParsedTypes k types) : ∀ desc ∈ types, desc.clientsNum ≤ 32 := by
  have fixedFew : ∀ fixed ∈ hwFenceClientTypes, fixed.maxClientsNum ≤ 32 := by decide
  intro desc mem
  obtain ⟨i,found⟩ := List.mem_iff_getElem?.mp mem
  obtain ⟨fixed,fixedFound,same⟩ := parsed.at_ found
  have clients := same.clients
  have bound := fixedFew fixed (List.mem_iff_getElem?.mpr ⟨i,fixedFound⟩)
  rw [same.maxClientsNum] at clients
  omega

theorem countBounds (few : ∀ desc ∈ types, desc.clientsNum ≤ 32) (i rxq configurable : Nat)
    (rxqSmall : rxq+32*types.length < 2^32) (small : configurable+32*types.length < 2^32) :
    (countClients i types (rxq,configurable)).1 ≤ rxq+32*types.length ∧
    (countClients i types (rxq,configurable)).2 = configurable+
      ((types.drop (hwFenceMaxClientTypeStatic-i)).map ClientTypeDesc.clientsNum).sum := by
  induction types generalizing i rxq configurable with
  | nil => simp [countClients]
  | cons desc rest ih =>
    have own := few desc List.mem_cons_self
    simp only [List.length_cons] at rxqSmall small ⊢
    have rxqExact : u32 (rxq+desc.clientsNum) = rxq+desc.clientsNum := Nat.mod_eq_of_lt (by omega)
    have exact : u32 (configurable+desc.clientsNum) = configurable+desc.clientsNum :=
      Nat.mod_eq_of_lt (by omega)
    rw [countClients,rxqExact,exact]
    have next := ih (fun d mem => few d (List.mem_cons_of_mem _ mem)) (i+1)
      (if hwFenceMinRxqClientType ≤ i ∧ desc.queuesNum = hwFenceClientQueues then
        rxq+desc.clientsNum else rxq)
      (if hwFenceMaxClientTypeStatic ≤ i then configurable+desc.clientsNum else configurable)
      (by split <;> omega) (by split <;> omega)
    refine ⟨Nat.le_trans next.1 (by split <;> omega),?_⟩
    rw [next.2]
    by_cases late : hwFenceMaxClientTypeStatic ≤ i
    · have none : hwFenceMaxClientTypeStatic-i = 0 := by omega
      have none' : hwFenceMaxClientTypeStatic-(i+1) = 0 := by omega
      rw [if_pos late,none,none']
      simp [Nat.add_assoc]
    · have skip : hwFenceMaxClientTypeStatic-i = hwFenceMaxClientTypeStatic-(i+1)+1 := by omega
      rw [if_neg late,skip,List.drop_succ_cons]

theorem configurableTotal (parsed : ParsedTypes k types) :
    ((types.drop hwFenceMaxClientTypeStatic).map ClientTypeDesc.clientsNum).sum =
      subClients types 8 := by
  have length := parsed.length
  unfold subClients hwFenceMaxClientTypeStatic
  rw [List.take_of_length_le (by omega)]

theorem privInside (parsed : ParsedTypes k types) {c : ClientTypeDesc × Nat}
    (mem : c ∈ configured types) :
    privId types c < hwFenceMaxStaticClientsIndex+subClients types 8 := by
  have inside := (memConfigured.mp mem).2
  rcases privCases parsed mem with ⟨small,priv⟩ | ⟨t,below,found,-,-,priv⟩
  · omega
  · have next := subClientsNext found
    have mono : subClients types (t+1) ≤ subClients types 8 := subClientsMono (by omega)
    omega

end Ids
end MmDrivers.DeviceTree

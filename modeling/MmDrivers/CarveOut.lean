import MmDrivers.GivenClients

/-! The carve-out as the driver hands it out: control queues, locks, the fence
table and the queues of every configured client, one after another. Each part
has an overflow guard of its own; their sum has none. -/
namespace MmDrivers.CarveOut
open FenceTypes DeviceTree GivenClients Layout

inductive MemReserve where
  | ctrlQueue
  | locksRegion
  | table
  | clientQueue (clientId : Nat)
  deriving DecidableEq, Repr

def hwFenceUtilsReserveMem (d : DtData) (size : Nat) (request : MemReserve) :
    Except Errno Region :=
  let checked (startOffset regionSize : Nat) : Except Errno Region :=
    if size < u32 (startOffset+regionSize) then .error .enomem else .ok ⟨startOffset,regionSize⟩
  match request with
  | .ctrlQueue => checked 0 d.hwFenceMemCtrlQueuesSize
  | .locksRegion =>
    checked d.hwFenceMemCtrlQueuesSize (u32 (hwFenceMemLocksSize d.rxqClientsNum))
  | .table =>
    checked (u32 (sizeT (d.hwFenceMemCtrlQueuesSize+hwFenceMemLocksSize d.rxqClientsNum)))
      d.hwFenceMemFencesTableSize
  | .clientQueue clientId =>
    if d.clientsNum ≤ clientId then .error .einval
    else
      let desc := d.hwFenceClientQueueSize clientId
      match checked desc.startOffset desc.memSize with
      | .error e => .error e
      | .ok region => if desc.memSize = 0 then .error .einval else .ok region

def ctrlExact (k : KernelSizes) (d : DtData) : Nat :=
  k.tableHeader+k.queueHeader*hwFenceCtrlQueues+
    hwFenceCtrlQueues*(hwFenceCtrlQueuePayload*d.hwFenceQueueEntries)
def locksExact (d : DtData) : Nat := 8*d.rxqClientsNum
def tableExact (d : DtData) : Nat := sizeofHwFence*d.hwFenceTableEntries
def clientsBase (k : KernelSizes) (d : DtData) : Nat :=
  k.ceil (ctrlExact k d+locksExact d+tableExact d)
def clientSizes (k : KernelSizes) (d : DtData) : List Nat :=
  (configured d.hwFenceClientTypes).map fun c => memExact k c.1
def usedExact (k : KernelSizes) (d : DtData) : Nat := clientsBase k d+(clientSizes k d).sum
/-- The same sum, of the values in the device tree. -/
def usedGiven (k : KernelSizes) (dt : DtProps) : Nat :=
  let tableEntries := (dt.tableEntries.map BitVec.toNat).getD 0
  let queueEntries := (dt.queueEntries.map BitVec.toNat).getD 0
  k.ceil (k.tableHeader+k.queueHeader*hwFenceCtrlQueues+
      hwFenceCtrlQueues*(hwFenceCtrlQueuePayload*queueEntries)+
      8*(hwFenceMinRxqClients+rxClientsNum dt)+sizeofHwFence*tableEntries) +
    (hwFenceClientTypes.map fun desc =>
      (givenType dt queueEntries desc).clientsNum*memExact k (givenType dt queueEntries desc)).sum

def regionsExact (k : KernelSizes) (d : DtData) : List Region :=
  stack 0 [ctrlExact k d,locksExact d,tableExact d] ++ stack (clientsBase k d) (clientSizes k d)

def requests (d : DtData) : List MemReserve :=
  [.ctrlQueue,.locksRegion,.table] ++
    (configured d.hwFenceClientTypes).map fun c => .clientQueue (privId d.hwFenceClientTypes c)

structure LayoutSound (k : KernelSizes) (d : DtData) (size : Nat) : Prop where
  used : d.usedMemSize = usedExact k d
  handedOut : (requests d).map (hwFenceUtilsReserveMem d size) = (regionsExact k d).map .ok
  apart : (regionsExact k d).Pairwise Region.Apart
  inside : ∀ r ∈ regionsExact k d, r.start+r.size ≤ size

structure Accepted (k : KernelSizes) (d : DtData) : Prop where
  types : ParsedTypes k d.hwFenceClientTypes
  ctrl : d.hwFenceMemCtrlQueuesSize = ctrlExact k d ∧ ctrlExact k d < 2^32
  table : d.hwFenceMemFencesTableSize = tableExact d ∧ tableExact d < 2^32
  rxq : d.rxqClientsNum ≤ 430
  clients : d.clientsNum = hwFenceMaxStaticClientsIndex+subClients d.hwFenceClientTypes 8
  assigned : assignClients d.hwFenceClientTypes (fun _ => ⟨0,0,0,0,false⟩,u32 (clientsBase k d)) =
    (d.hwFenceClientQueueSize,d.usedMemSize)

section Accept
variable {k : KernelSizes} {dt : DtProps} {kzalloc : Nat → Bool} {d d' : DtData}

theorem subClientsSmall {types : List ClientTypeDesc} (parsed : ParsedTypes k types) :
    subClients types 8 ≤ 32*13 := by
  have bound : ∀ xs : List ClientTypeDesc, (∀ desc ∈ xs, desc.clientsNum ≤ 32) →
      (xs.map ClientTypeDesc.clientsNum).sum ≤ 32*xs.length := by
    intro xs few
    have sum := List.sum_le_card_nsmul (xs.map ClientTypeDesc.clientsNum) 32
      (by simpa using few)
    simpa [Nat.mul_comm] using sum
  rw [← configurableTotal parsed]
  have few := bound (types.drop hwFenceMaxClientTypeStatic)
    (fun desc mem => parsed.few desc (List.mem_of_mem_drop mem))
  have length := parsed.length
  rw [List.length_drop] at few
  omega

theorem parsedClients (ok : parseClientQueueDtProps k dt kzalloc d = .ok d') :
    ParsedTypes k d'.hwFenceClientTypes ∧ d'.rxqClientsNum ≤ 430 ∧
    d'.clientsNum = hwFenceMaxStaticClientsIndex+subClients d'.hwFenceClientTypes 8 ∧
    assignClients d'.hwFenceClientTypes (fun _ => ⟨0,0,0,0,false⟩,
      u32 (k.pageAlign (sizeT (d.hwFenceMemCtrlQueuesSize+hwFenceMemLocksSize d'.rxqClientsNum+
        d.hwFenceMemFencesTableSize)))) = (d'.hwFenceClientQueueSize,d'.usedMemSize) ∧
    d'.hwFenceTableEntries = d.hwFenceTableEntries ∧
    d'.hwFenceQueueEntries = d.hwFenceQueueEntries ∧
    d'.hwFenceMemCtrlQueuesSize = d.hwFenceMemCtrlQueuesSize ∧
    d'.hwFenceMemFencesTableSize = d.hwFenceMemFencesTableSize := by
  obtain ⟨types,read,rfl⟩ := clientProps ok
  have parsed : ParsedTypes k types := (mapMForall read).imp fun _ _ h => parsedIndv h
  have length := parsed.length
  have counts := countBounds parsed.few 0 hwFenceMinRxqClients 0
    (by rw [length]; decide) (by rw [length]; decide)
  have small := subClientsSmall parsed
  refine ⟨parsed,?_,?_,rfl,rfl,rfl,rfl,rfl⟩
  · have rxq := counts.1
    rw [length] at rxq
    exact rxq
  · have total := counts.2
    rw [Nat.sub_zero,Nat.zero_add,configurableTotal parsed] at total
    simp only [total]
    refine Nat.mod_eq_of_lt ?_
    simp only [hwFenceMaxStaticClientsIndex,hwFenceClientIdIfe]
    omega

theorem tableFits32 {entries : Nat} (fits : ¬ u32Max/sizeofHwFence ≤ entries) :
    sizeofHwFence*entries < 2^32 := by
  unfold u32Max sizeofHwFence at fits
  unfold sizeofHwFence
  omega

theorem queueExact {entries : Nat} (fits : ¬ u32Max/hwFenceCtrlQueuePayload ≤ entries) :
    u32 (hwFenceCtrlQueuePayload*entries) = hwFenceCtrlQueuePayload*entries := by
  unfold u32Max hwFenceCtrlQueuePayload at fits
  unfold u32 hwFenceCtrlQueuePayload
  exact Nat.mod_eq_of_lt (by omega)

theorem ctrlFits32 {entries headers : Nat} (fits : ¬ u32Max/hwFenceCtrlQueuePayload ≤ entries)
    (ctrl : ¬ (u32Max-headers)/2 ≤ u32 (hwFenceCtrlQueuePayload*entries)) :
    headers+2*(hwFenceCtrlQueuePayload*entries) < 2^32 := by
  rw [queueExact fits] at ctrl
  unfold u32Max at ctrl
  omega

theorem ctrlSize {entries headers : Nat} (fits : ¬ u32Max/hwFenceCtrlQueuePayload ≤ entries)
    (ctrl : ¬ (u32Max-headers)/2 ≤ u32 (hwFenceCtrlQueuePayload*entries)) :
    u32 (headers+u32 (2*u32 (hwFenceCtrlQueuePayload*entries))) =
      headers+2*(hwFenceCtrlQueuePayload*entries) := by
  have small := ctrlFits32 fits ctrl
  have product : u32 (2*(hwFenceCtrlQueuePayload*entries)) = 2*(hwFenceCtrlQueuePayload*entries) :=
    Nat.mod_eq_of_lt (by omega)
  rw [queueExact fits,product]
  exact Nat.mod_eq_of_lt small

theorem accepted (ok : hwFenceUtilsParseDtProps k dt kzalloc = .ok d)
    (tableEntries : d.hwFenceTableEntries ≠ 0) (queueEntries : d.hwFenceQueueEntries ≠ 0) :
    Accepted k d := by
  unfold hwFenceUtilsParseDtProps at ok
  dsimp only at ok
  cases table : dt.tableEntries with
  | none => simp [table] at ok
  | some tableVal =>
    simp only [table] at ok
    split at ok
    · cases ok
      exact absurd rfl tableEntries
    split at ok <;> try contradiction
    rename_i tableFits
    cases queue : dt.queueEntries with
    | none => simp [queue] at ok
    | some queueVal =>
      simp only [queue] at ok
      split at ok
      · cases ok
        exact absurd rfl queueEntries
      split at ok <;> try contradiction
      rename_i queueFits
      split at ok <;> try contradiction
      rename_i ctrlFits
      split at ok <;> try contradiction
      rename_i d' parsed
      split at ok <;> try contradiction
      cases ok
      obtain ⟨types,rxq,clients,assigned,sameTable,sameQueue,sameCtrl,sameSize⟩ := parsedClients parsed
      have sameCtrl : d'.hwFenceMemCtrlQueuesSize =
          u32 (k.hfiHeadersSize 2+u32 (2*u32 (hwFenceCtrlQueuePayload*queueVal.toNat))) := sameCtrl
      have sameSize : d'.hwFenceMemFencesTableSize = u32 (sizeofHwFence*tableVal.toNat) := sameSize
      have sameTable : d'.hwFenceTableEntries = tableVal.toNat := sameTable
      have headers := k.headersExact (Nat.le_refl 2)
      have ctrlFits : ¬ (u32Max-k.hfiHeadersSize 2)/2 ≤
          u32 (hwFenceCtrlQueuePayload*queueVal.toNat) := ctrlFits
      have ctrlSmall := ctrlFits32 queueFits ctrlFits
      have ctrlExact' : ctrlExact k d' =
          k.hfiHeadersSize 2+2*(hwFenceCtrlQueuePayload*queueVal.toNat) := by
        unfold ctrlExact
        rw [sameQueue,headers.1]
        rfl
      have ctrl : d'.hwFenceMemCtrlQueuesSize = ctrlExact k d' ∧ ctrlExact k d' < 2^32 := by
        rw [ctrlExact',sameCtrl]
        exact ⟨ctrlSize queueFits ctrlFits,ctrlSmall⟩
      have table : d'.hwFenceMemFencesTableSize = tableExact d' ∧ tableExact d' < 2^32 := by
        unfold tableExact
        rw [sameSize,sameTable]
        exact ⟨Nat.mod_eq_of_lt (tableFits32 tableFits),tableFits32 tableFits⟩
      have locks : hwFenceMemLocksSize d'.rxqClientsNum = locksExact d' :=
        Nat.mod_eq_of_lt (by omega)
      have locksSmall : locksExact d' ≤ 8*430 := Nat.mul_le_mul_left _ rxq
      have base : k.pageAlign (sizeT (d'.hwFenceMemCtrlQueuesSize+
          hwFenceMemLocksSize d'.rxqClientsNum+d'.hwFenceMemFencesTableSize)) = clientsBase k d' := by
        rw [ctrl.1,locks,table.1]
        unfold sizeT
        rw [Nat.mod_eq_of_lt (by omega),k.alignCeil (by omega)]
        rfl
      have whole : assignClients d'.hwFenceClientTypes
          (fun _ => ⟨0,0,0,0,false⟩,u32 (clientsBase k d')) =
            (d'.hwFenceClientQueueSize,d'.usedMemSize) := by
        rw [← base,sameCtrl,sameSize]
        exact assigned
      exact ⟨types,ctrl,table,rxq,clients,whole⟩

theorem assignOne (types : List ClientTypeDesc) (acc : Assigned) :
    assignClients types acc =
      (configured types).foldl (fun acc c => assignClient types c.1 acc c.2) acc := by
  unfold assignClients configured
  rw [List.foldl_flatMap]
  simp only [List.foldl_map]

theorem assignUntouched (types : List ClientTypeDesc) (cs : List (ClientTypeDesc × Nat))
    (acc : Assigned) {id : Nat} (other : id ∉ cs.map (privId types)) :
    (cs.foldl (fun acc c => assignClient types c.1 acc c.2) acc).1 id = acc.1 id := by
  induction cs generalizing acc with
  | nil => rfl
  | cons c rest ih =>
    simp only [List.map_cons,List.mem_cons,not_or] at other
    rw [List.foldl_cons,ih _ other.2]
    exact Function.update_of_ne other.1 _ _

theorem assignOffset (types : List ClientTypeDesc) (cs : List (ClientTypeDesc × Nat))
    (f : Nat → ClientQueueSizeDesc) (base : Nat) :
    (cs.foldl (fun acc c => assignClient types c.1 acc c.2) (f,u32 base)).2 =
      u32 (base+(cs.map fun c => c.1.memSize).sum) := by
  unfold u32
  rw [← wrappedSum (2^32) base (cs.map fun c => c.1.memSize)]
  generalize base % 2^32 = offset
  induction cs generalizing f offset with
  | nil => rfl
  | cons c rest ih => exact ih _ _

theorem assignStacked {types : List ClientTypeDesc} (cs : List (ClientTypeDesc × Nat))
    (nodup : (cs.map (privId types)).Nodup) (f : Nat → ClientQueueSizeDesc) (base : Nat)
    (fits : base+(cs.map fun c => c.1.memSize).sum < 2^32) :
    let after := cs.foldl (fun acc c => assignClient types c.1 acc c.2) (f,base)
    cs.map (fun c => Region.mk (after.1 (privId types c)).startOffset (after.1 (privId types c)).memSize) =
      stack base (cs.map fun c => c.1.memSize) := by
  induction cs generalizing f base with
  | nil => rfl
  | cons c rest ih =>
    simp only [List.map_cons,List.nodup_cons,List.sum_cons] at nodup fits
    have next : u32 (base+c.1.memSize) = base+c.1.memSize := Nat.mod_eq_of_lt (by omega)
    simp only [List.foldl_cons,List.map_cons,stack]
    rw [assignUntouched _ _ _ nodup.1,assignClient,next]
    have later := ih nodup.2 (Function.update f (privId types c)
      ⟨c.1.queuesNum,c.1.queueEntries,c.1.memSize,base,c.1.skipTxqWrIdx⟩) (base+c.1.memSize) (by omega)
    simp only [privId,extId] at later ⊢
    rw [later]
    simp

end Accept

section Sound
variable {k : KernelSizes} {d : DtData} {size : Nat}

theorem Accepted.memSizes (ok : Accepted k d) :
    (configured d.hwFenceClientTypes).map (fun c => c.1.memSize) = clientSizes k d := by
  refine List.map_congr_left fun c mem => ?_
  obtain ⟨i,found⟩ := List.mem_iff_getElem?.mp (memConfigured.mp mem).1
  obtain ⟨fixed,-,same⟩ := ok.types.at_ found
  exact same.memSize

theorem Accepted.memPositive (ok : Accepted k d) {c : ClientTypeDesc × Nat}
    (mem : c ∈ configured d.hwFenceClientTypes) : 0 < c.1.memSize := by
  obtain ⟨i,found⟩ := List.mem_iff_getElem?.mp (memConfigured.mp mem).1
  obtain ⟨fixed,-,same⟩ := ok.types.at_ found
  have payload : 1 ≤ hwFenceClientQueuePayload*c.1.queueEntries*c.1.queuesNum :=
    Nat.mul_pos (Nat.mul_pos (by decide) same.entries) same.queues.1
  have bounds := k.ceilBounds (k.tableHeader+k.queueHeader*c.1.queuesNum+
    hwFenceClientQueuePayload*c.1.queueEntries*c.1.queuesNum)
  rw [same.memSize,memExact]
  omega

theorem Accepted.used (ok : Accepted k d) : d.usedMemSize = u32 (usedExact k d) := by
  have assigned := ok.assigned
  rw [assignOne] at assigned
  have offset := assignOffset d.hwFenceClientTypes (configured d.hwFenceClientTypes)
    (fun _ => ⟨0,0,0,0,false⟩) (clientsBase k d)
  rw [assigned,ok.memSizes] at offset
  exact offset

theorem baseBound (k : KernelSizes) (d : DtData) :
    ctrlExact k d+locksExact d+tableExact d ≤ clientsBase k d := (k.ceilBounds _).1

theorem regionsInside (r : Region) (mem : r ∈ regionsExact k d) :
    r.start+r.size ≤ usedExact k d := by
  have base := baseBound k d
  unfold usedExact
  rcases List.mem_append.mp mem with fixed | client
  · have bounds := stackBounds fixed
    simp only [List.sum_cons,List.sum_nil] at bounds
    omega
  · exact (stackBounds client).2

theorem regionsApart (k : KernelSizes) (d : DtData) :
    (regionsExact k d).Pairwise Region.Apart := by
  refine List.pairwise_append.mpr ⟨stackApart _ _,stackApart _ _,?_⟩
  intro a ma b mb
  have base := baseBound k d
  have fixed := stackBounds ma
  have client := stackBounds mb
  simp only [List.sum_cons,List.sum_nil] at fixed
  exact .inl (by omega)

theorem Accepted.clientRegions (ok : Accepted k d) (fits : usedExact k d < 2^32) :
    (configured d.hwFenceClientTypes).map (fun c =>
      Region.mk (d.hwFenceClientQueueSize (privId d.hwFenceClientTypes c)).startOffset
        (d.hwFenceClientQueueSize (privId d.hwFenceClientTypes c)).memSize) =
      stack (clientsBase k d) (clientSizes k d) := by
  have assigned := ok.assigned
  have small : u32 (clientsBase k d) = clientsBase k d := by
    unfold usedExact at fits
    exact Nat.mod_eq_of_lt (by omega)
  rw [assignOne,small] at assigned
  have stacked := assignStacked (configured d.hwFenceClientTypes) (privNodup ok.types)
    (fun _ => ⟨0,0,0,0,false⟩) (clientsBase k d) (by rw [ok.memSizes]; exact fits)
  rw [assigned,ok.memSizes] at stacked
  exact stacked

theorem Accepted.clientMem (ok : Accepted k d) (fits : usedExact k d < 2^32)
    {c : ClientTypeDesc × Nat} (mem : c ∈ configured d.hwFenceClientTypes) :
    (d.hwFenceClientQueueSize (privId d.hwFenceClientTypes c)).memSize = c.1.memSize := by
  have sizes := congrArg (List.map Region.size) (ok.clientRegions fits)
  rw [stackSizes,List.map_map,← ok.memSizes] at sizes
  exact List.map_inj_left.mp sizes c mem

theorem Accepted.clientHandedOut (ok : Accepted k d) (fits : usedExact k d < 2^32)
    (room : usedExact k d ≤ size) {c : ClientTypeDesc × Nat}
    (mem : c ∈ configured d.hwFenceClientTypes) :
    hwFenceUtilsReserveMem d size (.clientQueue (privId d.hwFenceClientTypes c)) =
      .ok ⟨(d.hwFenceClientQueueSize (privId d.hwFenceClientTypes c)).startOffset,
        (d.hwFenceClientQueueSize (privId d.hwFenceClientTypes c)).memSize⟩ := by
  have known : ¬ d.clientsNum ≤ privId d.hwFenceClientTypes c := by
    have inside := privInside ok.types mem
    rw [ok.clients]
    omega
  have placed := List.mem_map_of_mem (f := fun c => Region.mk
    (d.hwFenceClientQueueSize (privId d.hwFenceClientTypes c)).startOffset
    (d.hwFenceClientQueueSize (privId d.hwFenceClientTypes c)).memSize) mem
  rw [ok.clientRegions fits] at placed
  have bound := regionsInside _ (List.mem_append_right _ placed)
  have exact : u32 ((d.hwFenceClientQueueSize (privId d.hwFenceClientTypes c)).startOffset+
      (d.hwFenceClientQueueSize (privId d.hwFenceClientTypes c)).memSize) =
      (d.hwFenceClientQueueSize (privId d.hwFenceClientTypes c)).startOffset+
      (d.hwFenceClientQueueSize (privId d.hwFenceClientTypes c)).memSize :=
    Nat.mod_eq_of_lt (Nat.lt_of_le_of_lt bound fits)
  have checked : ¬ size < (d.hwFenceClientQueueSize (privId d.hwFenceClientTypes c)).startOffset+
      (d.hwFenceClientQueueSize (privId d.hwFenceClientTypes c)).memSize :=
    Nat.not_lt.mpr (Nat.le_trans bound room)
  have reserved := ok.clientMem fits mem
  have positive := ok.memPositive mem
  rw [← reserved] at positive
  simp only [hwFenceUtilsReserveMem,if_neg known,exact,if_neg checked,
    if_neg (Nat.ne_of_gt positive)]

theorem Accepted.fixedHandedOut (ok : Accepted k d) (fits : usedExact k d < 2^32)
    (room : usedExact k d ≤ size) :
    [MemReserve.ctrlQueue,.locksRegion,.table].map (hwFenceUtilsReserveMem d size) =
      (stack 0 [ctrlExact k d,locksExact d,tableExact d]).map .ok := by
  have base := baseBound k d
  have used : clientsBase k d ≤ usedExact k d := Nat.le_add_right _ _
  have locks : hwFenceMemLocksSize d.rxqClientsNum = locksExact d := by
    have rxq := ok.rxq
    exact Nat.mod_eq_of_lt (by omega)
  have sum : sizeT (ctrlExact k d+locksExact d) = ctrlExact k d+locksExact d :=
    Nat.mod_eq_of_lt (by omega)
  have narrow : ∀ n, n ≤ usedExact k d → u32 n = n ∧ ¬ size < n :=
    fun n le => ⟨Nat.mod_eq_of_lt (by omega),by omega⟩
  have ctrl := narrow (ctrlExact k d) (by omega)
  have lockTable := narrow (locksExact d) (by omega)
  have start := narrow (ctrlExact k d+locksExact d) (by omega)
  have whole := narrow (ctrlExact k d+locksExact d+tableExact d) (by omega)
  simp only [List.map_cons,List.map_nil,stack,hwFenceUtilsReserveMem,ok.ctrl.1,ok.table.1,locks,sum,
    Nat.zero_add,ctrl.1,lockTable.1,start.1,whole.1,if_neg ctrl.2,if_neg start.2,if_neg whole.2]

theorem usedFromTree {dt : DtProps} {kzalloc : Nat → Bool}
    (ok : hwFenceUtilsParseDtProps k dt kzalloc = .ok d)
    (entries : d.hwFenceTableEntries ≠ 0 ∧ d.hwFenceQueueEntries ≠ 0) : usedExact k d = usedGiven k dt := by
  cases parseOutcome ok with
  | noTable none => exact absurd rfl entries.1
  | noQueue table nonzero none => exact absurd rfl entries.2
  | @parsed d₀ d₁ table queue tableEntries queueEntries nonzero read clients =>
    obtain ⟨tableRead,queueRead⟩ := read
    have rxq := rxqCounted clients
    obtain ⟨types,parsed,rfl⟩ := clientProps clients
    have sizes := clientsGiven (mapMForall parsed)
    dsimp only at rxq
    simp only [usedExact,clientsBase,clientSizes,ctrlExact,locksExact,tableExact,usedGiven,sizes,rxq,tableRead,
      queueRead,tableEntries,queueEntries,Option.map_some,Option.getD_some]

theorem layoutSoundIff {dt : DtProps} {kzalloc : Nat → Bool}
    (ok : hwFenceUtilsParseDtProps k dt kzalloc = .ok d)
    (entries : d.hwFenceTableEntries ≠ 0 ∧ d.hwFenceQueueEntries ≠ 0)
    (room : d.usedMemSize ≤ size) : LayoutSound k d size ↔ usedGiven k dt < 2^32 := by
  rw [← usedFromTree ok entries]
  have ok := accepted ok entries.1 entries.2
  have used := ok.used
  constructor
  · intro sound
    rw [← sound.used,used]
    exact Nat.mod_lt _ (by decide)
  · intro fits
    have exact : d.usedMemSize = usedExact k d := by
      rw [used]
      exact Nat.mod_eq_of_lt fits
    rw [exact] at room
    refine ⟨exact,?_,regionsApart k d,fun r mem => Nat.le_trans (regionsInside r mem) room⟩
    rw [requests,regionsExact,List.map_append,List.map_append,ok.fixedHandedOut fits room,
      ← ok.clientRegions fits,List.map_map,List.map_map]
    congr 1
    exact List.map_congr_left fun c mem => ok.clientHandedOut fits room mem

def pages4k : KernelSizes := ⟨12,24,64,by decide,by decide⟩

def plainProps (tableEntries queueEntries : U32) : DtProps :=
  ⟨some tableEntries,some queueEntries,fun _ => none⟩

theorem evaluated (dt : DtProps) (p : DtData → Bool)
    (holds : (hwFenceUtilsParseDtProps pages4k dt fun _ => true).toOption.any p = true) :
    ∃ d, hwFenceUtilsParseDtProps pages4k dt (fun _ => true) = .ok d ∧ p d = true := by
  cases h : hwFenceUtilsParseDtProps pages4k dt fun _ => true with
  | error e => simp [h,Except.toOption] at holds
  | ok d => exact ⟨d,rfl,by simpa [h,Except.toOption] using holds⟩

theorem smallLayout : ∃ d, hwFenceUtilsParseDtProps pages4k (plainProps 128 64) (fun _ => true) = .ok d ∧
    (LayoutSound pages4k d 0x100000 ↔ usedGiven pages4k (plainProps 128 64) < 2^32) := by
  obtain ⟨d,ok,holds⟩ := evaluated (plainProps 128 64)
    (fun d => d.hwFenceTableEntries ≠ 0 ∧ d.hwFenceQueueEntries ≠ 0 ∧ d.usedMemSize ≤ 0x100000)
    (by decide +kernel)
  obtain ⟨table,queue,room⟩ := of_decide_eq_true holds
  exact ⟨d,ok,layoutSoundIff ok ⟨table,queue⟩ room⟩

/-- A table just below 4 GiB passes its own guard and wraps the offsets after it. -/
theorem wrappedLayout :
    ∃ d, hwFenceUtilsParseDtProps pages4k (plainProps 26843544 100) (fun _ => true) = .ok d ∧
      (d.hwFenceTableEntries ≠ 0 ∧ d.hwFenceQueueEntries ≠ 0) ∧ d.usedMemSize ≤ 0x100000 ∧
      ¬ LayoutSound pages4k d 0x100000 := by
  obtain ⟨d,ok,holds⟩ := evaluated (plainProps 26843544 100)
    (fun d => d.hwFenceTableEntries ≠ 0 ∧ d.hwFenceQueueEntries ≠ 0 ∧ d.usedMemSize ≤ 0x100000 ∧
      d.usedMemSize ≠ usedExact pages4k d)
    (by decide +kernel)
  obtain ⟨table,queue,room,wrapped⟩ := of_decide_eq_true holds
  exact ⟨d,ok,⟨table,queue⟩,room,fun sound => wrapped sound.used⟩

end Sound
end MmDrivers.CarveOut

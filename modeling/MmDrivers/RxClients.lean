import MmDrivers.CarveOut
import MmDrivers.Lib.Blocks

/-! Clients with an Rx queue: `rxq_clients_num` counts them type by type and is
compared with ids that are handed out by another rule. -/
namespace MmDrivers.RxClients
open FenceTypes DeviceTree GivenClients CarveOut Blocks

section Count
variable {k : KernelSizes} {types : List ClientTypeDesc}

def typeBlock (i : Nat) (desc : ClientTypeDesc) : Block :=
  ⟨if i < hwFenceMaxClientTypeStatic then desc.maxClientsNum else desc.clientsNum,
    desc.clientsNum,hasRxq desc⟩

def typeBlocks (types : List ClientTypeDesc) : List Block :=
  (types.drop hwFenceMinRxqClientType).mapIdx fun i desc => typeBlock (hwFenceMinRxqClientType+i) desc

theorem typeBlocksTotal (types : List ClientTypeDesc) : total (typeBlocks types) =
    ((types.drop hwFenceMinRxqClientType).map
      fun desc => if hasRxq desc then desc.clientsNum else 0).sum := by
  unfold total typeBlocks
  congr 1
  refine List.ext_getElem (by simp) fun i inside inside' => ?_
  simp [typeBlock,Block.keptIds]

end Count

section Ids
variable {k : KernelSizes} {types : List ClientTypeDesc}

theorem blockAt {i : Nat} {desc : ClientTypeDesc}
    (found : types[hwFenceMinRxqClientType+i]? = some desc) :
    (typeBlocks types)[i]? = some (typeBlock (hwFenceMinRxqClientType+i) desc) := by
  simp [typeBlocks,List.getElem?_drop,found]

theorem blockOf {i : Nat} {b : Block} (found : (typeBlocks types)[i]? = some b) :
    ∃ desc, types[hwFenceMinRxqClientType+i]? = some desc ∧
      b = typeBlock (hwFenceMinRxqClientType+i) desc := by
  simp only [typeBlocks,List.getElem?_mapIdx,List.getElem?_drop,Option.map_eq_some_iff] at found
  obtain ⟨desc,here,same⟩ := found
  exact ⟨desc,here,same.symm⟩

theorem blockStart (parsed : ParsedTypes k types) {t : Nat} (inside : t ≤ 8) :
    start (typeBlocks types) (2+t) = 2+subClients types t := by
  have length := parsed.length
  induction t with
  | zero =>
    have ipe : types[3]? = some types[3] := List.getElem?_eq_getElem (by omega)
    have vpu : types[4]? = some types[4] := List.getElem?_eq_getElem (by omega)
    obtain ⟨fixedIpe,foundIpe,sameIpe⟩ := parsed.at_ ipe
    obtain ⟨fixedVpu,foundVpu,sameVpu⟩ := parsed.at_ vpu
    cases Option.some.inj foundIpe
    cases Option.some.inj foundVpu
    rw [startNext (blockAt vpu),startNext (blockAt ipe)]
    simp only [typeBlock,sameIpe.maxClientsNum,sameVpu.maxClientsNum]
    simp [start,subClients,hwFenceMinRxqClientType,hwFenceMaxClientTypeStatic]
  | succ t ih =>
    have here : types[5+t]? = some types[5+t] := List.getElem?_eq_getElem (by omega)
    have index : hwFenceMinRxqClientType+(2+t) = 5+t := by
      unfold hwFenceMinRxqClientType
      omega
    have block := blockAt (i := 2+t) (by rw [index]; exact here)
    rw [← Nat.add_assoc,startNext block,ih (by omega),subClientsNext here,index]
    have late : ¬ 5+t < hwFenceMaxClientTypeStatic := by
      unfold hwFenceMaxClientTypeStatic
      omega
    rw [typeBlock,if_neg late]
    exact Nat.add_assoc ..

theorem privStart (parsed : ParsedTypes k types) {i j : Nat} {desc : ClientTypeDesc}
    (found : types[hwFenceMinRxqClientType+i]? = some desc) (inside : j < desc.clientsNum) :
    privId types (desc,j) = hwFenceClientIdIpe+start (typeBlocks types) i+j := by
  have length := parsed.length
  obtain ⟨fixed,fixedFound,same⟩ := parsed.at_ found
  have few := same.clients
  rw [same.maxClientsNum] at few
  have below : hwFenceMinRxqClientType+i < types.length := (List.getElem?_eq_some_iff.mp found).1
  unfold hwFenceMinRxqClientType at below fixedFound found
  by_cases static : i < 2
  · have small : extId (desc,j) < hwFenceMaxStaticClientsIndex ∧
        extId (desc,j) = hwFenceClientIdIpe+start (typeBlocks types) i+j := by
      rw [extId,same.initId]
      obtain rfl | rfl : i = 0 ∨ i = 1 := by omega
      · cases Option.some.inj fixedFound
        have one : j < 1 := Nat.lt_of_lt_of_le inside few
        simp only [start,List.take_zero,List.map_nil,List.sum_nil,hwFenceMaxStaticClientsIndex,
          hwFenceClientIdIpe,hwFenceClientIdIfe]
        omega
      · cases Option.some.inj fixedFound
        have one : j < 1 := Nat.lt_of_lt_of_le inside few
        have ipe : types[3]? = some types[3] := List.getElem?_eq_getElem (by omega)
        obtain ⟨fixedIpe,foundIpe,sameIpe⟩ := parsed.at_ ipe
        cases Option.some.inj foundIpe
        rw [startNext (blockAt ipe)]
        simp only [typeBlock,sameIpe.maxClientsNum,start,List.take_zero,List.map_nil,List.sum_nil,
          hwFenceMaxStaticClientsIndex,hwFenceClientIdIpe,hwFenceClientIdVpu,hwFenceClientIdIfe]
        simp [hwFenceMinRxqClientType,hwFenceMaxClientTypeStatic]
        omega
    rw [privId,privStatic small.1,small.2]
  · obtain ⟨t,rfl⟩ : ∃ t, i = 2+t := ⟨i-2,by omega⟩
    have late : types[hwFenceMaxClientTypeStatic+t]? = some desc := by
      rw [← found]
      congr 1
      unfold hwFenceMaxClientTypeStatic
      omega
    have short : 3+(2+t) < hwFenceClientTypes.length := (List.getElem?_eq_some_iff.mp fixedFound).1
    obtain ⟨-,configurable⟩ := fixedTypes (3+(2+t)) short
    obtain ⟨initId,maxClients⟩ := configurable (by unfold hwFenceMaxClientTypeStatic; omega)
    have own : hwFenceClientTypes[3+(2+t)] = fixed := (List.getElem?_eq_some_iff.mp fixedFound).2
    rw [own] at initId maxClients
    have type : 3+(2+t)-hwFenceMaxClientTypeStatic = t := by
      unfold hwFenceMaxClientTypeStatic
      omega
    rw [type] at initId
    rw [maxClients] at few
    rw [privId,extId,same.initId,initId,privConfigured late inside few,
      blockStart parsed (by omega)]
    simp only [hwFenceMaxStaticClientsIndex,hwFenceClientIdIfe,hwFenceClientIdIpe]
    omega

end Ids

section Classified
variable {k : KernelSizes} {dt : DtProps} {kzalloc : Nat → Bool} {types : List ClientTypeDesc}
  {d : DtData}

def clientLockTblCnt (d : DtData) : Nat := u32 (hwFenceMemLocksSize d.rxqClientsNum)/8

def RxClassified (d : DtData) : Prop :=
  ∀ c ∈ configured d.hwFenceClientTypes,
    (privId d.hwFenceClientTypes c ≤ d.rxqClientsNum ↔ c.1.queuesNum = hwFenceClientQueues) ∧
    (c.1.queuesNum = hwFenceClientQueues →
      privId d.hwFenceClientTypes c-1 < d.rxqClientsNum ∧
        privId d.hwFenceClientTypes c-1 < clientLockTblCnt d)

instance (d : DtData) : Decidable (RxClassified d) :=
  inferInstanceAs (Decidable (∀ c ∈ configured d.hwFenceClientTypes, _ ∧ (_ → _ ∧ _)))

/-- gpu, dpu and val have two queues if they have clients; from ipe on, no type before one with
two queues has clients with one queue only, and ipe and vpu before it have their client. -/
structure RxFirst (types : List ClientTypeDesc) : Prop where
  base : ∀ i desc, i < hwFenceMinRxqClientType → types[i]? = some desc → desc.clientsNum ≠ 0 →
    desc.queuesNum = hwFenceClientQueues
  first : ∀ i j a b, hwFenceMinRxqClientType ≤ i → i < j → types[i]? = some a → types[j]? = some b →
    b.clientsNum ≠ 0 → b.queuesNum = hwFenceClientQueues →
      (i < hwFenceMaxClientTypeStatic → a.clientsNum ≠ 0) ∧
        (a.clientsNum ≠ 0 → a.queuesNum = hwFenceClientQueues)

theorem keptIff {i : Nat} {desc : ClientTypeDesc} : 0 < (typeBlock i desc).keptIds ↔
    desc.clientsNum ≠ 0 ∧ desc.queuesNum = hwFenceClientQueues := by
  unfold Block.keptIds typeBlock hasRxq
  by_cases two : desc.queuesNum = hwFenceClientQueues <;> simp [two,Nat.pos_iff_ne_zero]

theorem staticOne (parsed : ParsedTypes k types) {i : Nat} {desc : ClientTypeDesc}
    (late : hwFenceMinRxqClientType ≤ i) (static : i < hwFenceMaxClientTypeStatic)
    (found : types[i]? = some desc) : desc.maxClientsNum = 1 := by
  obtain ⟨fixed,fixedFound,same⟩ := parsed.at_ found
  rw [same.maxClientsNum]
  unfold hwFenceMinRxqClientType at late
  unfold hwFenceMaxClientTypeStatic at static
  obtain rfl | rfl : i = 3 ∨ i = 4 := by omega
  · cases Option.some.inj fixedFound
    rfl
  · cases Option.some.inj fixedFound
    rfl

theorem fullIff (parsed : ParsedTypes k types) {i : Nat} {desc : ClientTypeDesc}
    (late : hwFenceMinRxqClientType ≤ i) (found : types[i]? = some desc) :
    (typeBlock i desc).Full ↔ (i < hwFenceMaxClientTypeStatic → desc.clientsNum ≠ 0) ∧
      (desc.clientsNum ≠ 0 → desc.queuesNum = hwFenceClientQueues) := by
  obtain ⟨fixed,-,same⟩ := parsed.at_ found
  have few := same.clients
  unfold Block.Full Block.keptIds typeBlock hasRxq
  by_cases static : i < hwFenceMaxClientTypeStatic
  · have one := staticOne parsed late static found
    by_cases two : desc.queuesNum = hwFenceClientQueues
    · simp [two,static,one]
      omega
    · simp [two,static,one]
  · by_cases two : desc.queuesNum = hwFenceClientQueues
    · simp [two,static]
    · simp [two,static]
      omega

theorem blocksFit (parsed : ParsedTypes k types) : ∀ b ∈ typeBlocks types, b.used ≤ b.width := by
  intro b mem
  obtain ⟨i,here⟩ := List.mem_iff_getElem?.mp mem
  obtain ⟨desc,found,rfl⟩ := blockOf here
  obtain ⟨fixed,-,same⟩ := parsed.at_ found
  have few := same.clients
  have used : (typeBlock (hwFenceMinRxqClientType+i) desc).used = desc.clientsNum := rfl
  rw [used,typeBlock]
  dsimp only
  split
  · exact few
  · exact Nat.le_refl _

theorem packedIff (parsed : ParsedTypes k types) : Packed (typeBlocks types) ↔
    ∀ i j a b, hwFenceMinRxqClientType ≤ i → i < j → types[i]? = some a → types[j]? = some b →
      b.clientsNum ≠ 0 → b.queuesNum = hwFenceClientQueues →
        (i < hwFenceMaxClientTypeStatic → a.clientsNum ≠ 0) ∧
          (a.clientsNum ≠ 0 → a.queuesNum = hwFenceClientQueues) := by
  constructor
  · intro packed i j a b late lt foundA foundB some two
    obtain ⟨i,rfl⟩ := Nat.exists_eq_add_of_le late
    obtain ⟨j,rfl⟩ := Nat.exists_eq_add_of_le (late.trans lt.le)
    have full := packed i j _ _ (by omega) (blockAt foundA) (blockAt foundB) (keptIff.mpr ⟨some,two⟩)
    exact (fullIff parsed late foundA).mp full
  · intro first i j a b lt foundA foundB some
    obtain ⟨descA,hereA,rfl⟩ := blockOf foundA
    obtain ⟨descB,hereB,rfl⟩ := blockOf foundB
    obtain ⟨clients,two⟩ := keptIff.mp some
    have late : hwFenceMinRxqClientType ≤ hwFenceMinRxqClientType+i := Nat.le_add_right ..
    exact (fullIff parsed late hereA).mpr (first _ _ _ _ late (by omega) hereA hereB clients two)

theorem rxqNumber (parsed : ParsedTypes k d.hwFenceClientTypes)
    (rxq : d.rxqClientsNum = (countClients 0 d.hwFenceClientTypes (hwFenceMinRxqClients,0)).1) :
    d.rxqClientsNum+1 = hwFenceClientIdIpe+total (typeBlocks d.hwFenceClientTypes) := by
  have counted := countRxq parsed.few 0 hwFenceMinRxqClients 0 (by rw [parsed.length]; decide)
  rw [rxq,counted,typeBlocksTotal]
  simp only [hwFenceMinRxqClients,hwFenceClientIdVal6,hwFenceClientIdIpe,Nat.sub_zero]
  omega

theorem rxqFew (parsed : ParsedTypes k d.hwFenceClientTypes)
    (rxq : d.rxqClientsNum = (countClients 0 d.hwFenceClientTypes (hwFenceMinRxqClients,0)).1) :
    clientLockTblCnt d = d.rxqClientsNum := by
  have length := parsed.length
  have few : d.rxqClientsNum ≤ hwFenceMinRxqClients+32*13 := by
    have bound := (countBounds parsed.few 0 hwFenceMinRxqClients 0 (by rw [length]; decide)
      (by rw [length]; decide)).1
    rwa [← rxq,length] at bound
  unfold hwFenceMinRxqClients hwFenceClientIdVal6 at few
  unfold clientLockTblCnt hwFenceMemLocksSize u32 sizeT
  omega

theorem privEarly (parsed : ParsedTypes k d.hwFenceClientTypes) {i j : Nat} {desc : ClientTypeDesc}
    (below : i < hwFenceMinRxqClientType) (found : d.hwFenceClientTypes[i]? = some desc)
    (inside : j < desc.clientsNum) : 0 < privId d.hwFenceClientTypes (desc,j) ∧
      privId d.hwFenceClientTypes (desc,j) < hwFenceClientIdIpe := by
  obtain ⟨fixed,fixedFound,same⟩ := parsed.at_ found
  have max := same.clients
  rw [same.maxClientsNum] at max
  have ids : 0 < fixed.initId ∧ fixed.initId+fixed.maxClientsNum ≤ hwFenceClientIdIpe := by
    unfold hwFenceMinRxqClientType at below
    obtain rfl | rfl | rfl : i = 0 ∨ i = 1 ∨ i = 2 := by omega
    all_goals
      cases Option.some.inj fixedFound
      decide
  have static : extId (desc,j) < hwFenceMaxStaticClientsIndex := by
    rw [extId,same.initId]
    simp only [hwFenceMaxStaticClientsIndex,hwFenceClientIdIfe,hwFenceClientIdIpe] at ids ⊢
    omega
  rw [privId,privStatic static,extId,same.initId]
  dsimp only
  omega

theorem firstSeparates (parsed : ParsedTypes k d.hwFenceClientTypes) : RxFirst d.hwFenceClientTypes ↔
    (∀ i desc, i < hwFenceMinRxqClientType → d.hwFenceClientTypes[i]? = some desc → desc.clientsNum ≠ 0 →
      desc.queuesNum = hwFenceClientQueues) ∧
    Separates (hwFenceClientIdIpe+total (typeBlocks d.hwFenceClientTypes)) hwFenceClientIdIpe
      (typeBlocks d.hwFenceClientTypes) := by
  rw [separatesIff (blocksFit parsed),packedIff parsed]
  exact ⟨fun h => ⟨h.base,h.first⟩,fun h => ⟨h.1,h.2⟩⟩

theorem classifiedIff (parsed : ParsedTypes k d.hwFenceClientTypes)
    (rxq : d.rxqClientsNum = (countClients 0 d.hwFenceClientTypes (hwFenceMinRxqClients,0)).1) :
    RxClassified d ↔ RxFirst d.hwFenceClientTypes := by
  have number := rxqNumber parsed rxq
  -- the early ids always pass
  have early : ∀ i desc j, i < hwFenceMinRxqClientType → d.hwFenceClientTypes[i]? = some desc →
      j < desc.clientsNum → privId d.hwFenceClientTypes (desc,j) ≤ d.rxqClientsNum ∧
        0 < privId d.hwFenceClientTypes (desc,j) := by
    intro i desc j below found inside
    obtain ⟨some,small⟩ := privEarly parsed below found inside
    exact ⟨by omega,some⟩
  have late : ∀ i desc j, d.hwFenceClientTypes[hwFenceMinRxqClientType+i]? = some desc →
      j < desc.clientsNum → (privId d.hwFenceClientTypes (desc,j) ≤ d.rxqClientsNum ↔
        hwFenceClientIdIpe+start (typeBlocks d.hwFenceClientTypes) i+j <
          hwFenceClientIdIpe+total (typeBlocks d.hwFenceClientTypes)) ∧
        0 < privId d.hwFenceClientTypes (desc,j) := by
    intro i desc j found inside
    rw [privStart parsed found inside,← number]
    unfold hwFenceClientIdIpe
    omega
  rw [firstSeparates parsed]
  constructor
  · intro classified
    refine ⟨fun i desc below found some => ?_,fun i b found j inside => ?_⟩
    · have mem : (desc,0) ∈ configured d.hwFenceClientTypes :=
        memConfigured.mpr ⟨List.mem_iff_getElem?.mpr ⟨i,found⟩,Nat.pos_of_ne_zero some⟩
      exact (classified _ mem).1.mp (early i desc 0 below found (Nat.pos_of_ne_zero some)).1
    · obtain ⟨desc,here,rfl⟩ := blockOf found
      have inside : j < desc.clientsNum := inside
      have mem : (desc,j) ∈ configured d.hwFenceClientTypes :=
        memConfigured.mpr ⟨List.mem_iff_getElem?.mpr ⟨_,here⟩,inside⟩
      rw [← (late i desc j here inside).1,(classified _ mem).1]
      simp [typeBlock,hasRxq]
  · rintro ⟨base,separates⟩ ⟨desc,j⟩ mem
    obtain ⟨known,inside⟩ := memConfigured.mp mem
    obtain ⟨i,found⟩ := List.mem_iff_getElem?.mp known
    have passes : (privId d.hwFenceClientTypes (desc,j) ≤ d.rxqClientsNum ↔
        desc.queuesNum = hwFenceClientQueues) ∧ 0 < privId d.hwFenceClientTypes (desc,j) := by
      by_cases below : i < hwFenceMinRxqClientType
      · obtain ⟨small,some⟩ := early i desc j below found inside
        have none : desc.clientsNum ≠ 0 := Nat.ne_of_gt (Nat.zero_lt_of_lt inside)
        exact ⟨iff_of_true small (base i desc below found none),some⟩
      · obtain ⟨i,rfl⟩ := Nat.exists_eq_add_of_le (Nat.le_of_not_lt below)
        obtain ⟨same,some⟩ := late i desc j found inside
        refine ⟨?_,some⟩
        rw [same,separates i _ (blockAt found) j inside]
        simp [typeBlock,hasRxq]
    rw [rxqFew parsed rxq]
    refine ⟨passes.1,fun two => ?_⟩
    have small := passes.1.mpr two
    have some := passes.2
    omega

theorem rxClassifiedIff (ok : hwFenceUtilsParseDtProps k dt kzalloc = .ok d) :
    RxClassified d ↔ RxFirst d.hwFenceClientTypes := by
  have empty : ∀ d : DtData, d.hwFenceClientTypes = [] →
      (RxClassified d ↔ RxFirst d.hwFenceClientTypes) := by
    intro d none
    rw [RxClassified,none]
    exact iff_of_true (by simp [configured]) ⟨by simp,by simp⟩
  cases parseOutcome ok with
  | noTable => exact empty _ rfl
  | noQueue => exact empty _ rfl
  | @parsed d₀ d' _ _ _ _ _ _ clients =>
    have types := (parsedClients clients).1
    have counted := clientsCounted clients
    exact @classifiedIff k {d' with clientsAllocated := true} types counted

theorem defaultsClassified : ∃ d,
    hwFenceUtilsParseDtProps pages4k (plainProps 128 64) (fun _ => true) = .ok d ∧
      (RxClassified d ↔ RxFirst d.hwFenceClientTypes) := by
  obtain ⟨d,ok,-⟩ := evaluated (plainProps 128 64) (fun _ => true) (by decide +kernel)
  exact ⟨d,ok,rxClassifiedIff ok⟩

def vpuProps : DtProps :=
  {plainProps 128 64 with clientType := fun name => if name = "vpu" then some (1,2,64,0) else none}

theorem vpuUnclassified : ∃ d,
    hwFenceUtilsParseDtProps pages4k vpuProps (fun _ => true) = .ok d ∧ ¬ RxClassified d := by
  obtain ⟨d,ok,holds⟩ := evaluated vpuProps (fun d => ¬ RxClassified d) (by decide +kernel)
  exact ⟨d,ok,of_decide_eq_true holds⟩

end Classified
end MmDrivers.RxClients

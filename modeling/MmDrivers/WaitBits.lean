import MmDrivers.JoinFence
import MmDrivers.RegisterRuns
import MmDrivers.ResetClient

/-! The bits of waiting clients in `wait_client_mask`. The mask has 64 of them, and
nothing compares the largest id of a client that may wait with that number. -/
namespace MmDrivers.WaitBits
open Sections Sections.Prog FenceTypes DeviceTree GivenClients CarveOut FenceSignal JoinFence ClientIds IpcMap
open RxClients Registration RegisterRuns ResetClient Runs

section Bits
variable {a b : Nat} {f : HwFence}

structure BitsApart (a b : Nat) : Prop where
  defined : a ≤ 63 ∧ b ≤ 63
  apart : bit a &&& bit b = 0
  registered : ∀ qtime clientData f,
    (waitOn qtime a clientData f).waitClientMask &&& bit b = f.waitClientMask &&& bit b
  joined : ∀ f, (waitOnJoin a f).waitClientMask &&& bit b = f.waitClientMask &&& bit b
  cleared : ∀ f, (clearWaitBit a f).waitClientMask &&& bit b = f.waitClientMask &&& bit b

theorem bitsDisjoint (small : a < 64 ∧ b < 64) (ne : a ≠ b) : bit a &&& bit b = 0 := by
  apply BitVec.eq_of_getLsbD_eq
  intro i inside
  rw [BitVec.getLsbD_and,bitLsb,bitLsb,Nat.mod_eq_of_lt small.1,Nat.mod_eq_of_lt small.2]
  by_cases own : i = a
  · simp [own,ne]
  · simp [own]

theorem setOther (apart : bit a &&& bit b = 0) (mask : U64) : (mask ||| bit a) &&& bit b = mask &&& bit b := by
  rw [BitVec.and_comm,BitVec.and_or_distrib_left,BitVec.and_comm (bit b) (bit a),apart,BitVec.and_comm]
  exact BitVec.or_zero

theorem bitsApart (small : a ≤ 63 ∧ b ≤ 63) (ne : a ≠ b) : BitsApart a b := by
  have apart := bitsDisjoint (a := a) (b := b) (by omega) ne
  refine ⟨small,apart,fun _ _ f => setOther apart _,fun f => setOther apart _,fun f => ?_⟩
  apply BitVec.eq_of_getLsbD_eq
  intro i inside
  rw [BitVec.getLsbD_and,BitVec.getLsbD_and,clearedLsb,bitLsb]
  by_cases own : i = b % 64
  · have other : i ≠ a % 64 := by omega
    simp [other]
  · simp [own]

end Bits

section Count
variable {k : KernelSizes} {dt : DtProps} {kzalloc : Nat → Bool} {d d' : DtData}

theorem idsBeyond (parsed : ParsedTypes k d.hwFenceClientTypes)
    (counted : d.rxqClientsNum = (countClients 0 d.hwFenceClientTypes (hwFenceMinRxqClients,0)).1)
    (many : 63 < d.rxqClientsNum) : 48 ≤ subClients d.hwFenceClientTypes 8 := by
  have length := parsed.length
  have rxq := countRxq parsed.few 0 hwFenceMinRxqClients 0 (by rw [length]; decide)
  have one : ∀ i desc, hwFenceMinRxqClientType ≤ i → i < hwFenceMaxClientTypeStatic →
      d.hwFenceClientTypes[i]? = some desc → (if hasRxq desc then desc.clientsNum else 0) ≤ 1 := by
    intro i desc late static found
    obtain ⟨fixed,-,same⟩ := parsed.at_ found
    have few := same.clients
    rw [staticOne parsed late static found] at few
    split <;> omega
  have rest : ∀ xs : List ClientTypeDesc, (xs.map fun desc => if hasRxq desc then desc.clientsNum
      else 0).sum ≤ (xs.map ClientTypeDesc.clientsNum).sum := by
    intro xs
    induction xs with
    | nil => exact Nat.le_refl 0
    | cons desc xs ih =>
      simp only [List.map_cons,List.sum_cons]
      split <;> omega
  have ipe : d.hwFenceClientTypes[3]? = some d.hwFenceClientTypes[3] := List.getElem?_eq_getElem (by omega)
  have vpu : d.hwFenceClientTypes[4]? = some d.hwFenceClientTypes[4] := List.getElem?_eq_getElem (by omega)
  have split : d.hwFenceClientTypes.drop hwFenceMinRxqClientType = d.hwFenceClientTypes[3] ::
      d.hwFenceClientTypes[4] :: d.hwFenceClientTypes.drop hwFenceMaxClientTypeStatic := by
    simp only [hwFenceMinRxqClientType,hwFenceMaxClientTypeStatic]
    rw [List.drop_eq_getElem_cons (by omega),List.drop_eq_getElem_cons (by omega)]
  have ipeOne := one 3 _ (by decide) (by decide) ipe
  have vpuOne := one 4 _ (by decide) (by decide) vpu
  have others := rest (d.hwFenceClientTypes.drop hwFenceMaxClientTypeStatic)
  rw [configurableTotal parsed] at others
  rw [← counted,Nat.sub_zero,split,List.map_cons,List.map_cons,List.sum_cons,List.sum_cons] at rxq
  simp only [hwFenceMinRxqClients,hwFenceClientIdVal6] at rxq
  omega

end Count

section Registers
variable {m : Nat} {p : Platform} {clientId clientIdExt : Nat}

structure Registrable (p : Platform) (clientId : Nat) : Prop where
  inside : clientId < p.dt.clientsNum
  sub : hwFenceClientIdIfe 0 ≤ clientId ∧ clientId < hwFenceClientMax
  ids : 0 < (p.row clientId).ipcClientIdVirt ∧ 0 < (p.row clientId).ipcClientIdPhys
  signal : 0 ≤ (p.row clientId).ipcSignalId
  noRxq : (p.row clientId).updateRxq = false
  memory : ∃ region, hwFenceUtilsReserveMem p.dt p.size (.clientQueue clientId) = .ok region

theorem initQueues (registrable : Registrable p clientId) (queuesNum : Nat) (s : Registry m) :
    ∃ queues s', (initHwFencesQueues p clientId queuesNum).run s = (.ok queues,s') := by
  obtain ⟨region,memory⟩ := registrable.memory
  unfold initHwFencesQueues
  rw [if_neg (Nat.not_le.mpr registrable.inside)]
  simp only [touch,runBind,runAtomic,id_eq]
  split
  · rename_i failed
    rw [memory] at failed
    cases failed
  · exact ⟨_,_,rfl⟩

theorem registersClient (registrable : Registrable p clientId) (below : clientId < hwFenceClientMax)
    (s : Registry m) : ∃ client s', (registerClient p clientId below).run s = (.ok client,s') := by
  have inside : ¬ p.dt.clientsNum ≤ clientId := Nat.not_le.mpr registrable.inside
  have small : ¬ hwFenceClientMax ≤ clientId := Nat.not_le.mpr below
  obtain ⟨low,high⟩ := registrable.sub
  obtain ⟨vid,pid⟩ := registrable.ids
  have controller : hwFenceInitControllerSignal p clientId = (pure (.ok ()) : Registering m Status) := by
    have bounds : 17 ≤ clientId ∧ clientId < 273 := ⟨low,high⟩
    have ctx : clientId ≠ hwFenceClientIdCtx0 := by
      unfold hwFenceClientIdCtx0
      omega
    have val : ¬ (p.debugFs = true ∧ hwFenceClientIdVal0 ≤ clientId ∧ clientId ≤ hwFenceClientIdVal6) := by
      unfold hwFenceClientIdVal6
      omega
    have ctl : ¬ (hwFenceClientIdCtl0 ≤ clientId ∧ clientId ≤ hwFenceClientIdCtl5) := by
      unfold hwFenceClientIdCtl5
      omega
    have ife : clientId = hwFenceClientIdIpe ∨ clientId = hwFenceClientIdVpu ∨
        (hwFenceClientIdIfe 0 ≤ clientId ∧
          clientId ≤ hwFenceClientIdIfe 7+msmHwFenceMaxSignalPerClient-1) := by
      refine .inr (.inr ⟨low,?_⟩)
      unfold hwFenceClientIdIfe msmHwFenceMaxSignalPerClient
      omega
    rw [hwFenceInitControllerSignal,if_neg ctx,if_neg val,if_neg ctl,if_pos ife]
  obtain ⟨queues,s',initialised⟩ := initQueues registrable (p.dt.hwFenceClientQueueSize clientId).queuesNum s
  have ids : ¬ ((p.row clientId).ipcClientIdVirt ≤ 0 ∨ (p.row clientId).ipcClientIdPhys ≤ 0) := by omega
  have signal : ¬ (p.row clientId).ipcSignalId < 0 := not_lt.mpr registrable.signal
  unfold registerClient hwFenceIpccGetClientVirtId hwFenceIpccGetClientPhysId hwFenceIpccGetSignalId
    hwFenceIpccNeedsRxqUpdate hwFenceIpccNeedsIpcIrq hwFenceUtilsSkipsTxqWrIdx ipccGet
    hwFenceAllocClientResources updatesRxqOfTxqOnly
  simp only [if_neg inside,if_neg small,touch,runBind,runAtomic,id_eq,ids,signal,
    registrable.noRxq,Bool.false_eq_true,if_false,pureRet,runRet,initialised,controller]
  exact ⟨_,_,rfl⟩

theorem registers (registrable : Registrable p clientId) {s : Registry m}
    (ready : s.d.resourcesReady = true) (free : s.d.clients clientId = none)
    (external : clientIdExt < hwFenceClientMax)
    (priv : hwFenceUtilsGetClientIdPriv p.dt.hwFenceClientTypes clientIdExt = clientId) :
    ∃ client, ((msmHwFenceRegister p clientIdExt true true).run s).2.d.resourcesReady = true ∧
      ((msmHwFenceRegister p clientIdExt true true).run s).2.d.clients =
        Function.update s.d.clients clientId (some client) := by
  subst priv
  have small : ¬ hwFenceClientMax ≤ clientIdExt := by omega
  have below := registrable.sub.2
  obtain ⟨client,s',registered⟩ := registersClient registrable below s
  have kept := registerClientKeeps (p := p) below s
  have own := returnsRun (registerClientReturns (p := p) below) s
  rw [registered] at kept own
  have id := (own client rfl).id
  refine ⟨client,?_⟩
  unfold msmHwFenceRegister
  simp only [runBind,runObserve,ready,not_true_eq_false,if_false,small,or_self,privRun,
    Nat.not_le.mpr below,dif_neg not_false,touch,runAtomic,id_eq,free,Option.isSome_none,
    Bool.false_eq_true,registered,setClient]
  rw [kept,id]
  exact ⟨ready,rfl⟩

end Registers

section Exact
variable {k : KernelSizes} {dt : DtProps} {kzalloc : Nat → Bool} {d : DtData}

def Waits {m : Nat} (p : Platform) (s : Registry m) (id : Nat) : Prop :=
  (s.d.clients id).isSome = true ∧ ¬ p.dt.rxqClientsNum < id

/-- Whichever clients come and go, on any hardware revision, those that may wait have bits of their
own. -/
def MaskBits (d : DtData) : Prop :=
  ∀ p : Platform, p.dt = d → (∃ kzalloc hwrev, hwFenceIpccHwrevInit p.debugFs p.dt kzalloc hwrev =
    (.ok (),p.ipcc)) → ∀ m (start : Registry m) ops, (∀ id, start.d.clients id = none) →
      ∀ a b, a ≠ b → Waits p (after (ClientOp.step p) start ops) a →
        Waits p (after (ClientOp.step p) start ops) b → BitsApart a b

theorem fewWaiters (few : d.rxqClientsNum ≤ 63) : MaskBits d := by
  intro p same _ m start ops none a b ne waitsA waitsB
  have small := waitsA.2
  have small' := waitsB.2
  rw [same] at small small'
  exact bitsApart ⟨by omega,by omega⟩ ne

def wide (ok : hwFenceUtilsParseDtProps k dt kzalloc = .ok d) : Platform :=
  {platform ok hwFenceIpccHwRev203 with
    size := 2^32-1
    ipcc := (hwFenceIpccHwrevInit true d (fun _ => true) hwFenceIpccHwRev203).2}

theorem revAccepted : (hwFenceIpccHwrevInit true d (fun _ => true) hwFenceIpccHwRev203) =
    ((hwFenceIpccInitMapWithConfigurableClients d.clientsNum d.hwFenceClientTypes
      (hwFenceClientsIpcMapV2 true) fun _ => true).map fun _ => (),
      ⟨hwFenceIpcClientIdAppsVid,hwFenceIpcClientIdAppsPid,hwFenceIpcFenceProtocolIdPineapple,
        (hwFenceIpccInitMapWithConfigurableClients d.clientsNum d.hwFenceClientTypes
          (hwFenceClientsIpcMapV2 true) fun _ => true).toOption⟩) := rfl

theorem subRegistrable (ok : hwFenceUtilsParseDtProps k dt kzalloc = .ok d) {table : List HwFenceClientIpcMap}
    (accepts : Accepted k d) (covers : Covers d table)
    (built : (wide ok).ipcc.ipcClientsTable = some table) {i : Nat}
    (inside : i < subClients d.hwFenceClientTypes 8) :
    Registrable (wide ok) (hwFenceMaxStaticClientsIndex+i) ∧ ∃ clientIdExt < hwFenceClientMax,
      hwFenceUtilsGetClientIdPriv d.hwFenceClientTypes clientIdExt = hwFenceMaxStaticClientsIndex+i := by
  obtain ⟨t,desc,type,found,from_,few⟩ := subClientAt accepts.types inside
  have max := (ParsedTypes.typeAt accepts.types type)
  obtain ⟨desc',found',bound⟩ := max
  rw [found] at found'
  obtain rfl := Option.some.inj found'
  obtain ⟨desc',found',tables⟩ := covers.subClients t type
  rw [found] at found'
  obtain rfl := Option.some.inj found'
  have whole : hwFenceMaxStaticClientsIndex+subClients d.hwFenceClientTypes t+
      (i-subClients d.hwFenceClientTypes t) = hwFenceMaxStaticClientsIndex+i := by omega
  have priv := privConfigured found few bound
  rw [whole] at priv
  obtain ⟨mapping,queues⟩ := tables _ few
  rw [priv] at mapping queues
  obtain ⟨mem,-⟩ := subClientMember accepts.types found few
  have positive : 0 < desc.memSize := accepts.memPositive mem
  have clients : (wide ok).dt.clientsNum = hwFenceMaxStaticClientsIndex+subClients d.hwFenceClientTypes 8 :=
    accepts.clients
  have row : (wide ok).row (hwFenceMaxStaticClientsIndex+i) =
      ⟨hwFenceIpcClientIdIfeVid t,hwFenceIpcClientIdIfePid t,
        ((i-subClients d.hwFenceClientTypes t : Nat) : Int),false,true⟩ := by
    rw [Platform.row,built,Option.getD_some,List.getD_eq_getElem?_getD,mapping]
    rfl
  have many := subClientsBound accepts.types (Nat.le_refl 8)
  refine ⟨⟨by omega,⟨Nat.le_add_right _ _,?_⟩,?_,?_,?_,?_⟩,_,?_,priv⟩
  · simp only [hwFenceClientMax,hwFenceMaxStaticClientsIndex,hwFenceClientIdIfe,
      msmHwFenceMaxSignalPerClient] at many ⊢
    omega
  · rw [row]
    simp only [hwFenceIpcClientIdIfeVid,hwFenceIpcClientIdIfePid]
    omega
  · rw [row]
    exact Int.natCast_nonneg _
  · rw [row]
  · have memSize : (d.hwFenceClientQueueSize (hwFenceMaxStaticClientsIndex+i)).memSize = desc.memSize := by
      rw [queues]
    have small : ∀ n, ¬ (2^32-1 < u32 n) := fun n => by
      have bound := Nat.mod_lt n (show 0 < 2^32 by decide)
      unfold u32
      omega
    have known : ¬ d.clientsNum ≤ hwFenceMaxStaticClientsIndex+i := by
      have total := accepts.clients
      omega
    have some : (d.hwFenceClientQueueSize (hwFenceMaxStaticClientsIndex+i)).memSize ≠ 0 := by omega
    refine ⟨⟨(d.hwFenceClientQueueSize (hwFenceMaxStaticClientsIndex+i)).startOffset,
      (d.hwFenceClientQueueSize (hwFenceMaxStaticClientsIndex+i)).memSize⟩,?_⟩
    show hwFenceUtilsReserveMem d (2^32-1) _ = _
    simp only [hwFenceUtilsReserveMem,if_neg known,if_neg (small _),if_neg some]
  · simp only [hwFenceClientMax,hwFenceClientIdIfe,msmHwFenceMaxSignalPerClient] at bound ⊢
    omega

theorem manyWaiters (ok : hwFenceUtilsParseDtProps k dt kzalloc = .ok d) (accepts : Accepted k d)
    (counted : d.rxqClientsNum = (countClients 0 d.hwFenceClientTypes (hwFenceMinRxqClients,0)).1)
    {table : List HwFenceClientIpcMap} (covers : Covers d table)
    (build : hwFenceIpccInitMapWithConfigurableClients d.clientsNum d.hwFenceClientTypes
      (hwFenceClientsIpcMapV2 true) (fun _ => true) = .ok table)
    (many : 63 < d.rxqClientsNum) : ¬ MaskBits d := by
  intro bits
  have beyond := idsBeyond accepts.types counted many
  have ran := @revAccepted d
  rw [build] at ran
  have built : (wide ok).ipcc.ipcClientsTable = some table := by
    show (hwFenceIpccHwrevInit true _ _ _).2.ipcClientsTable = _
    rw [ran]
    rfl
  have revision : hwFenceIpccHwrevInit (wide ok).debugFs (wide ok).dt (fun _ => true) hwFenceIpccHwRev203 =
      (.ok (),(wide ok).ipcc) := by
    show hwFenceIpccHwrevInit true d _ _ = (_,(hwFenceIpccHwrevInit true d _ _).2)
    rw [ran]
    rfl
  obtain ⟨first,ext,below,priv⟩ := subRegistrable ok accepts covers built (i := 46) (by omega)
  obtain ⟨second,ext',below',priv'⟩ := subRegistrable ok accepts covers built (i := 47) (by omega)
  let start : Registry 1 := ⟨.unused 1 oneEntry,false⟩
  let s := ((msmHwFenceRegister (wide ok) ext true true).run start).2
  obtain ⟨c,ready,clients⟩ := registers first (s := start) rfl rfl below priv
  have free : s.d.clients 64 = none := congrFun clients 64
  obtain ⟨c',-,clients'⟩ := registers second ready free below' priv'
  have last : (after (ClientOp.step (wide ok)) start [.register ext true true,.register ext' true true]).d.clients =
      Function.update s.d.clients 64 (some c') := clients'
  have apart := bits (wide ok) rfl ⟨_,_,revision⟩ 1 start [.register ext true true,.register ext' true true]
    (fun _ => rfl) 63 64 (by decide) ⟨?_,Nat.not_lt.mpr (Nat.le_of_lt many)⟩ ⟨?_,Nat.not_lt.mpr many⟩
  · exact absurd apart.defined.2 (by decide)
  · have own : s.d.clients 63 = some c := congrFun clients 63
    rw [last,Function.update_of_ne (by decide),own]
    rfl
  · rw [last,Function.update_self]
    rfl

theorem maskFew (ok : hwFenceUtilsParseDtProps k dt kzalloc = .ok d) (bits : MaskBits d) :
    dt.tableEntries = some 0 ∨ dt.queueEntries = some 0 ∨ rxClientsNum dt ≤ 49 := by
  cases parseOutcome ok with
  | noTable none => exact .inl none
  | noQueue _ _ none => exact .inr (.inl none)
  | @parsed d' d'' tableEntries queueEntries table queue nonzero read clients =>
    have number : d''.rxqClientsNum = 14+rxClientsNum dt := rxqCounted clients
    have counted := clientsCounted clients
    by_contra many
    obtain ⟨-,-,-,-,sameTable,sameQueue,-⟩ := parsedClients clients
    have entries : d''.hwFenceTableEntries ≠ 0 ∧ d''.hwFenceQueueEntries ≠ 0 := by
      rw [sameTable,sameQueue,read.1,read.2]
      exact ⟨mt toNatZero.mp nonzero.1,mt toNatZero.mp nonzero.2⟩
    obtain ⟨table,covers,builds⟩ := tablesBuilt clients true
    have covers' : Covers {d'' with clientsAllocated := true} table := by
      refine ⟨covers.length,fun t type => ?_⟩
      obtain ⟨desc,found,tables⟩ := covers.subClients t type
      exact ⟨desc,found,fun j inside => ⟨(tables j inside).mapping,(tables j inside).queues⟩⟩
    have build := builds fun _ => true
    rw [if_pos rfl] at build
    refine manyWaiters ok (accepted ok entries.1 entries.2) counted covers' build ?_ bits
    show 63 < d''.rxqClientsNum
    simp only [not_or] at many
    omega

theorem waitBitsIff (ok : hwFenceUtilsParseDtProps k dt kzalloc = .ok d) : MaskBits d ↔
    dt.tableEntries = some 0 ∨ dt.queueEntries = some 0 ∨ rxClientsNum dt ≤ 49 := by
  refine ⟨maskFew ok,fun few => fewWaiters ?_⟩
  cases parseOutcome ok with
  | noTable | noQueue => exact Nat.zero_le _
  | @parsed d' d'' tableEntries queueEntries table queue nonzero read clients =>
    have number : d''.rxqClientsNum = 14+rxClientsNum dt := rxqCounted clients
    show d''.rxqClientsNum ≤ 63
    rcases few with zero | zero | few
    · exact absurd (Option.some.inj (table.symm.trans zero)) nonzero.1
    · exact absurd (Option.some.inj (queue.symm.trans zero)) nonzero.2
    · omega

theorem defaultsHaveBits : ∃ d, hwFenceUtilsParseDtProps pages4k (plainProps 128 64) (fun _ => true) = .ok d ∧
    (MaskBits d ↔ (plainProps 128 64).tableEntries = some 0 ∨ (plainProps 128 64).queueEntries = some 0 ∨
      rxClientsNum (plainProps 128 64) ≤ 49) := by
  obtain ⟨d,ok,-⟩ := evaluated (plainProps 128 64) (fun _ => true) (by decide +kernel)
  exact ⟨d,ok,waitBitsIff ok⟩

def fiftyProps : DtProps :=
  ⟨some 128,some 64,fun name =>
    if name = "ife0" then some (32,2,64,0) else if name = "ife1" then some (18,2,64,0) else none⟩

theorem fiftyLackBits :
    ∃ d, hwFenceUtilsParseDtProps pages4k fiftyProps (fun _ => true) = .ok d ∧ ¬ MaskBits d := by
  obtain ⟨d,ok,-⟩ := evaluated fiftyProps (fun _ => true) (by decide +kernel)
  refine ⟨d,ok,fun bits => ?_⟩
  have few := maskFew ok bits
  revert few
  decide +kernel

end Exact
end MmDrivers.WaitBits

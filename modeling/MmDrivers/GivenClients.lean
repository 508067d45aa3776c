import MmDrivers.DeviceTree

/-! What the device tree gives for the client types, and what an accepted one leaves of it. -/
namespace MmDrivers.GivenClients
open FenceTypes DeviceTree

section Outcome
variable {k : KernelSizes} {dt : DtProps} {kzalloc : Nat → Bool} {d d' : DtData}

inductive Outcome (k : KernelSizes) (dt : DtProps) (kzalloc : Nat → Bool) : DtData → Prop where
  | noTable (none : dt.tableEntries = some 0) : Outcome k dt kzalloc .zeroed
  | noQueue {entries : U32} (table : dt.tableEntries = some entries) (nonzero : entries ≠ 0)
      (none : dt.queueEntries = some 0) :
      Outcome k dt kzalloc {DtData.zeroed with
        hwFenceTableEntries := entries.toNat
        hwFenceMemFencesTableSize := u32 (sizeofHwFence*entries.toNat)}
  | parsed {d d' : DtData} {table queue : U32} (tableEntries : dt.tableEntries = some table)
      (queueEntries : dt.queueEntries = some queue) (nonzero : table ≠ 0 ∧ queue ≠ 0)
      (read : d.hwFenceTableEntries = table.toNat ∧ d.hwFenceQueueEntries = queue.toNat)
      (clients : parseClientQueueDtProps k dt kzalloc d = .ok d') :
      Outcome k dt kzalloc {d' with clientsAllocated := true}

theorem toNatZero {v : U32} : v.toNat = 0 ↔ v = 0 := by
  rw [← BitVec.toNat_inj]
  rfl

theorem parseOutcome (ok : hwFenceUtilsParseDtProps k dt kzalloc = .ok d) :
    Outcome k dt kzalloc d := by
  unfold hwFenceUtilsParseDtProps at ok
  dsimp only at ok
  cases table : dt.tableEntries with
  | none => simp [table] at ok
  | some tableVal =>
    simp only [table] at ok
    split at ok
    · rename_i zero
      cases ok
      exact .noTable (by rw [table,toNatZero.mp zero])
    rename_i tableSome
    split at ok <;> try contradiction
    cases queue : dt.queueEntries with
    | none => simp [queue] at ok
    | some queueVal =>
      simp only [queue] at ok
      split at ok
      · rename_i zero
        cases ok
        exact .noQueue table (mt toNatZero.mpr tableSome) (by rw [queue,toNatZero.mp zero])
      rename_i queueSome
      split at ok <;> try contradiction
      split at ok <;> try contradiction
      split at ok <;> try contradiction
      rename_i clients
      split at ok <;> try contradiction
      cases ok
      exact .parsed table queue ⟨mt toNatZero.mpr tableSome,mt toNatZero.mpr queueSome⟩ ⟨rfl,rfl⟩
        clients

theorem clientsCounted (ok : parseClientQueueDtProps k dt kzalloc d = .ok d') :
    d'.rxqClientsNum = (countClients 0 d'.hwFenceClientTypes (hwFenceMinRxqClients,0)).1 := by
  obtain ⟨types,-,rfl⟩ := clientProps ok
  rfl

end Outcome

section Count
variable {k : KernelSizes} {dt : DtProps} {kzalloc : Nat → Bool} {d d' : DtData} {types : List ClientTypeDesc}

def hasRxq (desc : ClientTypeDesc) : Bool := desc.queuesNum = hwFenceClientQueues

theorem countRxq (few : ∀ desc ∈ types, desc.clientsNum ≤ 32) (i rxq configurable : Nat)
    (small : rxq+32*types.length < 2^32) :
    (countClients i types (rxq,configurable)).1 = rxq+((types.drop (hwFenceMinRxqClientType-i)).map
      fun desc => if hasRxq desc then desc.clientsNum else 0).sum := by
  induction types generalizing i rxq configurable with
  | nil => simp [countClients]
  | cons desc rest ih =>
    have own := few desc List.mem_cons_self
    simp only [List.length_cons] at small
    have exact : u32 (rxq+desc.clientsNum) = rxq+desc.clientsNum := Nat.mod_eq_of_lt (by omega)
    rw [countClients,exact]
    have later : ∀ rxq' configurable', rxq' ≤ rxq+desc.clientsNum →
        (countClients (i+1) rest (rxq',configurable')).1 = rxq'+
          ((rest.drop (hwFenceMinRxqClientType-(i+1))).map
            fun desc => if hasRxq desc then desc.clientsNum else 0).sum :=
      fun rxq' configurable' le => ih (fun d mem => few d (List.mem_cons_of_mem _ mem)) _ _ _ (by omega)
    by_cases late : hwFenceMinRxqClientType ≤ i
    · have none : hwFenceMinRxqClientType-i = 0 := by omega
      have none' : hwFenceMinRxqClientType-(i+1) = 0 := by omega
      rw [later _ _ (by split <;> omega),none,none',List.drop_zero,List.drop_zero,List.map_cons,
        List.sum_cons]
      by_cases two : desc.queuesNum = hwFenceClientQueues
      · simp [hasRxq,two,late,Nat.add_assoc]
      · simp [hasRxq,two]
    · have skip : hwFenceMinRxqClientType-i = hwFenceMinRxqClientType-(i+1)+1 := by omega
      rw [later _ _ (by split <;> omega),skip,List.drop_succ_cons]
      simp [late]

def rxClients (dt : DtProps) (desc : ClientTypeDesc) : Nat :=
  match dt.clientType desc.name with
  | none => if hasRxq desc then desc.clientsNum else 0
  | some (clientsNum,queuesNum,_,_) =>
    if queuesNum.toNat = hwFenceClientQueues then clientsNum.toNat else 0

def rxClientsNum (dt : DtProps) : Nat :=
  ((hwFenceClientTypes.drop hwFenceMinRxqClientType).map (rxClients dt)).sum

/-- The values given for a client type; one without a property keeps its own. -/
def givenType (dt : DtProps) (entries : Nat) (desc : ClientTypeDesc) : ClientTypeDesc :=
  match dt.clientType desc.name with
  | none => {desc with queueEntries := entries}
  | some (clientsNum,queuesNum,queueEntries,_) =>
    {desc with clientsNum := clientsNum.toNat, queuesNum := queuesNum.toNat, queueEntries := queueEntries.toNat}

theorem givenRead {entries : Nat} {fixed desc : ClientTypeDesc}
    (ok : parseClientQueueDtPropsIndv k dt entries fixed = .ok desc) :
    desc.clientsNum = (givenType dt entries fixed).clientsNum ∧
      desc.queuesNum = (givenType dt entries fixed).queuesNum ∧
      desc.queueEntries = (givenType dt entries fixed).queueEntries := by
  unfold parseClientQueueDtPropsIndv at ok
  cases read : readClientType dt entries fixed with
  | error e => simp [read,Bind.bind,Except.bind] at ok
  | ok r =>
    simp only [read,Bind.bind,Except.bind] at ok
    split at ok <;> try contradiction
    split at ok <;> try contradiction
    split at ok <;> try contradiction
    split at ok <;> try contradiction
    cases ok
    unfold readClientType at read
    unfold givenType
    cases given : dt.clientType fixed.name with
    | none =>
      simp only [given] at read
      cases read
      exact ⟨rfl,rfl,rfl⟩
    | some row =>
      obtain ⟨clientsNum,queuesNum,queueEntries,skip⟩ := row
      simp only [given] at read
      split at read
      · contradiction
      · cases read
        exact ⟨rfl,rfl,rfl⟩

theorem rxRead {entries : Nat} {fixed desc : ClientTypeDesc}
    (ok : parseClientQueueDtPropsIndv k dt entries fixed = .ok desc) :
    (if hasRxq desc then desc.clientsNum else 0) = rxClients dt fixed := by
  obtain ⟨clients,queues,-⟩ := givenRead ok
  unfold hasRxq
  rw [clients,queues]
  cases given : dt.clientType fixed.name with
  | none => simp [rxClients,hasRxq,givenType,given]
  | some row => simp [rxClients,givenType,given]

theorem memGiven {entries : Nat} {fixed desc : ClientTypeDesc}
    (ok : parseClientQueueDtPropsIndv k dt entries fixed = .ok desc) :
    memExact k desc = memExact k (givenType dt entries fixed) := by
  obtain ⟨-,queues,size⟩ := givenRead ok
  rw [memExact,memExact,queues,size]

theorem clientsGiven {entries : Nat} {fixed types : List ClientTypeDesc}
    (each : List.Forall₂ (fun x y => parseClientQueueDtPropsIndv k dt entries x = .ok y) fixed types) :
    ((configured types).map fun c => memExact k c.1).sum =
      (fixed.map fun desc => (givenType dt entries desc).clientsNum*memExact k (givenType dt entries desc)).sum := by
  induction each with
  | nil => rfl
  | @cons x y fixed types head tail ih =>
    obtain ⟨clients,-⟩ := givenRead head
    rw [List.map_cons,List.sum_cons,← ih,← memGiven head,← clients]
    simp [configured,Function.comp_def]

theorem rxqCounted (ok : parseClientQueueDtProps k dt kzalloc d = .ok d') :
    d'.rxqClientsNum = hwFenceMinRxqClients+rxClientsNum dt := by
  obtain ⟨types,read,rfl⟩ := clientProps ok
  have each := mapMForall read
  have parsed : ParsedTypes k types := each.imp fun _ _ h => parsedIndv h
  have length := parsed.length
  have counted := countRxq parsed.few 0 hwFenceMinRxqClients 0 (by rw [length]; decide)
  have same : ∀ {xs ys : List ClientTypeDesc}, List.Forall₂ (fun x y =>
      parseClientQueueDtPropsIndv k dt d.hwFenceQueueEntries x = .ok y) xs ys →
      ys.map (fun desc => if hasRxq desc then desc.clientsNum else 0) = xs.map (rxClients dt) := by
    intro xs ys each
    induction each with
    | nil => rfl
    | cons head tail ih => rw [List.map_cons,List.map_cons,rxRead head,ih]
  rw [Nat.sub_zero,List.map_drop,same each,← List.map_drop] at counted
  exact counted

end Count

end MmDrivers.GivenClients

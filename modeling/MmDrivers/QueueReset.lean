import MmDrivers.RegisterRuns

/-! The reset of a client's queues, measured by the operations that read and write
them. The reset copies `write_index`; a client that skips it writes at `tx_wm`. -/
namespace MmDrivers.QueueReset
open Sections Sections.Prog FenceTypes DeviceTree ClientQueue FenceSignal Registration RegisterRuns MmDrivers.Ring

section Model
variable {m : Nat}

def updates (client : HwFenceClient) (queueType : Nat) : List (Payload × U64) → Driver m (List Status)
  | [] => pure []
  | (p,qtime)::rest => do
    atomic (fun d => {d with qtime := qtime}) (fun _ => []) (fun _ => ())
    let status ← updatePayload client p queueType
    let later ← updates client queueType rest
    pure (status::later)

def firstSucceed (room count : Nat) : List Status :=
  (List.range count).map fun i => if i < room then .ok () else .error .einval

/-- A queue of `n` payloads as reads and updates see it when it is empty. -/
structure MeasuresEmpty (client : HwFenceClient) (queueType n : Nat) (d : DriverData m) : Prop where
  nothing : ((hwFenceReadQueue client queueType).run d).1 = (.ok 0,none)
  room : ∀ calls, ((updates client queueType calls).run d).1 = firstSucceed (n-1) calls.length

structure Equipped (d : DriverData m) (client : HwFenceClient) (queueType n : Nat) : Prop where
  exist : queueType < d.queuesNum client.clientId
  kind : queueType < hwFenceClientQueues
  header : (client.queues queueType).vaHeader = true
  sized : (client.queues queueType).qSizeBytes.toNat = n*payloadSize

structure Formed (n : Nat) (q : ClientQueue) : Prop where
  reader : ∃ r < n, q.readIndex.toNat = payloadSizeU32*r
  writer : ∃ w < n, q.writeIndex.toNat = payloadSizeU32*w
  mark : ∃ t < n, q.txWm.toNat = payloadSizeU32*t

end Model

section Registered
variable {m : Nat} {p : Platform} {clientId : Nat}

structure AsConfigured (p : Platform) (client : HwFenceClient) : Prop where
  queues : ∀ queueType < (p.dt.hwFenceClientQueueSize client.clientId).queuesNum,
    client.queues queueType = ⟨BitVec.ofNat 32 (u32 (hwFenceClientQueuePayload*
      (p.dt.hwFenceClientQueueSize client.clientId).queueEntries)),true⟩
  both : client.updateRxq = true →
    hwFenceClientQueues ≤ (p.dt.hwFenceClientQueueSize client.clientId).queuesNum

theorem configuredAs {client : HwFenceClient} (configured : Configured p clientId client) :
    AsConfigured p client := by
  refine ⟨fun queueType inside => ?_,?_⟩
  · rw [configured.id] at inside
    rw [configured.queues,configured.id]
    exact if_pos inside
  · rw [configured.id]
    exact configured.both

theorem registeredConfigured (clientIdExt : Nat) (memDescriptor kzalloc : Bool) :
    (msmHwFenceRegister p clientIdExt memDescriptor kzalloc : Registering m _).Returns fun client =>
      ∀ c, client = .ok c → AsConfigured p c := by
  unfold msmHwFenceRegister
  refine returnsBind (returnsAny _) fun ready _ => returnsIte (fun _ => nofun) fun _ =>
    returnsIte (fun _ => nofun) fun _ => returnsBind (returnsAny _) fun clientId _ => ?_
  by_cases unknown : hwFenceClientMax ≤ clientId
  · rw [dif_pos unknown]
    exact nofun
  · rw [dif_neg unknown]
    refine returnsIte (fun _ => nofun) fun _ => returnsBind (returnsAny _) fun registered _ =>
      returnsIte (fun _ => nofun) fun _ =>
      returnsBind (registerClientReturns (Nat.lt_of_not_le unknown)) fun client own => ?_
    cases client with
    | error e => exact nofun
    | ok client =>
      intro s c same
      cases same
      exact configuredAs (own _ rfl)

theorem registeredEquipped {clientIdExt queueType : Nat} {memDescriptor kzalloc : Bool}
    {s : Registry m} {client : HwFenceClient} {d : DriverData m}
    (ok : ((msmHwFenceRegister p clientIdExt memDescriptor kzalloc).run s).1 = .ok client)
    (num : d.queuesNum client.clientId = (p.dt.hwFenceClientQueueSize client.clientId).queuesNum)
    (kind : queueType < hwFenceClientQueues)
    (small : payloadSize*(p.dt.hwFenceClientQueueSize client.clientId).queueEntries < 2^32)
    (exist : queueType < (p.dt.hwFenceClientQueueSize client.clientId).queuesNum) :
    Equipped d client queueType (p.dt.hwFenceClientQueueSize client.clientId).queueEntries := by
  have configured := returnsRun (registeredConfigured (p := p) clientIdExt memDescriptor kzalloc) s _ ok
  have queue := configured.queues queueType exist
  refine ⟨by rw [num]; exact exist,kind,by rw [queue],?_⟩
  rw [queue]
  simp only [BitVec.toNat_ofNat,u32,hwFenceClientQueuePayload]
  rw [payloadBytes] at small ⊢
  omega

end Registered

section Updates
variable {m n queueType : Nat} {client : HwFenceClient} {d : DriverData m} {xs : List Payload}

def skips (client : HwFenceClient) (queueType : Nat) : Bool :=
  queueType = hwFenceTxQueue-1 && client.skipTxqWrIdx

theorem firstSucceedCons (room count : Nat) : firstSucceed room (count+1) =
    (if 0 < room then .ok () else .error .einval) :: firstSucceed (room-1) count := by
  unfold firstSucceed
  rw [List.range_succ_eq_map,List.map_cons,List.map_map]
  congr 1
  refine List.map_congr_left fun i _ => ?_
  simp only [Function.comp_apply]
  by_cases inside : i+1 < room
  · rw [if_pos inside,if_pos (by omega)]
  · rw [if_neg inside,if_neg (by omega)]

theorem updatesPending (equipped : Equipped d client queueType n)
    (locked : lockClientQueue queueType = true → lockIdx client < d.clientLockTblCnt)
    (pending : Pending n (skips client queueType) (d.queue client.clientId queueType) xs)
    (calls : List (Payload × U64)) :
    ((updates client queueType calls).run d).1 = firstSucceed (n-1-xs.length) calls.length := by
  induction calls generalizing d xs with
  | nil => rfl
  | cons call rest ih =>
    obtain ⟨p,qtime⟩ := call
    obtain ⟨sized,small⟩ := wordsSized equipped.sized
    have ready : Ready {d with qtime := qtime} client queueType := ⟨equipped.exist,equipped.header,locked⟩
    have ran := updateReady (p := p) ready
    have own : appended {d with qtime := qtime} client queueType p = append
      ((client.queues queueType).qSizeBytes/4) (skips client queueType) p qtime
        (d.queue client.clientId queueType) := rfl
    -- what the rest of the calls meets, whatever this one left in the queue
    have later : ∀ (q : ClientQueue) ys, Pending n (skips client queueType) q ys →
        ((updates client queueType rest).run ({d with qtime := qtime}.onQueue client.clientId
          queueType fun _ => q)).1 = firstSucceed (n-1-ys.length) rest.length := by
      intro q ys left
      exact ih ⟨equipped.exist,equipped.kind,equipped.header,equipped.sized⟩ locked (by simpa using left)
    simp only [updates,runBind,runAtomic,ran,own,List.length_cons,firstSucceedCons]
    by_cases room : xs.length < n-1
    · obtain ⟨taken,longer,-⟩ := appendFits (p := p) qtime sized small pending room
      have rest := later _ _ longer
      rw [List.length_append,List.length_singleton,← Nat.sub_sub] at rest
      simp only [pureRet,runRet]
      rw [taken,if_pos (by omega),rest]
    · have full := appendFull (p := p) qtime sized pending room
      have none : n-1-xs.length = 0 := by omega
      have rest := later _ _ pending
      rw [none] at rest ⊢
      simp only [pureRet,runRet]
      rw [full,rest]
      rfl

theorem updatesRefused (refused : ¬ Ready d client queueType) (calls : List (Payload × U64)) :
    ((updates client queueType calls).run d).1 = firstSucceed 0 calls.length := by
  induction calls generalizing d with
  | nil => rfl
  | cons call rest ih =>
    obtain ⟨p,qtime⟩ := call
    have refused' : ¬ Ready {d with qtime := qtime} client queueType :=
      fun ready => refused ⟨ready.exist,ready.header,ready.locked⟩
    simp only [updates,runBind,runAtomic,updateRefused refused',List.length_cons,firstSucceedCons,
      pureRet,runRet,ih refused']
    rfl

end Updates

section Measures
variable {m n queueType : Nat} {client : HwFenceClient} {d : DriverData m}

def silent : Payload := ⟨0,0,0,0,0,0⟩

theorem firstSucceedOk {room count i : Nat} (called : i < count) :
    (firstSucceed room count)[i]? = some (.ok ()) ↔ i < room := by
  unfold firstSucceed
  rw [List.getElem?_map,List.getElem?_range called,Option.map_some]
  by_cases inside : i < room
  · simp [inside]
  · simp [inside]

theorem firstSucceedSame {room room' : Nat}
    (same : ∀ count, firstSucceed room count = firstSucceed room' count) : room = room' := by
  have ok : ∀ i, i < room ↔ i < room' := by
    intro i
    rw [← firstSucceedOk (Nat.lt_succ_self i),same,firstSucceedOk (Nat.lt_succ_self i)]
  have low := ok room
  have high := ok room'
  omega

theorem roomSame {room room' : Nat}
    (succeed : ∀ calls, ((updates client queueType calls).run d).1 = firstSucceed room calls.length)
    (succeed' : ∀ calls, ((updates client queueType calls).run d).1 = firstSucceed room' calls.length) :
    room = room' := by
  apply firstSucceedSame
  intro count
  have calls : (List.replicate count (silent,(0 : U64))).length = count := List.length_replicate
  rw [← calls,← succeed,← succeed']

theorem readNothing (equipped : Equipped d client queueType n) :
    ((hwFenceReadQueue client queueType).run d).1 = (.ok 0,none) ↔
      (d.queue client.clientId queueType).readIndex = (d.queue client.clientId queueType).writeIndex := by
  rw [readReady equipped.kind equipped.header]
  unfold taken readIdx
  by_cases same : (d.queue client.clientId queueType).readIndex =
      (d.queue client.clientId queueType).writeIndex
  · simp [same]
  · simp [same]

theorem formedPending {q : ClientQueue} (formed : Formed n q) (skip : Bool) :
    ∃ xs, Pending n skip q xs ∧ (xs = [] ↔ q.readIndex = writeIdx skip q) := by
  obtain ⟨r,rInside,reader⟩ := formed.reader
  have written : ∃ w < n, (writeIdx skip q).toNat = payloadSizeU32*w := by
    cases skip with
    | true => exact formed.mark
    | false => exact formed.writer
  obtain ⟨w,wInside,writer⟩ := written
  obtain ⟨xs,holds⟩ := holdsBetween rInside wInside (slotPayload q.word)
  refine ⟨xs,⟨r,w,reader,writer,holds⟩,?_⟩
  rw [← holds.emptyIff,← BitVec.toNat_inj,reader,writer,payloadWords]
  omega

theorem measuresEmptyIff (equipped : Equipped d client queueType n)
    (locked : lockClientQueue queueType = true → lockIdx client < d.clientLockTblCnt)
    (formed : Formed n (d.queue client.clientId queueType)) :
    MeasuresEmpty client queueType n d ↔
      (d.queue client.clientId queueType).readIndex = (d.queue client.clientId queueType).writeIndex ∧
        (d.queue client.clientId queueType).readIndex =
          writeIdx (skips client queueType) (d.queue client.clientId queueType) := by
  obtain ⟨xs,pending,empty⟩ := formedPending formed (skips client queueType)
  have succeed := updatesPending equipped locked pending
  obtain ⟨r,w,-,-,holds⟩ := pending.slots
  have room := holds.room
  rw [← readNothing equipped,← empty]
  constructor
  · intro measured
    have same := roomSame succeed measured.room
    refine ⟨measured.nothing,List.length_eq_zero_iff.mp ?_⟩
    omega
  · rintro ⟨nothing,none⟩
    rw [none] at succeed
    exact ⟨nothing,succeed⟩

theorem measuresRefused (equipped : Equipped d client queueType n) (some : 1 ≤ n)
    (refused : ¬ Ready d client queueType) : MeasuresEmpty client queueType n d ↔
      (d.queue client.clientId queueType).readIndex = (d.queue client.clientId queueType).writeIndex ∧
        n = 1 := by
  have succeed := updatesRefused refused
  rw [← readNothing equipped]
  constructor
  · intro measured
    have same := roomSame succeed measured.room
    exact ⟨measured.nothing,by omega⟩
  · rintro ⟨nothing,one⟩
    rw [one]
    exact ⟨nothing,succeed⟩

end Measures

section Reset
variable {m n queueType : Nat} {client : HwFenceClient} {d : DriverData m}

def resetData (client : HwFenceClient) (d : DriverData m) : DriverData m :=
  ((hwFenceUtilsResetQueues client).run d).2

structure ResetEmpties (client : HwFenceClient) (n : Nat) (d : DriverData m) : Prop where
  tx : MeasuresEmpty client (hwFenceTxQueue-1) n (resetData client d)
  rx : client.updateRxq = true → MeasuresEmpty client (hwFenceRxQueue-1) n (resetData client d)

theorem resetKept (client : HwFenceClient) (d : DriverData m) : (resetData client d).queuesNum = d.queuesNum ∧
    (resetData client d).clientLockTblCnt = d.clientLockTblCnt := by
  unfold resetData hwFenceUtilsResetQueues whenever
  by_cases updateRxq : client.updateRxq = true
  · by_cases locked : lockIdx client < d.clientLockTblCnt
    · simp [updateRxq,locked]
    · simp [updateRxq,locked]
  · simp [updateRxq]

theorem resetTx : (resetData client d).queue client.clientId (hwFenceTxQueue-1) =
    {d.queue client.clientId (hwFenceTxQueue-1) with
      readIndex := (d.queue client.clientId (hwFenceTxQueue-1)).writeIndex} := by
  have other : hwFenceTxQueue-1 ≠ hwFenceRxQueue-1 := by decide
  unfold resetData hwFenceUtilsResetQueues whenever
  by_cases updateRxq : client.updateRxq = true
  · by_cases locked : lockIdx client < d.clientLockTblCnt
    · simp [updateRxq,locked,DriverData.onQueueOther _ _ _ other]
    · simp [updateRxq,locked]
  · simp [updateRxq]

theorem resetRx (updateRxq : client.updateRxq = true) :
    (resetData client d).queue client.clientId (hwFenceRxQueue-1) =
      if lockIdx client < d.clientLockTblCnt then
        {d.queue client.clientId (hwFenceRxQueue-1) with
          writeIndex := (d.queue client.clientId (hwFenceRxQueue-1)).readIndex}
      else d.queue client.clientId (hwFenceRxQueue-1) := by
  have other : hwFenceRxQueue-1 ≠ hwFenceTxQueue-1 := by decide
  unfold resetData hwFenceUtilsResetQueues whenever
  by_cases locked : lockIdx client < d.clientLockTblCnt
  · simp [updateRxq,locked,DriverData.onQueueOther _ _ _ other]
  · simp [updateRxq,locked,DriverData.onQueueOther _ _ _ other]

theorem resetEquipped (equipped : Equipped d client queueType n) :
    Equipped (resetData client d) client queueType n :=
  ⟨by rw [(resetKept client d).1]; exact equipped.exist,equipped.kind,equipped.header,equipped.sized⟩

/-- The write pointer is at `write_index`, also for a client that writes elsewhere. -/
def TxAligned (client : HwFenceClient) (d : DriverData m) : Prop :=
  client.skipTxqWrIdx = true → (d.queue client.clientId (hwFenceTxQueue-1)).txWm =
    (d.queue client.clientId (hwFenceTxQueue-1)).writeIndex

theorem resetTxIff (equipped : Equipped d client (hwFenceTxQueue-1) n)
    (formed : Formed n (d.queue client.clientId (hwFenceTxQueue-1))) :
    MeasuresEmpty client (hwFenceTxQueue-1) n (resetData client d) ↔ TxAligned client d := by
  have formed' : Formed n ((resetData client d).queue client.clientId (hwFenceTxQueue-1)) := by
    rw [resetTx]
    exact ⟨formed.writer,formed.writer,formed.mark⟩
  have unlocked : lockClientQueue (hwFenceTxQueue-1) = true →
      lockIdx client < (resetData client d).clientLockTblCnt := by
    intro locked
    exact absurd locked (by decide)
  rw [measuresEmptyIff (resetEquipped equipped) unlocked formed',resetTx]
  unfold TxAligned skips writeIdx
  cases client.skipTxqWrIdx with
  | false => simp
  | true => simpa using eq_comm

theorem resetRxIff (equipped : Equipped d client (hwFenceRxQueue-1) n)
    (formed : Formed n (d.queue client.clientId (hwFenceRxQueue-1))) (updateRxq : client.updateRxq = true) :
    MeasuresEmpty client (hwFenceRxQueue-1) n (resetData client d) ↔
      n = 1 ∨ lockIdx client < d.clientLockTblCnt := by
  have skips : skips client (hwFenceRxQueue-1) = false := by
    have other : hwFenceRxQueue-1 ≠ hwFenceTxQueue-1 := by decide
    simp [skips,other]
  have queue := resetRx (d := d) updateRxq
  have locks := (resetKept client d).2
  by_cases locked : lockIdx client < d.clientLockTblCnt
  · rw [if_pos locked] at queue
    have formed' : Formed n ((resetData client d).queue client.clientId (hwFenceRxQueue-1)) := by
      rw [queue]
      exact ⟨formed.reader,formed.reader,formed.mark⟩
    have taken := measuresEmptyIff (resetEquipped equipped) (fun _ => by rw [locks]; exact locked) formed'
    rw [taken,queue,skips]
    simp [writeIdx,locked]
  · rw [if_neg locked] at queue
    have refused : ¬ Ready (resetData client d) client (hwFenceRxQueue-1) := by
      intro ready
      exact locked (by rw [← locks]; exact ready.locked rfl)
    obtain ⟨r,rInside,reader⟩ := formed.reader
    obtain ⟨w,wInside,writer⟩ := formed.writer
    rw [measuresRefused (resetEquipped equipped) (by omega) refused,queue]
    constructor
    · rintro ⟨-,one⟩
      exact .inl one
    · rintro (one | inside)
      · refine ⟨?_,one⟩
        rw [← BitVec.toNat_inj,reader,writer]
        congr 1
        omega
      · exact absurd inside locked

theorem resetEmptiesIff (tx : Equipped d client (hwFenceTxQueue-1) n)
    (rx : client.updateRxq = true → Equipped d client (hwFenceRxQueue-1) n)
    (txFormed : Formed n (d.queue client.clientId (hwFenceTxQueue-1)))
    (rxFormed : client.updateRxq = true → Formed n (d.queue client.clientId (hwFenceRxQueue-1))) :
    ResetEmpties client n d ↔ TxAligned client d ∧
      (client.updateRxq = true → n = 1 ∨ lockIdx client < d.clientLockTblCnt) := by
  constructor
  · intro empties
    refine ⟨(resetTxIff tx txFormed).mp empties.tx,fun updateRxq => ?_⟩
    exact (resetRxIff (rx updateRxq) (rxFormed updateRxq) updateRxq).mp (empties.rx updateRxq)
  · rintro ⟨aligned,locked⟩
    refine ⟨(resetTxIff tx txFormed).mpr aligned,fun updateRxq => ?_⟩
    exact (resetRxIff (rx updateRxq) (rxFormed updateRxq) updateRxq).mpr (locked updateRxq)

def doubleClient (skipTxqWrIdx : Bool) : HwFenceClient :=
  {HwFenceClient.plain 1 oneKnown with
    queues := fun _ => ⟨192,true⟩
    updateRxq := true
    skipTxqWrIdx := skipTxqWrIdx}

def doubleDriver : DriverData 1 :=
  {DriverData.unused 1 oneEntry with
    entries := oneEntry
    ownId := noneRegistered
    queuesNum := fun _ => 2
    clientLockTblCnt := 1
    queue := fun _ _ => ⟨0,16,32,fun _ => 0⟩}

theorem doubleFormed (queueType : Nat) : Formed 3 (doubleDriver.queue 1 queueType) :=
  ⟨⟨0,by decide,rfl⟩,⟨1,by decide,rfl⟩,⟨2,by decide,rfl⟩⟩

theorem doubleEmptied : ResetEmpties (doubleClient false) 3 doubleDriver := by
  have equipped : ∀ queueType < 2, Equipped doubleDriver (doubleClient false) queueType 3 :=
    fun _ kind => ⟨kind,kind,rfl,rfl⟩
  refine (resetEmptiesIff (equipped _ (by decide)) (fun _ => equipped _ (by decide)) (doubleFormed _)
    (fun _ => doubleFormed _)).mpr ⟨nofun,fun _ => .inr (by decide)⟩

theorem skippedNotEmptied : Equipped doubleDriver (doubleClient true) 0 3 ∧
    Equipped doubleDriver (doubleClient true) 1 3 ∧
    (∀ queueType, Formed 3 (doubleDriver.queue (doubleClient true).clientId queueType)) ∧
    ¬ ResetEmpties (doubleClient true) 3 doubleDriver := by
  refine ⟨⟨by decide,by decide,rfl,rfl⟩,⟨by decide,by decide,rfl,rfl⟩,doubleFormed,fun empties => ?_⟩
  have two := empties.tx.room [(silent,0),(silent,0)]
  exact absurd two (by decide)

end Reset
end MmDrivers.QueueReset

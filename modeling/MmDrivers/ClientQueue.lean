import MmDrivers.FenceTypes
import MmDrivers.Lib.Ring
import MmDrivers.Lib.Runs

/-! The client queues: payloads stored and loaded word by word between two
indices of the shared hfi header. A queue of `n` payloads is a FIFO of `n-1`. -/
namespace MmDrivers.ClientQueue
open Sections Sections.Prog FenceTypes MmDrivers.Ring Runs

def payloadSize : Nat := 64
def payloadSizeU32 : Nat := payloadSize/4
theorem payloadWords : payloadSizeU32 = 16 := rfl
theorem payloadBytes : payloadSize = 64 := rfl

def hwFencePayloadType1 : U16 := 1
def hwFencePayloadRev (major minor : U16) : U16 := major <<< 8 ||| (minor &&& 0xFF)

inductive Store where
  | writeq (word : Nat) (v : U64)
  | writel (word : Nat) (v : U32)
  | writewLow (word : Nat) (v : U16)
  | writewHigh (word : Nat) (v : U16)

namespace Store

def words : Store → List Nat
  | .writeq word _ => [word,word+1]
  | .writel word _ | .writewLow word _ | .writewHigh word _ => [word]

def apply (mem : Nat → U32) : Store → Nat → U32
  | .writeq word v =>
    Function.update (Function.update mem word (v.setWidth 32)) (word+1) ((v >>> 32).setWidth 32)
  | .writel word v => Function.update mem word v
  | .writewLow word v => Function.update mem word ((mem word).extractLsb' 16 16 ++ v)
  | .writewHigh word v => Function.update mem word (v ++ (mem word).extractLsb' 0 16)

end Store

-- `size` is a u32 that is stored with a 64-bit write
def payloadStores (base : Nat) (p : Payload) (timestamp : U64) : List Store :=
  [.writeq base (BitVec.ofNat 64 payloadSize),
   .writewLow (base+1) hwFencePayloadType1,
   .writewHigh (base+1) (hwFencePayloadRev 1 0),
   .writeq (base+2) p.ctxtId,
   .writeq (base+4) p.seqno,
   .writeq (base+6) p.hash,
   .writeq (base+8) p.flags,
   .writeq (base+10) p.clientData,
   .writel (base+12) p.error,
   .writel (base+13) (timestamp.setWidth 32),
   .writel (base+14) ((timestamp >>> 32).setWidth 32)]

def readq (mem : Nat → U32) (word : Nat) : U64 × List Nat :=
  (mem (word+1) ++ mem word,[word,word+1])

def readl (mem : Nat → U32) (word : Nat) : U32 × List Nat := (mem word,[word])

def loadPayload (mem : Nat → U32) (base : Nat) : Payload × List Nat :=
  let ctxtId := readq mem (base+2)
  let seqno := readq mem (base+4)
  let hash := readq mem (base+6)
  let flags := readq mem (base+8)
  let clientData := readq mem (base+10)
  let error := readl mem (base+12)
  (⟨ctxtId.1,seqno.1,hash.1,flags.1,clientData.1,error.1⟩,
    ctxtId.2 ++ seqno.2 ++ hash.2 ++ flags.2 ++ clientData.2 ++ error.2)

/-- What one call does to its queue: the result, the queue after it, the payload words accessed. -/
structure Access (α : Type) where
  result : α
  queue : ClientQueue
  words : List Nat

-- the index after the last payload is the beginning of the queue
def nextIdx (qSizeU32 idx : U32) : U32 :=
  let next := idx + BitVec.ofNat 32 payloadSizeU32
  if next ≥ qSizeU32 then 0 else next

def readIdx (qSizeU32 : U32) (q : ClientQueue) : Access (Nat × Option Payload) :=
  if q.readIndex = q.writeIndex then ⟨(0,none),q,[]⟩
  else
    let toReadIdx := nextIdx qSizeU32 q.readIndex
    let loaded := loadPayload q.word q.readIndex.toNat
    ⟨(if toReadIdx = q.writeIndex then 0 else 1,some loaded.1),
      {q with readIndex := toReadIdx},loaded.2⟩

def writeIdx (skipWrIdx : Bool) (q : ClientQueue) : U32 :=
  if skipWrIdx then q.txWm else q.writeIndex

def advance (skipWrIdx : Bool) (q : ClientQueue) (idx : U32) : ClientQueue :=
  if skipWrIdx then {q with txWm := idx} else {q with writeIndex := idx}

def qFreeU32 (qSizeU32 readIdx writeIdx : U32) : U32 :=
  if readIdx ≤ writeIdx then qSizeU32 - (writeIdx - readIdx) else readIdx - writeIdx

def append (qSizeU32 : U32) (skipWrIdx : Bool) (p : Payload) (timestamp : U64) (q : ClientQueue) :
    Access Status :=
  let wr := writeIdx skipWrIdx q
  if qFreeU32 qSizeU32 q.readIndex wr ≤ BitVec.ofNat 32 payloadSizeU32 then
    ⟨.error .einval,q,[]⟩
  else
    let toWriteIdx := nextIdx qSizeU32 wr
    let stores := payloadStores wr.toNat p timestamp
    ⟨.ok (),advance skipWrIdx {q with word := stores.foldl Store.apply q.word} toWriteIdx,
      stores.flatMap Store.words⟩

section Advance
variable (skipWrIdx : Bool) (q : ClientQueue) (idx : U32)

theorem advanceWriter : writeIdx skipWrIdx (advance skipWrIdx q idx) = idx := by
  cases skipWrIdx <;> rfl

theorem advanceReader : (advance skipWrIdx q idx).readIndex = q.readIndex := by
  cases skipWrIdx <;> rfl

theorem advanceWord : (advance skipWrIdx q idx).word = q.word := by
  cases skipWrIdx <;> rfl

end Advance

theorem joinHalves (v : U64) : (v >>> 32).setWidth 32 ++ v.setWidth 32 = v := by
  apply BitVec.eq_of_getLsbD_eq
  intro i inside
  rw [BitVec.getLsbD_append]
  by_cases low : i < 32
  · simp [low]
  · have high : 32+(i-32) = i := by omega
    have top : i-32 < 32 := by omega
    simp [low,high,top]

theorem applyOther (mem : Nat → U32) (st : Store) (j : Nat) (other : j ∉ st.words) :
    Store.apply mem st j = mem j := by
  cases st <;> simp_all [Store.words,Store.apply]

theorem storesOther (mem : Nat → U32) (stores : List Store) (j : Nat)
    (other : j ∉ stores.flatMap Store.words) : stores.foldl Store.apply mem j = mem j := by
  induction stores generalizing mem with
  | nil => rfl
  | cons st rest ih =>
    simp only [List.flatMap_cons,List.mem_append,not_or] at other
    rw [List.foldl_cons,ih _ other.2,applyOther _ _ _ other.1]

theorem storedWords (base : Nat) (p : Payload) (timestamp : U64) (j : Nat)
    (mem : j ∈ (payloadStores base p timestamp).flatMap Store.words) :
    base ≤ j ∧ j < base+payloadSizeU32 := by
  simp [payloadStores,Store.words] at mem
  simp only [payloadSizeU32,payloadSize]
  omega

theorem loadedWords (mem : Nat → U32) (base j : Nat) (loaded : j ∈ (loadPayload mem base).2) :
    base ≤ j ∧ j < base+payloadSizeU32 := by
  simp [loadPayload,readq,readl] at loaded
  simp only [payloadSizeU32,payloadSize]
  omega

theorem loadStored (mem : Nat → U32) (base : Nat) (p : Payload) (timestamp : U64) :
    (loadPayload ((payloadStores base p timestamp).foldl Store.apply mem) base).1 = p := by
  simp [payloadStores,Store.apply,loadPayload,readq,readl,Nat.add_assoc,
    joinHalves]

theorem loadOther (mem mem' : Nat → U32) (base : Nat)
    (same : ∀ j, base ≤ j → j < base+payloadSizeU32 → mem' j = mem j) :
    loadPayload mem' base = loadPayload mem base := by
  have at_ : ∀ k < payloadSizeU32, mem' (base+k) = mem (base+k) :=
    fun k h => same _ (by omega) (by omega)
  simp only [payloadSizeU32,payloadSize] at at_
  simp [loadPayload,readq,readl,at_,Nat.add_assoc]

def slotPayload (mem : Nat → U32) (slot : Nat) : Payload := (loadPayload mem (payloadSizeU32*slot)).1

structure Pending (n : Nat) (skipWrIdx : Bool) (q : ClientQueue) (xs : List Payload) : Prop where
  slots : ∃ r w, q.readIndex.toNat = payloadSizeU32*r ∧
    (writeIdx skipWrIdx q).toNat = payloadSizeU32*w ∧ Holds n r w (slotPayload q.word) xs

structure InSlot (qSizeU32 index : Nat) (word : Nat) : Prop where
  after : index ≤ word
  before : word < index+payloadSizeU32
  inside : index+payloadSizeU32 ≤ qSizeU32

section Fifo
variable {n : Nat} {qSizeU32 : U32} {q : ClientQueue} {xs : List Payload} {p : Payload}
  {timestamp : U64}

theorem freeToNat {r w : U32} (inside : w.toNat ≤ qSizeU32.toNat) :
    (qFreeU32 qSizeU32 r w).toNat =
      if r.toNat ≤ w.toNat then qSizeU32.toNat-(w.toNat-r.toNat) else r.toNat-w.toNat := by
  unfold qFreeU32
  by_cases le : r ≤ w
  · have nat : r.toNat ≤ w.toNat := le
    have gap : (w-r).toNat = w.toNat-r.toNat := BitVec.toNat_sub_of_le le
    have fits : w-r ≤ qSizeU32 := by
      rw [BitVec.le_def,gap]
      omega
    rw [if_pos le,if_pos nat,BitVec.toNat_sub_of_le fits,gap]
  · have nat : ¬ r.toNat ≤ w.toNat := le
    have gt : w ≤ r := by
      rw [BitVec.le_def]
      omega
    rw [if_neg le,if_neg nat,BitVec.toNat_sub_of_le gt]

theorem nextIdxToNat {idx : U32} {slot : Nat} (sized : qSizeU32.toNat = payloadSizeU32*n)
    (small : payloadSize*n < 2^32) (own : idx.toNat = payloadSizeU32*slot) (inside : slot < n) :
    (nextIdx qSizeU32 idx).toNat = payloadSizeU32*((slot+1) % n) := by
  rw [payloadWords] at sized own ⊢
  rw [payloadBytes] at small
  have sum : (idx+BitVec.ofNat 32 payloadSizeU32).toNat = 16*(slot+1) := by
    rw [payloadWords,BitVec.toNat_add,BitVec.toNat_ofNat,own]
    omega
  rw [nextMod inside]
  unfold nextIdx
  by_cases last : n ≤ slot+1
  · have wrapped : idx + BitVec.ofNat 32 payloadSizeU32 ≥ qSizeU32 := by
      rw [ge_iff_le,BitVec.le_def]
      omega
    simp [wrapped,last]
  · have under : ¬ idx + BitVec.ofNat 32 payloadSizeU32 ≥ qSizeU32 := by
      rw [ge_iff_le,BitVec.le_def]
      omega
    simp only [under,last,if_false,sum]

theorem slotInside {r : Nat} (inside : r < n) :
    payloadSizeU32*r+payloadSizeU32 ≤ payloadSizeU32*n := by
  rw [payloadWords]
  omega

theorem pendingFree {skip : Bool} {r w : Nat} (sized : qSizeU32.toNat = payloadSizeU32*n)
    (reader : q.readIndex.toNat = payloadSizeU32*r)
    (writer : (writeIdx skip q).toNat = payloadSizeU32*w)
    (holds : Holds n r w (slotPayload q.word) xs) :
    qFreeU32 qSizeU32 q.readIndex (writeIdx skip q) ≤ BitVec.ofNat 32 payloadSizeU32 ↔
      ¬ xs.length < n-1 := by
  have room := holds.room
  have wSlot := slotInside holds.writerInside
  have free : (qFreeU32 qSizeU32 q.readIndex (writeIdx skip q)).toNat =
      payloadSizeU32*(n-xs.length) := by
    rw [freeToNat (by omega),← holds.free,reader,writer,sized,payloadWords]
    by_cases le : r ≤ w
    · rw [if_pos (by omega),if_pos le]
      omega
    · rw [if_neg (by omega),if_neg le]
      omega
  rw [BitVec.le_def,free,payloadWords]
  simp
  omega

theorem appendFits {skip : Bool} (timestamp : U64) (sized : qSizeU32.toNat = payloadSizeU32*n)
    (small : payloadSize*n < 2^32) (pending : Pending n skip q xs) (room : xs.length < n-1) :
    (append qSizeU32 skip p timestamp q).result = .ok () ∧
      Pending n skip (append qSizeU32 skip p timestamp q).queue (xs ++ [p]) ∧
      ∀ word ∈ (append qSizeU32 skip p timestamp q).words,
        InSlot qSizeU32.toNat (writeIdx skip q).toNat word := by
  obtain ⟨r,w,reader,writer,holds⟩ := pending.slots
  have wInside := holds.writerInside
  have rSlot := slotInside holds.reader
  have wSlot := slotInside wInside
  have fits : ¬ qFreeU32 qSizeU32 q.readIndex (writeIdx skip q) ≤ BitVec.ofNat 32 payloadSizeU32 :=
    fun full => (pendingFree sized reader writer holds).mp full room
  have next := nextIdxToNat sized small writer wInside
  simp only [append,fits,if_false]
  refine ⟨trivial,⟨r,(w+1) % n,by rw [advanceReader,reader],by rw [advanceWriter,next],?_⟩,?_⟩
  · rw [advanceWord]
    refine holds.push (by omega) ?_ ?_
    · rw [slotPayload,← writer,loadStored]
    · intro k inside ne
      unfold slotPayload
      rw [loadOther]
      intro j low high
      refine storesOther _ _ j fun mem => ?_
      have touched := storedWords _ _ _ j mem
      rw [payloadWords] at low high touched writer
      omega
  · intro j mem
    have touched := storedWords _ _ _ j mem
    exact ⟨touched.1,touched.2,by omega⟩

theorem appendFull {skip : Bool} (timestamp : U64) (sized : qSizeU32.toNat = payloadSizeU32*n)
    (pending : Pending n skip q xs) (full : ¬ xs.length < n-1) :
    append qSizeU32 skip p timestamp q = ⟨.error .einval,q,[]⟩ := by
  obtain ⟨r,w,reader,writer,holds⟩ := pending.slots
  simp [append,(pendingFree sized reader writer holds).mpr full]

theorem readEmpty (pending : Pending n false q []) : readIdx qSizeU32 q = ⟨(0,none),q,[]⟩ := by
  obtain ⟨r,w,reader,writer,holds⟩ := pending.slots
  have same : q.readIndex = q.writeIndex := by
    apply BitVec.eq_of_toNat_eq
    rw [reader,holds.emptyIff.mpr rfl]
    exact writer.symm
  simp [readIdx,same]

structure TakesNext (n : Nat) (qSizeU32 : U32) (q : ClientQueue) (p : Payload) (xs : List Payload) : Prop where
  some : q.readIndex ≠ q.writeIndex
  loaded : (loadPayload q.word q.readIndex.toNat).1 = p
  last : nextIdx qSizeU32 q.readIndex = q.writeIndex ↔ xs = []
  left : Pending n false {q with readIndex := nextIdx qSizeU32 q.readIndex} xs

theorem takesNext (sized : qSizeU32.toNat = payloadSizeU32*n) (small : payloadSize*n < 2^32)
    (pending : Pending n false q (p::xs)) : TakesNext n qSizeU32 q p xs := by
  obtain ⟨r,w,reader,writer,holds⟩ := pending.slots
  replace writer : q.writeIndex.toNat = payloadSizeU32*w := writer
  have next := nextIdxToNat sized small reader holds.reader
  have rest := holds.pop
  refine ⟨?_,?_,?_,⟨_,w,next,writer,rest⟩⟩
  · intro same
    have slots : r = w := by
      have nat := congrArg BitVec.toNat same
      rw [reader,writer,payloadWords] at nat
      omega
    exact absurd (holds.emptyIff.mp slots) (by simp)
  · rw [reader]
    exact holds.head
  · rw [← rest.emptyIff,← BitVec.toNat_inj,next,writer,payloadWords]
    omega

theorem readNext (sized : qSizeU32.toNat = payloadSizeU32*n) (small : payloadSize*n < 2^32)
    (pending : Pending n false q (p::xs)) :
    (readIdx qSizeU32 q).result = (if xs = [] then 0 else 1,some p) ∧
      Pending n false (readIdx qSizeU32 q).queue xs ∧
      ∀ word ∈ (readIdx qSizeU32 q).words, InSlot qSizeU32.toNat q.readIndex.toNat word := by
  obtain ⟨r,w,reader,-,holds⟩ := pending.slots
  have takes := takesNext sized small pending
  simp only [readIdx,if_neg takes.some,takes.loaded,takes.last]
  refine ⟨trivial,takes.left,?_⟩
  intro j mem
  have touched := loadedWords _ _ j mem
  have rSlot := slotInside holds.reader
  exact ⟨touched.1,touched.2,by omega⟩

end Fifo

section Calls
variable {m : Nat}

def lockClientQueue (queueType : Nat) : Bool := queueType = hwFenceRxQueue-1

def lockIdx (client : HwFenceClient) : Nat := (client.clientId+(2^32-1)) % 2^32

def hwFenceReadQueue (client : HwFenceClient) (queueType : Nat) :
    Driver m (Except Errno Nat × Option Payload) :=
  if hwFenceClientQueues ≤ queueType then pure (.error .einval,none)
  else
    let queue := client.queues queueType
    let qSizeU32 := queue.qSizeBytes/4
    if ¬ queue.vaHeader then pure (.error .einval,none)
    else
      let accessed (d : DriverData m) := readIdx qSizeU32 (d.queue client.clientId queueType)
      atomic
        (fun d => d.onQueue client.clientId queueType (fun _ => (accessed d).queue))
        (fun d => (accessed d).words.map (Event.queueWord client.clientId queueType))
        (fun d => (.ok (accessed d).result.1,(accessed d).result.2))

def hwFenceUpdateQueue (client : HwFenceClient) (ctxtId seqno hash flags clientData : U64)
    (error : U32) (queueType : Nat) : Driver m Status := do
  let queuesNum ← observe (fun d => d.queuesNum client.clientId)
  if queuesNum ≤ queueType then pure (.error .einval)
  else
    let queue := client.queues queueType
    let qSizeU32 := queue.qSizeBytes/4
    if ¬ queue.vaHeader then pure (.error .einval)
    else
      let skipWrIdx := queueType = hwFenceTxQueue-1 && client.skipTxqWrIdx
      let lockClient := lockClientQueue queueType
      let idx := lockIdx client
      let lockCnt ← observe (fun d => d.clientLockTblCnt)
      if lockClient && lockCnt ≤ idx then pure (.error .einval)
      else
        let accessed (d : DriverData m) :=
          append qSizeU32 skipWrIdx ⟨ctxtId,seqno,hash,flags,clientData,error⟩ d.qtime
            (d.queue client.clientId queueType)
        let words (d : DriverData m) :=
          (accessed d).words.map (Event.queueWord client.clientId queueType)
        atomic
          (fun d => d.onQueue client.clientId queueType (fun _ => (accessed d).queue))
          (fun d => if lockClient then [.lockClient idx] ++ words d ++ [.unlockClient idx]
            else words d)
          (fun d => (accessed d).result)

structure Ready (d : DriverData m) (client : HwFenceClient) (queueType : Nat) : Prop where
  exist : queueType < d.queuesNum client.clientId
  header : (client.queues queueType).vaHeader = true
  locked : lockClientQueue queueType = true → lockIdx client < d.clientLockTblCnt

variable {d : DriverData m} {client : HwFenceClient} {queueType : Nat} {p : Payload}

def appended (d : DriverData m) (client : HwFenceClient) (queueType : Nat) (p : Payload) :
    Access Status :=
  append ((client.queues queueType).qSizeBytes/4)
    (queueType = hwFenceTxQueue-1 && client.skipTxqWrIdx) p d.qtime
    (d.queue client.clientId queueType)

def taken (d : DriverData m) (client : HwFenceClient) (queueType : Nat) :
    Access (Nat × Option Payload) :=
  readIdx ((client.queues queueType).qSizeBytes/4) (d.queue client.clientId queueType)

def updatePayload (client : HwFenceClient) (p : Payload) (queueType : Nat) : Driver m Status :=
  hwFenceUpdateQueue client p.ctxtId p.seqno p.hash p.flags p.clientData p.error queueType

theorem updateReady (ready : Ready d client queueType) :
    (updatePayload client p queueType).run d = ((appended d client queueType p).result,
      d.onQueue client.clientId queueType fun _ => (appended d client queueType p).queue) := by
  have exist : ¬ d.queuesNum client.clientId ≤ queueType := by simpa using ready.exist
  have locked : ¬ (lockClientQueue queueType = true ∧ d.clientLockTblCnt ≤ lockIdx client) :=
    fun h => absurd (ready.locked h.1) (by omega)
  simp [updatePayload,hwFenceUpdateQueue,exist,ready.header,locked,appended]

theorem updateRefused (refused : ¬ Ready d client queueType) :
    (updatePayload client p queueType).run d = (.error .einval,d) := by
  by_cases exist : d.queuesNum client.clientId ≤ queueType
  · simp [updatePayload,hwFenceUpdateQueue,exist]
  · by_cases header : (client.queues queueType).vaHeader = true
    · have locked : lockClientQueue queueType = true ∧ d.clientLockTblCnt ≤ lockIdx client := by
        by_contra free
        exact refused ⟨by omega,header,fun h => by
          by_contra none
          exact free ⟨h,by omega⟩⟩
      simp [updatePayload,hwFenceUpdateQueue,exist,header,locked]
    · simp [updatePayload,hwFenceUpdateQueue,header]

theorem readReady (kind : queueType < hwFenceClientQueues)
    (header : (client.queues queueType).vaHeader = true) :
    (hwFenceReadQueue client queueType).run d =
      ((.ok (taken d client queueType).result.1,(taken d client queueType).result.2),
        d.onQueue client.clientId queueType fun _ => (taken d client queueType).queue) := by
  have inside : ¬ hwFenceClientQueues ≤ queueType := by simpa using kind
  simp [hwFenceReadQueue,inside,header,taken]

theorem updateWords (ready : Ready d client queueType) (c t word : Nat)
    (mem : Event.queueWord c t word ∈ (updatePayload client p queueType).events d) :
    c = client.clientId ∧ t = queueType ∧ word ∈ (appended d client queueType p).words := by
  have exist : ¬ d.queuesNum client.clientId ≤ queueType := by simpa using ready.exist
  have locked : ¬ (lockClientQueue queueType = true ∧ d.clientLockTblCnt ≤ lockIdx client) :=
    fun h => absurd (ready.locked h.1) (by omega)
  simp [updatePayload,hwFenceUpdateQueue,exist,ready.header,locked] at mem
  split at mem <;> simp at mem <;> exact ⟨mem.2.1.symm,mem.2.2.symm,mem.1⟩

end Calls

inductive QueueCall where
  | update (p : Payload) (qtime : U64)
  | read

inductive Reply where
  | updated (status : Status)
  | got (left : Except Errno Nat) (payload : Option Payload)

section Runs
variable {m : Nat} (client : HwFenceClient) (queueType : Nat)

def QueueCall.prog : QueueCall → Driver m Reply
  | .update p qtime => do
    atomic (fun d => {d with qtime := qtime}) (fun _ => []) (fun _ => ())
    let status ← updatePayload client p queueType
    pure (.updated status)
  | .read => do
    let (left,payload) ← hwFenceReadQueue client queueType
    pure (.got left payload)

def fifoReply (capacity : Nat) : List Payload → QueueCall → Reply
  | xs,.update _ _ => .updated (if xs.length < capacity then .ok () else .error .einval)
  | [],.read => .got (.ok 0) none
  | p::rest,.read => .got (.ok (if rest = [] then 0 else 1)) (some p)

def fifoNext (capacity : Nat) : List Payload → QueueCall → List Payload
  | xs,.update p _ => if xs.length < capacity then xs ++ [p] else xs
  | xs,.read => xs.tail

def queueStep (capacity : Nat) (s : DriverData m × List Payload) (c : QueueCall) :
    DriverData m × List Payload :=
  (((c.prog client queueType).run s.1).2,fifoNext capacity s.2 c)

def callIndex (d : DriverData m) : QueueCall → U32
  | .update _ _ => (d.queue client.clientId queueType).writeIndex
  | .read => (d.queue client.clientId queueType).readIndex

structure FifoCall (capacity : Nat) (d : DriverData m) (xs : List Payload) (c : QueueCall) : Prop where
  replies : ((c.prog client queueType).run d).1 = fifoReply capacity xs c
  full : ((c.prog client queueType).run d).1 = .updated (.error .einval) →
    ((c.prog client queueType).run d).2.queue = d.queue
  words : ∀ id t word, Event.queueWord id t word ∈ (c.prog client queueType).events d →
    id = client.clientId ∧ t = queueType ∧
      InSlot ((client.queues queueType).qSizeBytes/4).toNat (callIndex client queueType d c).toNat word

/-- A queue of `n` payloads that its calls can use, written at `write_index`. -/
structure Usable (d : DriverData m) (n : Nat) : Prop where
  ready : Ready d client queueType
  kind : queueType < hwFenceClientQueues
  some : 1 ≤ n
  sized : (client.queues queueType).qSizeBytes.toNat = n*payloadSize
  wrIdx : queueType = hwFenceTxQueue-1 → client.skipTxqWrIdx = false

def accepted : DriverData m → List QueueCall → List Payload
  | _,[] => []
  | d,c::rest =>
    let r := (c.prog client queueType).run d
    (match c,r.1 with | .update p _,.updated (.ok _) => [p] | _,_ => []) ++ accepted r.2 rest

def delivered : DriverData m → List QueueCall → List Payload
  | _,[] => []
  | d,c::rest =>
    let r := (c.prog client queueType).run d
    (match r.1 with | .got _ (some p) => [p] | _ => []) ++ delivered r.2 rest

variable {client queueType} {d : DriverData m} {n : Nat} {xs : List Payload} {c : QueueCall}

theorem wordsSized (sized : (client.queues queueType).qSizeBytes.toNat = n*payloadSize) :
    ((client.queues queueType).qSizeBytes/4).toNat = payloadSizeU32*n ∧ payloadSize*n < 2^32 := by
  have small := (client.queues queueType).qSizeBytes.isLt
  rw [payloadBytes] at sized ⊢
  have four : (4 : U32).toNat = 4 := rfl
  rw [payloadWords,BitVec.toNat_udiv,four]
  omega

theorem Usable.keeps {d' : DriverData m} (usable : Usable client queueType d n)
    (queuesNum : d'.queuesNum = d.queuesNum) (lockCnt : d'.clientLockTblCnt = d.clientLockTblCnt) :
    Usable client queueType d' n := by
  obtain ⟨⟨exist,header,locked⟩,kind,some,sized,wrIdx⟩ := usable
  exact ⟨⟨by rw [queuesNum]; exact exist,header,by rw [lockCnt]; exact locked⟩,kind,some,sized,wrIdx⟩

theorem Usable.appends (usable : Usable client queueType d n) (p : Payload) (qtime : U64) :
    appended {d with qtime := qtime} client queueType p =
      append ((client.queues queueType).qSizeBytes/4) false p qtime
        (d.queue client.clientId queueType) := by
  have wrIdx : (decide (queueType = hwFenceTxQueue-1) && client.skipTxqWrIdx) = false := by
    by_cases tx : queueType = hwFenceTxQueue-1
    · simp [usable.wrIdx tx]
    · simp [tx]
  rw [appended,wrIdx]

theorem updateFifo (usable : Usable client queueType d n) (p : Payload) (qtime : U64)
    (pending : Pending n false (d.queue client.clientId queueType) xs) :
    FifoCall client queueType (n-1) d xs (.update p qtime) ∧
      Usable client queueType (((QueueCall.update p qtime).prog client queueType).run d).2 n ∧
      Pending n false ((((QueueCall.update p qtime).prog client queueType).run d).2.queue
        client.clientId queueType) (fifoNext (n-1) xs (.update p qtime)) := by
  obtain ⟨sized,small⟩ := wordsSized usable.sized
  have timed : Usable client queueType {d with qtime := qtime} n := usable.keeps rfl rfl
  have ran := updateReady (p := p) timed.ready
  have touched := updateWords (p := p) timed.ready
  rw [usable.appends] at ran touched
  have prog : ((QueueCall.update p qtime).prog client queueType).run d =
      (.updated (append ((client.queues queueType).qSizeBytes/4) false p qtime
        (d.queue client.clientId queueType)).result,
        ((updatePayload client p queueType).run {d with qtime := qtime}).2) := by
    simp [QueueCall.prog,ran]
  have events : ((QueueCall.update p qtime).prog client queueType).events d =
      (updatePayload client p queueType).events {d with qtime := qtime} := by
    simp [QueueCall.prog]
  rw [prog,ran]
  by_cases room : xs.length < n-1
  · obtain ⟨accepted,longer,slots⟩ := appendFits (p := p) qtime sized small pending room
    refine ⟨⟨?_,?_,?_⟩,timed.keeps rfl rfl,?_⟩
    · rw [prog,accepted,fifoReply,if_pos room]
    · rw [prog,accepted]
      simp
    · rw [events]
      intro id t word mem
      obtain ⟨own,type,word⟩ := touched id t word mem
      exact ⟨own,type,slots _ word⟩
    · rw [fifoNext,if_pos room]
      simpa using longer
  · have same := appendFull (p := p) qtime sized pending room
    rw [same] at ran touched
    refine ⟨⟨?_,?_,?_⟩,timed.keeps rfl rfl,?_⟩
    · rw [prog,same,fifoReply,if_neg room]
    · intro _
      rw [prog,ran]
      simp [DriverData.onQueue]
    · rw [events]
      intro id t word mem
      simpa using (touched id t word mem).2.2
    · rw [fifoNext,if_neg room,same]
      simpa using pending

theorem readRun (usable : Usable client queueType d n) :
    (hwFenceReadQueue client queueType).run d =
      ((.ok (taken d client queueType).result.1,(taken d client queueType).result.2),
        d.onQueue client.clientId queueType fun _ => (taken d client queueType).queue) :=
  readReady usable.kind usable.ready.header

theorem readWords (usable : Usable client queueType d n) (id t word : Nat)
    (mem : Event.queueWord id t word ∈ (hwFenceReadQueue client queueType).events d) :
    id = client.clientId ∧ t = queueType ∧ word ∈ (taken d client queueType).words := by
  have kind : ¬ hwFenceClientQueues ≤ queueType := by simpa using usable.kind
  simp [hwFenceReadQueue,kind,usable.ready.header] at mem
  exact ⟨mem.2.1.symm,mem.2.2.symm,mem.1⟩

theorem readFifo (usable : Usable client queueType d n)
    (pending : Pending n false (d.queue client.clientId queueType) xs) :
    FifoCall client queueType (n-1) d xs .read ∧
      Usable client queueType ((QueueCall.read.prog client queueType).run d).2 n ∧
      Pending n false (((QueueCall.read.prog client queueType).run d).2.queue
        client.clientId queueType) (fifoNext (n-1) xs .read) := by
  obtain ⟨sized,small⟩ := wordsSized usable.sized
  have ran := readRun usable
  have events : (QueueCall.read.prog client queueType).events d =
      (hwFenceReadQueue client queueType).events d := by
    simp [QueueCall.prog]
  have prog : (QueueCall.read.prog client queueType).run d =
      (.got ((hwFenceReadQueue client queueType).run d).1.1
        ((hwFenceReadQueue client queueType).run d).1.2,
        ((hwFenceReadQueue client queueType).run d).2) := by
    simp [QueueCall.prog]
  have touched : ∀ id t word, Event.queueWord id t word ∈
      (QueueCall.read.prog client queueType).events d → id = client.clientId ∧ t = queueType ∧
        word ∈ (taken d client queueType).words := by
    rw [events]
    exact readWords usable
  rw [prog,ran]
  cases xs with
  | nil =>
    have none : taken d client queueType = ⟨(0,none),d.queue client.clientId queueType,[]⟩ :=
      readEmpty pending
    rw [none] at ran touched ⊢
    refine ⟨⟨?_,?_,?_⟩,usable.keeps rfl rfl,by simpa [fifoNext] using pending⟩
    · rw [prog,ran]
      rfl
    · rw [prog]
      simp
    · intro id t word mem
      simpa using (touched id t word mem).2.2
  | cons p rest =>
    obtain ⟨result,fewer,slots⟩ := readNext sized small pending
    have got : (taken d client queueType).result = (if rest = [] then 0 else 1,some p) := result
    refine ⟨⟨?_,?_,?_⟩,usable.keeps rfl rfl,by simpa [taken,fifoNext] using fewer⟩
    · rw [prog,ran,got]
      rfl
    · rw [prog]
      simp
    · intro id t word mem
      obtain ⟨own,type,word⟩ := touched id t word mem
      exact ⟨own,type,slots _ word⟩

theorem callFifo (usable : Usable client queueType d n)
    (pending : Pending n false (d.queue client.clientId queueType) xs) (c : QueueCall) :
    FifoCall client queueType (n-1) d xs c ∧
      Usable client queueType ((c.prog client queueType).run d).2 n ∧
      Pending n false (((c.prog client queueType).run d).2.queue client.clientId queueType)
        (fifoNext (n-1) xs c) := by
  cases c with
  | update p qtime => exact updateFifo usable p qtime pending
  | read => exact readFifo usable pending

theorem deliveredAccepted (calls : List QueueCall)
    (fifo : Along (queueStep client queueType (n-1))
      (fun s c => FifoCall client queueType (n-1) s.1 s.2 c) (d,xs) calls) :
    delivered client queueType d calls ++ (after (queueStep client queueType (n-1)) (d,xs) calls).2 =
      xs ++ accepted client queueType d calls := by
  induction calls generalizing d xs with
  | nil => simp [delivered,accepted]
  | cons c rest ih =>
    have next := ih fifo.2
    have replies := fifo.1.replies
    simp only [delivered,accepted,afterCons,queueStep,replies] at next ⊢
    cases c with
    | update p qtime =>
      simp only [fifoReply,fifoNext] at next ⊢
      by_cases room : xs.length < n-1
      · simp only [if_pos room,List.append_assoc] at next ⊢
        simpa using next
      · simp only [if_neg room] at next ⊢
        simpa using next
    | read =>
      cases xs with
      | nil => simpa [fifoReply,fifoNext] using next
      | cons p tail => simpa [fifoReply,fifoNext] using next

theorem clientQueueRefinesFifo (usable : Usable client queueType d n)
    (empty : (d.queue client.clientId queueType).readIndex = 0 ∧
      (d.queue client.clientId queueType).writeIndex = 0) (calls : List QueueCall) :
    Along (queueStep client queueType (n-1))
        (fun s c => FifoCall client queueType (n-1) s.1 s.2 c) (d,[]) calls ∧
      delivered client queueType d calls ++
          (after (queueStep client queueType (n-1)) (d,[]) calls).2 =
        accepted client queueType d calls := by
  have start : Usable client queueType d n ∧ Pending n false (d.queue client.clientId queueType) [] := by
    refine ⟨usable,⟨0,0,?_,?_,Holds.fresh usable.some _⟩⟩
    · exact congrArg BitVec.toNat empty.1
    · exact congrArg BitVec.toNat empty.2
  have keep : ∀ (s : DriverData m × List Payload) c,
      (Usable client queueType s.1 n ∧ Pending n false (s.1.queue client.clientId queueType) s.2) → True →
      (Usable client queueType (queueStep client queueType (n-1) s c).1 n ∧
        Pending n false ((queueStep client queueType (n-1) s c).1.queue client.clientId queueType)
          (queueStep client queueType (n-1) s c).2) := by
    intro s c inv _
    exact (callFifo inv.1 inv.2 c).2
  have always : Along (queueStep client queueType (n-1)) (fun _ _ => True) (d,[]) calls :=
    alongSplit.mpr fun _ _ _ _ => trivial
  have fifo := alongMono (fun s c inv => (callFifo inv.1 inv.2 c).1) (invariant keep start always).1
  exact ⟨fifo,deliveredAccepted calls fifo⟩

def txClient : HwFenceClient :=
  {HwFenceClient.plain 1 oneKnown with queues := fun _ => ⟨128,true⟩}

def txDriver : DriverData 1 := {DriverData.unused 1 oneEntry with queuesNum := fun _ => 1}

def txRun : List QueueCall :=
  [.update ⟨1,2,3,4,5,6⟩ 7,.update ⟨2,3,4,5,6,7⟩ 8,.read,.read,.update ⟨3,4,5,6,7,8⟩ 9]

theorem txRunFifo :
    Along (queueStep txClient 0 1) (fun s c => FifoCall txClient 0 1 s.1 s.2 c) (txDriver,[]) txRun ∧
      delivered txClient 0 txDriver txRun ++ (after (queueStep txClient 0 1) (txDriver,[]) txRun).2 =
        accepted txClient 0 txDriver txRun := by
  have usable : Usable txClient 0 txDriver 2 :=
    ⟨⟨by decide,rfl,by decide⟩,by decide,by decide,by decide,fun _ => rfl⟩
  exact clientQueueRefinesFifo usable ⟨rfl,rfl⟩ txRun

end Runs
end MmDrivers.ClientQueue

import MmDrivers.ClientQueue
import MmDrivers.Lib.Loops

/-! The loops that read an Rx queue until nothing is left: for the gpu client when
its doorbell rings, and for a session that waits for one fence. -/
namespace MmDrivers.QueueDrain
open Sections Sections.Prog FenceTypes ClientQueue Loops

section Model
variable {m : Nat}

/-- `hw_fence_read_queue` into a local payload, which it may leave as it is. -/
def readQueue (client : Option HwFenceClient) (payload : Payload) (queueType : Nat) :
    Driver m (Except Errno Nat × Payload) :=
  match client with
  | none => pure (.error .einval,payload)
  | some client => do
    let (read,got) ← hwFenceReadQueue client queueType
    pure (read,got.getD payload)

-- one pass of `while (read)`; the locals are the payload
def processGfxClientLoopbackPass (payload : Payload) : Driver m (Pass Payload (Except Errno Nat)) := do
  let client ← observe fun d => d.clients hwFenceClientIdCtx0
  let (read,payload) ← readQueue client payload (hwFenceRxQueue-1)
  match read with
  | .error e => pure (.stop (.error e))
  | .ok read => pure (if read = 0 then .stop (.ok 0) else .next payload)

def carries (fence : DmaFence) (payload : Payload) : Bool :=
  payload.ctxtId = fence.context && payload.seqno = fence.seqno

def fenceWaitPass (client : HwFenceClient) (fence : DmaFence) (payload : Payload) :
    Driver m (Pass Payload (Except Errno Nat)) := do
  let (read,payload) ← readQueue (some client) payload (hwFenceRxQueue-1)
  match read with
  | .error e => pure (.stop (.error e))
  | .ok read =>
    pure (if carries fence payload then .stop (.ok 0)
      else if read = 0 then .stop (.ok read) else .next payload)

def processGfxClientLoopback (fuel : Nat) (payload : Payload) : Driver m (Option (Except Errno Nat)) :=
  loop processGfxClientLoopbackPass fuel payload

def fenceWaitLoop (client : HwFenceClient) (fence : DmaFence) (fuel : Nat) (payload : Payload) :
    Driver m (Option (Except Errno Nat)) :=
  loop (fenceWaitPass client fence) fuel payload

end Model

section Drains
variable {m : Nat}

inductive Drain where
  | loopback
  | fenceWait (client : HwFenceClient) (fence : DmaFence)

namespace Drain

def pass : Drain → Payload → Driver m (Pass Payload (Except Errno Nat))
  | .loopback => processGfxClientLoopbackPass
  | .fenceWait client fence => fenceWaitPass client fence

def loop : Drain → Nat → Payload → Driver m (Option (Except Errno Nat))
  | .loopback => processGfxClientLoopback
  | .fenceWait client fence => fenceWaitLoop client fence

def reader (d : DriverData m) : Drain → Option HwFenceClient
  | .loopback => d.clients hwFenceClientIdCtx0
  | .fenceWait client _ => some client

def finds : Drain → Payload → Bool
  | .loopback,_ => false
  | .fenceWait _ fence,payload => carries fence payload

end Drain

/-- The index is met on the way round the queue, which goes in steps of one payload
and back to 0 from where the next one would not fit. -/
def Reaches (qSizeU32 readIndex index : Nat) : Prop :=
  readIndex = index ∨ index < qSizeU32 ∧ (payloadSizeU32 ∣ index ∨
    index % payloadSizeU32 = readIndex % payloadSizeU32 ∧
      (readIndex < index ∨ 2^32 ≤ readIndex+payloadSizeU32))

instance (qSizeU32 readIndex index : Nat) : Decidable (Reaches qSizeU32 readIndex index) :=
  inferInstanceAs (Decidable (_ ∨ _))

def rxQueue (d : DriverData m) (client : HwFenceClient) : ClientQueue :=
  d.queue client.clientId (hwFenceRxQueue-1)

def rxSizeU32 (client : HwFenceClient) : U32 := (client.queues (hwFenceRxQueue-1)).qSizeBytes/4

def Met (drain : Drain) (d : DriverData m) (client : HwFenceClient) : Prop :=
  ∃ index, Reaches (rxSizeU32 client).toNat (rxQueue d client).readIndex.toNat index ∧
    (index = (rxQueue d client).writeIndex.toNat ∨
      drain.finds (loadPayload (rxQueue d client).word index).1 = true)

end Drains

section Indices
variable {n : Nat} {qSizeU32 readIndex : U32} {index : Nat}

theorem nextIdxNat : (nextIdx qSizeU32 readIndex).toNat =
    if qSizeU32.toNat ≤ (readIndex.toNat+payloadSizeU32) % 2^32 then 0
    else (readIndex.toNat+payloadSizeU32) % 2^32 := by
  have sum : (readIndex+BitVec.ofNat 32 payloadSizeU32).toNat = (readIndex.toNat+payloadSizeU32) % 2^32 := by
    rw [BitVec.toNat_add,payloadWords]
    rfl
  unfold nextIdx
  by_cases past : qSizeU32.toNat ≤ (readIndex.toNat+payloadSizeU32) % 2^32
  · have beyond : readIndex+BitVec.ofNat 32 payloadSizeU32 ≥ qSizeU32 := by
      rw [ge_iff_le,BitVec.le_def,sum]
      exact past
    rw [if_pos past]
    simp only [beyond,if_true]
    rfl
  · have under : ¬ readIndex+BitVec.ofNat 32 payloadSizeU32 ≥ qSizeU32 := by
      rw [ge_iff_le,BitVec.le_def,sum]
      exact past
    simp only [under,past,if_false,sum]

theorem reachesNext (sized : qSizeU32.toNat = payloadSizeU32*n) (room : 1 ≤ n)
    (away : readIndex.toNat ≠ index) :
    Reaches qSizeU32.toNat (nextIdx qSizeU32 readIndex).toNat index ↔
      Reaches qSizeU32.toNat readIndex.toNat index := by
  have small := readIndex.isLt
  have small' := qSizeU32.isLt
  rw [nextIdxNat]
  unfold Reaches
  rw [payloadWords] at *
  split <;> omega

def distance (qSizeU32 readIndex index : Nat) : Nat :=
  if index % payloadSizeU32 = readIndex % payloadSizeU32 ∧ readIndex ≤ index then index-readIndex
  else if 2^32 ≤ readIndex+payloadSizeU32 then index+1+qSizeU32
  else index+1+(qSizeU32-readIndex)

theorem distanceNext (sized : qSizeU32.toNat = payloadSizeU32*n) (room : 1 ≤ n)
    (away : readIndex.toNat ≠ index) (reaches : Reaches qSizeU32.toNat readIndex.toNat index) :
    distance qSizeU32.toNat (nextIdx qSizeU32 readIndex).toNat index <
      distance qSizeU32.toNat readIndex.toNat index := by
  have small := readIndex.isLt
  have small' := qSizeU32.isLt
  rw [nextIdxNat]
  unfold Reaches at reaches
  unfold distance
  rw [payloadWords] at *
  split <;> split_ifs <;> omega

end Indices

section Passes
variable {m : Nat} {drain : Drain} {d : DriverData m} {client : HwFenceClient} {payload : Payload}

def readOn (d : DriverData m) (client : HwFenceClient) : DriverData m :=
  d.onQueue client.clientId (hwFenceRxQueue-1) fun q =>
    {q with readIndex := nextIdx (rxSizeU32 client) q.readIndex}

theorem readQueueRun (payload : Payload) (header : (client.queues (hwFenceRxQueue-1)).vaHeader = true) :
    (readQueue (some client) payload (hwFenceRxQueue-1)).run d =
      if (rxQueue d client).readIndex = (rxQueue d client).writeIndex then ((.ok 0,payload),d)
      else ((.ok (if nextIdx (rxSizeU32 client) (rxQueue d client).readIndex =
          (rxQueue d client).writeIndex then 0 else 1),
        (loadPayload (rxQueue d client).word (rxQueue d client).readIndex.toNat).1),readOn d client) := by
  have kind : hwFenceRxQueue-1 < hwFenceClientQueues := by decide
  have ran : (hwFenceReadQueue client (hwFenceRxQueue-1)).run d = _ := readReady kind header
  unfold readQueue
  simp only [runBind,ran,taken]
  unfold readIdx rxQueue readOn rxSizeU32
  split
  · simp [DriverData.onQueue]
  · simp [DriverData.onQueue]

theorem passIdle (reader : drain.reader d = some client)
    (header : (client.queues (hwFenceRxQueue-1)).vaHeader = true)
    (idle : (rxQueue d client).readIndex = (rxQueue d client).writeIndex) :
    (drain.pass payload).run d = (.stop (.ok 0),d) := by
  have ran := readQueueRun (d := d) payload header
  rw [if_pos idle] at ran
  cases drain with
  | loopback =>
    have own : d.clients hwFenceClientIdCtx0 = some client := reader
    simp [Drain.pass,processGfxClientLoopbackPass,own,ran]
  | fenceWait waiter fence =>
    have own : waiter = client := Option.some.inj reader
    subst own
    simp [Drain.pass,fenceWaitPass,ran]

theorem passReads (payload : Payload) (reader : drain.reader d = some client)
    (header : (client.queues (hwFenceRxQueue-1)).vaHeader = true)
    (left : (rxQueue d client).readIndex ≠ (rxQueue d client).writeIndex) :
    (drain.pass payload).run d =
      (if drain.finds (loadPayload (rxQueue d client).word (rxQueue d client).readIndex.toNat).1 = true ∨
          nextIdx (rxSizeU32 client) (rxQueue d client).readIndex = (rxQueue d client).writeIndex
        then .stop (.ok 0)
        else .next (loadPayload (rxQueue d client).word (rxQueue d client).readIndex.toNat).1,
        readOn d client) := by
  have ran := readQueueRun (d := d) payload header
  rw [if_neg left] at ran
  cases drain with
  | loopback =>
    have own : d.clients hwFenceClientIdCtx0 = some client := reader
    by_cases last : nextIdx (rxSizeU32 client) (rxQueue d client).readIndex = (rxQueue d client).writeIndex
    · simp [Drain.pass,processGfxClientLoopbackPass,Drain.finds,own,ran,last]
    · simp [Drain.pass,processGfxClientLoopbackPass,Drain.finds,own,ran,last]
  | fenceWait waiter fence =>
    have own : waiter = client := Option.some.inj reader
    subst own
    by_cases last : nextIdx (rxSizeU32 waiter) (rxQueue d waiter).readIndex = (rxQueue d waiter).writeIndex
    · simp [Drain.pass,fenceWaitPass,Drain.finds,ran,last]
    · simp [Drain.pass,fenceWaitPass,Drain.finds,ran,last]

theorem readOnReader (reader : drain.reader d = some client) :
    drain.reader (readOn d client) = some client := by
  cases drain with
  | loopback => exact reader
  | fenceWait waiter fence => exact reader

theorem readOnQueue (d : DriverData m) (client : HwFenceClient) : rxQueue (readOn d client) client =
    {rxQueue d client with readIndex := nextIdx (rxSizeU32 client) (rxQueue d client).readIndex} := by
  simp [rxQueue,readOn]

end Passes

section Termination
variable {m n : Nat} {drain : Drain} {d : DriverData m} {client : HwFenceClient}

structure Draining (drain : Drain) (client : HwFenceClient) (index : Nat) (d : DriverData m) : Prop where
  reader : drain.reader d = some client
  reaches : Reaches (rxSizeU32 client).toNat (rxQueue d client).readIndex.toNat index
  ending : index = (rxQueue d client).writeIndex.toNat ∨
    drain.finds (loadPayload (rxQueue d client).word index).1 = true

theorem drainPass {index : Nat} (header : (client.queues (hwFenceRxQueue-1)).vaHeader = true)
    (sized : (rxSizeU32 client).toNat = payloadSizeU32*n) (room : 1 ≤ n) (payload : Payload)
    (draining : Draining drain client index d) :
    (∃ a d', (drain.pass payload).run d = (.stop a,d')) ∨
      ∃ payload' d', (drain.pass payload).run d = (.next payload',d') ∧ Draining drain client index d' ∧
        distance (rxSizeU32 client).toNat (rxQueue d' client).readIndex.toNat index <
          distance (rxSizeU32 client).toNat (rxQueue d client).readIndex.toNat index := by
  by_cases idle : (rxQueue d client).readIndex = (rxQueue d client).writeIndex
  · exact .inl ⟨_,_,passIdle draining.reader header idle⟩
  have ran := passReads payload draining.reader header idle
  by_cases stops : drain.finds (loadPayload (rxQueue d client).word (rxQueue d client).readIndex.toNat).1 =
      true ∨ nextIdx (rxSizeU32 client) (rxQueue d client).readIndex = (rxQueue d client).writeIndex
  · rw [if_pos stops] at ran
    exact .inl ⟨_,_,ran⟩
  rw [if_neg stops] at ran
  have away : (rxQueue d client).readIndex.toNat ≠ index := by
    intro here
    rcases draining.ending with last | found
    · exact idle (BitVec.eq_of_toNat_eq (here.trans last))
    · exact stops (.inl (here ▸ found))
  have queue := readOnQueue d client
  refine .inr ⟨_,_,ran,⟨readOnReader draining.reader,?_,?_⟩,?_⟩
  · rw [queue]
    exact (reachesNext sized room away).mpr draining.reaches
  · rw [queue]
    exact draining.ending
  · rw [queue]
    exact distanceNext sized room away draining.reaches

theorem drainOn (header : (client.queues (hwFenceRxQueue-1)).vaHeader = true)
    (sized : (rxSizeU32 client).toNat = payloadSizeU32*n) (room : 1 ≤ n) (payload : Payload)
    (reader : drain.reader d = some client) (unmet : ¬ Met drain d client) :
    ∃ payload' d', (drain.pass payload).run d = (.next payload',d') ∧
      drain.reader d' = some client ∧ ¬ Met drain d' client := by
  have idle : (rxQueue d client).readIndex ≠ (rxQueue d client).writeIndex := by
    intro same
    exact unmet ⟨_,.inl (congrArg BitVec.toNat same),.inl rfl⟩
  have away : (rxQueue d client).readIndex.toNat ≠ (rxQueue d client).writeIndex.toNat :=
    fun same => idle (BitVec.eq_of_toNat_eq same)
  have ran := passReads payload reader header idle
  have goes : ¬ (drain.finds (loadPayload (rxQueue d client).word (rxQueue d client).readIndex.toNat).1 =
      true ∨ nextIdx (rxSizeU32 client) (rxQueue d client).readIndex = (rxQueue d client).writeIndex) := by
    rintro (found | last)
    · exact unmet ⟨_,.inl rfl,.inr found⟩
    · refine unmet ⟨_,(reachesNext sized room away).mp (.inl ?_),.inl rfl⟩
      rw [last]
  rw [if_neg goes] at ran
  refine ⟨_,_,ran,readOnReader reader,?_⟩
  rintro ⟨index,reaches,ending⟩
  rw [readOnQueue] at reaches ending
  by_cases here : (rxQueue d client).readIndex.toNat = index
  · exact unmet ⟨index,.inl here,ending⟩
  · exact unmet ⟨index,(reachesNext sized room here).mp reaches,ending⟩

theorem drainNever (reader : drain.reader d = some client)
    (header : (client.queues (hwFenceRxQueue-1)).vaHeader = true)
    (sized : (rxSizeU32 client).toNat = payloadSizeU32*n) (room : 1 ≤ n) (payload : Payload)
    (unmet : ¬ Met drain d client) : ¬ Ends drain.pass payload d := by
  refine loopRuns (fun _ d => drain.reader d = some client ∧ ¬ Met drain d client) ?_ ⟨reader,unmet⟩
  exact fun payload d inv => drainOn header sized room payload inv.1 inv.2

def DrainEnds (drain : Drain) (payload : Payload) (d : DriverData m) : Prop :=
  ∃ fuel read, ((drain.loop fuel payload).run d).1 = some read

theorem drainLoop (payload : Payload) : DrainEnds drain payload d ↔ Ends drain.pass payload d := by
  have same : ∀ fuel, (drain.loop fuel payload : Driver m _) = Loops.loop drain.pass fuel payload := by
    intro fuel
    cases drain <;> rfl
  constructor
  · rintro ⟨fuel,read,ran⟩
    exact ⟨read,_,fuel,Prod.ext (same fuel ▸ ran) rfl⟩
  · rintro ⟨read,d',fuel,ran⟩
    exact ⟨fuel,read,by rw [same,ran]⟩

theorem drainEndsIff (reader : drain.reader d = some client)
    (header : (client.queues (hwFenceRxQueue-1)).vaHeader = true)
    (sized : (rxSizeU32 client).toNat = payloadSizeU32*n) (room : 1 ≤ n) (payload : Payload) :
    DrainEnds drain payload d ↔ Met drain d client := by
  rw [drainLoop]
  constructor
  · intro ends
    by_contra unmet
    exact drainNever reader header sized room payload unmet ends
  · rintro ⟨index,reaches,ending⟩
    refine loopEnds (fun _ => Draining drain client index)
      (fun _ d => distance (rxSizeU32 client).toNat (rxQueue d client).readIndex.toNat index) ?_
      ⟨reader,reaches,ending⟩
    exact fun payload d inv => drainPass header sized room payload inv

def gpuClient : HwFenceClient :=
  {HwFenceClient.plain 1 oneKnown with queues := fun _ => ⟨128,true⟩}

def gpuDriver (readIndex writeIndex : U32) : DriverData 1 :=
  {DriverData.unused 1 oneEntry with
    entries := oneEntry
    queue := fun _ _ => ⟨readIndex,writeIndex,0,fun _ => 0⟩
    clients := fun id => if id = 1 then some gpuClient else none
    ownId := by
      intro id c found
      split at found
      · cases found
        exact Eq.symm (by assumption)
      · contradiction}

theorem alignedEnds : DrainEnds .loopback ⟨0,0,0,0,0,0⟩ (gpuDriver 16 0) := by
  have reader : Drain.loopback.reader (gpuDriver 16 0) = some gpuClient := rfl
  have sized : (rxSizeU32 gpuClient).toNat = payloadSizeU32*2 := rfl
  refine (drainEndsIff reader rfl sized (by decide) _).mpr ⟨0,.inr ?_,.inl rfl⟩
  exact ⟨by decide,.inl (by decide)⟩

theorem betweenPayloadsNeverEnds : ¬ DrainEnds .loopback ⟨0,0,0,0,0,0⟩ (gpuDriver 0 8) := by
  rw [drainLoop]
  have reader : Drain.loopback.reader (gpuDriver 0 8) = some gpuClient := rfl
  have sized : (rxSizeU32 gpuClient).toNat = payloadSizeU32*2 := rfl
  refine drainNever reader rfl sized (by decide) _ ?_
  rintro ⟨index,reaches,last | found⟩
  · have eight : index = 8 := last
    subst eight
    exact absurd reaches (by decide)
  · contradiction

end Termination
end MmDrivers.QueueDrain

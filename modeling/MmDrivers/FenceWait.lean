import MmDrivers.SyncIoctl

/-! What a wait for a fence tells: the queue is read until the fence turns up or
nothing is left, and the last read's result is the wait's. -/
namespace MmDrivers.FenceWait
open Sections Sections.Prog FenceTypes ClientQueue Loops Parts QueueDrain SyncIoctl

section Reads
variable {m n : Nat} {s : SyncState m} {client : HwFenceClient} {fence : DmaFence} {xs : List Payload}
  {handle : Handle} {payload : Payload}

structure Holding (n : Nat) (client : HwFenceClient) (s : SyncState m) (xs : List Payload) : Prop where
  header : (client.queues (hwFenceRxQueue-1)).vaHeader = true
  sized : (client.queues (hwFenceRxQueue-1)).qSizeBytes.toNat = n*payloadSize
  pending : Pending n false (rxQueue s.registry.d client) xs

theorem readRun : (fenceWaitRead handle client fence payload).run s =
    (((fenceWaitPass client fence payload).run s.registry.d).1,
      dataPart.put ((fenceWaitPass client fence payload).run s.registry.d).2 s) := by
  simp [fenceWaitRead,passes,dataPart]

theorem readNone (holding : Holding n client s []) :
    (fenceWaitRead handle client fence payload).run s = (.stop (.ok 0),s) := by
  obtain ⟨r,w,reader,writer,holds⟩ := holding.pending.slots
  have idle : (rxQueue s.registry.d client).readIndex = (rxQueue s.registry.d client).writeIndex := by
    apply BitVec.eq_of_toNat_eq
    rw [reader,holds.emptyIff.mpr rfl]
    exact writer.symm
  have stopped : ((Drain.fenceWait client fence).pass payload).run s.registry.d =
      (.stop (.ok 0),s.registry.d) := passIdle rfl holding.header idle
  replace stopped : (fenceWaitPass client fence payload).run s.registry.d = _ := stopped
  rw [readRun,stopped]
  exact Prod.ext rfl (dataPart.putLook s)

theorem readSome {p : Payload} (handle : Handle) (fence : DmaFence) (payload : Payload)
    (holding : Holding n client s (p::xs)) :
    ∃ s', (fenceWaitRead handle client fence payload).run s =
        (if carries fence p = true ∨ xs = [] then .stop (.ok 0) else .next p,s') ∧
      Holding n client s' xs := by
  obtain ⟨sized,small⟩ := wordsSized holding.sized
  have takes := takesNext sized small holding.pending
  have ran : ((Drain.fenceWait client fence).pass payload).run s.registry.d = _ :=
    passReads payload rfl holding.header takes.some
  simp only [Drain.finds,Drain.pass,takes.loaded,rxSizeU32,takes.last] at ran
  refine ⟨_,by rw [readRun,ran],holding.header,holding.sized,?_⟩
  have queue := readOnQueue s.registry.d client
  have left := takes.left
  rw [← rxSizeU32,← queue] at left
  exact left

theorem readsEnd (handle : Handle) (fence : DmaFence) (payload : Payload) (holding : Holding n client s xs) :
    ∃ s' taken left, EndsWith (fenceWaitRead handle client fence) payload s (.ok 0) s' ∧
      xs = taken ++ left ∧ Holding n client s' left ∧
      ((∃ p ∈ xs, carries fence p = true) → ∃ p ∈ taken, carries fence p = true) := by
  induction xs generalizing s payload with
  | nil => exact ⟨s,[],[],endsStop (readNone holding),rfl,holding,fun found => found⟩
  | cons p rest ih =>
    obtain ⟨s₁,ran,fewer⟩ := readSome handle fence payload holding
    by_cases stops : carries fence p = true ∨ rest = []
    · rw [if_pos stops] at ran
      refine ⟨s₁,[p],rest,endsStop ran,rfl,fewer,?_⟩
      rintro ⟨q,mem,found⟩
      rcases stops with here | none
      · exact ⟨p,by simp,here⟩
      · subst none
        exact ⟨q,mem,found⟩
    · rw [if_neg stops] at ran
      obtain ⟨s',taken,left,ends,parts,holding',finds⟩ := ih p fewer
      refine ⟨s',p::taken,left,(endsNext ran).mpr ends,by rw [parts]; rfl,holding',?_⟩
      rintro ⟨q,mem,found⟩
      rcases List.mem_cons.mp mem with rfl | later
      · exact absurd (.inl found) stops
      · obtain ⟨t,taken,carried⟩ := finds ⟨q,later,found⟩
        exact ⟨t,List.mem_cons_of_mem _ taken,carried⟩

end Reads

section Verdict
variable {m n : Nat} {s : SyncState m} {client : HwFenceClient} {fence : SyncFence} {xs : List Payload}
  {call : FenceWait m}

structure Arrived (call : FenceWait m) (fence : SyncFence) (client : HwFenceClient) (s : SyncState m) : Prop where
  valid : isValidClient s.obj = true
  handle : ∃ grant, s.obj.clientHandle = .client grant client
  data : ∃ fd timeout, call.data = some (fd,timeout) ∧ 0 ≤ fd ∧ call.syncFileGetFence fd = some fence
  signal : call.arrived = true

/-- The wait ends, returns 0 exactly if one of the payloads it dequeued carries the fence,
and an error if none does. -/
def Truthful (call : FenceWait m) (fence : DmaFence) (client : HwFenceClient) (n : Nat) (xs : List Payload)
    (s : SyncState m) : Prop :=
  ∃ reads read s' taken left, (hwSyncIoctlFenceWait call reads).run s = (.returned read,s') ∧
    xs = taken ++ left ∧ Holding n client s' left ∧
    (read = .ok 0 ↔ ∃ p ∈ taken, carries fence p = true) ∧
    ((∀ p ∈ taken, carries fence p = false) → ∃ e, read = .error e)

def ended (call : FenceWait m) (fence : SyncFence) :
    Option (Except Errno Nat) × SyncState m → Outcome × SyncState m
  | (none,s) => (.running,s)
  | (some read,s) => (.returned read,s.drop call.destroyed fence.base)

theorem arrivedRun (arrived : Arrived call fence client s) : ∃ grant, ∀ reads,
    (hwSyncIoctlFenceWait call reads).run s = ended call fence
      ((loop (fenceWaitRead (.client grant client) client fence.fence) (reads+1) call.payload).run
        (s.get fence.base)) := by
  obtain ⟨grant,handle⟩ := arrived.handle
  obtain ⟨fd,timeout,data,some,file⟩ := arrived.data
  refine ⟨grant,fun reads => ?_⟩
  unfold hwSyncIoctlFenceWait
  simp only [runBind,runObserve,arrived.valid,not_true_eq_false,if_false,data,hwSyncGetFence,some,if_true,
    file,runAtomic,pureRet,runRet,handle,arrived.signal,id_eq]
  generalize (loop _ (reads+1) call.payload).run (s.get fence.base) = done
  obtain ⟨read,s'⟩ := done
  cases read with
  | none => rfl
  | some read => simp [ended]

theorem readsRelease (handle : Handle) (client : HwFenceClient) (fence : DmaFence) (fuel base : Nat)
    (payload : Payload) (s : SyncState m) :
    ((loop (fenceWaitRead handle client fence) fuel payload).run s).2.releases base = s.releases base := by
  have reads : ∀ payload, (fenceWaitRead handle client fence payload).Each
      fun (upd : SyncState m → SyncState m) (_ : SyncState m → List SyncEvent) =>
        ∀ s, (upd s).releases base = s.releases base := fun payload =>
    eachBind (eachAtomic fun _ => rfl) fun _ => eachWithin fun _ _ _ => rfl
  exact eachRun (R := fun s s' : SyncState m => s'.releases base = s.releases base)
    (eachLoop reads fuel payload) (fun _ _ kept => kept) (fun _ => rfl) (fun _ _ _ ab bc => Eq.trans bc ab) s

theorem returnsZero (arrived : Arrived call fence client s) (holding : Holding n client s xs)
    {reads : Nat} {read : Except Errno Nat} {s' : SyncState m}
    (ran : (hwSyncIoctlFenceWait call reads).run s = (.returned read,s')) : read = .ok 0 := by
  obtain ⟨grant,run⟩ := arrivedRun arrived
  have own : Holding n client (s.get fence.base) xs := ⟨holding.header,holding.sized,holding.pending⟩
  obtain ⟨s₁,taken,left,ends,-⟩ :=
    readsEnd (.client grant client) fence.fence call.payload own
  rw [run] at ran
  cases loops : (loop (fenceWaitRead (.client grant client) client fence.fence) (reads+1)
      call.payload).run (s.get fence.base) with
  | mk got s₂ =>
    rw [loops] at ran
    cases got with
    | none => simp [ended] at ran
    | some got =>
      have same : got = read := by
        have returned := congrArg Prod.fst ran
        simpa [ended] using returned
      exact same ▸ (endsOnce ⟨_,loops⟩ ends).1

theorem truthfulIff (arrived : Arrived call fence client s) (holding : Holding n client s xs) :
    Truthful call fence.fence client n xs s ↔ ∃ p ∈ xs, carries fence.fence p = true := by
  constructor
  · rintro ⟨reads,read,s',taken,left,ran,parts,-,zero,-⟩
    obtain ⟨p,mem,carried⟩ := zero.mp (returnsZero arrived holding ran)
    exact ⟨p,by rw [parts]; exact List.mem_append_left left mem,carried⟩
  · intro found
    obtain ⟨grant,run⟩ := arrivedRun arrived
    have own : Holding n client (s.get fence.base) xs := ⟨holding.header,holding.sized,holding.pending⟩
    obtain ⟨s₁,taken,left,⟨fuel,ends⟩,parts,holding',finds⟩ :=
      readsEnd (.client grant client) fence.fence call.payload own
    obtain ⟨p,mem,carried⟩ := finds found
    cases fuel with
    | zero => simp [loop] at ends
    | succ reads =>
      have last : s₁.releases fence.base = [] := by
        have kept := readsRelease (.client grant client) client fence.fence (reads+1)
          fence.base call.payload (s.get fence.base)
        rwa [ends,getReleases] at kept
      have same := dropNone call.destroyed last
      refine ⟨reads,.ok 0,_,taken,left,by rw [run,ends]; rfl,parts,?_,?_,?_⟩
      · exact ⟨holding'.header,holding'.sized,by rw [same]; exact holding'.pending⟩
      · exact ⟨fun _ => ⟨p,mem,carried⟩,fun _ => rfl⟩
      · intro none
        exact absurd carried (by rw [none p mem]; decide)

theorem valKnown : 0 < 8 ∧ 8 < hwFenceClientMax := by decide

def valClient : HwFenceClient :=
  {HwFenceClient.plain 8 valKnown with queues := fun _ => ⟨192,true⟩}

def otherPayload : Payload := ⟨2,1,0,0,0,0⟩
def valPayload : Payload := ⟨1,1,0,0,0,0⟩

def valSession : SyncState 1 where
  obj := ⟨7,8,.client 0 valClient⟩
  grants := 1
  registry := ⟨{DriverData.unused 1 oneEntry with
    entries := oneEntry
    ownId := noneRegistered
    queue := fun _ _ => ⟨0,32,0,fun word =>
      if word = 2 then 2 else if word = 4 ∨ word = 18 ∨ word = 20 then 1 else 0⟩},false⟩
  refs := ⟨fun _ => 1,none,0⟩
  kept := fun _ => none
  below := fun _ => []

def valWait (fence : DmaFence) : FenceWait 1 where
  data := some (3,100)
  syncFileGetFence := fun _ => some ⟨0,fence⟩
  arrived := true
  payload := valPayload
  destroyed := fun _ => ⟨.ok (),valSession.registry⟩

theorem valArrived (fence : DmaFence) : Arrived (valWait fence) ⟨0,fence⟩ valClient valSession :=
  ⟨rfl,⟨0,rfl⟩,⟨3,100,rfl,by decide,rfl⟩,rfl⟩

theorem valHolding : Holding 3 valClient valSession [otherPayload,valPayload] := by
  refine ⟨rfl,rfl,⟨0,2,rfl,rfl,by decide,by decide,rfl,?_⟩⟩
  intro k inside
  rcases Nat.le_one_iff_eq_zero_or_eq_one.mp (Nat.lt_succ_iff.mp inside) with rfl | rfl
  · rfl
  · rfl

theorem awaitedTruthful : Truthful (valWait ⟨1,1,false,true⟩) ⟨1,1,false,true⟩ valClient 3
    [otherPayload,valPayload] valSession :=
  (truthfulIff (valArrived ⟨1,1,false,true⟩) valHolding).mpr ⟨valPayload,by simp,by decide⟩

theorem anotherReturnsZero : Arrived (valWait ⟨3,1,false,true⟩) ⟨0,⟨3,1,false,true⟩⟩ valClient valSession ∧
    Holding 3 valClient valSession [otherPayload,valPayload] ∧
    ¬ Truthful (valWait ⟨3,1,false,true⟩) ⟨3,1,false,true⟩ valClient 3 [otherPayload,valPayload]
      valSession := by
  refine ⟨valArrived _,valHolding,?_⟩
  rintro ⟨reads,read,s',taken,left,ran,parts,-,zero,-⟩
  obtain ⟨p,mem,carried⟩ := zero.mp (returnsZero (valArrived _) valHolding ran)
  have none : ∀ p ∈ [otherPayload,valPayload], carries ⟨3,1,false,true⟩ p = false := by decide
  have inside : p ∈ [otherPayload,valPayload] := by
    rw [parts]
    exact List.mem_append_left left mem
  rw [none p inside] at carried
  cases carried

end Verdict
end MmDrivers.FenceWait

import MmDrivers.Parties
import MmDrivers.QueueErrors

/-! Client data on its way to a waiter: what the loop over the waiting clients
sends to each, and what a wait that completes at once puts in the Rx queue. -/
namespace MmDrivers.ClientData
open Sections Sections.Prog FenceTypes FenceLookup FenceTable ClientQueue FenceSignal JoinFence
open ResetRun QueueErrors Parties

section Waiters
variable {m : Nat} {d : DriverData m} {fence : Fin m} {f : HwFence} {w : Nat}

def waitingData (f : HwFence) (bound : Nat) : List ClientDataId :=
  ((List.range bound).filter fun id => f.waitClientMask &&& bit id ≠ 0).filterMap
    hwFenceGetClientDataId

def latest (f : HwFence) (w : Nat) : Option ClientDataId := (waitingData f (w+1)).getLast?

def entry (f : HwFence) (id : Option ClientDataId) : U64 := id.elim 0 f.clientData

def sent (f : HwFence) (hash : Nat) (error : U32) (id : Option ClientDataId) (w : Nat) : Signal :=
  {told f hash error w with clientData := entry f id}

def waitingClients (d : DriverData m) (f : HwFence) : List Nat :=
  waiting d.clients f (List.range' 0 (d.rxqClientsNum+1))

def messages (fence : Fin m) (hash : Nat) (error : U32) (d : DriverData m) : List Signal :=
  signals ((signalAllWaitClients fence hash error).events d)

theorem waitingDataNext (f : HwFence) (id : Nat) : waitingData f (id+1) = waitingData f id ++
    if f.waitClientMask &&& bit id ≠ 0 then (hwFenceGetClientDataId id).toList else [] := by
  unfold waitingData
  rw [List.range_succ,List.filter_append,List.filterMap_append]
  congr 1
  by_cases waits : f.waitClientMask &&& bit id = 0#64
  · simp [waits]
  · cases own : hwFenceGetClientDataId id <;> simp [waits,own]

theorem latestOwn {id : ClientDataId} (waits : f.waitClientMask &&& bit w ≠ 0)
    (own : hwFenceGetClientDataId w = some id) : latest f w = some id := by
  rw [latest,waitingDataNext,if_pos waits,own]
  simp

theorem signalWaitSends (fence : Fin m) (hash : Nat) (error : U32) (left id : Nat) :
    signals ((signalWaitClients fence hash error left id
        (entry (d.tbl fence) (waitingData (d.tbl fence) id).getLast?)).events d) =
      (waiting d.clients (d.tbl fence) (List.range' id left)).map fun w =>
        sent (d.tbl fence) hash error (latest (d.tbl fence) w) w := by
  induction left generalizing d id with
  | zero => rfl
  | succ left ih =>
    have next := waitingDataNext (d.tbl fence) id
    have later : ∀ d', QueueOnly d d' →
        signals ((signalWaitClients fence hash error left (id+1)
            (entry (d.tbl fence) (waitingData (d.tbl fence) (id+1)).getLast?)).events d') =
          (waiting d.clients (d.tbl fence) (List.range' (id+1) left)).map fun w =>
            sent (d.tbl fence) hash error (latest (d.tbl fence) w) w := by
      intro d' same
      have list := ih (d := d') (id+1)
      rw [same] at list ⊢
      exact list
    -- the data is set before the client is looked at
    have told : ∀ data, data = entry (d.tbl fence) (waitingData (d.tbl fence) (id+1)).getLast? →
        ∀ c, d.clients id = some c → signals ((fenceCtlSignal c fence hash 0#64 data error >>= fun _ =>
          signalWaitClients fence hash error left (id+1) data).events d) =
          sent (d.tbl fence) hash error (latest (d.tbl fence) id) id ::
            (waiting d.clients (d.tbl fence) (List.range' (id+1) left)).map fun w =>
              sent (d.tbl fence) hash error (latest (d.tbl fence) w) w := by
      intro data same c registered
      subst same
      obtain ⟨only,list⟩ := signalRun c fence hash 0#64
        (entry (d.tbl fence) (waitingData (d.tbl fence) (id+1)).getLast?) error d
      rw [eventsBind,signalsAppend,list,later _ only,List.singleton_append]
      simp [sent,ResetRun.told,latest,d.ownId id c registered]
    have unset : ∀ data, data = entry (d.tbl fence) (waitingData (d.tbl fence) (id+1)).getLast? →
        signals ((signalWaitClients fence hash error left (id+1) data).events d) =
          (waiting d.clients (d.tbl fence) (List.range' (id+1) left)).map fun w =>
            sent (d.tbl fence) hash error (latest (d.tbl fence) w) w := by
      intro data same
      subst same
      exact later d (.refl d)
    rw [List.range'_succ,waitingCons]
    by_cases waits : (d.tbl fence).waitClientMask &&& bit id = 0#64
    · have same : waitingData (d.tbl fence) (id+1) = waitingData (d.tbl fence) id := by
        simp [next,waits]
      simpa [signalWaitClients,waits] using unset _ (by rw [same])
    · have own : ∀ k, hwFenceGetClientDataId id = some k →
          (d.tbl fence).clientData k = entry (d.tbl fence) (waitingData (d.tbl fence) (id+1)).getLast? := by
        intro k own
        rw [← latest,latestOwn waits own]
        rfl
      cases dataId : hwFenceGetClientDataId id with
      | none =>
        have same : waitingData (d.tbl fence) (id+1) = waitingData (d.tbl fence) id := by
          simp [next,dataId]
        cases registered : d.clients id with
        | none => simpa [signalWaitClients,waits,registered,dataId] using unset _ (by rw [same])
        | some c => simpa [signalWaitClients,waits,registered,dataId] using told _ (by rw [same]) c registered
      | some k =>
        cases registered : d.clients id with
        | none => simpa [signalWaitClients,waits,registered,dataId] using unset _ (own k dataId)
        | some c => simpa [signalWaitClients,waits,registered,dataId] using told _ (own k dataId) c registered

theorem messagesSent (hash : Nat) (error : U32) (d : DriverData m) : messages fence hash error d =
    (waitingClients d (d.tbl fence)).map fun w =>
      sent (d.tbl fence) hash error (latest (d.tbl fence) w) w := by
  have sends := signalWaitSends (d := d) fence hash error (d.rxqClientsNum+1) 0
  simpa [messages,signalAllWaitClients,waitingData,entry,waitingClients] using sends

def SendsOwnData (d : DriverData m) (fence : Fin m) : Prop :=
  ∀ hash error, messages fence hash error d = (waitingClients d (d.tbl fence)).map fun w =>
    sent (d.tbl fence) hash error (hwFenceGetClientDataId w) w

def withData (fence : Fin m) (contents : ClientDataId → U64) (d : DriverData m) : DriverData m :=
  d.onSlot fence fun f => {f with clientData := contents}

def messagesTo (fence : Fin m) (hash : Nat) (error : U32) (w : Nat) (d : DriverData m) : List Signal :=
  (messages fence hash error d).filter fun s => s.clientId = w

def Isolated (d : DriverData m) (fence : Fin m) : Prop :=
  ∀ w contents id v hash error, hwFenceGetClientDataId w ≠ some id →
    messagesTo fence hash error w (withData fence (Function.update contents id v) d) =
      messagesTo fence hash error w (withData fence contents d)

/-- Before a client without a data id the last waiter that has one has no data. -/
def NoneBefore (d : DriverData m) (fence : Fin m) : Prop :=
  ∀ w ∈ waitingClients d (d.tbl fence), hwFenceGetClientDataId w = none →
    ∀ id, latest (d.tbl fence) w = some id → (d.tbl fence).clientData id = 0

def DataLast (d : DriverData m) (fence : Fin m) : Prop :=
  ∀ w ∈ waitingClients d (d.tbl fence), hwFenceGetClientDataId w = none →
    latest (d.tbl fence) w = none

theorem waitsOf (mem : w ∈ waitingClients d f) : f.waitClientMask &&& bit w ≠ 0 := by
  have kept := (List.mem_filter.mp mem).2
  simp only [Bool.decide_and,Bool.and_eq_true,decide_eq_true_eq] at kept
  exact kept.1

theorem sendsOwnDataIff : SendsOwnData d fence ↔ NoneBefore d fence := by
  constructor
  · intro own w mem none id last
    have same := own 0 0
    rw [messagesSent] at same
    have each := List.map_inj_left.mp same w mem
    have data := congrArg Signal.clientData each
    simp only [sent,none,last] at data
    exact data
  · intro clear hash error
    rw [messagesSent]
    refine List.map_congr_left fun w mem => ?_
    cases own : hwFenceGetClientDataId w with
    | some id => rw [latestOwn (waitsOf mem) own]
    | none =>
      cases last : latest (d.tbl fence) w with
      | none => rfl
      | some id => rw [sent,sent,entry,Option.elim_some,clear w mem own id last]; rfl

theorem messagesToSent (hash : Nat) (error : U32) (contents : ClientDataId → U64) :
    messagesTo fence hash error w (withData fence contents d) =
      ((waitingClients d (d.tbl fence)).filter (· = w)).map fun w =>
        {told (d.tbl fence) hash error w with
          clientData := (latest (d.tbl fence) w).elim 0 contents} := by
  rw [messagesTo,messagesSent,List.filter_map]
  simp only [withData,DriverData.onSlotSame]
  exact rfl

theorem isolatedIff : Isolated d fence ↔ DataLast d fence := by
  constructor
  · intro isolated w mem none
    by_contra some
    obtain ⟨id,last⟩ := Option.ne_none_iff_exists'.mp some
    have same := isolated w (fun _ => 0) id 1 0 0 (by rw [none]; simp)
    rw [messagesToSent,messagesToSent] at same
    have kept : w ∈ (waitingClients d (d.tbl fence)).filter (· = w) := List.mem_filter.mpr ⟨mem,by simp⟩
    have data := congrArg Signal.clientData (List.map_inj_left.mp same w kept)
    simp [last] at data
  · intro last w contents id v hash error other
    rw [messagesToSent,messagesToSent]
    refine List.map_congr_left fun u kept => ?_
    obtain ⟨mem,same⟩ := List.mem_filter.mp kept
    have same : u = w := by simpa using same
    subst same
    cases own : hwFenceGetClientDataId u with
    | none => rw [last u mem own]; rfl
    | some k =>
      have ne : k ≠ id := fun same => other (by rw [own,same])
      rw [latestOwn (waitsOf mem) own,Option.elim_some,Option.elim_some,Function.update_of_ne ne]

theorem ownDataIff (d : DriverData m) (fence : Fin m) :
    (SendsOwnData d fence ↔ NoneBefore d fence) ∧ (Isolated d fence ↔ DataLast d fence) :=
  ⟨sendsOwnDataIff,isolatedIff⟩

def sharedWait : DriverData 1 :=
  {DriverData.unused 1 oneEntry with
    entries := oneEntry
    tbl := fun _ => {HwFence.zeroed with
      valid := true
      ctxId := 1
      seqId := 1
      fenceAllocator := 3
      waitClientMask := bit 1 ||| bit 2
      clientData := fun id => if id = .ctx0 then 7 else 0}
    rxqClientsNum := 16
    clients := fun id => if known : 0 < id ∧ id < hwFenceClientMax then some (.plain id known) else none
    ownId := by
      intro id c registered
      split at registered
      · cases Option.some.inj registered
        rfl
      · cases registered}

theorem laterWaiterLeaks : ¬ SendsOwnData sharedWait 0 ∧ ¬ Isolated sharedWait 0 := by
  have mem : 2 ∈ waitingClients sharedWait (sharedWait.tbl 0) := by decide
  rw [sendsOwnDataIff,isolatedIff]
  exact ⟨fun clear => absurd (clear 2 mem rfl .ctx0 (by decide)) (by decide),
    fun last => absurd (last 2 mem rfl) (by decide)⟩

end Waiters

section Complete
variable {m : Nat} {d d' : DriverData m} {client : HwFenceClient} {join : Fin m}

inductive Wait where
  | fence (fence : DmaFence)
  | array (array : DmaFenceArray)

def Wait.prog (client : HwFenceClient) (clientData : U64) : Wait → Driver m (Status × Option Nat)
  | .fence f => hwFenceProcessFence client f clientData
  | .array a => hwFenceProcessFenceArray client a clientData

def Wait.queues (clientData : U64) : Wait → U64 × U32
  | .fence _ => (clientData,0)
  -- `client_data` stands where the error is expected
  | .array _ => (0,clientData.setWidth 32)

def FoundSignaled (client : HwFenceClient) (fence : DmaFence) (d : DriverData m) : Prop :=
  fence.hwFenceEnabled = true ∧ ∃ i, ((msmHwFenceFind (some client) fence.context fence.seqno).run
    d).1.1 = some i ∧ (d.tbl i).signaled = true

/-- The wait finds its target complete: a signalled fence, or children that are all signalled,
at least one of them, once the join fence has its slot. -/
def FindsComplete (client : HwFenceClient) (d : DriverData m) : Wait → Prop
  | .fence fence => FoundSignaled client fence d
  | .array array => array.numFences ≠ 0 ∧ ∃ join,
    ((hwFenceProcessJoinFence array 0 true).run d).1.1 = some join ∧ ∀ child ∈ array.children,
      child.isArray = false ∧
        FoundSignaled client child ((hwFenceProcessJoinFence array 0 true).run d).2

theorem findSame (client : Option HwFenceClient) (context seqno : U64)
    (keys : ∀ x, (d'.tbl x).key = (d.tbl x).key) :
    ((msmHwFenceFind client context seqno).run d').1 = ((msmHwFenceFind client context seqno).run d).1 := by
  have probes : ∀ x, probed .findFence context seqno (d'.tbl x) =
      probed .findFence context seqno (d.tbl x) := by
    intro x
    have own : ∀ f, hwFenceMatch f context seqno = decide (f.key = (context,seqno)) := by
      intro f
      rw [Bool.eq_iff_iff,matchKey,decide_eq_true_iff]
    simp only [probed,LookupOp.compareFnc,LookupOp.creates,own,keys x]
    simp
  unfold msmHwFenceFind
  rw [lookupScan,scanRun,scanRun]
  simp only [probes]
  split
  · rfl
  · split <;> rfl

theorem FoundSignaled.same {fence : DmaFence} (found : FoundSignaled client fence d)
    (keys : ∀ x, (d'.tbl x).key = (d.tbl x).key)
    (flags : ∀ x, (d'.tbl x).signaled = (d.tbl x).signaled) : FoundSignaled client fence d' := by
  obtain ⟨enabled,i,slot,signaled⟩ := found
  refine ⟨enabled,i,?_,by rw [flags,signaled]⟩
  rw [findSame (some client) _ _ keys,slot]

theorem onSlotSame (d : DriverData m) (i : Fin m) {g : HwFence → HwFence}
    (kept : ∀ f, (g f).key = f.key ∧ (g f).signaled = f.signaled) (x : Fin m) :
    ((d.onSlot i g).tbl x).key = (d.tbl x).key ∧ ((d.onSlot i g).tbl x).signaled = (d.tbl x).signaled := by
  by_cases xi : x = i
  · subst xi
    rw [DriverData.onSlotSame]
    exact kept _
  · rw [DriverData.onSlotOther d _ xi]
    exact ⟨rfl,rfl⟩

theorem childrenComplete (join : Fin m) (hash : Nat) {children : List DmaFence} (i : Nat) (signal : Bool)
    (pending : (d.tbl join).pendingChildCnt.toNat = children.length)
    (found : ∀ child ∈ children, child.isArray = false ∧ FoundSignaled client child d) :
    ((processChildren client join hash children i signal).run d).1 =
      .ok (signal || decide (children ≠ [])) := by
  induction children generalizing d i signal with
  | nil => simp [processChildren]
  | cons child rest ih =>
    obtain ⟨plain,enabled,c,slot,signaled⟩ := found child (by simp)
    have kept := findKeeps (d := d) (some client) child.context child.seqno
    generalize ran : (msmHwFenceFind (some client) child.context child.seqno).run d = r at slot kept
    obtain ⟨⟨slot',hash'⟩,d'⟩ := r
    dsimp only at slot kept
    subst slot
    subst kept
    have one : (1 : U32).toNat = 1 := rfl
    generalize counts : d'.onSlot join (fun f => {f with pendingChildCnt := (d'.tbl join).pendingChildCnt-1}) = d₁
    have same := onSlotSame d' join
      (g := fun f => {f with pendingChildCnt := (d'.tbl join).pendingChildCnt-1}) fun f => ⟨rfl,rfl⟩
    rw [counts] at same
    have fewer : ((d'.tbl join).pendingChildCnt-1).toNat = rest.length := by
      rw [List.length_cons] at pending
      rw [BitVec.toNat_sub_of_le (by rw [BitVec.le_def,one]; omega),one]
      omega
    have next : (d₁.tbl join).pendingChildCnt.toNat = rest.length := by
      rw [← counts,DriverData.onSlotSame]
      exact fewer
    have last : (d'.tbl join).pendingChildCnt-1 = 0 ↔ rest = [] := by
      rw [← BitVec.toNat_inj,fewer,← List.length_eq_zero_iff]
      rfl
    have later := ih (i+1) (signal || decide ((d'.tbl join).pendingChildCnt-1 = 0)) next
      fun child mem => ⟨(found child (by simp [mem])).1,(found child (by simp [mem])).2.same
        (fun x => (same x).1) fun x => (same x).2⟩
    simp only [processChildren,plain,enabled,emit,runBind,runAtomic,processChild]
    simp only [Bool.false_eq_true,not_true_eq_false,or_self,if_false,runBind,ran,runAtomic,id_eq,
      signaled,if_true,counts]
    rw [later]
    simp only [last]
    by_cases ended : rest = [] <;> simp [ended]

theorem arrayComplete {array : DmaFenceArray} (complete : FindsComplete client d (.array array)) :
    ∃ join hash d', arrayFinds client array d = some (join,hash,.ok true,d') := by
  obtain ⟨some,join,slot,found⟩ := complete
  generalize ran : (hwFenceProcessJoinFence array 0 true).run d = r at slot found
  obtain ⟨⟨slot',hash⟩,d₁⟩ := r
  dsimp only at slot found
  subst slot
  have reserved := ran
  simp only [hwFenceProcessJoinFence,if_true] at reserved
  obtain ⟨-,-,-,rfl⟩ := lookupSome reserved
  have same := onSlotSame (d.onSlot join (LookupOp.processFnc .createJoin d.qtime
    hwFenceJoinFenceClientId array.context array.seqno array.numFences)) join
    (g := waitOnJoin client.clientId) fun f => ⟨rfl,rfl⟩
  have length : array.children ≠ [] := by
    intro none
    have zero := array.childrenLength
    rw [none,List.length_nil] at zero
    exact some (BitVec.eq_of_toNat_eq zero.symm)
  have ended := childrenComplete join hash 0 false (by
    rw [DriverData.onSlotSame,DriverData.onSlotSame,array.childrenLength]
    rfl) fun child mem => ⟨(found child mem).1,(found child mem).2.same (fun x => (same x).1)
      fun x => (same x).2⟩
  simp only [arrayFinds,ran,Option.map_some]
  refine ⟨join,hash,_,congrArg Option.some (congrArg (join,hash,·) (Prod.ext ?_ rfl))⟩
  rw [ended]
  simp [length]

def RoundTrip (client : HwFenceClient) (clientData : U64) (wait : Wait) (n : Nat)
    (xs : List Payload) (d : DriverData m) : Prop :=
  ∃ p, Queued client (hwFenceRxQueue-1) n ((wait.prog client clientData).run d).2 (xs ++ [p]) ∧
    p.clientData = clientData ∧ p.error = 0

theorem completeQueues {wait : Wait} {clientData : U64} (data : acceptsData client clientData)
    (updateRxq : client.updateRxq = true) (complete : FindsComplete client d wait) :
    ∃ p : Payload, ((wait.prog client clientData).run d).2.queue =
        ((updatePayload client p (hwFenceRxQueue-1)).run d).2.queue ∧
      (p.clientData,p.error) = wait.queues clientData := by
  have whole : ∀ p : Driver m (Status × Option Nat), ((Prod.fst <$> p).run d).2 = (p.run d).2 := by
    intro p
    rw [mapBind,runBind,runRet]
  cases wait with
  | fence f =>
    obtain ⟨enabled,i,slot,signaled⟩ := complete
    have found : ((msmHwFenceFind (some client) f.context f.seqno).run d).1 = (some i,_) :=
      Prod.ext slot rfl
    obtain ⟨-,queue⟩ := waitQueues (some f) data updateRxq found signaled
    refine ⟨_,Eq.trans ?_ queue,rfl⟩
    rw [QueueingCall.prog,whole,Wait.prog,hwFenceProcessFence,if_neg (by simp [enabled])]
  | array a =>
    obtain ⟨join,hash,d',finds⟩ := arrayComplete complete
    obtain ⟨-,queue⟩ := arrayQueues data updateRxq finds
    refine ⟨_,Eq.trans ?_ queue,rfl⟩
    rw [QueueingCall.prog,whole,Wait.prog]

theorem roundTripIff {wait : Wait} {clientData : U64} {n : Nat} {xs : List Payload}
    (dataId : (hwFenceGetClientDataId client.clientId).isSome = true)
    (updateRxq : client.updateRxq = true) (complete : FindsComplete client d wait)
    (queued : Queued client (hwFenceRxQueue-1) n d xs) (ready : Ready d client (hwFenceRxQueue-1))
    (room : xs.length < n-1) :
    RoundTrip client clientData wait n xs d ↔ ∀ array, wait = .array array → clientData = 0 := by
  have data : acceptsData client clientData := by
    rintro ⟨-,none⟩
    rw [Option.isNone_iff_eq_none] at none
    rw [none] at dataId
    cases dataId
  obtain ⟨p,queue,carries⟩ := completeQueues data updateRxq complete
  have longer := updateAppends queued ready room (congrFun (congrFun queue _) _)
  constructor
  · rintro ⟨p',queued',own,none⟩ array rfl
    have same : p' = p := by simpa using queued'.same longer
    subst same
    rw [← own]
    exact congrArg Prod.fst carries
  · intro zero
    refine ⟨p,longer,?_⟩
    cases wait with
    | fence f => exact ⟨congrArg Prod.fst carries,congrArg Prod.snd carries⟩
    | array a =>
      have none := zero a rfl
      subst none
      exact ⟨congrArg Prod.fst carries,congrArg Prod.snd carries⟩

def rxClient : HwFenceClient := {txClient with updateRxq := true}

def signaledFence : DriverData 2 :=
  {DriverData.unused 2 twoEntries with
    entries := twoEntries
    tbl := fun i => if i = 0 then {HwFence.zeroed with valid := true, ctxId := 1, seqId := 1, flags := 1}
      else .zeroed
    queuesNum := fun _ => 2
    clientLockTblCnt := 1}

theorem emptyRx : Queued rxClient 1 2 signaledFence [] := by
  refine ⟨by decide,⟨0,0,rfl,rfl,?_⟩⟩
  exact Ring.Holds.fresh (by decide) _

theorem fenceRoundTrip : RoundTrip rxClient 7 (.fence ⟨1,1,false,true⟩) 2 [] signaledFence := by
  have complete : FindsComplete rxClient signaledFence (.fence ⟨1,1,false,true⟩) :=
    ⟨rfl,0,by decide,by decide⟩
  exact (roundTripIff (by decide) rfl complete emptyRx ⟨by decide,rfl,by decide⟩ (by decide)).mpr nofun

theorem arrayDropsData : FindsComplete rxClient signaledFence (.array JoinAccounting.oneChild) ∧
    ¬ RoundTrip rxClient 7 (.array JoinAccounting.oneChild) 2 [] signaledFence := by
  have complete : FindsComplete rxClient signaledFence (.array JoinAccounting.oneChild) := by
    refine ⟨by decide,1,by decide,fun child mem => ?_⟩
    have only : child = ⟨1,1,false,true⟩ := by
      simpa [DmaFenceArray.children,JoinAccounting.oneChild,DmaFenceArray.child] using mem
    subst only
    exact ⟨rfl,rfl,0,by decide,by decide⟩
  refine ⟨complete,fun trip => ?_⟩
  obtain ⟨p,longer,own,-⟩ := trip
  obtain ⟨p',queue,carries⟩ := @completeQueues _ _ _ _ 7 (by unfold acceptsData; decide) rfl complete
  have queued := updateAppends emptyRx ⟨by decide,rfl,by decide⟩ (by decide)
    (congrFun (congrFun queue _) _)
  have same : p = p' := by simpa using longer.same queued
  subst same
  have none : p.clientData = 0 := congrArg Prod.fst carries
  rw [own] at none
  exact absurd none (by decide)

end Complete
end MmDrivers.ClientData

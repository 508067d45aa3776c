import MmDrivers.JoinWaits

/-! One fence-array call against the controller and the clock. -/
namespace MmDrivers.ArrayWakeups
open Sections Sections.Prog Interleaving Interleaving.Rules Runs FenceTypes FenceLookup FenceTable
open FenceSignal JoinFence JoinRun JoinAccounting DriverRuns Parties Wakeups JoinWaits

section Alone
variable {m : Nat} {ι : Type}

inductive ControllerMove (d : DriverData m) : List Event → DriverData m → Prop where
  | signals (i : Fin m) : ControllerMove d (controllerSignals i d).2 (controllerSignals i d).1
  | clock (qtime : U64) : ControllerMove d [] {d with qtime := qtime}

/-- One call against the controller, whose steps are `fair`. -/
def alone (call : ι) (fair : World ι Event (DriverData m) → List Event → Prop) :
    Rules ι Event (DriverData m) where
  allow t world events := t ≠ call → fair world events
  move t world events s := t ≠ call → fair world events ∧ ControllerMove world.shared events s

variable {call : ι} {fair : World ι Event (DriverData m) → List Event → Prop}
  {P : World ι Event (DriverData m) → Prop} {α : Type}
  {Q : α → World ι Event (DriverData m) → Prop}

theorem aloneStable (keeps : ∀ world t events s, t ≠ call → fair world events →
    ControllerMove world.shared events s → P world → P (world.act t events s)) :
    (alone call fair).Stable call P :=
  fun world t events s ne move => keeps world t events s ne (move ne).1 (move ne).2

theorem liveStable (key : Key) (c : Fin m) :
    (alone call fair).Stable call fun world => world.shared.live key c := by
  refine aloneStable fun world t events s _ _ move held => ?_
  cases move with
  | signals i => exact ((controllerCounted i world.shared).live key c).mpr held
  | clock qtime => exact held

theorem ownAtomic {upd : DriverData m → DriverData m} {ev : DriverData m → List Event}
    {read : DriverData m → α} (stable : (alone call fair).Stable call P)
    (stable' : ∀ a, (alone call fair).Stable call (Q a))
    (step : ∀ world, P world → Q (read world.shared)
      (world.act call (ev world.shared) (upd world.shared))) :
    (alone call fair).Triple call P (atomic upd ev read) Q :=
  tripleAtomic stable stable' fun world holds _ => ⟨fun ne => absurd rfl ne,step world holds⟩

structure Stage (call : ι) (fair : World ι Event (DriverData m) → List Event → Prop) (id : Nat)
    (key : Key) (P : World ι Event (DriverData m) → Prop) : Prop where
  stable : (alone call fair).Stable call P
  idle : ∀ world events s, s.tbl = world.shared.tbl → wakeups id key events = 0 → P world →
    P (world.act call events s)

def Idle (id : Nat) (key : Key) (upd : DriverData m → DriverData m)
    (ev : DriverData m → List Event) : Prop :=
  ∀ d, (upd d).tbl = d.tbl ∧ wakeups id key (ev d) = 0

theorem idleEmit (id : Nat) (key : Key) {events : List Event} (silent : signals events = []) :
    (emit (m := m) fun _ => events).Each (Idle id key) :=
  eachAtomic fun _ => ⟨rfl,wakeupsSilent silent⟩

theorem idleQuiet (id : Nat) (key : Key) {p : Driver m α} (quiet : p.Each Quiet) :
    p.Each (Idle id key) := by
  refine eachMono (fun _ _ quiet d => ⟨by rw [quiet.1 d],wakeupsSilent ?_⟩) quiet
  simp only [signals,List.filterMap_eq_nil_iff]
  intro e mem
  simpa [signals] using (quiet.2 d e mem).1

theorem idleFind (id : Nat) (key : Key) (client : Option HwFenceClient) (context seqno : U64) :
    (msmHwFenceFind (m := m) client context seqno).Each (Idle id key) := by
  refine lookupEach fun i => eachAtomic fun d => ?_
  cases probed .findFence context seqno (d.tbl i) with
  | processed => exact ⟨by simp [LookupOp.processFnc],rfl⟩
  | duplicate | missed => exact ⟨rfl,rfl⟩

variable {id : Nat} {key : Key}

theorem Stage.each {p : Driver m α} (stage : Stage call fair id key P) (idle : p.Each (Idle id key)) :
    (alone call fair).Triple call P p fun _ => P :=
  tripleEach stage.stable (eachMono (fun _ _ idle world holds _ =>
    ⟨fun ne => absurd rfl ne,stage.idle world _ _ (idle _).1 (idle _).2 holds⟩) idle)

theorem Stage.ended (stage : Stage call fair id key P) {a : α} (post : ∀ world, P world → Q a world) :
    (alone call fair).Triple call P (pure a) Q := triplePure stage.stable post

theorem Stage.find (stage : Stage call fair id key P) (client : Option HwFenceClient) (wanted : Key)
    (context : wanted.1 ≠ 0) (tidy : ∀ world, P world → Tidy world.shared) :
    (alone call fair).Triple call P (msmHwFenceFind client wanted.1 wanted.2)
      fun r world => P world ∧ ∀ c, r.1 = some c → world.shared.live wanted c := by
  have live : ∀ slot : Option (Fin m), (alone call fair).Stable call
      fun world => ∀ c, slot = some c → world.shared.live wanted c :=
    fun slot world t events s ne move held c here =>
      liveStable wanted c world t events s ne move (held c here)
  refine lookupTriple stage.stable (fun r => stage.stable.and (live r.1))
    (fun i world holds hit _ => ⟨fun ne => absurd rfl ne,?_,fun c here => ?_⟩)
    (fun i world holds => ⟨fun ne => absurd rfl ne,stage.idle world _ _ rfl rfl holds⟩)
    (fun hash world holds => ⟨holds,fun c none => by cases none⟩)
  · exact stage.idle world _ _ (by simp [LookupOp.processFnc]) rfl holds
  · cases Option.some.inj here
    have held := (tidy world holds).carried context ((matchesProcessed rfl).mp hit)
    simpa [LookupOp.processFnc] using held

theorem Stage.signal {P' : World ι Event (DriverData m) → Prop} {client : HwFenceClient} {i : Fin m}
    (stage : Stage call fair client.clientId key P) (stage' : Stage call fair client.clientId key P')
    (own : ∀ world, P world → (world.shared.tbl i).key = key)
    (tells : ∀ world events, P world → wakeups client.clientId key events = 1 →
      P' (world.act call events world.shared))
    (hash : Nat) (flags clientData : U64) (error : U32) :
    (alone call fair).Triple call P (fenceCtlSignal client i hash flags clientData error)
      fun _ => P' := by
  have always : ∀ c : Prop, (alone (m := m) call fair).Stable call fun _ => c :=
    fun _ _ _ _ _ _ _ holds => holds
  unfold fenceCtlSignal
  refine tripleBind (Q := fun context world => P world ∧ context = key.1)
    (ownAtomic stage.stable (fun _ => stage.stable.and (always _)) fun world holds =>
      ⟨stage.idle world _ _ rfl rfl holds,congrArg Prod.fst (own world holds)⟩) fun context => ?_
  refine tripleBind (Q := fun seqno world => P world ∧ (context,seqno) = key)
    (ownAtomic (stage.stable.and (always _)) (fun _ => stage.stable.and (always _))
      fun world ⟨holds,here⟩ => ⟨stage.idle world _ _ rfl rfl holds,?_⟩) fun seqno => ?_
  · have second : (world.shared.tbl i).seqId = key.2 := congrArg Prod.snd (own world holds)
    exact Prod.ext here second
  · refine tripleBind (Q := fun _ => P') (ownAtomic (stage.stable.and (always _))
      (fun _ => stage'.stable) fun world ⟨holds,here⟩ => tells world _ holds ?_) fun _ =>
      stage'.each (idleQuiet _ _ (quietDeliver ..))
    simp [wakeups,signals,here]

theorem othersSound {party : Party m} (other : ∀ op, party ≠ .call op) {t : ι} (ne : t ≠ call) :
    (alone call fair).Triple t (fun _ => True) party.prog fun _ _ => True := by
  have always : (alone call fair).Stable t fun _ => True := fun _ _ _ _ _ _ _ => trivial
  cases party with
  | call op => exact absurd rfl (other op)
  | clock qtime =>
    exact tripleAtomic always (fun _ => always) fun world _ allowed =>
      ⟨fun _ => ⟨allowed ne,.clock qtime⟩,trivial⟩
  | controller i =>
    exact tripleAtomic always (fun _ => always) fun world _ allowed =>
      ⟨fun _ => ⟨allowed ne,.signals i⟩,trivial⟩

end Alone

section Stages
variable {m : Nat} {ι : Type} {call : ι} {fair : World ι Event (DriverData m) → List Event → Prop}
  {id : Nat} {array : DmaFenceArray} {join : Fin m} {left : Nat} {flag : Bool} {told : Nat}
  {data : ClientDataId → U64} {world : World ι Event (DriverData m)}

structure Fresh (id : Nat) (array : DmaFenceArray) (world : World ι Event (DriverData m)) : Prop where
  ready : Ready world.shared
  fresh : ∀ x, ¬ world.shared.live (arrayKey array) x
  plain : ∀ child ∈ array.children, ∀ x, world.shared.live (waitsFor child) x →
    ¬ isJoin world.shared x
  woken : woken id (arrayKey array) world = 0

/-- The client waits on the join fence, and has been signalled for it once it is complete. -/
structure Waiting (id : Nat) (array : DmaFenceArray) (data : ClientDataId → U64) (join : Fin m)
    (left : Nat) (flag : Bool) (world : World ι Event (DriverData m)) : Prop where
  joined : Joined array join left flag world.shared
  waits : carries id (arrayKey array) (world.shared.tbl join) = true
  data : (world.shared.tbl join).clientData = data
  woken : woken id (arrayKey array) world = (world.shared.tbl join).signaled.toNat

structure Spent (id : Nat) (array : DmaFenceArray) (told : Nat) (join : Fin m)
    (world : World ι Event (DriverData m)) : Prop where
  joined : ∃ left flag, Joined array join left flag world.shared ∧
    (0 < left ∨ total world.shared join = 0)
  unsignaled : (world.shared.tbl join).signaled = false
  woken : woken id (arrayKey array) world = told

structure Muted (id : Nat) (array : DmaFenceArray) (told : Nat)
    (world : World ι Event (DriverData m)) : Prop where
  gone : ∀ x, (world.shared.tbl x).key ≠ arrayKey array
  woken : woken id (arrayKey array) world = told

theorem Muted.unwaited (muted : Muted id array told world) :
    Unwaited id (arrayKey array) world.shared := by
  intro x
  by_contra waits
  exact muted.gone x (carriesIff.mp (by simpa using waits)).1

theorem Fresh.muted (fresh : Fresh id array world) (context : array.context ≠ 0) :
    Muted id array 0 world :=
  ⟨fun x own => fresh.fresh x (fresh.ready.tidy.carried context own),fresh.woken⟩

theorem freshStage (small : id < 64) (context : array.context ≠ 0) :
    Stage call fair id (arrayKey array) (Fresh (m := m) id array) := by
  constructor
  · refine aloneStable fun world t events s _ _ move stage => ?_
    cases move with
    | signals i =>
      have counted := controllerCounted i world.shared
      refine ⟨stage.ready.counted counted,fun x held => stage.fresh x ((counted.live _ x).mp held),
        fun child mem x held joined => ?_,?_⟩
      · exact stage.plain child mem x ((counted.live _ x).mp held) ((counted.isJoin x).mp joined)
      · rw [wokenAct,stage.woken,controllerSilent small (stage.muted context).unwaited]
    | clock qtime =>
      obtain ⟨ready,fresh,plain,woken⟩ := stage
      exact ⟨readyAlike (fun _ => rfl) ready,fresh,plain,by rw [wokenAct,woken]; rfl⟩
  · intro world events s same silent stage
    obtain ⟨ready,fresh,plain,woken⟩ := stage
    refine ⟨readyAlike (fun x => ?_) ready,?_,?_,by rw [wokenAct,woken,silent]⟩
    · rw [World.actShared,same]
      exact rfl
    · simpa only [World.actShared,DriverData.live,same] using fresh
    · simpa only [World.actShared,DriverData.live,isJoin,same] using plain

theorem waitingStage (small : id < 64) (context : array.context ≠ 0) :
    Stage call fair id (arrayKey array) (Waiting (m := m) id array data join left flag) := by
  constructor
  · refine aloneStable fun world t events s _ _ move stage => ?_
    obtain ⟨joined,waits,data,woken⟩ := stage
    cases move with
    | signals i =>
      have stepped := controllerStep small joined.frame.ready (joined.frame.only context id)
        joined.balanced i
      refine ⟨joined.stepped stepped,?_,?_,?_⟩
      · rw [World.actShared,carriesCounted (stepped.counted.slots join),waits]
      · rw [World.actShared,stepped.counted.slots join]
        exact data
      · have kept := stepped.kept
        rw [wokenAct,woken,stepped.woken,waits,World.actShared]
        grind
    | clock qtime => exact ⟨joined.alike fun _ => rfl,waits,data,by rw [wokenAct,woken]; rfl⟩
  · intro world events s same silent stage
    obtain ⟨joined,waits,data,woken⟩ := stage
    refine ⟨joined.alike fun x => ?_,?_,?_,?_⟩
    · rw [World.actShared,same]
      exact rfl
    · rwa [World.actShared,same]
    · rwa [World.actShared,same]
    · rw [wokenAct,woken,silent,World.actShared,same,Nat.add_zero]

theorem spentStage (small : id < 64) (context : array.context ≠ 0) :
    Stage call fair id (arrayKey array) (Spent (m := m) id array told join) := by
  constructor
  · refine aloneStable fun world t events s _ _ move stage => ?_
    obtain ⟨⟨left,flag,joined,more⟩,unsignaled,woken⟩ := stage
    cases move with
    | signals i =>
      have stepped := controllerStep small joined.frame.ready (joined.frame.only context id)
        joined.balanced i
      have later := joined.stepped stepped
      obtain ⟨c,counted,fewer,crossed⟩ := stepped.drops
      have still : ((controllerSignals i world.shared).1.tbl join).signaled = false := by
        by_contra set
        have zero := (later.signaled (by simpa using set)).2.1
        rcases (crossed joined.frame.isJoin).mp (by simpa using set) with before | ⟨some,-⟩
        · simp [unsignaled] at before
        · have pending := later.pending
          omega
      refine ⟨⟨left,flag,later,?_⟩,still,?_⟩
      · rw [World.actShared]
        omega
      · rw [wokenAct,woken,stepped.woken,still]
        simp
    | clock qtime =>
      exact ⟨⟨left,flag,joined.alike fun _ => rfl,more⟩,unsignaled,by rw [wokenAct,woken]; rfl⟩
  · intro world events s same silent stage
    obtain ⟨⟨left,flag,joined,more⟩,unsignaled,woken⟩ := stage
    have alike : ∀ x, Alike (world.shared.tbl x) (s.tbl x) := by
      intro x
      rw [same]
      exact rfl
    refine ⟨⟨left,flag,joined.alike alike,?_⟩,?_,by rw [wokenAct,woken,silent]; rfl⟩
    · rwa [World.actShared,alikeTotal alike]
    · rwa [World.actShared,same]

theorem mutedStage (small : id < 64) :
    Stage call fair id (arrayKey array) (Muted (m := m) id array told) := by
  constructor
  · refine aloneStable fun world t events s _ _ move stage => ?_
    cases move with
    | signals i =>
      refine ⟨fun x => ?_,by rw [wokenAct,stage.woken,controllerSilent small stage.unwaited]; rfl⟩
      rw [World.actShared,(controllerCounted i world.shared).slots x]
      exact stage.gone x
    | clock qtime => exact ⟨stage.gone,by rw [wokenAct,stage.woken]; rfl⟩
  · intro world events s same silent stage
    refine ⟨fun x => ?_,by rw [wokenAct,stage.woken,silent]; rfl⟩
    rw [World.actShared,same]
    exact stage.gone x

end Stages

section Sections
variable {m : Nat} {ι : Type} {call : ι} {fair : World ι Event (DriverData m) → List Event → Prop}
  {client : HwFenceClient} {array : DmaFenceArray} {join : Fin m}
  {left : Nat} {flag : Bool} {told : Nat} {data : ClientDataId → U64}

structure Plain (client : HwFenceClient) (array : DmaFenceArray) : Prop where
  small : client.clientId < 64
  context : array.context ≠ 0
  contexts : ∀ child ∈ array.children, child.context ≠ 0
  others : ∀ child ∈ array.children, waitsFor child ≠ arrayKey array

structure Created (id : Nat) (array : DmaFenceArray) (join : Fin m)
    (world : World ι Event (DriverData m)) : Prop where
  joined : Joined array join array.numFences.toNat false world.shared
  none : total world.shared join = 0
  unwaited : Unwaited id (arrayKey array) world.shared
  data : (world.shared.tbl join).clientData = fun _ => 0
  unsignaled : (world.shared.tbl join).signaled = false
  woken : woken id (arrayKey array) world = 0

theorem createdStage (plain : Plain client array) :
    Stage call fair client.clientId (arrayKey array)
      (Created (m := m) client.clientId array join) := by
  constructor
  · refine aloneStable fun world t events s _ _ move stage => ?_
    obtain ⟨joined,none,unwaited,data,unsignaled,woken⟩ := stage
    cases move with
    | signals i =>
      have stepped := controllerStep plain.small joined.frame.ready
        (joined.frame.only plain.context client.clientId) joined.balanced i
      obtain ⟨c,counted,fewer,crossed⟩ := stepped.drops
      have same := crossed joined.frame.isJoin
      refine ⟨joined.stepped stepped,?_,unwaited.counted stepped.counted,?_,?_,?_⟩
      · rw [World.actShared]
        omega
      · rw [World.actShared,stepped.counted.slots join]
        exact data
      · rw [World.actShared]
        by_contra set
        rcases same.mp (by simpa using set) with before | ⟨more,-⟩
        · simp [unsignaled] at before
        · omega
      · rw [wokenAct,woken,controllerSilent plain.small unwaited]
    | clock qtime =>
      exact ⟨joined.alike fun _ => rfl,none,unwaited,data,unsignaled,by rw [wokenAct,woken]; rfl⟩
  · intro world events s same silent stage
    obtain ⟨joined,none,unwaited,data,unsignaled,woken⟩ := stage
    have alike : ∀ x, Alike (world.shared.tbl x) (s.tbl x) := by
      intro x
      rw [same]
      exact rfl
    refine ⟨joined.alike alike,?_,fun x => ?_,?_,?_,by rw [wokenAct,woken,silent]⟩
    · rwa [World.actShared,alikeTotal alike]
    · rw [World.actShared,same]
      exact unwaited x
    · rwa [World.actShared,same]
    · rwa [World.actShared,same]

theorem createTriple (plain : Plain client array) :
    (alone (m := m) call fair).Triple call (Fresh client.clientId array)
      (hwFenceProcessJoinFence array 0 true) fun r world => match r.1 with
        | none => Fresh client.clientId array world
        | some join => r.2 = join.val ∧ Created client.clientId array join world := by
  have stage := @freshStage m ι call fair client.clientId array plain.small plain.context
  refine lookupTriple stage.stable (fun r => ?_) (fun i world fresh hit _ => ⟨fun ne => absurd rfl ne,rfl,?_⟩)
    (fun i world fresh => ⟨fun ne => absurd rfl ne,stage.idle world _ _ rfl rfl fresh⟩)
    (fun hash world fresh => fresh)
  · obtain ⟨slot,hash⟩ := r
    cases slot with
    | none => exact stage.stable
    | some join =>
      intro world u events s ne move ⟨same,created⟩
      exact ⟨same,(createdStage plain).stable world u events s ne move created⟩
  · have free := (createsProcessed rfl).mp hit
    obtain ⟨ready,unused,noJoin,woken⟩ := fresh
    obtain ⟨joined,none⟩ := Joined.created (world.shared.onSlot i
      (reserveJoinFence world.shared.qtime hwFenceJoinFenceClientId array.context array.seqno
        array.numFences)) ready free unused plain.others noJoin rfl rfl rfl rfl rfl
      (unsignaledFlags rfl) rfl
    refine ⟨joined,none,fun x => ?_,?_,?_,by rw [wokenAct,woken]; rfl⟩
    · rw [World.actShared]
      by_cases xi : x = i
      · subst xi
        simp [LookupOp.processFnc,reserveJoinFence,cleanupHwFence,HwFence.zeroed,carries]
      · rw [DriverData.onSlotOther _ _ xi]
        exact (Fresh.muted ⟨ready,unused,noJoin,woken⟩ plain.context).unwaited x
    · rw [World.actShared,DriverData.onSlotSame]
      rfl
    · rw [World.actShared,DriverData.onSlotSame]
      exact unsignaledFlags rfl

theorem waitTriple (plain : Plain client array) :
    (alone (m := m) call fair).Triple call (Created client.clientId array join)
      (atomic (fun d => d.onSlot join (waitOnJoin client.clientId))
        (fun _ => [.lock join,.waitBit join client.clientId,.unlock join]) (fun _ => ()))
      fun _ => Waiting client.clientId array (fun _ => 0) join array.numFences.toNat false := by
  refine ownAtomic (createdStage plain).stable
    (fun _ => (waitingStage plain.small plain.context).stable) fun world created => ?_
  obtain ⟨joined,none,unwaited,data,unsignaled,woken⟩ := created
  have alike : ∀ x, Alike (world.shared.tbl x)
      ((world.shared.onSlot join (waitOnJoin client.clientId)).tbl x) := by
    intro x
    by_cases xj : x = join
    · subst xj
      rw [DriverData.onSlotSame]
      exact rfl
    · rw [DriverData.onSlotOther _ _ xj]
      exact rfl
  refine ⟨joined.alike alike,?_,?_,?_⟩
  · rw [World.actShared,DriverData.onSlotSame,carriesIff]
    refine ⟨joined.frame.held.2,fun none => ?_⟩
    have own := congrArg (BitVec.getLsbD · (client.clientId % 64)) none
    have inside : client.clientId % 64 < 64 := Nat.mod_lt _ (by omega)
    simp [waitOnJoin,bit,inside] at own
  · rwa [World.actShared,DriverData.onSlotSame]
  · rw [wokenAct,woken,World.actShared,DriverData.onSlotSame]
    exact (congrArg Bool.toNat unsignaled).symm

theorem Waiting.unflagged {world : World ι Event (DriverData m)}
    (waiting : Waiting client.clientId array data join (left+1) flag world) : flag = false := by
  by_contra closed
  have zero := waiting.joined.flagged (by simpa using closed)
  have pending := waiting.joined.pending
  omega

theorem Waiting.spent {world : World ι Event (DriverData m)}
    (waiting : Waiting client.clientId array data join (left+1) flag world) :
    Spent client.clientId array 0 join world := by
  have unsignaled : (world.shared.tbl join).signaled = false := by
    by_contra set
    have zero := (waiting.joined.signaled (by simpa using set)).2.1
    have pending := waiting.joined.pending
    omega
  refine ⟨⟨left+1,flag,waiting.joined,.inl (by omega)⟩,unsignaled,?_⟩
  rw [waiting.woken,unsignaled]
  rfl

theorem childTriple (plain : Plain client array) {child : DmaFence} (mem : child ∈ array.children)
    (c : Fin m) : (alone (m := m) call fair).Triple call
      (fun world => Waiting client.clientId array data join (left+1) false world ∧
        world.shared.live (waitsFor child) c)
      (processChild join c join.val) fun step world => match step with
        | .exceeded => Spent client.clientId array 0 join world
        | .signaled last => Waiting client.clientId array data join left last world
        | .linked => Waiting client.clientId array data join left false world := by
  have stage := @waitingStage m ι call fair client.clientId array join (left+1) false data
    plain.small plain.context
  refine ownAtomic (stage.stable.and (liveStable _ c)) (fun step => ?_) fun world ⟨waiting,held⟩ => ?_
  · cases step with
    | exceeded => exact (spentStage plain.small plain.context).stable
    | signaled last => exact (waitingStage plain.small plain.context).stable
    | linked => exact (waitingStage plain.small plain.context).stable
  have child : ∃ child ∈ array.children, world.shared.live (waitsFor child) c := ⟨child,mem,held⟩
  obtain ⟨joined,waits,data,woken⟩ := id waiting
  by_cases signaled : (world.shared.tbl c).signaled = true
  · simp only [signaled,if_true]
    obtain ⟨counted,unsignaled⟩ := joined.counts
    refine ⟨counted,?_,?_,?_⟩
    · rw [World.actShared,DriverData.onSlotSame]
      exact waits
    · rwa [World.actShared,DriverData.onSlotSame]
    · rw [wokenAct,woken,unsignaled,World.actShared,DriverData.onSlotSame]
      exact (congrArg Bool.toNat unsignaled).symm
  · have unsignaled : (world.shared.tbl c).signaled = false := by simpa using signaled
    simp only [unsignaled,Bool.false_eq_true,if_false]
    by_cases exceeded : parentsExceeded (world.shared.tbl c) = true
    · simp only [exceeded,if_true]
      have spent := @spentStage m ι call fair client.clientId array join 0 plain.small plain.context
      exact spent.idle world _ _ rfl rfl waiting.spent
    · have room : parentsExceeded (world.shared.tbl c) = false := by simpa using exceeded
      simp only [room,Bool.false_eq_true,if_false]
      have cj : join ≠ c := by
        intro same
        obtain ⟨fence,mem,held⟩ := child
        exact joined.frame.plain fence mem c held (same ▸ joined.frame.isJoin)
      have slot : (world.shared.onSlot c (linkParent join.val)).tbl join = world.shared.tbl join :=
        DriverData.onSlotOther _ _ cj
      refine ⟨joined.links child unsignaled room,?_,?_,?_⟩
      · rwa [World.actShared,slot]
      · rwa [World.actShared,slot]
      · rw [wokenAct,woken,World.actShared,slot]
        rfl

theorem childrenTriple (plain : Plain client array) {rest : List DmaFence}
    (within : ∀ child ∈ rest, child ∈ array.children) (i : Nat)
    (bound : i+rest.length = array.children.length) (flag : Bool) :
    (alone (m := m) call fair).Triple call
      (Waiting client.clientId array data join rest.length flag)
      (processChildren client join join.val rest i flag) fun ended world => match ended with
        | .ok flag => Waiting client.clientId array data join 0 flag world
        | .error i => i < array.children.length ∧ Spent client.clientId array 0 join world := by
  induction rest generalizing i flag with
  | nil => exact (waitingStage plain.small plain.context).ended fun world waiting => waiting
  | cons child rest ih =>
    have stage : ∀ flag, Stage call fair client.clientId (arrayKey array)
        (Waiting (m := m) client.clientId array data join (rest.length+1) flag) :=
      fun flag => waitingStage plain.small plain.context
    have mem := within child (List.mem_cons_self ..)
    have later := ih (fun child mem => within child (List.mem_cons_of_mem _ mem)) (i+1)
      (by rw [List.length_cons] at bound; omega)
    have inside : i < array.children.length := by
      rw [List.length_cons] at bound
      omega
    rw [List.length_cons]
    cases flag with
    | true => exact fun world waiting => absurd waiting.unflagged (by simp)
    | false =>
      unfold processChildren
      refine tripleBind ((stage false).each (idleEmit _ _ rfl)) fun _ =>
        tripleIte (fun _ => ?_) fun _ => ?_
      · exact (stage false).ended fun world waiting => ⟨inside,waiting.spent⟩
      · refine tripleBind ((stage false).find (some client) (waitsFor child)
          (plain.contexts child mem) fun world waiting => waiting.joined.frame.ready.tidy)
          fun found => ?_
        obtain ⟨slot,hash⟩ := found
        cases slot with
        | none =>
          exact tripleMono (fun world h => h.1) (fun _ _ => id)
            ((stage false).ended fun world waiting => ⟨inside,waiting.spent⟩)
        | some c =>
          have child := @childTriple m ι call fair client array join rest.length data plain child mem c
          refine tripleBind (tripleMono (fun world h => ⟨h.1,h.2 c rfl⟩) (fun _ _ => id) child)
            fun step => ?_
          cases step with
          | exceeded =>
            exact (spentStage plain.small plain.context).ended fun world spent => ⟨inside,spent⟩
          | signaled last => exact later last
          | linked => exact later false

theorem unlinkTriple (plain : Plain client array) {child : DmaFence} (mem : child ∈ array.children)
    (c : Fin m) : (alone (m := m) call fair).Triple call
      (fun world => Spent client.clientId array told join world ∧
        world.shared.live (waitsFor child) c)
      (unlinkChild join.val c) fun _ => Spent client.clientId array told join := by
  have stage := @spentStage m ι call fair client.clientId array join told plain.small plain.context
  refine ownAtomic (stage.stable.and (liveStable _ c)) (fun _ => stage.stable) fun world ⟨spent,held⟩ => ?_
  obtain ⟨⟨left,flag,joined,more⟩,unsignaled,woken⟩ := spent
  obtain ⟨k,fewer,less,slot⟩ := joined.unlinks ⟨child,mem,held⟩
  refine ⟨⟨left+k,flag,fewer,?_⟩,?_,?_⟩
  · rw [World.actShared]
    omega
  · rwa [World.actShared,slot]
  · rw [wokenAct,woken]
    rfl

theorem cleanupTriple (plain : Plain client array) {i : Nat} (inside : i ≤ array.children.length) :
    (alone (m := m) call fair).Triple call (Spent client.clientId array told join)
      (cleanupChildren client array join.val i) fun _ => Spent client.clientId array told join := by
  have stage := @spentStage m ι call fair client.clientId array join told plain.small plain.context
  induction i with
  | zero => exact stage.ended fun world spent => spent
  | succ i ih =>
    have below : i < array.children.length := by omega
    have child := array.childrenAt (i := i) (by rw [← array.childrenLength]; omega)
    rw [List.getElem?_eq_getElem below] at child
    have mem := List.getElem_mem below
    unfold cleanupChildren
    refine tripleBind (stage.each (idleEmit _ _ rfl)) fun _ => tripleBind ?_ fun _ => ih (by omega)
    rw [← child]
    refine tripleBind (stage.find (some client) (waitsFor _) (plain.contexts _ mem)
      fun world spent => ?_) fun found => ?_
    · obtain ⟨left,flag,joined,-⟩ := spent.joined
      exact joined.frame.ready.tidy
    · obtain ⟨slot,hash⟩ := found
      cases slot with
      | none => exact tripleMono (fun world h => h.1) (fun _ _ => id) (stage.ended fun _ spent => spent)
      | some c =>
        exact tripleMono (fun world h => ⟨h.1,h.2 c rfl⟩) (fun _ _ => id) (unlinkTriple plain mem c)

theorem emptyTriple (plain : Plain client array) (empty : array.children = []) (i : Nat) :
    (alone (m := m) call fair).Triple call (Spent client.clientId array told join)
      (cleanupChildren client array join.val i) fun _ => Spent client.clientId array told join := by
  have stage := @spentStage m ι call fair client.clientId array join told plain.small plain.context
  induction i with
  | zero => exact stage.ended fun world spent => spent
  | succ i ih =>
    unfold cleanupChildren
    refine tripleBind (stage.each (idleEmit _ _ rfl)) fun _ => tripleBind ?_ fun _ => ih
    cases array.child i with
    | none => exact stage.ended fun _ spent => spent
    | some child =>
      refine tripleBind (stage.each (idleFind ..)) fun found => ?_
      obtain ⟨slot,hash⟩ := found
      cases slot with
      | none => exact stage.ended fun _ spent => spent
      | some c =>
        refine ownAtomic stage.stable (fun _ => stage.stable) fun world spent => ?_
        obtain ⟨⟨left,flag,joined,more⟩,unsignaled,woken⟩ := spent
        obtain ⟨later,same,slot⟩ := joined.unlinksNothing empty c
        refine ⟨⟨left,flag,later,?_⟩,?_,?_⟩
        · rwa [World.actShared,same]
        · rwa [World.actShared,slot]
        · rw [wokenAct,woken]
          rfl

def Over (id : Nat) (array : DmaFenceArray) (told : Nat) (world : World ι Event (DriverData m)) :
    Prop :=
  Muted id array told world ∨ ∃ join, Spent id array told join world

theorem overStage (plain : Plain client array) :
    Stage call fair client.clientId (arrayKey array) (Over (m := m) client.clientId array told) := by
  have muted := @mutedStage m ι call fair client.clientId array told plain.small
  have spent := fun join => @spentStage m ι call fair client.clientId array join told plain.small
    plain.context
  constructor
  · intro world t events s ne move stage
    rcases stage with none | ⟨join,held⟩
    · exact .inl (muted.stable world t events s ne move none)
    · exact .inr ⟨join,(spent join).stable world t events s ne move held⟩
  · intro world events s same silent stage
    rcases stage with none | ⟨join,held⟩
    · exact .inl (muted.idle world events s same silent none)
    · exact .inr ⟨join,(spent join).idle world events s same silent held⟩

theorem destroyTriple (plain : Plain client array) (hash : Nat) :
    (alone (m := m) call fair).Triple call (Spent client.clientId array told join)
      (hwFenceProcessJoinFence array hash false) fun _ => Over client.clientId array told := by
  have stage := @spentStage m ι call fair client.clientId array join told plain.small plain.context
  have lapsed := @overStage m ι call fair client array told plain
  unfold hwFenceProcessJoinFence hwFenceCleanup
  simp only [Bool.false_eq_true,if_false]
  refine tripleBind (tripleBind (Q := fun _ => Over client.clientId array told)
    (lookupTriple stage.stable (fun _ => lapsed.stable)
    (fun i world spent hit _ => ⟨fun ne => absurd rfl ne,.inl ⟨fun x => ?_,?_⟩⟩)
    (fun i world spent => ⟨fun ne => absurd rfl ne,stage.idle world _ _ rfl rfl spent⟩)
    (fun hash world spent => .inr ⟨join,spent⟩)) fun (fence,_) => ?_) fun _ => lapsed.ended fun _ h => h
  · obtain ⟨⟨left,flag,joined,-⟩,-,-⟩ := spent
    have own : (world.shared.tbl i).key = arrayKey array := (matchesProcessed rfl).mp hit
    have held := joined.frame.ready.tidy.carried plain.context own
    have ij := joined.frame.ready.tidy.distinct _ i join held joined.frame.held
    subst ij
    rw [World.actShared]
    by_cases xi : x = i
    · subst xi
      rw [DriverData.onSlotSame]
      exact fun same => plain.context (congrArg Prod.fst same).symm
    · rw [DriverData.onSlotOther _ _ xi]
      exact joined.frame.onlyKey plain.context xi
  · rw [wokenAct,spent.woken]
    rfl
  · cases fence <;> exact lapsed.ended fun _ h => h

def sentData (client : HwFenceClient) (clientData : U64) (id : ClientDataId) : U64 :=
  if hwFenceGetClientDataId client.clientId = some id then clientData else 0

theorem storeTriple (plain : Plain client array) (clientData : U64) :
    (alone (m := m) call fair).Triple call
      (Waiting client.clientId array (fun _ => 0) join left flag)
      (whenever (clientData ≠ 0)
        (atomic (fun d => d.onSlot join (setClientData client.clientId clientData)) (fun _ => [])
          (fun _ => ())))
      fun _ => Waiting client.clientId array (sentData client clientData) join left flag := by
  have stage : ∀ data, Stage call fair client.clientId (arrayKey array)
      (Waiting (m := m) client.clientId array data join left flag) :=
    fun data => waitingStage plain.small plain.context
  refine tripleIte (fun some => ?_) fun none => ?_
  · refine ownAtomic (stage _).stable (fun _ => (stage _).stable) fun world waiting => ?_
    obtain ⟨joined,waits,data,woken⟩ := waiting
    refine ⟨joined.alike fun x => ?_,?_,?_,?_⟩
    · rw [World.actShared]
      by_cases xj : x = join
      · subst xj
        rw [DriverData.onSlotSame]
        exact rfl
      · rw [DriverData.onSlotOther _ _ xj]
        exact rfl
    · rw [World.actShared,DriverData.onSlotSame]
      exact waits
    · rw [World.actShared,DriverData.onSlotSame]
      simp only [setClientData,data]
      rfl
    · rw [wokenAct,woken,World.actShared,DriverData.onSlotSame]
      rfl
  · have zero : clientData = 0 := by simpa using none
    have same : sentData client clientData = fun _ => 0 := by
      funext id
      simp [sentData,zero]
    rw [same]
    exact (stage _).ended fun world waiting => waiting

theorem Waiting.flaggedSpent {world : World ι Event (DriverData m)}
    (waiting : Waiting client.clientId array data join left true world) :
    Spent client.clientId array 0 join world := by
  obtain ⟨joined,waits,-,woken⟩ := waiting
  have unsignaled : (world.shared.tbl join).signaled = false := by
    by_contra set
    cases (joined.signaled (by simpa using set)).1
  have zero := joined.flagged rfl
  have pending := joined.pending
  refine ⟨⟨left,true,joined,.inr (by omega)⟩,unsignaled,?_⟩
  rw [woken,unsignaled]
  rfl

theorem signalTriple (plain : Plain client array) (hash : Nat) (flags clientData : U64) (error : U32) :
    (alone (m := m) call fair).Triple call (Spent client.clientId array 0 join)
      (fenceCtlSignal client join hash flags clientData error)
      fun _ => Spent client.clientId array 1 join := by
  have stage : ∀ told, Stage call fair client.clientId (arrayKey array)
      (Spent (m := m) client.clientId array told join) :=
    fun told => spentStage plain.small plain.context
  refine (stage 0).signal (stage 1) (fun world spent => ?_) (fun world events spent tells => ?_)
    hash flags clientData error
  · obtain ⟨left,flag,joined,-⟩ := spent.joined
    exact joined.frame.held.2
  · obtain ⟨joined,unsignaled,woken⟩ := spent
    exact ⟨joined,unsignaled,by rw [wokenAct,woken,tells]⟩

def Ended (client : HwFenceClient) (array : DmaFenceArray) (clientData : U64) (status : Status)
    (world : World ι Event (DriverData m)) : Prop :=
  match status with
  | .error _ => Over client.clientId array 0 world
  | .ok _ => Over client.clientId array 1 world ∨
    ∃ join, Waiting client.clientId array (sentData client clientData) join 0 false world

theorem endedStable (plain : Plain client array) (clientData : U64) (status : Status) :
    (alone (m := m) call fair).Stable call (Ended client array clientData status) := by
  cases status with
  | error e => exact (overStage plain).stable
  | ok _ =>
    intro world t events s ne move ended
    rcases ended with lapsed | ⟨join,waiting⟩
    · exact .inl ((overStage plain).stable world t events s ne move lapsed)
    · exact .inr ⟨join,(waitingStage plain.small plain.context).stable world t events s ne move waiting⟩

theorem Waiting.emptySpent {world : World ι Event (DriverData m)} (empty : array.numFences = 0)
    (waiting : Waiting client.clientId array data join 0 false world) :
    Spent client.clientId array 0 join world := by
  obtain ⟨joined,waits,-,woken⟩ := waiting
  have size : array.numFences.toNat = 0 := by rw [empty]; rfl
  have unsignaled : (world.shared.tbl join).signaled = false := by
    by_contra set
    have some := (joined.signaled (by simpa using set)).2.2
    omega
  refine ⟨⟨0,false,joined,.inr ?_⟩,unsignaled,by rw [woken,unsignaled]; rfl⟩
  by_contra more
  have some := joined.frame.someChild (by omega)
  omega

theorem finishTriple (plain : Plain client array) (clientData : U64) (ended : Except Nat Bool) :
    (alone (m := m) call fair).Triple call (fun world => match ended with
        | .ok flag => Waiting client.clientId array (fun _ => 0) join 0 flag world
        | .error i => i < array.children.length ∧ Spent client.clientId array 0 join world)
      (finishArray client array join join.val clientData ended)
      (Ended client array clientData) := by
  have spent := @spentStage m ι call fair client.clientId array join 0 plain.small plain.context
  have spent' := @spentStage m ι call fair client.clientId array join 1 plain.small plain.context
  have lapsed := fun told => @overStage m ι call fair client array told plain
  have last : (alone (m := m) call fair).Triple call (Over client.clientId array 0)
    (pure (.error .einval)) (Ended client array clientData) := (lapsed 0).ended fun _ h => h
  have cleaned : ∀ i, ((alone (m := m) call fair).Triple call (Spent client.clientId array 0 join)
      (cleanupChildren client array join.val (i+1)) fun _ => Spent client.clientId array 0 join) →
      (alone (m := m) call fair).Triple call (Spent client.clientId array 0 join)
        (cleanupJoinAndChildFences client i array join.val) fun _ => Over client.clientId array 0 := by
    intro i children
    refine tripleBind (Q := fun _ => Spent client.clientId array 0 join)
      (tripleIte (fun _ => children) fun _ => spent.ended fun _ h => h) fun _ => ?_
    exact tripleBind (destroyTriple plain join.val) fun _ =>
      (lapsed 0).ended (Q := fun _ => Over client.clientId array 0) fun _ h => h
  cases ended with
  | error i =>
    intro world ⟨inside,holds⟩
    exact tripleBind (cleaned i (cleanupTriple plain inside)) (fun _ => last) world holds
  | ok flag =>
    refine tripleBind (storeTriple plain clientData) fun _ => ?_
    cases flag with
    | true =>
      refine tripleMono (fun _ waiting => waiting.flaggedSpent) (fun _ _ => id)
        (tripleBind (signalTriple plain _ _ _ _) fun _ => tripleBind (spent'.each (idleEmit _ _ rfl))
          fun _ => tripleBind (destroyTriple plain join.val) fun _ => (lapsed 1).ended fun _ lapsed => .inl lapsed)
    | false =>
      simp only [Bool.false_eq_true,if_false]
      refine tripleIte (fun none => ?_) fun _ => ?_
      · have empty : array.children = [] := by
          refine List.eq_nil_of_length_eq_zero ?_
          rw [array.childrenLength,none]
          rfl
        exact tripleMono (fun _ waiting => waiting.emptySpent none) (fun _ _ => id)
          (tripleBind (cleaned 0 (emptyTriple plain empty _)) fun _ => last)
      · exact (waitingStage plain.small plain.context).ended fun world waiting => .inr ⟨join,waiting⟩

theorem arrayTriple (plain : Plain client array) (clientData : U64) :
    (alone (m := m) call fair).Triple call (Fresh client.clientId array)
      (Prod.fst <$> hwFenceProcessFenceArray client array clientData)
      (Ended client array clientData) := by
  have fresh := @freshStage m ι call fair client.clientId array plain.small plain.context
  have rejected : ∀ world, Fresh client.clientId array world →
      Ended (m := m) (ι := ι) client array clientData (.error .einval) world :=
    fun world fresh => .inl (fresh.muted plain.context)
  rw [mapBind]
  unfold hwFenceProcessFenceArray
  refine tripleBind (Q := fun r => Ended client array clientData r.1)
    (tripleIte (fun _ => fresh.ended rejected) fun _ => ?_)
    fun r => triplePure (endedStable plain clientData r.1) fun _ h => h
  refine tripleBind (createTriple plain) fun (slot,hash) => ?_
  cases slot with
  | none => exact fresh.ended rejected
  | some join =>
    intro world ⟨same,created⟩
    have same : hash = join.val := same
    subst same
    refine tripleBind (waitTriple plain) (fun _ => tripleBind ?_ fun ended =>
      tripleBind (finishTriple plain clientData ended) fun status => ?_) world created
    · rw [← array.childrenLength]
      exact childrenTriple plain (fun _ mem => mem) 0 (Nat.zero_add _) false
    · exact triplePure (endedStable plain clientData status) fun _ h => h

theorem arraySound (plain : Plain client array) (clientData : U64) {parties : ι → Party m}
    (calls : parties call = .call (.processFenceArray client array clientData))
    (others : ∀ t ≠ call, ∀ op, parties t ≠ .call op) {d : DriverData m} (ready : Ready d)
    (fresh : ∀ x, ¬ d.live (arrayKey array) x)
    (noJoins : ∀ child ∈ array.children, ∀ x, d.live (waitsFor child) x → ¬ isJoin d x) :
    (alone call fair).Sound (fun t status world => t = call →
      Ended client array clientData status world) (pool parties d) := by
  intro t
  by_cases same : t = call
  · subst same
    have own := @arrayTriple m ι t fair client array plain clientData (pool parties d).world
      ⟨ready,fresh,noJoins,rfl⟩
    simp only [pool,calls,Party.prog,DriverOp.call]
    exact meetsMono (fun _ _ ended _ => ended) own
  · exact meetsMono (fun _ _ _ here => absurd here same)
      (othersSound (others t same) same (pool parties d).world trivial)

end Sections
end MmDrivers.ArrayWakeups

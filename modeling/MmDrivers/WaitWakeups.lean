import MmDrivers.ArrayWakeups

/-! Wake-ups of a waiter: one registration against the controller and the clock,
and with it what a waiter is promised. The registration reads the signal flag
after it has released the lock under which it set the wait bit. -/
namespace MmDrivers.WaitWakeups
open Sections Sections.Prog Interleaving Interleaving.Rules Runs FenceTypes FenceLookup FenceTable
open FenceSignal JoinFence JoinRun JoinAccounting DriverRuns Parties Wakeups JoinWaits ArrayWakeups

section Stages
variable {m : Nat} {ι : Type} {call : ι} {id : Nat} {key : Key} {c : Fin m}

def unread (events : List Event) : Bool :=
  events.foldl (fun open_ e => match e with
    | .waitBit .. => true
    | .readFlags _ => false
    | _ => open_) false

/-- Nobody signals the client between the two. -/
def Unraced [DecidableEq ι] (call : ι) (id : Nat) (key : Key) (world : World ι Event (DriverData m))
    (events : List Event) : Prop :=
  unread (world.own call) = true → wakeups id key events = 0

instance [DecidableEq ι] (call : ι) (id : Nat) (key : Key) (world : World ι Event (DriverData m))
    (events : List Event) : Decidable (Unraced call id key world events) :=
  inferInstanceAs (Decidable (_ → _))

structure Seeking (id : Nat) (key : Key) (world : World ι Event (DriverData m)) : Prop where
  ready : Ready world.shared
  balanced : ∀ x, world.shared.live key x → Balanced world.shared x
  unwaited : Unwaited id key world.shared
  woken : woken id key world = 0

structure Marked (id : Nat) (key : Key) (c : Fin m) (d : DriverData m) : Prop where
  ready : Ready d
  held : d.live key c
  balanced : Balanced d c
  waits : carries id key (d.tbl c) = true

structure Unseen [DecidableEq ι] (call : ι) (id : Nat) (key : Key) (c : Fin m)
    (world : World ι Event (DriverData m)) : Prop where
  marked : Marked id key c world.shared
  unread : unread (world.own call) = true
  woken : woken id key world = 0

structure Seen (id : Nat) (key : Key) (c : Fin m) (owed : Nat)
    (world : World ι Event (DriverData m)) : Prop where
  marked : Marked id key c world.shared
  woken : woken id key world + owed = (world.shared.tbl c).signaled.toNat

theorem onlyHeld {d : DriverData m} (ready : Ready d) (context : key.1 ≠ 0) (held : d.live key c)
    (id : Nat) : OnlyAt id key c d := by
  intro x ne
  by_contra waits
  obtain ⟨own,-⟩ := carriesIff.mp (by simpa using waits)
  exact ne (ready.tidy.distinct _ x c (ready.tidy.carried context own) held)

theorem balancedSame {d d' : DriverData m} (same : d'.tbl = d.tbl) {x : Fin m}
    (balanced : Balanced d x) : Balanced d' x := by
  have total : total d' x = Wakeups.total d x :=
    alikeTotal fun y => by rw [same]; exact rfl
  rw [Wakeups.Balanced,total,same]
  exact balanced

theorem readySame {d d' : DriverData m} (same : d'.tbl = d.tbl) (ready : Ready d) : Ready d' :=
  readyAlike (fun x => by rw [same]; exact rfl) ready

variable {fair : World ι Event (DriverData m) → List Event → Prop}

theorem seekingStage (small : id < 64) :
    Stage call fair id key (Seeking (m := m) id key) := by
  constructor
  · refine aloneStable fun world t events s _ _ move stage => ?_
    obtain ⟨ready,balanced,unwaited,woken⟩ := stage
    cases move with
    | signals i =>
      have counted := controllerCounted i world.shared
      refine ⟨ready.counted counted,fun x held => ?_,unwaited.counted counted,?_⟩
      · have old := (counted.live key x).mp held
        exact (controllerStep small ready (fun y _ => unwaited y) (balanced x old) i).balanced
      · rw [wokenAct,woken,controllerSilent small unwaited]
    | clock qtime =>
      refine ⟨readyAlike (fun _ => rfl) ready,fun x held => ?_,unwaited,by rw [wokenAct,woken]; rfl⟩
      exact balancedSame rfl (balanced x held)
  · intro world events s same silent stage
    obtain ⟨ready,balanced,unwaited,woken⟩ := stage
    refine ⟨readySame same ready,fun x held => balancedSame same (balanced x ?_),fun x => ?_,
      by rw [wokenAct,woken,silent]⟩
    · rwa [World.actShared,DriverData.live,same] at held
    · rw [World.actShared,same]
      exact unwaited x

theorem Marked.same {d d' : DriverData m} (same : d'.tbl = d.tbl) (marked : Marked id key c d) :
    Marked id key c d' := by
  obtain ⟨ready,held,balanced,waits⟩ := marked
  refine ⟨readySame same ready,?_,balancedSame same balanced,?_⟩
  · rwa [DriverData.live,same]
  · rwa [same]

theorem Marked.stepped {d d' : DriverData m} {events : List Event} (context : key.1 ≠ 0)
    (marked : Marked id key c d) (small : id < 64) (move : ControllerMove d events d') :
    Marked id key c d' ∧ wakeups id key events + (d.tbl c).signaled.toNat =
      (d'.tbl c).signaled.toNat := by
  have kept := marked
  obtain ⟨ready,held,balanced,waits⟩ := kept
  cases move with
  | signals i =>
    have stepped := controllerStep small ready (onlyHeld ready context held id) balanced i
    refine ⟨⟨ready.counted stepped.counted,(stepped.counted.live key c).mpr held,stepped.balanced,?_⟩,?_⟩
    · rw [carriesCounted (stepped.counted.slots c),waits]
    · have kept := stepped.kept
      rw [stepped.woken,waits]
      grind
  | clock qtime =>
    have same : ({d with qtime := qtime} : DriverData m).tbl = d.tbl := rfl
    exact ⟨marked.same same,Nat.zero_add _⟩

theorem unseenStable [DecidableEq ι] (small : id < 64) (context : key.1 ≠ 0) :
    (alone call (Unraced (m := m) call id key)).Stable call (Unseen call id key c) := by
  refine aloneStable fun world t events s ne fair move ⟨marked,unread,woken⟩ => ?_
  have silent := fair unread
  refine ⟨(marked.stepped context small move).1,?_,by rw [wokenAct,woken,silent]⟩
  rwa [World.ownActOther world ne]

theorem seenStage (small : id < 64) (context : key.1 ≠ 0) (owed : Nat) :
    Stage call fair id key (Seen (m := m) id key c owed) := by
  constructor
  · refine aloneStable fun world t events s _ _ move ⟨marked,woken⟩ => ?_
    obtain ⟨later,told⟩ := marked.stepped context small move
    refine ⟨later,?_⟩
    rw [wokenAct,World.actShared]
    omega
  · intro world events s same silent ⟨marked,woken⟩
    refine ⟨marked.same same,?_⟩
    rw [wokenAct,silent,World.actShared,same]
    exact woken

end Stages

section Registration
variable {m : Nat} {ι : Type} [DecidableEq ι] {call : ι} {key : Key} {client : HwFenceClient}

theorem waitBitTriple (small : client.clientId < 64) (context : key.1 ≠ 0) (clientData : U64)
    (c : Fin m) : (alone call (Unraced call client.clientId key)).Triple call
      (fun world => Seeking client.clientId key world ∧ world.shared.live key c)
      (atomic (fun d => d.onSlot c (waitOn d.qtime client.clientId clientData))
        (fun _ => [.lock c,.waitBit c client.clientId,.unlock c]) (fun _ => ()))
      fun _ => Unseen call client.clientId key c := by
  have stage : Stage call (Unraced call client.clientId key) client.clientId key
      (Seeking (m := m) client.clientId key) := seekingStage small
  refine ownAtomic (stage.stable.and (liveStable key c)) (fun _ => unseenStable small context)
    fun world ⟨seeking,held⟩ => ?_
  obtain ⟨ready,balanced,unwaited,woken⟩ := seeking
  have alike : ∀ x, Alike (world.shared.tbl x)
      ((world.shared.onSlot c (waitOn world.shared.qtime client.clientId clientData)).tbl x) := by
    intro x
    by_cases xc : x = c
    · subst xc
      rw [DriverData.onSlotSame]
      exact rfl
    · rw [DriverData.onSlotOther _ _ xc]
      exact rfl
  refine ⟨⟨readyAlike alike ready,(alikeLive alike key c).mpr held,?_,?_⟩,?_,?_⟩
  · rw [World.actShared,Wakeups.Balanced,alikeTotal alike,DriverData.onSlotSame]
    exact balanced c held
  · rw [World.actShared,DriverData.onSlotSame,carriesIff]
    refine ⟨held.2,fun none => ?_⟩
    have own := congrArg (BitVec.getLsbD · (client.clientId % 64)) none
    have inside : client.clientId % 64 < 64 := Nat.mod_lt _ (by omega)
    simp [waitOn,bit,inside] at own
  · rw [World.ownActSelf,WaitWakeups.unread,List.foldl_append]
    rfl
  · rw [wokenAct,woken]
    rfl

theorem readTriple (small : client.clientId < 64) (context : key.1 ≠ 0) (c : Fin m) :
    (alone call (Unraced call client.clientId key)).Triple call (Unseen call client.clientId key c)
      (atomic id (fun _ => [.readFlags c]) (fun d => (d.tbl c).signaled))
      fun signaled => Seen client.clientId key c signaled.toNat := by
  refine ownAtomic (unseenStable small context) (fun owed => (seenStage small context _).stable)
    fun world unseen => ?_
  obtain ⟨marked,-,woken⟩ := unseen
  refine ⟨marked.same rfl,?_⟩
  rw [wokenAct,woken]
  exact Nat.zero_add _

theorem registerTriple (small : client.clientId < 64) (context : key.1 ≠ 0)
    (fence : Option DmaFence) (clientData : U64) :
    (alone (m := m) call (Unraced call client.clientId key)).Triple call
      (Seeking client.clientId key)
      (Prod.fst <$> hwFenceRegisterWaitClient fence client key.1 key.2 clientData)
      fun status world => status = .ok () → ∃ c, Seen client.clientId key c 0 world := by
  have seeking : Stage call (Unraced call client.clientId key) client.clientId key
      (Seeking (m := m) client.clientId key) := seekingStage small
  have seen : ∀ c owed, Stage call (Unraced call client.clientId key) client.clientId key
      (Seen (m := m) client.clientId key c owed) := fun c owed => seenStage small context owed
  have stable : ∀ status : Status, (alone call (Unraced call client.clientId key)).Stable call
      fun world => status = .ok () → ∃ c, Seen (m := m) client.clientId key c 0 world := by
    intro status world t events s ne move told done
    obtain ⟨c,held⟩ := told done
    exact ⟨c,(seen c 0).stable world t events s ne move held⟩
  rw [mapBind]
  unfold hwFenceRegisterWaitClient
  refine tripleBind (Q := fun r world => r.1 = .ok () → ∃ c, Seen client.clientId key c 0 world)
    (tripleIte (fun _ => seeking.ended (by simp)) fun _ => ?_)
    fun r => triplePure (stable r.1) fun _ h => h
  refine tripleBind (seeking.find (some client) key context fun world h => h.ready.tidy)
    fun (slot,hash) => ?_
  cases slot with
  | none => exact tripleMono (fun _ h => h.1) (fun _ _ => id) (seeking.ended (by simp))
  | some c =>
    refine tripleBind (tripleMono (fun _ h => ⟨h.1,h.2 c rfl⟩) (fun _ _ => id)
      (waitBitTriple small context clientData c)) fun _ => ?_
    refine tripleBind (readTriple small context c) fun signaled => ?_
    refine tripleBind (Q := fun _ => Seen client.clientId key c 0) ?_ fun _ =>
      (seen c 0).ended fun world h _ => ⟨c,h⟩
    cases signaled with
    | false => exact (seen c 0).ended fun _ h => h
    | true =>
      refine tripleBind ((seen c 1).each (idleEmit _ _ ?_)) fun _ =>
        (seen c 1).signal (seen c 0) (fun world h => h.marked.held.2)
          (fun world events h tells => ⟨h.marked.same rfl,?_⟩) _ _ _ _
      · cases fence <;> rfl
      · have woken := h.woken
        rw [wokenAct,World.actShared]
        omega

theorem registerSound {fence : Option DmaFence} {clientData : U64} {parties : ι → Party m}
    {d : DriverData m} (small : client.clientId < 64) (context : key.1 ≠ 0)
    (calls : parties call = .call (.registerWait fence client key.1 key.2 clientData))
    (others : ∀ t ≠ call, ∀ op, parties t ≠ .call op) (ready : Ready d)
    (balanced : ∀ x, d.live key x → Balanced d x) (unwaited : Unwaited client.clientId key d) :
    (alone call (Unraced call client.clientId key)).Sound (fun t status world => t = call →
      status = .ok () → ∃ c, Seen client.clientId key c 0 world) (pool parties d) := by
  intro t
  by_cases same : t = call
  · subst same
    have own := @registerTriple m ι _ t key client small context fence clientData
      (pool parties d).world ⟨ready,balanced,unwaited,rfl⟩
    simp only [pool,calls,Party.prog,DriverOp.call]
    exact meetsMono (fun _ _ seen _ => seen) own
  · exact meetsMono (fun _ _ _ here => absurd here same)
      (othersSound (others t same) same (pool parties d).world trivial)

end Registration

section Promise
variable {m : Nat} {ι : Type}

theorem overWoken {client : HwFenceClient} {array : DmaFenceArray} {told : Nat}
    {world : World ι Event (DriverData m)} (lapsed : Over client.clientId array told world) :
    woken client.clientId (arrayKey array) world = told := by
  rcases lapsed with none | ⟨join,spent⟩
  · exact none.woken
  · exact spent.woken

variable [DecidableEq ι]

/-- A table a fence-array call may start from: the array is new and its children are plain fences. -/
structure ArrayStart (client : HwFenceClient) (array : DmaFenceArray) (d : DriverData m) : Prop where
  plain : Plain client array
  some : 0 < array.numFences.toNat
  ready : Ready d
  fresh : ∀ x, ¬ d.live (arrayKey array) x
  noJoins : ∀ child ∈ array.children, ∀ x, d.live (waitsFor child) x → ¬ isJoin d x

structure WaitStart (client : HwFenceClient) (key : Key) (d : DriverData m) : Prop where
  small : client.clientId < 64
  context : key.1 ≠ 0
  ready : Ready d
  balanced : ∀ x, d.live key x → Balanced d x
  unwaited : Unwaited client.clientId key d

def Signalled (key : Key) (d : DriverData m) : Prop :=
  ∃ x, d.live key x ∧ (d.tbl x).signaled = true

def ArrayWakesOnce (client : HwFenceClient) (array : DmaFenceArray) (call : ι)
    (c : Config ι Event (DriverData m) Status) : Prop :=
  (c.result call = some (.ok ()) →
    (∀ child ∈ array.children, Signalled (waitsFor child) c.world.shared) →
      woken client.clientId (arrayKey array) c.world = 1) ∧
  ∀ e, c.result call = some (.error e) → woken client.clientId (arrayKey array) c.world = 0

def WaitWakesOnce (client : HwFenceClient) (key : Key) (call : ι)
    (c : Config ι Event (DriverData m) Status) : Prop :=
  c.result call = some (.ok ()) → Signalled key c.world.shared →
    woken client.clientId key c.world = 1

variable {client : HwFenceClient}

theorem arrayWakesOnce {array : DmaFenceArray} {clientData : U64} {call : ι} {parties : ι → Party m}
    {d : DriverData m} (start : ArrayStart client array d)
    (calls : parties call = .call (.processFenceArray client array clientData))
    (others : ∀ t ≠ call, ∀ op, parties t ≠ .call op) (schedule : List ι) :
    ArrayWakesOnce client array call (after Config.turn (pool parties d) schedule) := by
  have sound := @arraySound m ι call (fun _ _ => True) client array start.plain clientData
    parties calls others d start.ready start.fresh start.noJoins
  have always : Along Config.turn (fun c t => (alone (m := m) call fun _ _ => True).allow t c.world
      (c.offers t)) (pool parties d) schedule := alongSplit.mpr fun _ _ _ _ _ => trivial
  obtain ⟨-,sound⟩ := soundRun sound always
  refine ⟨fun done all => ?_,fun e done => overWoken (soundResult sound done rfl)⟩
  rcases soundResult sound done rfl with lapsed | ⟨join,waiting⟩
  · exact overWoken lapsed
  · have signaled := waiting.joined.finished start.some fun child mem x held => by
      obtain ⟨y,live,set⟩ := all child mem
      rwa [waiting.joined.frame.ready.tidy.distinct _ x y held live]
    rw [waiting.woken,signaled]
    rfl

theorem waitWakesOnce {fence : Option DmaFence} {key : Key} {clientData : U64} {call : ι}
    {parties : ι → Party m} {d : DriverData m} (start : WaitStart client key d)
    (calls : parties call = .call (.registerWait fence client key.1 key.2 clientData))
    (others : ∀ t ≠ call, ∀ op, parties t ≠ .call op) {schedule : List ι}
    (unraced : Along Config.turn (fun c t => t ≠ call →
      Unraced call client.clientId key c.world (c.offers t)) (pool parties d) schedule) :
    WaitWakesOnce client key call (after Config.turn (pool parties d) schedule) := by
  obtain ⟨-,sound⟩ := soundRun (registerSound start.small start.context calls others start.ready
    start.balanced start.unwaited) unraced
  intro done ⟨x,held,signaled⟩
  obtain ⟨c,marked,woken⟩ := soundResult sound done rfl rfl
  rw [← marked.ready.tidy.distinct _ x c held marked.held,signaled] at woken
  exact woken

theorem wakesOnce (parties : ι → Party m) (call : ι) (d : DriverData m) (schedule : List ι)
    (others : ∀ t ≠ call, ∀ op, parties t ≠ .call op) :
    (∀ client array clientData, parties call = .call (.processFenceArray client array clientData) →
      ArrayStart client array d →
        ArrayWakesOnce client array call (after Config.turn (pool parties d) schedule)) ∧
    ∀ fence client key clientData, parties call =
      .call (.registerWait fence client key.1 key.2 clientData) → WaitStart client key d →
        Along Config.turn (fun c t => t ≠ call → Unraced call client.clientId key c.world (c.offers t))
          (pool parties d) schedule →
        WaitWakesOnce client key call (after Config.turn (pool parties d) schedule) :=
  ⟨fun _ _ _ calls start => arrayWakesOnce start calls others schedule,
    fun _ _ _ _ calls start unraced => waitWakesOnce start calls others unraced⟩

end Promise

section Race

def creator : HwFenceClient := .plain 1 oneKnown
def waiter : HwFenceClient := .plain 2 twoKnown

def createCalls : List DriverCall := [⟨.create creator 1 1,0⟩]

def created : DriverData 2 := after DriverCall.step (zeroTable (.unused 2 twoEntries)) createCalls

theorem createAllowed : Along DriverCall.step Allowed (zeroTable (.unused 2 twoEntries)) createCalls := by
  refine ⟨⟨contextsOf (by decide),?_⟩,trivial⟩
  intro key creates i held
  cases held.1

theorem createdSettled : Settled created := settledStep (zeroSettled _) createAllowed.1

theorem createdReady : Ready created := by
  refine ⟨createdSettled.tidy,fun x used p listed => ?_,by decide +kernel⟩
  have alone : ∀ x, (created.tbl x).parents = [] := by decide +kernel
  rw [alone x] at listed
  cases listed

theorem waitStart : WaitStart waiter (1,1) created := by
  have unwaited : ∀ x, carries 2 (1,1) (created.tbl x) = false := by decide +kernel
  refine ⟨by decide,by decide,createdReady,fun x held => ?_,unwaited⟩
  have plain : ∀ x, ¬ isJoin created x := by decide +kernel
  have none := createdReady.plainTotal (plain x)
  exact ⟨by omega,fun _ => none⟩

def parties (t : Fin 2) : Party 2 :=
  if t.val = 0 then .call (.registerWait none waiter 1 1 0) else .controller ⟨0,Nat.two_pos⟩

theorem othersControl : ∀ t ≠ 0, ∀ op, parties t ≠ .call op := by
  intro t ne op
  have other : ¬ t.val = 0 := fun same => ne (Fin.ext same)
  rw [parties,if_neg other]
  intro same
  cases same

def arrayParties (t : Fin 2) : Party 2 :=
  if t.val = 0 then .call (.processFenceArray waiter oneChild 0) else .controller ⟨0,Nat.two_pos⟩

theorem arraysControl : ∀ t ≠ 0, ∀ op, arrayParties t ≠ .call op := by
  intro t ne op
  have other : ¬ t.val = 0 := fun same => ne (Fin.ext same)
  rw [arrayParties,if_neg other]
  intro same
  cases same

theorem arrayStart : ArrayStart waiter oneChild created :=
  ⟨⟨by decide,by decide,by decide,by decide⟩,by decide,createdReady,by decide +kernel,by decide +kernel⟩

theorem lateControllerWakesOnce :
    woken 2 (1,1) (after Config.turn (pool parties created) [0,0,0,0,0,1]).world = 1 ∧
      woken 2 (2,1) (after Config.turn (pool arrayParties created) [0,0,0,0,0,0,1]).world = 1 := by
  have wait := (wakesOnce parties 0 created [0,0,0,0,0,1] othersControl).2 none waiter (1,1) 0 rfl
    waitStart (by decide +kernel)
  have array := (wakesOnce arrayParties 0 created [0,0,0,0,0,0,1] arraysControl).1 waiter oneChild 0
    rfl arrayStart
  refine ⟨wait (by decide +kernel) ⟨0,by decide +kernel,by decide +kernel⟩,
    array.1 (by decide +kernel) fun child mem => ?_⟩
  have only : ∀ child ∈ oneChild.children, waitsFor child = (1,1) := by decide
  rw [only child mem]
  exact ⟨0,by decide +kernel,by decide +kernel⟩

theorem racedControllerWakesTwice : WaitStart waiter (1,1) created ∧
    ¬ WaitWakesOnce waiter (1,1) 0
      (after Config.turn (pool parties created) [0,0,1,0,0,0,0,0]) := by
  refine ⟨waitStart,fun once => ?_⟩
  have one := once (by decide +kernel) ⟨0,by decide +kernel,by decide +kernel⟩
  exact absurd one (by decide +kernel)

end Race
end MmDrivers.WaitWakeups

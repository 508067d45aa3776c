import MmDrivers.WaitWakeups

/-! Publication of the client data of a fence-array call. The call links the
children first and stores the data when it has seen them all, without a lock; the
controller may complete the join fence in between. -/
namespace MmDrivers.DataRace
open Sections Sections.Prog Interleaving Interleaving.Rules Runs FenceTypes FenceLookup FenceTable
open FenceSignal JoinFence JoinRun JoinAccounting DriverRuns Parties Wakeups JoinWaits ArrayWakeups
open WaitWakeups

section Clear
variable {m : Nat}

def KeepsData (upd : DriverData m → DriverData m) (_ev : DriverData m → List Event) : Prop :=
  ∀ d x, ((upd d).tbl x).clientData = (fun _ => 0) ∨
    ((upd d).tbl x).clientData = (d.tbl x).clientData ∧ ((upd d).tbl x).key = (d.tbl x).key

theorem dataSlot {i : Fin m} {g : DriverData m → HwFence → HwFence} {ev : DriverData m → List Event}
    (kept : ∀ d f, (g d f).clientData = (fun _ => 0) ∨
      (g d f).clientData = f.clientData ∧ (g d f).key = f.key) :
    KeepsData (fun d => d.onSlot i (g d)) ev := by
  intro d x
  by_cases xi : x = i
  · subst xi
    simp only [DriverData.onSlotSame]
    exact kept d _
  · simp only [DriverData.onSlotOther d _ xi]
    exact .inr ⟨trivial,trivial⟩

theorem dataAside {upd : DriverData m → DriverData m} {ev : DriverData m → List Event}
    (same : ∀ d, (upd d).tbl = d.tbl) : KeepsData upd ev := by
  intro d x
  rw [same]
  exact .inr ⟨rfl,rfl⟩

theorem dataSections (client : HwFenceClient) :
    ArraySections (m := m) KeepsData client 0 := by
  have slot : ∀ (d : DriverData m) (i x : Fin m) (g : HwFence → HwFence), (∀ f, Relinked f (g f)) →
      ((d.onSlot i g).tbl x).clientData = (d.tbl x).clientData ∧
        ((d.onSlot i g).tbl x).key = (d.tbl x).key := by
    intro d i x g relinked
    by_cases xi : x = i
    · subst xi
      rw [DriverData.onSlotSame,(relinked _).key,relinked (d.tbl x)]
      exact ⟨rfl,rfl⟩
    · rw [DriverData.onSlotOther d _ xi]
      exact ⟨rfl,rfl⟩
  refine ⟨fun upd ev aside => dataAside fun d => (aside d).1,
    fun op context seqno clientId pending i => eachAtomic fun d x => ?_,
    fun join c hash => eachAtomic fun d x => ?_,
    fun hash c => eachAtomic fun d x => .inr (slot d c x _ fun f => (unlinkRelinked hash f).1),
    fun join => dataSlot fun d f => .inr ⟨rfl,rfl⟩,fun some => absurd rfl some⟩
  · cases probed op context seqno (d.tbl i) with
    | processed =>
      have kept : ∀ (d : DriverData m) f, (op.processFnc d.qtime clientId context seqno pending f).clientData =
          (fun _ => 0) ∨ (op.processFnc d.qtime clientId context seqno pending f).clientData =
            f.clientData ∧ (op.processFnc d.qtime clientId context seqno pending f).key = f.key := by
        intro d f
        cases op with
        | findFence => exact .inr ⟨rfl,rfl⟩
        | create | createJoin | destroy => exact .inl rfl
      have own : KeepsData (fun d => d.onSlot i (op.processFnc d.qtime clientId context seqno pending))
          fun _ => [] := dataSlot kept
      exact own d x
    | duplicate | missed => exact .inr ⟨rfl,rfl⟩
  · split
    · exact .inr (slot d join x _ fun _ => rfl)
    · split
      · exact .inr ⟨rfl,rfl⟩
      · exact .inr (slot d c x _ fun f => linkRelinked hash f)

end Clear

section Publication
variable {m : Nat} {ι : Type} [DecidableEq ι] {client : HwFenceClient} {array : DmaFenceArray}
  {clientData : U64} {call : ι} {parties : ι → Party m} {d : DriverData m} {schedule : List ι}

def Completes (key : Key) (c : Config ι Event (DriverData m) Status) (t : ι) (join : Fin m) : Prop :=
  c.world.shared.live key join ∧ (c.world.shared.tbl join).signaled = false ∧
    ((c.turn t).world.shared.tbl join).signaled = true

instance (key : Key) (c : Config ι Event (DriverData m) Status) (t : ι) (join : Fin m) :
    Decidable (Completes key c t join) := inferInstanceAs (Decidable (_ ∧ _))

def Published (client : HwFenceClient) (clientData : U64) (f : HwFence) : Prop :=
  ∀ id, hwFenceGetClientDataId client.clientId = some id → f.clientData id = clientData

instance (client : HwFenceClient) (clientData : U64) (f : HwFence) :
    Decidable (Published client clientData f) := inferInstanceAs (Decidable (∀ _, _ → _))

def DataFirst (client : HwFenceClient) (array : DmaFenceArray) (clientData : U64) (call : ι)
    (parties : ι → Party m) (d : DriverData m) (schedule : List ι) : Prop :=
  Along Config.turn (fun c t => t ≠ call → ∀ join, Completes (arrayKey array) c t join →
    Published client clientData (c.world.shared.tbl join)) (pool parties d) schedule

/-- Without data to store, or once the call has returned. -/
def CompletesLate (array : DmaFenceArray) (clientData : U64) (call : ι)
    (parties : ι → Party m) (d : DriverData m) (schedule : List ι) : Prop :=
  Along Config.turn (fun c t => t ≠ call → ∀ join, Completes (arrayKey array) c t join →
    clientData = 0 ∨ (c.result call).isSome) (pool parties d) schedule

theorem Completes.runs {key : Key} {c : Config ι Event (DriverData m) Status} {t : ι} {join : Fin m}
    (completes : Completes key c t join) : c.result t = none := by
  cases ended : c.result t with
  | none => rfl
  | some status =>
    obtain ⟨-,before,later⟩ := completes
    rw [Config.turnRet (Config.resultRet ended),before] at later
    cases later

structure DataStart (client : HwFenceClient) (array : DmaFenceArray) (d : DriverData m) : Prop where
  plain : Plain client array
  ready : Ready d
  fresh : ∀ x, ¬ d.live (arrayKey array) x
  noJoins : ∀ child ∈ array.children, ∀ x, d.live (waitsFor child) x → ¬ isJoin d x

theorem clearAlong (start : DataStart client array d)
    (calls : parties call = .call (.processFenceArray client array 0))
    (others : ∀ t ≠ call, ∀ op, parties t ≠ .call op) :
    Along Config.turn (fun c _ => ∀ x, (c.world.shared.tbl x).key = arrayKey array →
      (c.world.shared.tbl x).clientData = fun _ => 0) (pool parties d) schedule := by
  have keep : ∀ upd ev, KeepsData (m := m) upd ev → ∀ d : DriverData m,
      (∀ x, (d.tbl x).key = arrayKey array → (d.tbl x).clientData = fun _ => 0) →
        ∀ x, ((upd d).tbl x).key = arrayKey array → ((upd d).tbl x).clientData = fun _ => 0 := by
    intro upd ev keeps d clear x own
    rcases keeps d x with cleared | ⟨data,key⟩
    · exact cleared
    · rw [data]
      exact clear x (key.symm.trans own)
  have sections : ∀ t, ((pool parties d).threads t).Each KeepsData := by
    intro t
    cases party : parties t with
    | clock qtime =>
      simp only [pool,party,Party.prog]
      exact eachAtomic (dataAside fun _ => rfl)
    | controller i =>
      simp only [pool,party,Party.prog]
      refine eachAtomic fun d x => .inr ?_
      rw [(controllerCounted i d).slots x]
      exact ⟨rfl,rfl⟩
    | call op =>
      by_cases same : t = call
      · subst same
        simp only [pool,calls,Party.prog,DriverOp.call]
        exact eachBind ((dataSections client).each array) fun _ => trivial
      · exact absurd party (others t same op)
  refine (Config.everywhere ⟨fun x own => ?_,fun t => eachMono keep (sections t)⟩ schedule).1
  exact absurd (start.ready.tidy.carried start.plain.context own) (start.fresh x)

theorem dataFirst (start : DataStart client array d)
    (calls : parties call = .call (.processFenceArray client array clientData))
    (others : ∀ t ≠ call, ∀ op, parties t ≠ .call op)
    (late : CompletesLate array clientData call parties d schedule) :
    DataFirst client array clientData call parties d schedule := by
  by_cases none : clientData = 0
  · subst none
    refine alongMono (fun c t clear ne join completes id own => ?_) (clearAlong start calls others)
    rw [clear join completes.1.2]
  · have sound := @arraySound m ι call (fun _ _ => True) client array start.plain clientData
      parties calls others d start.ready start.fresh start.noJoins
    have always : Along Config.turn (fun c t => (alone (m := m) call fun _ _ => True).allow t c.world
        (c.offers t)) (pool parties d) schedule := alongSplit.mpr fun _ _ _ _ _ => trivial
    refine alongMono (fun c t ⟨⟨sound,moved⟩,late⟩ ne join completes id own => ?_)
      (alongAnd (soundAlong sound always) late)
    obtain ⟨held,before,later⟩ := completes
    rcases moved with ended | move
    · rw [Completes.runs ⟨held,before,later⟩] at ended
      cases ended
    -- the call has ended: in the slot of the join fence is the data, or nothing completes it
    have lapsed : ∀ told, ¬ Over client.clientId array told c.world := by
      intro told lapsed
      rcases lapsed with muted | ⟨spentJoin,spent⟩
      · exact muted.gone join held.2
      · have next := (spentStage start.plain.small start.plain.context).stable c.world t _ _ ne move spent
        obtain ⟨⟨left,flag,joined,-⟩,-,-⟩ := spent
        have same := joined.frame.ready.tidy.distinct _ join spentJoin held joined.frame.held
        have unsignaled := next.unsignaled
        rw [← same,World.actShared,later] at unsignaled
        cases unsignaled
    obtain ⟨status,ended⟩ := Option.isSome_iff_exists.mp ((late ne join ⟨held,before,later⟩).resolve_left none)
    have ends := soundResult sound ended rfl
    cases status with
    | error e => exact absurd ends (lapsed 0)
    | ok _ =>
      rcases ends with spent | ⟨waitingJoin,waiting⟩
      · exact absurd spent (lapsed 1)
      · have same := waiting.joined.frame.ready.tidy.distinct _ join waitingJoin held
          waiting.joined.frame.held
        rw [same,waiting.data,sentData,if_pos own]

end Publication

section Race

def sender : HwFenceClient := .plain 8 (by decide)

def dataParties (t : Fin 2) : Party 2 :=
  if t.val = 0 then .call (.processFenceArray sender oneChild 7) else .controller ⟨0,Nat.two_pos⟩

theorem dataStart : DataStart sender oneChild created := by
  refine ⟨⟨by decide,by decide,by decide,by decide⟩,createdReady,by decide +kernel,by decide +kernel⟩

theorem othersSignal : ∀ t ≠ 0, ∀ op, dataParties t ≠ .call op := by
  intro t ne op
  have other : ¬ t.val = 0 := fun same => ne (Fin.ext same)
  rw [dataParties,if_neg other]
  intro same
  cases same

theorem dataFirstLate : DataFirst sender oneChild 7 0 dataParties created
    [0,0,0,0,0,0,1] := by
  refine dataFirst dataStart rfl othersSignal ?_
  unfold CompletesLate
  decide +kernel

theorem earlyControllerNoData : DataStart sender oneChild created ∧
    ¬ DataFirst sender oneChild 7 0 dataParties created [0,0,0,0,0,1] := by
  refine ⟨dataStart,?_⟩
  unfold DataFirst
  decide +kernel

end Race
end MmDrivers.DataRace

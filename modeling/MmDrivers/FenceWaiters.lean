import MmDrivers.ArrayOutcome
import MmDrivers.ResetClient
import MmDrivers.FenceFlags

/-! Who waits for a fence, over all calls of the entry points, and whom the driver signals.
Clients are known to a fence by the bit of their id. -/
namespace MmDrivers.FenceWaiters
open Sections Sections.Prog FenceTypes FenceLookup FenceTable FenceSignal JoinFence JoinRun ResetRun
open DriverRuns DeviceTree Parts Probe Runs FenceApi FenceFlags
open ResetClient (bitLsb clearedLsb)
open ArrayOutcome (Creates TakesData callRefused callCreates loopStops finishFailed finishWaits
  finishCompletes rollbackSilent storeSilent)

section Waits
variable {m : Nat} {F : Type} [DecidableEq F] {w : DmaFences F} {s : ApiState m F} {f : F} {k : Nat}

def Waits (w : DmaFences F) (d : DriverData m) (f : F) (k : Nat) : Prop :=
  ∃ x, d.live (w.key f) x ∧ (d.tbl x).waitClientMask.getLsbD k = true

omit [DecidableEq F] in
theorem startWaits {c : ApiCall m F} : Waits w (c.start s).d f k ↔ Waits w s.d f k := by
  simp only [Waits,startLive]
  simp only [ApiCall.start,controlledMask]

def caller : ApiOp F → Option HwFenceClient
  | .waitUpdate client _ _ => client
  | _ => none

def fencesAsked : ApiOp F → List F
  | .waitUpdate _ (some fences) _ => fences
  | _ => []

def Asks (w : DmaFences F) (s : ApiState m F) (op : ApiOp F) (s' : ApiState m F) (f : F) (k : Nat) : Prop :=
  (∃ client, caller op = some client ∧ client.clientId % 64 = k) ∧ f ∈ takenFences w s op ∧
    Held s'.d (w.key f)

def Spares (s : ApiState m F) (op : ApiOp F) (k : Nat) : Prop :=
  ∀ client, servedReset s op = some client → client.clientId % 64 ≠ k

theorem waitsOther {d d' : DriverData m} {i : Fin m} (same : ∀ x ≠ i, d'.tbl x = d.tbl x) {x : Fin m}
    (other : x ≠ i) (key : Key) :
    (d'.live key x ↔ d.live key x) ∧ (d'.tbl x).waitClientMask = (d.tbl x).waitClientMask := by
  rw [DriverData.live,DriverData.live,same x other]
  exact ⟨Iff.rfl,rfl⟩

-- a step that changes slot i alone, where nobody waits for the fence before it or after it
omit [DecidableEq F] in
theorem waitsElsewhere {d d' : DriverData m} {i : Fin m} (others : ∀ x ≠ i, d'.tbl x = d.tbl x)
    (later : ∀ x, d'.live (w.key f) x → (d'.tbl x).waitClientMask.getLsbD k = true → x ≠ i)
    (before : ∀ x, d.live (w.key f) x → Held d' (w.key f) → x ≠ i) :
    Waits w d' f k ↔ Waits w d f k ∧ Held d' (w.key f) := by
  constructor
  · rintro ⟨x,live,set⟩
    obtain ⟨was,mask⟩ := waitsOther others (later x live set) (w.key f)
    exact ⟨⟨x,was.mp live,mask ▸ set⟩,x,live⟩
  · rintro ⟨⟨x,live,set⟩,held⟩
    obtain ⟨was,mask⟩ := waitsOther others (before x live held) (w.key f)
    exact ⟨x,was.mpr live,mask.symm ▸ set⟩

omit [DecidableEq F] in
theorem quietWaits {op : ApiOp F} {s' : ApiState m F} (taken : takenFences w s op = [])
    (reset : servedReset s op = none) (waits : Waits w s'.d f k ↔ Waits w s.d f k ∧ Held s'.d (w.key f)) :
    Waits w s'.d f k ↔ Asks w s op s' f k ∨ Waits w s.d f k ∧ Spares s op k ∧ Held s'.d (w.key f) := by
  have spares : Spares s op k := fun client served => by
    rw [reset] at served
    cases served
  rw [waits,Asks,taken]
  simp [spares]

theorem waitsEffect {op : ApiOp F} {s' : ApiState m F} (inv : ApiInv w s) (effect : ApiEffect w s op s') :
    Waits w s'.d f k ↔ Asks w s op s' f k ∨ Waits w s.d f k ∧ Spares s op k ∧ Held s'.d (w.key f) := by
  cases effect with
  | same tbl flags kept taken reset =>
    refine quietWaits taken reset ?_
    unfold Waits Held DriverData.live
    rw [tbl]
    exact ⟨fun here => ⟨here,here.imp fun _ at' => at'.1⟩,And.left⟩
  | @created client g handle _ i qtime plain unflagged unheld free tbl flags =>
    refine quietWaits rfl (by simp [servedReset,resetsClient]) (waitsElsewhere (i := i) ?_ ?_ ?_)
    · exact fun x other => by rw [tbl,Function.update_of_ne other]
    · rintro x - set rfl
      rw [tbl,Function.update_self] at set
      simp [reserveHwFence,cleanupHwFence,HwFence.zeroed] at set
    · rintro x live - rfl
      rw [live.1] at free
      cases free
  | @destroyed client g _ i plain gone tbl flags =>
    have others : ∀ x ≠ i, s'.d.tbl x = s.d.tbl x := fun x other => by rw [tbl,Function.update_of_ne other]
    have freed : ∀ x, s'.d.live (w.key f) x → x ≠ i := by
      rintro x live rfl
      rw [DriverData.live,tbl,Function.update_self] at live
      cases live.1
    refine quietWaits rfl (by simp [servedReset,resetsClient]) (waitsElsewhere others (fun x live _ => freed x live) ?_)
    rintro x live ⟨y,here⟩ rfl
    obtain ⟨was,-⟩ := waitsOther others (freed y here) (w.key f)
    exact freed y here (inv.settled.distinct _ y x (was.mp here) live)
  | freed slots frees gone settled others flags taken =>
    have stays : ∀ {x}, s'.d.live (w.key f) x → ¬ slots x := fun live slot => by
      have used := live.1
      rw [(gone _ slot).1] at used
      cases used
    have bit : ∀ {x}, ¬ slots x → ((s'.d.tbl x).waitClientMask.getLsbD k = true ↔
        (s.d.tbl x).waitClientMask.getLsbD k = true ∧ Spares s op k) := by
      intro x other
      rw [others x other,Spares]
      cases servedReset s op with
      | none => simp
      | some client =>
        simp only [Option.elim_some,clearedLsb,Bool.and_eq_true,decide_eq_true_iff,Option.some.injEq,
          forall_eq',ne_comm]
    rw [Asks,taken]
    constructor
    · rintro ⟨x,live,set⟩
      obtain ⟨was,spares⟩ := (bit (stays live)).mp set
      exact .inr ⟨⟨x,(othersLive (others x (stays live)) _).mp live,was⟩,spares,x,live⟩
    · rintro (⟨-,mem,-⟩ | ⟨⟨x,live,set⟩,spares,y,here⟩)
      · cases mem
      · cases inv.settled.distinct _ x y live ((othersLive (others y (stays here)) _).mp here)
        exact ⟨x,here,(bit (stays here)).mpr ⟨set,spares⟩⟩
  | @waited client fences list status handles _ updated flags taken =>
    have spares : Spares s (.waitUpdate (some client) (some fences) list) k := fun client served => by
      simp [servedReset,resetsClient] at served
    have other : f ∉ fences.take handles.length → w.key f ∉ (fences.take handles.length).map w.key := by
      intro none mem
      obtain ⟨g,inside,same⟩ := List.mem_map.mp mem
      exact none (sameKey same ▸ inside)
    constructor
    · rintro ⟨x,live,set⟩
      by_cases mem : f ∈ fences.take handles.length
      · rw [updated.bits f mem x live,BitVec.getLsbD_or,bitLsb,Bool.or_eq_true,decide_eq_true_iff] at set
        rcases set with was | own
        · unfold maskAt at was
          split at was
          · exact .inr ⟨⟨x,by assumption,was⟩,spares,x,live⟩
          · simp at was
        · exact .inl ⟨⟨client,rfl,own.symm⟩,taken ▸ mem,x,live⟩
      · obtain ⟨was,same⟩ := updated.kept _ (other mem) x
        exact .inr ⟨⟨x,was.mp live,(same (was.mp live)).1 ▸ set⟩,spares,x,live⟩
    · rintro (⟨⟨c,own,same⟩,mem,x,live⟩ | ⟨⟨x,live,set⟩,-,-⟩)
      · cases own
        refine ⟨x,live,?_⟩
        rw [updated.bits f (taken ▸ mem) x live,BitVec.getLsbD_or,bitLsb]
        simp [same]
      · have here := (updated.stays _ _ live).1
        refine ⟨x,here,?_⟩
        by_cases mem : f ∈ fences.take handles.length
        · rw [updated.bits f mem x here,maskAt,if_pos live,BitVec.getLsbD_or,set,Bool.true_or]
        · rw [((updated.kept _ (other mem) x).2 live).1,set]

end Waits

section History
variable {m : Nat} {F : Type} [DecidableEq F] {w : DmaFences F} {calls : List (ApiCall m F)}

/-- A client of the bit has asked for the fence, which was in the table since then, while no
client of the bit was reset. -/
def WaitsSince (w : DmaFences F) (start : ApiState m F) (calls : List (ApiCall m F)) (f : F) (k : Nat) : Prop :=
  Since (ApiCall.step w) (fun s c => Asks w (c.start s) c.op (c.step w s) f k)
    (fun s c => Spares (c.start s) c.op k ∧ Held (c.step w s).d (w.key f)) start calls

theorem waitsRun (start : DriverData m)
    (allowed : Along (ApiCall.step w) (Allowed w) (unflagged F start) calls) (f : F) (k : Nat) :
    Waits w (after (ApiCall.step w) (unflagged F start) calls).d f k ↔
      WaitsSince w (unflagged F start) calls f k := by
  have along := alongInvariant (fun _ _ => invStep) (startInv w start) allowed
  have exact : ∀ s (c : ApiCall m F), ApiInv w s ∧ Allowed w s c → (Waits w (c.step w s).d f k ↔
      Asks w (c.start s) c.op (c.step w s) f k ∨
        Waits w s.d f k ∧ Spares (c.start s) c.op k ∧ Held (c.step w s).d (w.key f)) :=
    fun s c ok => by
      have step := @waitsEffect _ _ _ _ _ f k _ _ (ok.1.around c) (stepEffect ok.1 ok.2)
      rwa [startWaits] at step
  have none : ¬ Waits w (unflagged F start).d f k := by
    rintro ⟨x,live,-⟩
    cases live.1
  have since := @sinceIff _ _ (ApiCall.step w) _ _ _ _ _ (fun s => Waits w s.d f k) exact along
  exact since.trans (or_iff_right fun both => none both.1)

end History

section Signals
variable {m : Nat} {F : Type} {w : DmaFences F} {d : DriverData m} {client : HwFenceClient}
  {enabled : F → Bool} {f : F} {data : U64}

def Complete (w : DmaFences F) (d : DriverData m) (f : F) : Prop :=
  ∀ c ∈ (w.children f).getD [f], ∃ y, d.live (w.key c) y ∧ (d.tbl y).signaled = true

def Answers (w : DmaFences F) (client : HwFenceClient) (d : DriverData m) (f : F) (s : Signal) : Prop :=
  s.clientId = client.clientId ∧ (s.context,s.seqno) = w.key f ∧ Complete w d f

theorem tellSignals (fence : Option DmaFence) (client : HwFenceClient) (i : Fin m) (hash : Nat) (on : Bool)
    (d : DriverData m) :
    signals ((whenever on do
        emit fun _ => (fence.map fun f => .setSignaledBit f.context f.seqno).toList
        fenceCtlSignal client i hash 0 data 0 : Driver m Unit).events d) =
      if on then [⟨client.clientId,(d.tbl i).ctxId,(d.tbl i).seqId,hash,0,data,0⟩] else [] := by
  cases on with
  | false => rfl
  | true =>
    have sent := (signalRun client i hash 0 data 0 d).2
    have quiet : signals (fence.map fun f => Event.setSignaledBit f.context f.seqno).toList = [] := by
      cases fence <;> rfl
    rw [if_pos rfl,← sent]
    simp only [whenever,if_true,eventsBind,emit,eventsAtomic,runAtomic,id_eq,signalsAppend,quiet,
      List.nil_append]

theorem waitSignals (fence : Option DmaFence) (client : HwFenceClient) (key : Key) (settled : Settled d)
    (context : key.1 ≠ 0) :
    ∀ s ∈ signals ((hwFenceRegisterWaitClient fence client key.1 key.2 data).events d),
      s.clientId = client.clientId ∧ (s.context,s.seqno) = key ∧
        ∃ i, d.live key i ∧ (d.tbl i).signaled = true := by
  obtain ⟨slot,hash,found,held⟩ := findTidy (some client) key settled.tidy context
  have silent : signals ((msmHwFenceFind (some client) key.1 key.2).events d) = [] :=
    silentEvents (silentLookup ..) d
  intro s mem
  unfold hwFenceRegisterWaitClient at mem
  split at mem
  · simp at mem
  cases slot with
  | none => simp [found,silent] at mem
  | some i =>
    have live := (held i).mp rfl
    have same : (waitOn d.qtime client.clientId data (d.tbl i)).signaled = (d.tbl i).signaled := rfl
    simp only [eventsBind,found,signalsAppend,silent,runAtomic,eventsAtomic,id_eq,DriverData.onSlotSame,
      same,List.nil_append,tellSignals] at mem
    have none : signals [Event.lock i.val,.waitBit i.val client.clientId,.unlock i.val] = [] := rfl
    have noneRead : signals [Event.readFlags i.val] = [] := rfl
    rw [none,noneRead,List.nil_append,List.nil_append,pureRet,eventsRet,signalsNil,List.append_nil] at mem
    by_cases told : (d.tbl i).signaled = true
    · rw [if_pos told] at mem
      cases List.mem_singleton.mp mem
      exact ⟨rfl,live.2,i,live,told⟩
    · rw [if_neg told] at mem
      cases mem

theorem fenceAnswers (client : HwFenceClient) (data : U64) (settled : Settled d) (plain : w.children f = none) :
    ∀ s ∈ signals ((hwFenceProcessFence client (w.dmaFence enabled f) data).events d), Answers w client d f s := by
  intro s mem
  unfold hwFenceProcessFence at mem
  split at mem
  · simp at mem
  have context : (w.key f).1 ≠ 0 := w.contexts f
  obtain ⟨own,key,here⟩ := waitSignals _ client (w.key f) settled context s mem
  refine ⟨own,key,fun c mem => ?_⟩
  rw [plain,Option.getD_none,List.mem_singleton] at mem
  exact mem ▸ here

theorem createsUnheld {key : Key} {join : Fin m} (creates : Creates d key join) (gapless : Gapless d key) :
    ¬ Held d key := by
  rintro ⟨x,live⟩
  have free := creates.1
  by_cases same : x = join
  · rw [← same,live.1] at free
    cases free
  · rcases beforeTotal (firstHash m key) same with early | early
    · exact (creates.2 x early).2 live.2
    · rw [gapless x live join early] at free
      cases free

theorem arrayAnswers (client : HwFenceClient) (data : U64) {array : DmaFenceArray} (settled : Settled d)
    (isArray : w.toDmaFenceArray enabled f = some array) (gapless : Gapless d (w.key f)) :
    ∀ s ∈ signals ((hwFenceProcessFenceArray client array data).events d), Answers w client d f s := by
  obtain ⟨cs,children,list,key⟩ := arrayOf isArray
  intro s mem
  by_cases gets : TakesData client data ∧ ∃ join, Creates d (arrayKey array) join
  case neg =>
    rw [(callRefused gets).2.2.1] at mem
    cases mem
  obtain ⟨takes,join,creates⟩ := gets
  have unheld := createsUnheld creates (key ▸ gapless)
  obtain ⟨-,early,silent,-,events⟩ := callCreates takes creates
  have loop := ArrayOutcome.loopSilent client array join (joined client array 0 join d)
  obtain ⟨stops,-⟩ := loopStops client settled.tidy (fun x live => unheld ⟨x,live⟩) (childContexts list) creates
  rw [events,signalsAppend,signalsAppend,silent,loop,List.nil_append,List.nil_append] at mem
  generalize (processChildren client join join.val array.children 0 false).run _ = ended at stops mem
  cases stops with
  | failed split progress refused =>
    rw [(finishFailed ..).2] at mem
    cases mem
  | @all signal d' slots progress fences =>
    cases signal with
    | true =>
      rw [(finishCompletes _).2.1] at mem
      cases List.mem_singleton.mp mem
      have here := (progress.linking.live _ _).mpr (joinedLive client array 0 join d)
      refine ⟨rfl,here.2.trans key,fun c mem => ?_⟩
      rw [children,Option.getD_some] at mem
      have signaled := (childrenSignaled progress).2
      rw [list] at signaled
      exact signaled _ (List.mem_map_of_mem mem)
    | false =>
      by_cases empty : array.numFences = 0
      · have left := fun d => @rollbackSilent m join client array 0 d
        simp only [finishArray,empty,pureRet,eventsBind,eventsRet,storeSilent,Bool.false_eq_true,if_false,if_true,
          List.append_nil,List.nil_append,left] at mem
        cases mem
      · rw [(finishWaits empty _).2] at mem
        cases mem

theorem turnAnswers (client : HwFenceClient) (data : U64) {s : ApiState m F} (settled : Settled s.d)
    (gapless : (w.children f).isSome → Gapless s.d (w.key f)) :
    ∀ e ∈ signals ((waitUpdateOne w client f data).events s), Answers w client s.d f e := by
  intro e mem
  simp only [waitUpdateOne,eventsBind,runObserve,eventsObserve,List.nil_append] at mem
  cases isArray : w.toDmaFenceArray s.enabled f with
  | none =>
    have plain : w.children f = none := plainOf isArray
    rw [isArray] at mem
    rw [eventsDriver] at mem
    exact fenceAnswers client data settled plain e mem
  | some array =>
    obtain ⟨cs,children,-,-⟩ := arrayOf isArray
    rw [isArray] at mem
    rw [eventsDriver] at mem
    exact arrayAnswers client data settled isArray (gapless (by simp [children])) e mem

theorem Answers.later {d' : DriverData m} {s : Signal} (answers : Answers w client d f s)
    (stays : ∀ key x, d.live key x → d'.live key x ∧ (d'.tbl x).flags = (d.tbl x).flags) :
    Answers w client d' f s := by
  obtain ⟨client,key,complete⟩ := answers
  refine ⟨client,key,fun c mem => ?_⟩
  obtain ⟨y,live,told⟩ := complete c mem
  obtain ⟨here,flags⟩ := stays _ _ live
  refine ⟨y,here,?_⟩
  rw [HwFence.signaled,flags]
  exact told

theorem loopAnswers (client : HwFenceClient) (list : Option (Nat → U64)) (fences : List F) (i : Nat)
    (handles : List Nat) {s : ApiState m F} (settled : Settled s.d)
    (gapless : ∀ f ∈ fences, (w.children f).isSome → Gapless s.d (w.key f)) :
    let p := waitUpdateFences w client list fences i handles
    ∀ e ∈ signals (p.events s), ∃ f ∈ fences, Answers w client (p.run s).2.d f e := by
  induction fences generalizing i handles s with
  | nil =>
    intro p e mem
    cases mem
  | cons f rest ih =>
    obtain ⟨flags,settled₁,ends⟩ := turnRun client (list.elim 0 (· i)) settled (gapless f (.head _))
    have answers := turnAnswers client (list.elim 0 (· i)) settled (gapless f (.head _))
    simp only [waitUpdateFences,runBind,eventsBind,signalsAppend,List.mem_append]
    generalize (waitUpdateOne w client f (list.elim 0 (· i))).run s = t at flags settled₁ ends
    obtain ⟨⟨status,hash⟩,s₁⟩ := t
    dsimp only at flags settled₁ ends
    have stays : ∀ key x, s.d.live key x → s₁.d.live key x ∧ (s₁.d.tbl x).flags = (s.d.tbl x).flags :=
      fun _ _ => ends.stays settled
    cases status with
    | error e =>
      rintro e (own | none)
      · exact ⟨f,.head _,(answers e own).later stays⟩
      · cases none
    | ok done =>
      have gapless₁ : ∀ g ∈ rest, (w.children g).isSome → Gapless s₁.d (w.key g) := fun g mem array =>
        ends.gapless settled settled₁ (gapless g (.tail _ mem) array)
      obtain ⟨-,new,-,updated⟩ := loopRun client list rest (i+1) (handles ++ [hash.getD 0]) settled₁ gapless₁
      rintro e (own | later)
      · exact ⟨f,.head _,((answers e own).later stays).later updated.stays⟩
      · obtain ⟨g,mem,answered⟩ := ih (i+1) (handles ++ [hash.getD 0]) settled₁ gapless₁ e later
        exact ⟨g,.tail _ mem,answered⟩

theorem waitAnswers (client : HwFenceClient) (fences : List F) (list : Option (Nat → U64))
    {s : ApiState m F} (settled : Settled s.d)
    (gapless : GaplessArrays w s (.waitUpdate (some client) (some fences) list)) :
    let p := msmHwFenceWaitUpdateV2 w (some client) (some fences) list
    ∀ e ∈ signals (p.events s), ∃ f ∈ fences, Answers w client (p.run s).2.d f e := by
  intro p e mem
  by_cases served : Served client list s.d
  · obtain ⟨ready,sends,receives⟩ := served
    have passes : p.events s = (waitUpdateFences w client list fences 0 []).events s ∧
        p.run s = (waitUpdateFences w client list fences 0 []).run s := by
      dsimp only [p,msmHwFenceWaitUpdateV2]
      simp only [runBind,eventsBind,runObserve,eventsObserve,List.nil_append,ready,sends,not_lt.mpr receives,
        not_true_eq_false,if_false,and_self]
    rw [passes.1] at mem
    rw [passes.2]
    exact loopAnswers client list fences 0 [] settled gapless e mem
  · rw [(refusedRun client fences list served).2] at mem
    cases mem

end Signals

section Mute
variable {m : Nat} {F : Type} [DecidableEq F] {w : DmaFences F} {s : ApiState m F}

def Mute (_upd : ApiState m F → ApiState m F) (ev : ApiState m F → List Event) : Prop :=
  ∀ s, ∀ e ∈ ev s, signals [e] = []

omit [DecidableEq F] in
theorem muteEvents {α : Type} {p : Api m F α} (mute : p.Each Mute) (s : ApiState m F) :
    signals (p.events s) = [] := by
  have each := eachEvents mute (E := fun e => signals [e] = []) (fun _ _ h => h) s
  simp only [signals,List.filterMap_eq_nil_iff]
  intro e mem
  simpa [signals] using each e mem

omit [DecidableEq F] in
theorem muteObserve {α : Type} (read : ApiState m F → α) : (observe read : Api m F α).Each Mute :=
  eachAtomic fun _ _ mem => by cases mem

omit [DecidableEq F] in
theorem muteDriver {α : Type} {p : Driver m α} (silent : p.Each Silent) : (driver p : Api m F α).Each Mute :=
  eachPart _ (fun _ ev quiet s e mem => quiet s.d e (List.map_id (ev s.d) ▸ mem)) silent

theorem muteCreate (client : Option HwFenceClient) (fence : Option F) (handle : Bool) :
    (msmHwFenceCreate (m := m) w client fence handle).Each Mute := by
  unfold msmHwFenceCreate
  split
  · refine eachBind (muteObserve _) fun ready => eachIte (fun _ => eachPure _) fun _ => ?_
    refine eachIte (fun _ => eachPure _) fun _ => eachBind (muteObserve _) fun on => ?_
    refine eachIte (fun _ => eachPure _) fun _ => eachBind (muteDriver ?_) fun ⟨status,hash⟩ => ?_
    · exact eachBind (silentLookup ..) fun ⟨fence,hash⟩ => by cases fence <;> trivial
    · cases status with
      | error e => exact eachPure _
      | ok done => exact eachBind (eachAtomic fun _ _ mem => by cases mem) fun _ => eachPure _
  · exact eachPure _

theorem muteDestroy (client : Option HwFenceClient) (fence : Option F) :
    (msmHwFenceDestroy (m := m) w client fence).Each Mute := by
  unfold msmHwFenceDestroy
  split
  · refine eachIte (fun _ => eachPure _) fun _ => eachBind (muteObserve _) fun on => ?_
    refine eachIte (fun _ => eachPure _) fun _ => eachBind (muteDriver (silentDestroy ..)) fun status => ?_
    cases status with
    | error e => exact eachPure _
    | ok done => exact eachBind (eachAtomic fun _ _ mem => by cases mem) fun _ => eachPure _
  · exact eachPure _

omit [DecidableEq F] in
theorem muteHandle (client : Option HwFenceClient) (handle : Nat) :
    (msmHwFenceDestroyWithHandle (m := m) (F := F) client handle).Each Mute := by
  unfold msmHwFenceDestroyWithHandle
  cases client with
  | none => exact eachPure _
  | some client =>
    refine eachBind (muteObserve _) fun num => eachIte (fun _ => eachPure _) fun _ => muteDriver ?_
    unfold hwFenceDestroyWithHash hwFenceCleanup
    have silentObserve : ∀ {α : Type} (read : DriverData m → α), (observe read : Driver m α).Each Silent :=
      fun _ => eachAtomic fun _ _ mem => by cases mem
    split
    · exact eachPure _
    · refine eachBind (silentObserve _) fun own => eachIte (fun _ => eachPure _) fun _ => ?_
      refine eachBind (silentObserve _) fun context => eachBind (silentObserve _) fun seqno => ?_
      exact eachBind (silentLookup ..) fun ⟨fence,hash⟩ => by cases fence <;> trivial

omit [DecidableEq F] in
theorem muteTrigger (client : Option HwFenceClient) (txClientPid rxClientVid signalId : Nat) :
    (msmHwFenceTriggerSignal (m := m) (F := F) client txClientPid rxClientVid signalId).Each Mute := by
  unfold msmHwFenceTriggerSignal
  refine eachBind (muteObserve _) fun ready => eachIte (fun _ => eachPure _) fun _ => ?_
  refine eachIte (fun _ => eachPure _) fun _ => eachBind (eachAtomic fun _ e mem => ?_) fun _ => eachPure _
  cases List.mem_singleton.mp mem
  rfl

end Mute

section Calls
variable {m : Nat} {F : Type} [DecidableEq F] {w : DmaFences F} {s : ApiState m F}

/-- The signal tells another client of a fence of the client that is reset, which is not signaled. -/
def Warns (w : DmaFences F) (s : ApiState m F) (client : HwFenceClient) (f : F) (e : Signal) : Prop :=
  (e.context,e.seqno) = w.key f ∧ e.clientId % 64 ≠ client.clientId % 64 ∧
    ∃ x, s.d.live (w.key f) x ∧ (s.d.tbl x).fenceAllocator = client.clientId ∧
      (s.d.tbl x).signaled = false ∧ (s.d.tbl x).waitClientMask.getLsbD (e.clientId % 64) = true

omit [DecidableEq F] in
theorem resetWarns (client : HwFenceClient) (flags : ResetFlags) (inv : ApiInv w s) :
    ∀ e ∈ signals ((driver (msmHwFenceResetClient client flags) : Api m F Status).events s),
      s.d.vmReady = true ∧ ∃ f, Warns w s client f e := by
  intro e mem
  rw [eventsDriver] at mem
  by_cases ready : s.d.vmReady = true
  case neg =>
    unfold msmHwFenceResetClient at mem
    simp only [eventsBind,runObserve,eventsObserve,ready] at mem
    cases mem
  have sent := List.mem_map_of_mem (f := blind) mem
  rw [(resetRun client flags inv.settled ready).2.2] at sent
  obtain ⟨x,-,here⟩ := List.mem_flatMap.mp sent
  unfold resetSignals at here
  dsimp only at here
  split at here
  case isFalse => cases here
  rename_i own
  obtain ⟨id,waits,same⟩ := List.mem_map.mp here
  simp only [waiting,List.mem_filter,decide_eq_true_iff] at waits
  have set := (ResetClient.waitsIff id).mp waits.2.1
  have kept := clearWaitBitKeeps client.clientId (s.d.tbl x)
  have alloc : (s.d.tbl x).fenceAllocator = client.clientId :=
    (congrArg HwFence.fenceAllocator kept).symm.trans own.1
  have pending : (s.d.tbl x).signaled = false :=
    Bool.eq_false_of_not_eq_true fun on => own.2 ((congrArg HwFence.signaled kept).trans on)
  have context : (s.d.tbl x).ctxId = e.context :=
    (congrArg HwFence.ctxId kept).symm.trans (congrArg Signal.context same)
  have seqno : (s.d.tbl x).seqId = e.seqno :=
    (congrArg HwFence.seqId kept).symm.trans (congrArg Signal.seqno same)
  have used := ownUsed inv.settled alloc
  obtain ⟨f,key⟩ := inv.named (s.d.tbl x).key ⟨x,used,rfl⟩
  obtain rfl : id = e.clientId := congrArg Signal.clientId same
  rw [clearedLsb,Bool.and_eq_true,decide_eq_true_iff] at set
  refine ⟨ready,f,?_,set.2,x,⟨used,key⟩,alloc,pending,set.1⟩
  rw [← key,← context,← seqno]
  rfl

theorem callSignals (op : ApiOp F) (inv : ApiInv w s) (allowed : GaplessArrays w s op) :
    ∀ e ∈ signals ((op.call w).events s),
      (∃ client, ∃ f ∈ fencesAsked op, caller op = some client ∧ Answers w client ((op.call w).run s).2.d f e) ∨
      ∃ client f, servedReset s op = some client ∧ Warns w s client f e := by
  have none : ∀ {α : Type} {p : Api m F α}, p.Each Mute → ∀ e, ¬ e ∈ signals (p.events s) := by
    intro α p mute e mem
    rw [muteEvents mute] at mem
    cases mem
  have reset : ∀ client flags, resetsClient s op = some (client,flags) →
      ∀ e ∈ signals ((driver (msmHwFenceResetClient client flags) : Api m F Status).events s),
        ∃ client f, servedReset s op = some client ∧ Warns w s client f e := by
    intro client flags resets e mem
    obtain ⟨ready,f,warns⟩ := resetWarns client flags inv e mem
    exact ⟨client,f,by simp [servedReset,ready,resets],warns⟩
  intro e mem
  cases op with
  | create client fence handle =>
    simp only [ApiOp.call,mapBind,eventsBind,eventsRet,List.append_nil] at mem
    exact absurd mem (none (muteCreate client fence handle) e)
  | destroy client fence => exact absurd mem (none (muteDestroy client fence) e)
  | destroyWithHandle client handle => exact absurd mem (none (muteHandle client handle) e)
  | waitUpdate client fences list =>
    simp only [ApiOp.call,mapBind,eventsBind,eventsRet,List.append_nil,runBind,runRet] at mem ⊢
    cases client with
    | none => cases fences <;> cases mem
    | some client =>
      cases fences with
      | none => cases mem
      | some fences =>
        obtain ⟨f,asked,answers⟩ := waitAnswers client fences list inv.settled allowed e mem
        exact .inl ⟨client,f,asked,rfl,answers⟩
  | resetClient client flags =>
    cases client with
    | none => cases mem
    | some client => exact .inr (reset client flags rfl e mem)
  | resetClientById types clientIdExt flags =>
    simp only [ApiOp.call,msmHwFenceResetClientById] at mem
    by_cases past : hwFenceClientMax ≤ clientIdExt
    · rw [if_pos past] at mem
      cases mem
    rw [if_neg past] at mem
    by_cases unknown : hwFenceClientMax ≤ hwFenceUtilsGetClientIdPriv types clientIdExt
    · rw [if_pos unknown] at mem
      cases mem
    rw [if_neg unknown] at mem
    simp only [eventsBind,runObserve,eventsObserve,List.nil_append] at mem
    cases registered : s.d.clients (hwFenceUtilsGetClientIdPriv types clientIdExt) with
    | none =>
      rw [registered] at mem
      cases mem
    | some client =>
      rw [registered] at mem
      exact .inr (reset client flags (by simp [resetsClient,past,unknown,registered]) e mem)
  | updateTxq client handle flags error =>
    have silent : (msmHwFenceUpdateTxq (m := m) client handle flags error).Each Silent :=
      eachMono (fun _ _ h d e mem => (h.2 d e mem).1) (quietTxq client handle flags error)
    exact absurd mem (none (muteDriver silent) e)
  | triggerSignal client txClientPid rxClientVid signalId => exact absurd mem (none (muteTrigger ..) e)

end Calls

section Solicited
variable {m : Nat} {F : Type} [DecidableEq F] {w : DmaFences F} {calls : List (ApiCall m F)} {c : ApiCall m F}

def waitedFirst : List (ApiCall 2 Bool) :=
  [⟨.create (some JoinAccounting.creator) (some false) true,ResetClient.registered⟩,
    ⟨.waitUpdate (some JoinAccounting.waiter) (some [false]) none,ResetClient.registered⟩]

theorem waitedFirstAllowed : Along (ApiCall.step twoFences) (Allowed twoFences) (unflagged Bool twoClients)
    waitedFirst := ⟨trivial,fun _ _ array => (by cases array),trivial⟩

def resetCreator : ApiCall 2 Bool :=
  ⟨.resetClient (some JoinAccounting.creator) ⟨false,true,5⟩,ResetClient.registered⟩

theorem resetCreatorAllowed : Along (ApiCall.step twoFences) (Allowed twoFences) (unflagged Bool twoClients)
    (waitedFirst ++ [resetCreator]) := ⟨trivial,fun _ _ array => (by cases array),trivial,trivial⟩

def waiterWarned : Signal := ⟨2,1,1,0,0,0,5⟩

end Solicited
end MmDrivers.FenceWaiters

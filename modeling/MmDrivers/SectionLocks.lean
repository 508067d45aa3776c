import MmDrivers.LockBalance
import MmDrivers.LinkLedger
import MmDrivers.Lib.SpinLocks

/-! What every section of every party takes and frees: the locks, in the order they are taken, and the
keys of the slots it reserves or frees. -/
namespace MmDrivers.SectionLocks
open Sections Sections.Prog Locks SpinLocks FenceTypes FenceLookup FenceTable FenceSignal ClientQueue
open JoinFence JoinRun DriverRuns OpSections Parties LockBalance
open LinkLedger (onHold)

section Sections
variable {m k : Nat}

/-- A section takes the locks of one list of at most `k`, frees no slot while it nests them, and a slot
that it reserves gets the key. -/
structure Taking (k : Nat) (upd : DriverData m → DriverData m) (ev : DriverData m → List Event) : Prop where
  locks : ∃ locks : List Lock, locks.length ≤ k ∧ ∀ d, takes lockStep (ev d) <+: locks
  nests : ∀ d, 1 < (takes lockStep (ev d)).length → ∀ i, Event.unreserve i ∉ ev d
  reserves : ∀ d (i : Fin m) context seqno, Event.reserve i.val context seqno ∈ ev d →
    (upd d).live (context,seqno) i

theorem takingOne {upd : DriverData m → DriverData m} {ev : DriverData m → List Event} (locks : List Lock)
    (few : locks.length ≤ 1) (fixed : ∀ d, takes lockStep (ev d) <+: locks)
    (reserves : ∀ d (i : Fin m) context seqno, Event.reserve i.val context seqno ∈ ev d →
      (upd d).live (context,seqno) i) : Taking (k+1) upd ev := by
  refine ⟨⟨locks,by omega,fixed⟩,fun d nested => ?_,reserves⟩
  have short := (fixed d).length_le
  omega

theorem reservesNot {upd : DriverData m → DriverData m} {ev : DriverData m → List Event}
    (off : ∀ d, ∀ e ∈ ev d, onHold e = false) (d : DriverData m) (i : Fin m) (context seqno : U64)
    (mem : Event.reserve i.val context seqno ∈ ev d) : (upd d).live (context,seqno) i := by
  cases off d _ mem

theorem takingNone {upd : DriverData m → DriverData m} {ev : DriverData m → List Event}
    (looks : ∀ d, ∀ e ∈ ev d, plain e = true) : Taking (k+1) upd ev := by
  refine takingOne [] (Nat.zero_le _) (fun d => ?_) (reservesNot fun d e mem => ?_)
  · rw [takesNeither fun e mem => plainNeither (looks d e mem)]
  · have look := looks d e mem
    cases e <;> first | rfl | cases look

theorem takesLocked {i : Nat} {inner : List Event} (neither : ∀ e ∈ inner, lockStep e = .neither) :
    takes lockStep (.lock i::inner ++ [.unlock i]) = [.slot i] := by
  have acquires : lockStep (.lock i) = .acquire (.slot i) := rfl
  exact takesUnder acquires rfl neither

theorem takingSlot {i : Fin m} {upd : DriverData m → DriverData m} (inner : List Event)
    (neither : ∀ e ∈ inner, lockStep e = .neither ∧ onHold e = false) :
    Taking (k+1) upd fun _ => .lock i.val::inner ++ [.unlock i.val] := by
  refine takingOne [.slot i.val] (by simp) (fun d => ?_) (reservesNot fun d e mem => ?_)
  · rw [takesLocked fun e mem => (neither e mem).1]
  · rcases List.mem_cons.mp mem with rfl | mem
    · rfl
    · rcases List.mem_append.mp mem with inside | last
      · exact (neither e inside).2
      · cases List.mem_singleton.mp last
        rfl

theorem takingProbe (op : LookupOp) (context seqno : U64) (clientId : Nat) (pending : U32)
    (i : Fin m) : (probeSlot op context seqno clientId pending i).Each (Taking (k+1)) := by
  have event : lockStep (op.event i context seqno) = .neither := by cases op <;> rfl
  refine eachAtomic (takingOne [.slot i.val] (by simp) (fun d => ?_) fun d j context' seqno' mem => ?_)
  · cases probed op context seqno (d.tbl i) with
    | processed =>
      have taken : takes lockStep (.lock i.val::[op.event i context seqno] ++ [.unlock i.val]) = [.slot i.val] :=
        takesLocked (by simpa using event)
      exact taken.symm ▸ List.prefix_rfl
    | duplicate | missed => exact List.prefix_rfl
  · cases hit : probed op context seqno (d.tbl i) with
    | duplicate | missed => simp [hit] at mem
    | processed =>
      simp only [hit] at mem ⊢
      cases op with
      | destroy | findFence => simp [LookupOp.event] at mem
      | create | createJoin =>
        simp only [LookupOp.event,List.mem_cons,Event.reserve.injEq,List.not_mem_nil,or_false,false_or,
          reduceCtorEq] at mem
        obtain ⟨same,rfl,rfl⟩ := mem
        cases Fin.ext same
        rw [DriverData.live,DriverData.onSlotSame]
        exact ⟨rfl,rfl⟩

theorem takingObserve {α : Type} (read : DriverData m → α) :
    (observe read : Driver m α).Each (Taking (k+1)) := eachAtomic (takingNone (by simp))

theorem takingUpdate (client : HwFenceClient) (ctxtId seqno hash flags clientData : U64)
    (error : U32) (queueType : Nat) : (hwFenceUpdateQueue (m := m) client ctxtId seqno hash flags
      clientData error queueType).Each (Taking (k+1)) := by
  have words : ∀ words : List Nat, ∀ e ∈ words.map (Event.queueWord client.clientId queueType),
      onHold e = false := by
    intro words e mem
    obtain ⟨word,-,rfl⟩ := List.mem_map.mp mem
    rfl
  have taken : ∀ words : List Nat, takes lockStep (.lockClient (lockIdx client)::
      words.map (Event.queueWord client.clientId queueType) ++ [.unlockClient (lockIdx client)]) =
        [.client (lockIdx client)] := by
    intro words
    have acquires : lockStep (.lockClient (lockIdx client)) = .acquire (.client (lockIdx client)) := rfl
    exact takesUnder acquires rfl wordsNeither
  unfold hwFenceUpdateQueue
  refine eachBind (takingObserve _) fun queuesNum => eachIte (fun _ => trivial) fun _ =>
    eachIte (fun _ => trivial) fun _ => eachBind (takingObserve _) fun lockCnt =>
      eachIte (fun _ => trivial) fun _ => eachAtomic (takingOne [.client (lockIdx client)] (by simp)
        (fun d => ?_) (reservesNot fun d e mem => ?_))
  · split
    · exact (taken _).symm ▸ List.prefix_rfl
    · rw [takesNeither wordsNeither]
      exact List.nil_prefix
  · split at mem
    · rcases List.mem_append.mp mem with mem | last
      · rcases List.mem_append.mp mem with first | inside
        · cases List.mem_singleton.mp first
          rfl
        · exact words _ e inside
      · cases List.mem_singleton.mp last
        rfl
    · exact words _ e mem

theorem takingSignals : SignalSections (m := m) (Taking (k+1)) :=
  ⟨fun _ looks => takingNone looks,takingUpdate⟩

theorem takingReset (client : HwFenceClient) :
    (hwFenceUtilsResetQueues (m := m) client).Each (Taking (k+1)) := by
  unfold hwFenceUtilsResetQueues
  refine eachBind (eachAtomic (takingNone (by simp))) fun _ => eachWhenever fun _ => ?_
  refine eachBind (takingObserve _) fun lockCnt => eachWhenever fun _ => eachAtomic ?_
  exact takingOne [.client (lockIdx client)] (by simp) (fun d => List.prefix_rfl)
    (reservesNot fun d => by simp [onHold])

theorem takingTable : TableSections (m := m) (Taking (k+1)) :=
  ⟨takingSignals,takingProbe,fun _ _ _ => takingSlot [_] (by simp [lockStep,onHold]),
    fun _ _ => takingSlot [] (by simp),takingReset⟩

theorem takingChild (join c : Fin m) (hash : Nat) : (processChild join c hash).Each (Taking 2) := by
  refine eachAtomic ⟨⟨[.slot c.val,.slot join.val],Nat.le_refl _,fun d => ?_⟩,fun d _ i => ?_,
    reservesNot fun d => ?_⟩
  · have one : [Lock.slot c.val] <+: [.slot c.val,.slot join.val] := List.prefix_append ..
    split
    · exact List.prefix_rfl
    · split
      · exact one
      · exact one
  · split
    · simp
    · split <;> simp
  · split
    · simp [onHold]
    · split <;> simp [onHold]

theorem takingArray (client : HwFenceClient) (array : DmaFenceArray) (clientData : U64) :
    (hwFenceProcessFenceArray (m := m) client array clientData).Each (Taking 2) :=
  callEach ⟨takingProbe,takingChild,fun _ _ => eachAtomic (takingSlot [_] (by simp [lockStep,onHold])),
    fun _ => takingSlot [_] (by simp [lockStep,onHold]),fun _ _ => takingNone (by simp),takingSignals.signal client,
    takingNone (by simp [plain]),fun _ _ => takingNone (by simp [plain])⟩

theorem signalsPlain (i : Fin m) (f : HwFence) : ∀ e ∈ tellWaiters i f, plain e = true := by
  intro e mem
  obtain ⟨id,-,rfl⟩ := List.mem_map.mp mem
  rfl

theorem parentsPlain (ps : List Nat) (d : DriverData m) : ∀ e ∈ (tellParents ps d).2, plain e = true := by
  induction ps generalizing d with
  | nil => simp [tellParents]
  | cons p rest ih =>
    intro e mem
    rcases List.mem_append.mp mem with here | later
    · unfold tellParent at here
      split at here
      · cases here
      · dsimp only at here
        split at here
        · exact signalsPlain _ _ e here
        · cases here
    · exact ih _ e later

theorem takingClock (qtime : U64) : (Party.clock (m := m) qtime).prog.Each (Taking (k+1)) :=
  eachAtomic (takingNone (by simp))

theorem plainController (i : Fin m) :
    (Party.controller i).prog.Each fun _ ev => ∀ d, ∀ e ∈ ev d, plain e = true := by
  refine eachAtomic fun d e mem => ?_
  unfold controllerSignals at mem
  split at mem
  · rcases List.mem_append.mp mem with own | parents
    · exact signalsPlain _ _ e own
    · exact parentsPlain _ _ e parents
  · cases mem

theorem takingController (i : Fin m) : (Party.controller i).prog.Each (Taking (k+1)) :=
  eachMono (fun _ _ => takingNone) (plainController i)

theorem takingProg (party : Party m) : party.prog.Each (Taking 2) := by
  cases party with
  | call op => exact takingTable.call takingArray op
  | clock qtime => exact takingClock qtime
  | controller i => exact takingController i

theorem fixedProg (party : Party m) : party.prog.Each (Fixed lockStep) := by
  refine eachMono (fun upd ev taking => ?_) (takingProg party)
  obtain ⟨locks,-,fixed⟩ := taking.locks
  exact ⟨locks,fixed⟩

end Sections

section Frees
variable {m : Nat} {own : Key → Prop}

def mayFree : Party m → Key → Prop
  | .call (.destroy _ context seqno),key => key = (context,seqno)
  | .call (.processFenceArray _ array _),key => key = arrayKey array
  -- these go by the handle, whatever fence it is
  | .call (.destroyWithHash _ _),_ | .call (.resetClient _ _),_ => True
  | _,_ => False

def Freeing (own : Key → Prop) (_upd : DriverData m → DriverData m) (ev : DriverData m → List Event) : Prop :=
  ∀ d (i : Fin m), Event.unreserve i.val ∈ ev d → own (d.tbl i).key

theorem freesNone {upd : DriverData m → DriverData m} {ev : DriverData m → List Event}
    (none : ∀ d, ∀ e ∈ ev d, onHold e = false) : Freeing own upd ev := by
  intro d i mem
  cases none d _ mem

theorem plainOff {e : Event} (looks : plain e = true) : onHold e = false := by
  cases e <;> first | rfl | cases looks

theorem freesProbe {op : LookupOp} {context seqno : U64} (clientId : Nat) (pending : U32) (i : Fin m)
    (named : op = .destroy → own (context,seqno)) :
    (probeSlot op context seqno clientId pending i).Each (Freeing own) := by
  refine eachAtomic fun d j mem => ?_
  cases hit : probed op context seqno (d.tbl i) with
  | duplicate | missed => simp [hit] at mem
  | processed =>
    cases op with
    | create | createJoin | findFence => simp [hit,LookupOp.event] at mem
    | destroy =>
      simp only [hit,LookupOp.event,List.mem_cons,Event.unreserve.injEq,List.not_mem_nil,or_false,false_or,
        reduceCtorEq] at mem
      cases Fin.ext mem
      have carries : (d.tbl i).key = (context,seqno) := (matchesProcessed rfl).mp hit
      rw [carries]
      exact named rfl

theorem freesLookup {op : LookupOp} {context seqno : U64} (clientId : Nat) (pending : U32)
    (named : op = .destroy → own (context,seqno)) :
    (hwFenceLookupAndProcess (m := m) op context seqno clientId pending).Each (Freeing own) :=
  lookupEach fun i => freesProbe clientId pending i named

theorem freesCleanup (clientId : Nat) {context seqno : U64} (named : own (context,seqno)) :
    (hwFenceCleanup (m := m) clientId context seqno).Each (Freeing own) := by
  unfold hwFenceCleanup
  refine eachBind (freesLookup _ _ fun _ => named) fun found => ?_
  obtain ⟨fence,hash⟩ := found
  cases fence <;> trivial

theorem freesSignals : SignalSections (m := m) (Freeing own) := by
  refine ⟨fun ev looks => freesNone fun d e mem => plainOff (looks d e mem),
    fun client ctxtId seqno hash flags clientData error queueType => ?_⟩
  refine eachMono (fun upd ev quiet => freesNone fun d e mem => ?_)
    (deliverUpdate client ctxtId seqno hash flags clientData error queueType)
  have aside := (quiet.quiet.2 d e mem).2
  cases e <;> first | rfl | cases aside

theorem freesRegister (fence : Option DmaFence) (client : HwFenceClient) (context seqno clientData : U64) :
    (hwFenceRegisterWaitClient (m := m) fence client context seqno clientData).Each (Freeing own) := by
  unfold hwFenceRegisterWaitClient
  refine eachIte (fun _ => trivial) fun _ => eachBind (freesLookup _ _ (by simp)) fun found => ?_
  obtain ⟨slot,hash⟩ := found
  cases slot with
  | none => trivial
  | some i => exact eachBind (eachAtomic (freesNone (by simp [onHold]))) fun _ => freesSignals.signaled ..

theorem freesChildren (client : HwFenceClient) (join : Fin m) (hash : Nat) (children : List DmaFence) (i : Nat)
    (flag : Bool) : (processChildren client join hash children i flag).Each (Freeing own) := by
  have child : ∀ c, (processChild join c hash).Each (Freeing own) := by
    refine fun c => eachAtomic (freesNone fun d => ?_)
    split
    · simp [onHold]
    · split <;> simp [onHold]
  exact (childrenEach (fun _ _ => freesLookup _ _ (by simp)) child children i
    (fun _ _ _ => freesNone (by simp [onHold])) flag).1

theorem freesFinish (client : HwFenceClient) {array : DmaFenceArray} (join : Fin m) (hash : Nat)
    (clientData : U64) (ended : Except Nat Bool) (named : own (arrayKey array)) :
    (finishArray client array join hash clientData ended).Each (Freeing own) := by
  have destroys : ∀ hash, (hwFenceProcessJoinFence (m := m) array hash false).Each (Freeing own) := fun hash =>
    eachBind (freesCleanup _ named) fun _ => trivial
  have unlink : ∀ c, (unlinkChild (m := m) hash c).Each (Freeing own) := fun c =>
    eachAtomic (freesNone (by simp [onHold]))
  have cleanup : ∀ i, (cleanupJoinAndChildFences (m := m) client i array hash).Each (Freeing own) := fun i =>
    eachBind (eachWhenever fun _ => rollbackEach (fun _ _ => freesLookup _ _ (by simp)) unlink
      fun k _ => freesNone (by simp [onHold])) fun _ => eachBind (destroys _) fun _ => trivial
  cases ended with
  | error i => exact eachBind (cleanup i) fun _ => trivial
  | ok signalJoinFence =>
    refine eachBind (eachWhenever fun _ => eachAtomic (freesNone (by simp))) fun _ =>
      eachIte (fun _ => ?_) fun _ => eachIte (fun _ => ?_) fun _ => trivial
    · exact eachBind (freesSignals.signal ..) fun _ => eachBind (eachAtomic (freesNone (by simp [onHold])))
        fun _ => eachBind (destroys _) fun _ => trivial
    · exact eachBind (cleanup 0) fun _ => trivial

theorem freesArray (client : HwFenceClient) {array : DmaFenceArray} (clientData : U64)
    (named : own (arrayKey array)) :
    (hwFenceProcessFenceArray (m := m) client array clientData).Each (Freeing own) := by
  unfold hwFenceProcessFenceArray
  refine eachIte (fun _ => trivial) fun _ => eachBind (freesLookup _ _ (by simp)) fun found => ?_
  obtain ⟨slot,hash⟩ := found
  cases slot with
  | none => trivial
  | some join =>
    exact eachBind (eachAtomic (freesNone (by simp [onHold]))) fun _ =>
      eachBind (freesChildren ..) fun ended => eachBind (freesFinish _ _ _ _ _ named) fun _ => trivial

theorem freesProg (party : Party m) : party.prog.Each (Freeing (mayFree party)) := by
  cases party with
  | clock qtime => exact eachAtomic (freesNone (by simp))
  | controller i =>
    exact eachMono (fun _ _ plain => freesNone fun d e mem => plainOff (plain d e mem)) (plainController i)
  | call op =>
    cases op with
    | create client context seqno =>
      refine eachBind (eachBind (freesLookup _ _ (by simp)) fun found => ?_) fun _ => trivial
      obtain ⟨fence,hash⟩ := found
      cases fence <;> trivial
    | destroy client context seqno => exact freesCleanup _ rfl
    | destroyWithHash client hash | resetClient client flags =>
      exact eachMono (fun _ _ _ _ _ _ => trivial) (keepsProg (.call _))
    | registerWait fence client context seqno clientData => exact eachBind (freesRegister ..) fun _ => trivial
    | processFence client fence clientData =>
      exact eachBind (eachIte (fun _ => trivial) fun _ => freesRegister ..) fun _ => trivial
    | processFenceArray client array clientData => exact eachBind (freesArray _ _ rfl) fun _ => trivial

end Frees

end MmDrivers.SectionLocks

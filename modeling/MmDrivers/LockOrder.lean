import MmDrivers.SectionLocks

/-! The calls of the driver spin on the words of their locks. Only the section of a child nests two
of them, the child's and then the join fence's; no order of the slots stands behind that, but the
join fences were reserved in some order. -/
namespace MmDrivers.LockOrder
open Sections Sections.Prog Interleaving Interleaving.Rules Runs Locks SpinLocks
open FenceTypes FenceLookup FenceTable FenceSignal JoinFence JoinRun DriverRuns OpSections
open Parties LockBalance SectionLocks
open LinkLedger (onHold)
open JoinAccounting (creator waiter)

section Owners
variable {m : Nat} {ι : Type} (parties : ι → Party m)

def arrayOf : Party m → Option DmaFenceArray
  | .call (.processFenceArray _ array _) => some array
  | _ => none

/-- Call `t` has reserved slot `i` for its join fence, with event `n` of all; nobody has freed the slot
since. -/
def Owns (log : List (ι × Event)) (t : ι) (i n : Nat) : Prop :=
  ∃ array, arrayOf (parties t) = some array ∧
    log[n]? = some (t,.reserve i array.context array.seqno) ∧
    ∀ k u, n < k → log[k]? ≠ some (u,.unreserve i)

def Accurate (w : World ι Event (DriverData m)) : Prop :=
  ∀ t (i : Fin m) n array, arrayOf (parties t) = some array → Owns parties w.log t i.val n →
    w.shared.live (arrayKey array) i

def Spares (busy : ι → Prop) (log : List (ι × Event)) (t : ι) (ev : List Event) : Prop :=
  ∀ u ≠ t, busy u → ∀ (i : Fin m) n, Event.unreserve i.val ∈ ev → ¬ Owns parties log u i.val n

def Ordered (log : List (ι × Event)) (t : ι) (ev : List Event) : Prop :=
  ∀ x y rest, takes lockStep ev = x::y::rest → rest = [] ∧ ∃ c j n, x = .slot c ∧ y = .slot j ∧
    Owns parties log t j n ∧ ∀ u n', Owns parties log u c n' → n < n'

def ordered (busy : ι → Prop) : Rules ι Event (DriverData m) where
  allow t w ev := (takes lockStep ev).length ≤ 1 → Spares parties busy w.log t ev
  move t w ev s := Spares parties busy w.log t ev ∧
    (Accurate parties w → Accurate parties (w.act t ev s)) ∧ (busy t → Ordered parties w.log t ev)

variable {parties} {busy : ι → Prop} {log : List (ι × Event)} {t u : ι} {i n k : Nat} {ev : List Event}
  {w : World ι Event (DriverData m)}

theorem Owns.inside (owns : Owns parties log t i n) : n < log.length := by
  obtain ⟨array,-,reserved,-⟩ := owns
  exact (List.getElem?_eq_some_iff.mp reserved).1

theorem Owns.kept (owns : Owns parties log t i n) (keeps : Event.unreserve i ∉ ev) :
    Owns parties (log ++ ev.map (Prod.mk u)) t i n := by
  have inside := owns.inside
  obtain ⟨array,named,reserved,since⟩ := owns
  refine ⟨array,named,by rwa [List.getElem?_append_left inside],fun k v after freed => ?_⟩
  by_cases old : k < log.length
  · rw [List.getElem?_append_left old] at freed
    exact since k v after freed
  · rw [List.getElem?_append_right (by omega),List.getElem?_map,Option.map_eq_some_iff] at freed
    obtain ⟨e,here,same⟩ := freed
    cases same
    exact keeps (List.mem_of_getElem? here)

theorem Owns.cases (owns : Owns parties (log ++ ev.map (Prod.mk u)) t i n) :
    Owns parties log t i n ∧ Event.unreserve i ∉ ev ∨
      log.length ≤ n ∧ ∀ array, arrayOf (parties t) = some array →
        Event.reserve i array.context array.seqno ∈ ev := by
  obtain ⟨array,named,reserved,since⟩ := owns
  by_cases old : n < log.length
  · rw [List.getElem?_append_left old] at reserved
    refine .inl ⟨⟨array,named,reserved,fun k v after freed => since k v after ?_⟩,fun freed => ?_⟩
    · rwa [List.getElem?_append_left (List.getElem?_eq_some_iff.mp freed).1]
    · obtain ⟨k,here⟩ := List.mem_iff_getElem?.mp freed
      refine since (log.length+k) u (by omega) ?_
      rw [List.getElem?_append_right (by omega),Nat.add_sub_cancel_left,List.getElem?_map,here]
      rfl
  · rw [List.getElem?_append_right (by omega),List.getElem?_map,Option.map_eq_some_iff] at reserved
    obtain ⟨e,here,same⟩ := reserved
    cases same
    refine .inr ⟨by omega,fun other named' => ?_⟩
    cases named.symm.trans named'
    exact List.mem_of_getElem? here

theorem Accurate.act {upd : DriverData m → DriverData m} {ev : DriverData m → List Event}
    (accurate : Accurate parties w) (keeps : KeepsUsed upd ev) (taking : Taking k upd ev) :
    Accurate parties (w.act u (ev w.shared) (upd w.shared)) := by
  intro t i n array named owns
  rcases Owns.cases owns with ⟨before,kept⟩ | ⟨-,reserved⟩
  · have live := accurate t i n array named before
    have later := keeps w.shared i live.1 kept
    rwa [live.2] at later
  · exact taking.reserves w.shared i _ _ (reserved array named)

theorem takingSpares {upd : DriverData m → DriverData m} {ev : DriverData m → List Event}
    (taking : Taking k upd ev) (allowed : (ordered parties busy).allow t w (ev w.shared)) :
    Spares parties busy w.log t (ev w.shared) := by
  by_cases one : (takes lockStep (ev w.shared)).length ≤ 1
  · exact allowed one
  · exact fun _ _ _ i _ freed => absurd freed (taking.nests _ (by omega) i)

theorem orderedOne {upd : DriverData m → DriverData m} {ev : DriverData m → List Event}
    (taking : Taking 1 upd ev) (d : DriverData m) : Ordered parties log t (ev d) := by
  intro x y rest taken
  obtain ⟨locks,few,fixed⟩ := taking.locks
  have short := (fixed d).length_le
  rw [taken,List.length_cons,List.length_cons] at short
  omega

def Simple (upd : DriverData m → DriverData m) (ev : DriverData m → List Event) : Prop :=
  KeepsUsed upd ev ∧ Taking 1 upd ev

def Calm (upd : DriverData m → DriverData m) (ev : DriverData m → List Event) : Prop :=
  Simple upd ev ∧ ∀ d i, Event.unreserve i ∉ ev d

theorem Simple.moves {upd : DriverData m → DriverData m} {ev : DriverData m → List Event}
    (simple : Simple upd ev) (accurate : Accurate parties w)
    (allowed : (ordered parties busy).allow t w (ev w.shared)) :
    (ordered parties busy).move t w (ev w.shared) (upd w.shared) ∧
      Accurate parties (w.act t (ev w.shared) (upd w.shared)) :=
  ⟨⟨takingSpares simple.2 allowed,fun accurate => accurate.act simple.1 simple.2,fun _ => orderedOne simple.2 _⟩,
    accurate.act simple.1 simple.2⟩

end Owners

section Calls
variable {m : Nat} {ι : Type} {parties : ι → Party m} {busy : ι → Prop} {t : ι} {join : Fin m}
  {α : Type}

def Joined (parties : ι → Party m) (t : ι) (join : Fin m) (w : World ι Event (DriverData m)) : Prop :=
  Accurate parties w ∧ ∃ n, Owns parties w.log t join.val n

def Behind (parties : ι → Party m) (t : ι) (join c : Fin m) (w : World ι Event (DriverData m)) : Prop :=
  Accurate parties w ∧ ∃ n, Owns parties w.log t join.val n ∧
    ∀ u n', Owns parties w.log u c.val n' → n < n'

theorem Behind.joined {c : Fin m} {w : World ι Event (DriverData m)} (behind : Behind parties t join c w) :
    Joined parties t join w := by
  obtain ⟨accurate,n,owns,-⟩ := behind
  exact ⟨accurate,n,owns⟩

theorem accurateStable : (ordered parties busy).Stable t (Accurate parties) :=
  fun _ _ _ _ _ move accurate => move.2.1 accurate

theorem joinedStable (own : busy t) : (ordered parties busy).Stable t (Joined parties t join) := by
  intro w u ev s ne move joined
  obtain ⟨accurate,n,owns⟩ := joined
  exact ⟨move.2.1 accurate,n,owns.kept fun freed => move.1 t (Ne.symm ne) own _ n freed owns⟩

theorem Behind.act {c : Fin m} {w : World ι Event (DriverData m)} {u : ι} {ev : List Event} {s : DriverData m}
    (behind : Behind parties t join c w) (accurate : Accurate parties (w.act u ev s))
    (kept : Event.unreserve join.val ∉ ev) : Behind parties t join c (w.act u ev s) := by
  obtain ⟨-,n,owns,later⟩ := behind
  refine ⟨accurate,n,owns.kept kept,fun v n' other => ?_⟩
  have inside := owns.inside
  rcases Owns.cases other with ⟨before,-⟩ | ⟨after,-⟩
  · exact later v n' before
  · omega

theorem behindStable (own : busy t) (c : Fin m) :
    (ordered parties busy).Stable t (Behind parties t join c) := by
  intro w u ev s ne move behind
  obtain ⟨accurate,n,owns⟩ := behind.joined
  exact behind.act (move.2.1 accurate) fun freed => move.1 t (Ne.symm ne) own _ n freed owns

theorem simpleTriple {p : Driver m α} (simple : p.Each Simple) :
    (ordered parties busy).Triple t (Accurate parties) p fun _ => Accurate parties :=
  tripleEach accurateStable (eachMono (fun _ _ simple _ accurate allowed => simple.moves accurate allowed) simple)

theorem calmTriple (own : busy t) {p : Driver m α} (calm : p.Each Calm) :
    (ordered parties busy).Triple t (Joined parties t join) p fun _ => Joined parties t join := by
  refine tripleEach (joinedStable own) (eachMono (fun upd ev calm w joined allowed => ?_) calm)
  obtain ⟨accurate,n,owns⟩ := joined
  obtain ⟨move,later⟩ := calm.1.moves accurate allowed
  exact ⟨move,later,n,owns.kept (calm.2 _ _)⟩

theorem simpleTable : TableSections (m := m) Simple := by
  have kept := keepsTable (m := m)
  have taking := takingTable (m := m) (k := 0)
  exact ⟨⟨fun ev looks => ⟨kept.looks ev looks,taking.looks ev looks⟩,
      fun _ _ _ _ _ _ _ _ => eachAnd (kept.update ..) (taking.update ..)⟩,
    fun _ _ _ _ _ _ => eachAnd (kept.probe ..) (taking.probe ..),
    fun client data i => ⟨kept.wait client data i,taking.wait client data i⟩,
    fun client i => ⟨kept.clear client i,taking.clear client i⟩,
    fun _ => eachAnd (kept.resetQueues _) (taking.resetQueues _)⟩

theorem simpleLooks {ev : DriverData m → List Event} (looks : ∀ d, ∀ e ∈ ev d, plain e = true) :
    Simple id ev := simpleTable.looks ev looks

theorem finishSimple (client : HwFenceClient) (array : DmaFenceArray) (hash : Nat) (clientData : U64)
    (ended : Except Nat Bool) :
    (finishArray (m := m) client array join hash clientData ended).Each Simple := by
  have joins : ∀ hash create, (hwFenceProcessJoinFence (m := m) array hash create).Each Simple :=
    joinEach simpleTable.lookup
  have unlink : ∀ c, (unlinkChild (m := m) hash c).Each Simple := fun c => eachAtomic
    ⟨keepsSlot fun _ f => ⟨(unlinkRelinked hash f).1.valid,(unlinkRelinked hash f).1.key⟩,
      takingSlot [_] (by simp [lockStep,onHold])⟩
  have cleanup : ∀ i, (cleanupJoinAndChildFences (m := m) client i array hash).Each Simple := fun i =>
    eachBind (eachWhenever fun _ => rollbackEach (fun _ _ => simpleTable.lookup ..) unlink
      fun k _ => simpleLooks (by simp [plain])) fun _ => eachBind (joins ..) fun _ => trivial
  cases ended with
  | error i => exact eachBind (cleanup i) fun _ => trivial
  | ok signalJoinFence =>
    refine eachBind (eachWhenever fun _ => eachAtomic ⟨keepsSlot fun _ _ => ⟨rfl,rfl⟩,takingNone (by simp)⟩)
      fun _ => eachIte (fun _ => ?_) fun _ => eachIte (fun _ => ?_) fun _ => trivial
    · exact eachBind (simpleTable.signal ..) fun _ => eachBind (eachAtomic (simpleLooks (by simp [plain])))
        fun _ => eachBind (joins ..) fun _ => trivial
    · exact eachBind (cleanup 0) fun _ => trivial

section Probes
variable {w : World ι Event (DriverData m)} {i : Fin m}

theorem probeMoves (op : LookupOp) {context seqno : U64} (clientId : Nat) (pending : U32)
    (accurate : Accurate parties w) (hit : probed op context seqno (w.shared.tbl i) = .processed) :
    let ev := [.lock i.val,op.event i context seqno,.unlock i.val]
    let s := w.shared.onSlot i (op.processFnc w.shared.qtime clientId context seqno pending)
    (ordered parties busy).allow t w ev →
      (ordered parties busy).move t w ev s ∧ Accurate parties (w.act t ev s) := by
  intro ev s allowed
  have simple := (simpleTable (m := m)).probe op context seqno clientId pending i
  have moves : (ordered parties busy).allow t w _ → _ := simple.1.moves accurate
  simp only [hit] at moves
  exact moves allowed

theorem calmGlance (i : Fin m) : Calm (m := m) id fun _ => [.lock i.val,.unlock i.val] :=
  ⟨⟨fun _ _ used _ => ⟨used,rfl⟩,takingSlot [] (by simp)⟩,by simp⟩

theorem Calm.allowed {upd : DriverData m → DriverData m} {ev : DriverData m → List Event}
    (calm : Calm upd ev) : (ordered parties busy).allow t w (ev w.shared) :=
  fun _ _ _ _ i _ freed => absurd freed (calm.2 _ i)

theorem calmMoves {upd : DriverData m → DriverData m} {ev : DriverData m → List Event}
    (calm : Calm upd ev) (joined : Joined parties t join w) :
    (ordered parties busy).move t w (ev w.shared) (upd w.shared) ∧
      Joined parties t join (w.act t (ev w.shared) (upd w.shared)) := by
  obtain ⟨accurate,n,owns⟩ := joined
  obtain ⟨move,later⟩ := calm.1.moves accurate calm.allowed
  exact ⟨move,later,n,owns.kept (calm.2 _ _)⟩

end Probes

section Triples
variable {client : HwFenceClient} {array : DmaFenceArray} {hash : Nat} (own : busy t)
include own

theorem createTriple (named : arrayOf (parties t) = some array) :
    (ordered parties busy).Triple t (Accurate parties) (hwFenceProcessJoinFence array 0 true)
      fun r w => Accurate parties w ∧ ∀ join, r.1 = some join → Joined parties t join w := by
  refine lookupTriple accurateStable (fun r w u ev s ne move holds => ?_) (fun i w accurate hit allowed => ?_)
    (fun i w accurate => ?_) fun hash w accurate => ⟨accurate,fun join none => by cases none⟩
  · exact ⟨move.2.1 holds.1,fun join same => joinedStable own w u ev s ne move (holds.2 join same)⟩
  · obtain ⟨move,later⟩ := probeMoves .createJoin hwFenceJoinFenceClientId array.numFences accurate hit allowed
    refine ⟨move,later,fun join same => ?_⟩
    cases same
    -- the reservation is the second event of the section
    refine ⟨later,w.log.length+1,array,named,?_,fun k u after freed => ?_⟩
    · rw [World.actLog,List.getElem?_append_right (by omega),Nat.add_sub_cancel_left]
      rfl
    · rw [World.actLog,List.getElem?_append_right (by omega),List.getElem?_map,Option.map_eq_some_iff] at freed
      obtain ⟨e,here,same⟩ := freed
      cases same
      have mem := List.mem_of_getElem? here
      simp [LookupOp.event] at mem
  · exact (calmGlance i).1.moves accurate (calmGlance i).allowed

theorem findTriple {key : Key} (plain : ∀ u other, arrayOf (parties u) = some other → key ≠ arrayKey other) :
    (ordered parties busy).Triple t (Joined parties t join) (msmHwFenceFind (some client) key.1 key.2)
      fun r w => Joined parties t join w ∧ ∀ c, r.1 = some c → Behind parties t join c w := by
  refine lookupTriple (joinedStable own) (fun r w u ev s ne move holds => ?_)
    (fun c w joined hit allowed => ?_) (fun i w joined => calmMoves (calmGlance i) joined)
    fun hash w joined => ⟨joined,fun c none => by cases none⟩
  · exact ⟨joinedStable own w u ev s ne move holds.1,
      fun c same => behindStable own c w u ev s ne move (holds.2 c same)⟩
  · obtain ⟨accurate,n,owns⟩ := joined
    obtain ⟨move,later⟩ := probeMoves .findFence _ 0 accurate hit allowed
    have carries : (w.shared.tbl c).key = key := (matchesProcessed rfl).mp hit
    -- the slot carries the key of a plain fence, so nobody has reserved it for an array
    have behind : Behind parties t join c w := by
      refine ⟨accurate,n,owns,fun u n' other => ?_⟩
      obtain ⟨array,named,-⟩ := id other
      have live := accurate u c n' array named other
      exact absurd (carries.symm.trans live.2) (plain u array named)
    have kept : Event.unreserve join.val ∉ [Event.lock c.val,.found c.val,.unlock c.val] := by simp
    have after := behind.act later kept
    refine ⟨move,after.joined,fun d same => ?_⟩
    cases same
    exact after

theorem childTriple (c : Fin m) : (ordered parties busy).Triple t (Behind parties t join c)
    (processChild join c hash) fun _ => Joined parties t join := by
  refine tripleAtomic (behindStable own c) (fun _ => joinedStable own) fun w behind allowed => ?_
  have accurate := behind.1.act (u := t) (keepsChild join c hash).1 (takingChild join c hash).1
  obtain ⟨-,n,owns,later⟩ := behind
  refine ⟨⟨takingSpares (takingChild join c hash).1 allowed,fun _ => accurate,fun _ x y rest taken => ?_⟩,
    accurate,n,owns.kept ?_⟩
  · split at taken
    · cases taken
      exact ⟨rfl,c.val,join.val,n,rfl,rfl,owns,later⟩
    · split at taken <;> cases taken
  · split
    · simp
    · split <;> simp

theorem childrenTriple (children : List DmaFence) (plain : ∀ child ∈ children, child.isArray = false →
      ∀ u other, arrayOf (parties u) = some other → waitsFor child ≠ arrayKey other) (i : Nat) (flag : Bool) :
    (ordered parties busy).Triple t (Joined parties t join)
      (processChildren client join hash children i flag) fun _ => Joined parties t join := by
  have ended : ∀ r : Except Nat Bool, (ordered parties busy).Triple t (Joined parties t join) (pure r)
      fun _ => Joined parties t join := fun r => triplePure (joinedStable own) fun _ => id
  induction children generalizing i flag with
  | nil => exact ended _
  | cons child rest ih =>
    have later := ih fun child mem => plain child (List.mem_cons_of_mem _ mem)
    unfold processChildren
    refine tripleBind (calmTriple own (eachAtomic ⟨simpleLooks (by simp [OpSections.plain]),by simp⟩)) fun _ =>
      tripleIte (fun _ => ended _) fun accepted => ?_
    have single : child.isArray = false := by
      simpa using fun nested => accepted (.inl nested)
    have find := @findTriple _ _ parties busy _ join client own (waitsFor child) (plain child List.mem_cons_self single)
    refine tripleBind find fun found => ?_
    obtain ⟨slot,_⟩ := found
    cases slot with
    | none => exact tripleMono (fun _ holds => holds.1) (fun _ _ => id) (ended _)
    | some c =>
      refine tripleMono (fun _ holds => holds.2 c rfl) (fun _ _ => id) (tripleBind (childTriple own c) fun step => ?_)
      cases step with
      | exceeded => exact ended _
      | signaled last => exact later _ _
      | linked => exact later _ _

theorem arrayTriple (named : arrayOf (parties t) = some array) (clientData : U64)
    (plain : ∀ child ∈ array.children, child.isArray = false →
      ∀ u other, arrayOf (parties u) = some other → waitsFor child ≠ arrayKey other) :
    (ordered parties busy).Triple t (Accurate parties)
      (hwFenceProcessFenceArray client array clientData) fun _ => Accurate parties := by
  have ended : ∀ r : Status × Option Nat, (ordered parties busy).Triple t (Accurate parties) (pure r)
      fun _ => Accurate parties := fun r => triplePure accurateStable fun _ => id
  unfold hwFenceProcessFenceArray
  refine tripleIte (fun _ => ended _) fun _ => tripleBind (createTriple own named) fun found => ?_
  obtain ⟨slot,hash⟩ := found
  cases slot with
  | none => exact tripleMono (fun _ holds => holds.1) (fun _ _ => id) (ended _)
  | some join =>
    have wait : Calm (m := m) (fun d => d.onSlot join (waitOnJoin client.clientId))
        fun _ => [.lock join.val,.waitBit join.val client.clientId,.unlock join.val] :=
      ⟨⟨keepsSlot fun _ _ => ⟨rfl,rfl⟩,takingSlot [_] (by simp [lockStep,onHold])⟩,by simp⟩
    refine tripleMono (fun _ holds => holds.2 join rfl) (fun _ _ => id)
      (tripleBind (calmTriple own (eachAtomic wait)) fun _ =>
        tripleBind (childrenTriple own array.children plain 0 false) fun ended' => ?_)
    exact tripleMono (fun _ joined => joined.1) (fun _ _ => id)
      (tripleBind (simpleTriple (finishSimple ..)) fun status => ended _)

end Triples

def ChildrenPlain (parties : ι → Party m) : Prop :=
  ∀ t array, arrayOf (parties t) = some array → ∀ child ∈ array.children, child.isArray = false →
    ∀ u other, arrayOf (parties u) = some other → waitsFor child ≠ arrayKey other

theorem callTriple (plain : ChildrenPlain parties) (own : busy t) {op : DriverOp}
    (party : parties t = .call op) :
    (ordered parties busy).Triple t (Accurate parties) op.call fun _ => Accurate parties := by
  have table := simpleTable (m := m)
  cases op with
  | create client context seqno => exact simpleTriple (eachBind (table.create ..) fun _ => trivial)
  | destroy client context seqno => exact simpleTriple (table.cleanup ..)
  | destroyWithHash client hash => exact simpleTriple (table.destroyWithHash ..)
  | registerWait fence client context seqno clientData =>
    exact simpleTriple (eachBind (table.registerWait ..) fun _ => trivial)
  | processFence client fence clientData =>
    exact simpleTriple (eachBind (table.processFence ..) fun _ => trivial)
  | resetClient client flags => exact simpleTriple (table.resetClient ..)
  | processFenceArray client array clientData =>
    have named : arrayOf (parties t) = some array := by
      rw [party]
      rfl
    exact tripleBind (arrayTriple own named clientData (plain t array named)) fun _ =>
      triplePure accurateStable fun _ => id

theorem partyTriple (plain : ChildrenPlain parties) (t : ι) :
    (ordered parties busy).Triple t (Accurate parties) (parties t).prog fun _ => Accurate parties := by
  by_cases own : busy t
  · cases party : parties t with
    | call op => exact callTriple plain own party
    | clock qtime => exact simpleTriple (eachAnd (keepsProg _) (takingClock qtime))
    | controller i => exact simpleTriple (eachAnd (keepsProg _) (takingController i))
  · -- nothing is asked of the locks of a call that is over by then
    refine tripleEach accurateStable (eachMono (fun upd ev both w accurate allowed => ?_)
      (eachAnd (keepsProg (parties t)) (takingProg (parties t))))
    have later := accurate.act (u := t) both.1 both.2
    exact ⟨⟨takingSpares both.2 allowed,fun _ => later,fun here => absurd here own⟩,later⟩

end Calls

section Told
variable {m : Nat} {ι : Type} {parties : ι → Party m}

structure Told (parties : ι → Party m) (c : Config ι Event (DriverData m) Status) : Prop where
  accurate : Accurate parties c.world
  each : ∀ t, (c.threads t).Each fun upd ev =>
    (KeepsUsed upd ev ∧ Taking 2 upd ev) ∧ Freeing (mayFree (parties t)) upd ev

theorem toldPool (parties : ι → Party m) (d : DriverData m) : Told parties (pool parties d) := by
  refine ⟨fun u i n array _ owns => absurd owns.inside (Nat.not_lt_zero _),fun t => ?_⟩
  exact eachAnd (eachAnd (keepsProg _) (takingProg _)) (freesProg _)

/-- Another call is about an array whose key `t` may free: it destroys that key or processes that array
too, or it goes by handles. -/
def Loose (parties : ι → Party m) (t : ι) : Prop :=
  ∃ u ≠ t, ∃ array, arrayOf (parties u) = some array ∧ mayFree (parties t) (arrayKey array)

variable [DecidableEq ι]

theorem Told.turn {c : Config ι Event (DriverData m) Status} (told : Told parties c) (t : ι) :
    Told parties (c.turn t) := by
  refine ⟨?_,Config.turnEach told.each t⟩
  rcases Config.turnRuns (told.each t) with ⟨same,-⟩ | ⟨upd,ev,⟨⟨keeps,taking⟩,-⟩,-,ran⟩
  · rw [same]
    exact told.accurate
  · rw [ran]
    exact told.accurate.act keeps taking

theorem Told.spares {c : Config ι Event (DriverData m) Status} (told : Told parties c) {t : ι}
    (tight : ¬ Loose parties t) (busy : ι → Prop) :
    Spares parties busy c.world.log t (c.offers t) := by
  intro u ne _ i n freed owns
  rcases Config.turnRuns (told.each t) with ⟨-,none⟩ | ⟨upd,ev,⟨-,frees⟩,offered,-⟩
  · rw [none] at freed
    cases freed
  · rw [offered] at freed
    obtain ⟨array,named,-⟩ := id owns
    have live := told.accurate u i n array named owns
    have own := frees _ i freed
    rw [live.2] at own
    exact tight ⟨u,ne,array,named,own⟩

end Told

section Spinning
variable {m : Nat} {ι : Type} [DecidableEq ι] {parties : ι → Party m}

def spinners (parties : ι → Party m) (d : DriverData m) : Spin ι Event Lock (DriverData m) Status :=
  Spin.begin (pool parties d)

def spin (s : Spin ι Event Lock (DriverData m) Status) (t : ι) : Spin ι Event Lock (DriverData m) Status :=
  s.turn lockStep t

/-- The section that `t` runs next, if it has all its locks, frees no join fence of another call that
is still under way. -/
def KeepsJoins (parties : ι → Party m) (s : Spin ι Event Lock (DriverData m) Status) (t : ι) : Prop :=
  s.wants lockStep t = none →
    Spares parties (fun u => s.config.result u = none) s.config.world.log t (s.config.offers t)

theorem nestedHeld {s : Spin ι Event Lock (DriverData m) Status} {busy : ι → Prop} (fits : s.Fits lockStep)
    (sound : (ordered parties busy).Sound (fun _ _ => Accurate parties) s.config) {t : ι} (own : busy t)
    (holds : s.held t ≠ []) {l : Lock} (wants : s.wants lockStep t = some l) :
    ∃ c j n, s.held t = [.slot c] ∧ l = .slot j ∧ Owns parties s.config.world.log t j n ∧
      ∀ u n', Owns parties s.config.world.log u c n' → n < n' := by
  have taking := fits.taking wants
  obtain ⟨x,rest,held⟩ := List.exists_cons_of_ne_nil holds
  obtain ⟨more,taken⟩ := taking
  rw [held] at taken
  have nested : ¬ (takes lockStep (s.config.offers t)).length ≤ 1 := by
    rw [← taken]
    simp
  have moved := (soundTurn sound (t := t) fun one => absurd one nested).1
  rcases moved with ended | move
  · rw [Spin.wantsRunning wants] at ended
    cases ended
  · cases rest with
    | nil =>
      obtain ⟨none,c,j,n,first,second,owns,later⟩ := move.2.2 own x l more taken.symm
      exact ⟨c,j,n,by rw [held,first],second,owns,later⟩
    | cons y rest =>
      obtain ⟨none,-⟩ := move.2.2 own x y _ taken.symm
      simp at none

theorem spinnersServed (plain : ChildrenPlain parties) (d : DriverData m) (schedule : List ι)
    (kept : Along spin (fun s t => Loose parties t → KeepsJoins parties s t) (spinners parties d) schedule) :
    let s := after spin (spinners parties d) schedule
    (∀ l t u, l ∈ s.held t → l ∈ s.held u → t = u) ∧ ∀ t, s.config.result t = none →
      ∃ u, Relation.ReflTransGen (s.WaitsFor lockStep) t u ∧ s.Moves lockStep u := by
  intro s
  have fits : s.Fits lockStep := (Spin.fitsBegin fun t => fixedProg (parties t)).after schedule
  obtain ⟨turns,same,along⟩ := Spin.ranTurns lockStep (spinners parties d) schedule
  have careful := along (fun c t => Loose parties t →
    Spares parties (fun u => c.result u = none) c.world.log t (c.offers t))
    (alongMono (fun _ _ kept ready loose => kept loose ready) kept)
  -- whoever is under way at the end was so throughout
  let busy : ι → Prop := fun u => s.config.result u = none
  have allowed : Along Config.turn (fun c t => (ordered parties busy).allow t c.world (c.offers t))
      (pool parties d) turns := by
    refine alongSplit.mpr fun pre t post split _ => ?_
    have told := invariantAlways (Told parties) (fun _ t told => told.turn t) (toldPool parties d) pre
    by_cases loose : Loose parties t
    · intro u ne running
      have last : (after Config.turn (after Config.turn (pool parties d) pre) (t::post)).result u = none := by
        rw [← afterAppend,← split]
        exact (congrArg (Config.result · u) same).symm.trans running
      exact alongSplit.mp careful pre t post split loose u ne (Config.runningBefore last)
    · exact told.spares loose busy
  have start : (ordered parties busy).Sound (fun _ _ => Accurate parties) (pool parties d) :=
    fun t => partyTriple plain t _ (toldPool parties d).accurate
  have sound := (soundRun start allowed).2
  have last : Runs.after Config.turn (pool parties d) turns = s.config := same.symm
  rw [last] at sound
  have ranks : ∀ t, ∃ n, s.held t ≠ [] → ∀ l, s.wants lockStep t = some l →
      ∃ c j, s.held t = [.slot c] ∧ l = .slot j ∧ Owns parties s.config.world.log t j n ∧
        ∀ u n', Owns parties s.config.world.log u c n' → n < n' := by
    intro t
    by_cases nested : s.held t ≠ [] ∧ ∃ l, s.wants lockStep t = some l
    · obtain ⟨holds,l,wants⟩ := nested
      obtain ⟨c,j,n,found⟩ := nestedHeld fits sound (Spin.wantsRunning wants) holds wants
      refine ⟨n,fun _ l' wants' => ?_⟩
      cases wants.symm.trans wants'
      exact ⟨c,j,found⟩
    · exact ⟨0,fun holds l wants => absurd ⟨holds,l,wants⟩ nested⟩
  choose rank ranked using ranks
  refine ⟨fits.apart,fun t running => fits.served rank (fun t u v holds waits later => ?_) running⟩
  obtain ⟨l,wants,mem⟩ := waits
  obtain ⟨l',wants',-⟩ := later
  obtain ⟨c,j,-,rfl,owns,-⟩ := ranked t holds l wants
  obtain ⟨c',j',held,-,-,behind⟩ := ranked u (List.ne_nil_of_mem mem) l' wants'
  rw [held,List.mem_singleton] at mem
  cases mem
  exact behind t _ owns

end Spinning

section Runs

def singleArray (context child : U64) : DmaFenceArray where
  context := context
  seqno := 1
  numFences := 1
  fences := some fun _ => some ⟨child,1,false,true⟩
  filled := fun _ _ => ⟨_,rfl,rfl⟩

theorem singleChild {context child : U64} {fence : DmaFence}
    (mem : fence ∈ (singleArray context child).children) : fence = ⟨child,1,false,true⟩ := by
  have length : (singleArray context child).children.length = 1 := (singleArray context child).childrenLength
  obtain ⟨only,same⟩ := List.length_eq_one_iff.mp length
  have inside : 0 < (1 : U32).toNat := by decide
  have first := (singleArray context child).childrenAt inside
  rw [same] at mem first
  cases List.mem_singleton.mp mem
  exact Option.some.inj first

theorem threeSlots : 3 < 2^32 := by decide
theorem lastSlot : 2 < 3 := by decide
theorem twoSlots : 2 < 2^32 := by decide
theorem leftSlot : 0 < 2 := by decide
theorem rightSlot : 1 < 2 := by decide

inductive Racer where
  | left | right | freesLeft | freesRight | createsLeft | createsRight | signalsLeft | signalsRight
  deriving DecidableEq

def contending : Racer → Party 3
  | .left => .call (.processFenceArray waiter (singleArray 3 1) 0)
  | .right => .call (.processFenceArray waiter (singleArray 4 1) 0)
  | .createsLeft => .call (.create creator 1 1)
  | .signalsLeft => .controller ⟨2,lastSlot⟩
  | _ => .clock 0

def contention : List Racer :=
  [Racer.createsLeft,Racer.createsLeft,Racer.signalsLeft] ++ List.replicate 10 Racer.left ++
    List.replicate 14 Racer.right

theorem contendingPlain : ChildrenPlain contending := by
  intro t array named child mem _ u other named'
  cases t <;> cases named <;> cases singleChild mem <;> cases u <;> cases named' <;> decide

theorem contendingTight (t : Racer) : ¬ Loose contending t := by
  rintro ⟨u,ne,array,named,frees⟩
  cases t <;> cases u <;> cases named <;> first | exact ne rfl | cases frees

theorem contendingServed :
    let s := after spin (spinners contending (zeroTable (.unused 3 threeSlots))) contention
    s.held .left = [.slot 2] ∧ s.wants lockStep .right = some (.slot 2) ∧
      ∃ u, Relation.ReflTransGen (s.WaitsFor lockStep) .right u ∧ s.Moves lockStep u := by
  refine ⟨by decide +kernel,by decide +kernel,?_⟩
  exact (spinnersServed contendingPlain _ contention
    (alongAlways fun _ t loose => absurd loose (contendingTight t))).2 .right (by decide +kernel)

def freeing : Racer → Party 2
  | .left => .call (.processFenceArray waiter (singleArray 3 1) 0)
  | .right => .call (.processFenceArray waiter (singleArray 4 2) 0)
  | .freesLeft => .call (.destroy creator 3 1)
  | .freesRight => .call (.destroy creator 4 1)
  | .createsLeft => .call (.create creator 1 1)
  | .createsRight => .call (.create creator 2 1)
  | .signalsLeft => .controller ⟨0,leftSlot⟩
  | .signalsRight => .controller ⟨1,rightSlot⟩

def freed : List Racer :=
  List.replicate 5 Racer.left ++ List.replicate 5 Racer.right ++ List.replicate 2 Racer.freesLeft ++
    List.replicate 4 Racer.createsRight ++ List.replicate 2 Racer.freesRight ++
    List.replicate 4 Racer.createsLeft ++ [Racer.signalsLeft,Racer.signalsRight] ++
    List.replicate 4 Racer.left ++ List.replicate 4 Racer.right ++ [Racer.left,Racer.right]

theorem freeingPlain : ChildrenPlain freeing := by
  intro t array named child mem _ u other named'
  cases t <;> cases named <;> cases singleChild mem <;> cases u <;> cases named' <;> decide

theorem freedJoinsDeadlock : ChildrenPlain freeing ∧
    let s := after spin (spinners freeing (zeroTable (.unused 2 twoSlots))) freed
    s.config.result .left = none ∧ ∀ u, Relation.ReflTransGen (s.WaitsFor lockStep) .left u → ¬ s.Moves lockStep u := by
  refine ⟨freeingPlain,by decide +kernel,?_⟩
  generalize same : after spin (spinners freeing (zeroTable (.unused 2 twoSlots))) freed = s
  have wants : s.wants lockStep .left = some (.slot 0) ∧ s.wants lockStep .right = some (.slot 1) := by
    rw [← same]
    decide +kernel
  have locked : s.locked (.slot 0) = true ∧ s.locked (.slot 1) = true := by
    rw [← same]
    decide +kernel
  have holders : ∀ u, (.slot 0 ∈ s.held u → u = .right) ∧ (.slot 1 ∈ s.held u → u = .left) := by
    rw [← same]
    intro u
    cases u <;> decide +kernel
  have pair : ∀ u, Relation.ReflTransGen (s.WaitsFor lockStep) .left u → u = .left ∨ u = .right := by
    intro u chain
    induction chain with
    | refl => exact .inl rfl
    | tail _ last ih =>
      obtain ⟨l,next,mem⟩ := last
      rcases ih with rfl | rfl
      · cases wants.1.symm.trans next
        exact .inr ((holders _).1 mem)
      · cases wants.2.symm.trans next
        exact .inl ((holders _).2 mem)
  intro u chain moves
  rcases pair u chain with rfl | rfl
  · exact absurd (moves.2 _ wants.1) (by simp [locked])
  · exact absurd (moves.2 _ wants.2) (by simp [locked])

end Runs
end MmDrivers.LockOrder

import Mathlib
import MmDrivers.ChildLinks
import MmDrivers.JoinAccounting

/-! A fence-array call that nobody interrupts: what it answers, whom it signals and
what exactly it leaves of the table. -/
namespace MmDrivers.ArrayOutcome
open Sections Sections.Prog FenceTypes FenceLookup FenceTable FenceSignal JoinFence JoinRun Probe
open ChildLinks
open JoinAccounting (isJoin creator waiter)

section Reads
variable {m n : Nat}

/-- A section that reads entries of `fences` below `n` only. -/
def ReadsBelow (n : Nat) (_upd : DriverData m → DriverData m) (ev : DriverData m → List Event) : Prop :=
  ∀ d, ∀ i, .fencesAt i ∈ ev d → i < n

theorem probeReads (op : LookupOp) (context seqno : U64) (clientId : Nat) (pending : U32)
    (i : Fin m) : (probeSlot op context seqno clientId pending i).Each (ReadsBelow n) := by
  refine eachAtomic fun d k mem => ?_
  cases hit : probed op context seqno (d.tbl i) <;> simp only [hit] at mem
  · cases op <;> simp [LookupOp.event] at mem
  · simp at mem
  · simp at mem

theorem signalReads (client : HwFenceClient) (fence : Fin m) (hash : Nat) (flags clientData : U64)
    (error : U32) : (fenceCtlSignal client fence hash flags clientData error).Each (ReadsBelow n) := by
  have delivered : ∀ upd ev, Delivery (m := m) upd ev → ReadsBelow n upd ev := by
    intro upd ev delivery d i mem
    have sent := delivery.2 d _ mem
    cases sent
  unfold fenceCtlSignal emit
  refine eachBind (eachAtomic fun d i mem => by cases mem) fun context =>
    eachBind (eachAtomic fun d i mem => by cases mem) fun seqno => ?_
  refine eachBind (eachAtomic fun d i mem => by simp at mem) fun _ => ?_
  exact eachMono delivered (deliverEach ..)

theorem callReads (client : HwFenceClient) (array : DmaFenceArray) (clientData : U64) :
    (hwFenceProcessFenceArray (m := m) client array clientData).Each
    (ReadsBelow (max array.numFences.toNat 1)) := by
  refine callEach ⟨probeReads,fun join c hash => eachAtomic fun d i mem => ?_,
    fun hash c => eachAtomic fun d i mem => ?_,fun join d i mem => ?_,fun _ join d i mem => ?_,
    signalReads client,fun d i mem => ?_,fun k inside d i mem => ?_⟩
  · split at mem
    · simp at mem
    · split at mem <;> simp at mem
  · simp at mem
  · simp at mem
  · cases mem
  · simp at mem
  · cases List.mem_singleton.mp mem
    exact inside

end Reads

section Call
variable {m : Nat} {d : DriverData m} {join : Fin m} {client : HwFenceClient} {array : DmaFenceArray}
  {clientData : U64}

/-- The probes for the key end at that free slot. -/
def Creates (d : DriverData m) (key : Key) (join : Fin m) : Prop :=
  (d.tbl join).valid = false ∧
    ∀ j ∈ before (firstHash m key) join, (d.tbl j).valid = true ∧ (d.tbl j).key ≠ key

def TakesData (client : HwFenceClient) (clientData : U64) : Prop :=
  clientData = 0 ∨ (hwFenceGetClientDataId client.clientId).isSome = true

instance (client : HwFenceClient) (clientData : U64) : Decidable (TakesData client clientData) :=
  inferInstanceAs (Decidable (_ ∨ _))

theorem joinCreated (creates : Creates d (arrayKey array) join) :
    (hwFenceProcessJoinFence array 0 true).run d = ((some join,join.val),
      d.onSlot join (reserveJoinFence d.qtime hwFenceJoinFenceClientId array.context array.seqno
        array.numFences)) := by
  have creating : LookupOp.createJoin.creates = true := rfl
  have hit : probed .createJoin array.context array.seqno (d.tbl join) = .processed :=
    (createsProcessed creating).mpr creates.1
  have missed : ∀ j ∈ before (firstHash m (array.context,array.seqno)) join,
      probed .createJoin array.context array.seqno (d.tbl j) = .missed :=
    fun j mem => (createsMissed creating).mpr (creates.2 j mem)
  unfold hwFenceProcessJoinFence
  rw [if_pos rfl,lookupStops (by rw [hit]; simp) missed,if_pos hit]
  rfl

theorem joinRefused (none : ∀ join, ¬ Creates d (arrayKey array) join) :
    ∃ hash, (hwFenceProcessJoinFence array 0 true).run d = ((Option.none,hash),d) := by
  unfold hwFenceProcessJoinFence
  rw [if_pos rfl]
  generalize ran : (hwFenceLookupAndProcess .createJoin array.context array.seqno
    hwFenceJoinFenceClientId array.numFences).run d = r
  obtain ⟨⟨slot,hash⟩,d'⟩ := r
  cases slot with
  | none => exact ⟨hash,by rw [lookupNone ran]⟩
  | some i =>
    obtain ⟨-,hit,missed,-⟩ := lookupSome ran
    exact absurd ⟨(createsProcessed rfl).mp hit,fun j mem => (createsMissed rfl).mp (missed j mem)⟩
      (none i)

theorem joinQuiet (array : DmaFenceArray) (hash : Nat) (create : Bool) (d : DriverData m) :
    signals ((hwFenceProcessJoinFence (m := m) array hash create).events d) = [] ∧
      ∀ i, .fencesAt i ∉ (hwFenceProcessJoinFence (m := m) array hash create).events d := by
  refine ⟨silentEvents (joinEach silentLookup ..) d,fun i mem => ?_⟩
  have reads : ∀ upd ev, ReadsBelow (m := m) 0 upd ev →
      ∀ s, ∀ e ∈ ev s, ∀ i, e = .fencesAt i → i < 0 := by
    rintro upd ev reads s e mem i rfl
    exact reads s i mem
  have lookups : (hwFenceProcessJoinFence (m := m) array hash create).Each (ReadsBelow 0) :=
    joinEach (fun _ _ _ _ _ => lookupEach fun _ => probeReads ..) hash create
  exact Nat.not_lt_zero _ (eachEvents lookups reads d _ mem i rfl)

theorem TakesData.admitted (takes : TakesData client clientData) :
    ¬ (clientData ≠ 0 ∧ (hwFenceGetClientDataId client.clientId).isNone = true) := by
  rintro ⟨some,none⟩
  rcases takes with zero | place
  · exact some zero
  · simp [Option.isNone_iff_eq_none.mp none] at place

theorem callRefused (refused : ¬ (TakesData client clientData ∧ ∃ join, Creates d (arrayKey array) join)) :
    ((hwFenceProcessFenceArray client array clientData).run d).1.1 = .error .einval ∧
    ((hwFenceProcessFenceArray client array clientData).run d).2 = d ∧
    signals ((hwFenceProcessFenceArray client array clientData).events d) = [] ∧
    ∀ i, .fencesAt i ∉ (hwFenceProcessFenceArray client array clientData).events d := by
  by_cases takes : TakesData client clientData
  · obtain ⟨hash,ran⟩ := joinRefused fun join creates => refused ⟨takes,join,creates⟩
    have quiet := joinQuiet array 0 true d
    simp only [hwFenceProcessFenceArray,if_neg takes.admitted,runBind,eventsBind,ran]
    exact ⟨rfl,rfl,by simpa using quiet.1,by simpa using quiet.2⟩
  · have refused : clientData ≠ 0 ∧ (hwFenceGetClientDataId client.clientId).isNone = true := by
      simpa [TakesData] using takes
    rw [hwFenceProcessFenceArray,if_pos refused]
    exact ⟨rfl,rfl,rfl,fun i mem => by cases mem⟩

theorem callCreates {client : HwFenceClient} (takes : TakesData client clientData)
    (creates : Creates d (arrayKey array) join) :
    let ended := (processChildren client join join.val array.children 0 false).run
      (joined client array 0 join d)
    let finished := finishArray client array join join.val clientData ended.1
    (hwFenceProcessFenceArray client array clientData).run d =
        (((finished.run ended.2).1,some join.val),(finished.run ended.2).2) ∧
      ∃ events, signals events = [] ∧ (∀ i, .fencesAt i ∉ events) ∧
        (hwFenceProcessFenceArray client array clientData).events d = events ++
          (processChildren client join join.val array.children 0 false).events
            (joined client array 0 join d) ++ finished.events ended.2 := by
  have ran := joinCreated creates
  obtain ⟨silent,reads⟩ := joinQuiet array 0 true d
  have reserved : (d.onSlot join (reserveJoinFence d.qtime hwFenceJoinFenceClientId array.context
      array.seqno array.numFences)).onSlot join (waitOnJoin client.clientId) =
      joined client array 0 join d := by
    simp [joined,DriverData.onSlot]
  simp only [hwFenceProcessFenceArray,if_neg takes.admitted,runBind,eventsBind,ran,runAtomic,
    eventsAtomic,reserved]
  refine ⟨rfl,(hwFenceProcessJoinFence (m := m) array 0 true).events d ++
    [.lock join,.waitBit join client.clientId,.unlock join],?_,fun i mem => ?_,?_⟩
  · rw [signalsAppend,silent]
    rfl
  · rcases List.mem_append.mp mem with early | late
    · exact reads i early
    · simp at late
  · simp

end Call

section Finish
variable {m : Nat} {d d' : DriverData m} {join : Fin m} {client : HwFenceClient} {array : DmaFenceArray}
  {clientData : U64}

theorem destroyCreated (creates : Creates d (arrayKey array) join)
    (own : (d'.tbl join).key = arrayKey array) (others : ∀ x ≠ join, (d'.tbl x).key = (d.tbl x).key)
    (hash : Nat) :
    ((hwFenceProcessJoinFence array hash false).run d').2 = d'.onSlot join unreserveHwFence := by
  have hit : probed .destroy array.context array.seqno (d'.tbl join) = .processed :=
    (matchesProcessed rfl).mpr own
  have missed : ∀ j ∈ before (firstHash m (array.context,array.seqno)) join,
      probed .destroy array.context array.seqno (d'.tbl j) = .missed := by
    intro j early
    have used := creates.2 j early
    have ne : j ≠ join := by
      rintro rfl
      have free := creates.1
      rw [used.1] at free
      cases free
    refine (matchesMissed rfl).mpr ?_
    rw [others j ne]
    exact used.2
  have destroyed : (hwFenceLookupAndProcess .destroy array.context array.seqno
      hwFenceJoinFenceClientId 0).run d' = ((some join,join.val),d'.onSlot join unreserveHwFence) := by
    rw [lookupStops (by rw [hit]; simp) missed,if_pos hit]
    rfl
  simp only [hwFenceProcessJoinFence,Bool.false_eq_true,if_false,runBind,cleanupRun,destroyed]
  rfl

theorem rollbackSilent (i : Nat) (d : DriverData m) :
    signals ((cleanupJoinAndChildFences client i array join.val).events d) = [] := by
  have find : ∀ context seqno, (msmHwFenceFind (m := m) (some client) context seqno).Each Silent :=
    fun _ _ => silentLookup ..
  have unlink : ∀ c, (unlinkChild (m := m) join.val c).Each Silent := by
    refine fun c => eachAtomic fun d e mem => ?_
    simp only [List.mem_cons,List.not_mem_nil,or_false] at mem
    rcases mem with rfl | rfl | rfl <;> rfl
  have children := @rollbackEach m Silent client array join.val find unlink (i+1) fun k _ d e mem => by
    rw [List.mem_singleton.mp mem]
    rfl
  unfold cleanupJoinAndChildFences
  refine silentEvents (eachBind (eachWhenever fun _ => children) fun _ => ?_) d
  exact eachBind (joinEach silentLookup ..) fun _ => trivial

theorem loopSilent (client : HwFenceClient) (array : DmaFenceArray) (join : Fin m)
    (d : DriverData m) :
    signals ((processChildren client join join.val array.children 0 false).events d) = [] := by
  have find : ∀ context seqno, (msmHwFenceFind (m := m) (some client) context seqno).Each Silent :=
    fun _ _ => silentLookup ..
  have child : ∀ c, (processChild join c join.val).Each Silent := by
    refine fun c => eachAtomic fun d e mem => ?_
    split at mem
    · simp only [List.mem_cons,List.not_mem_nil,or_false] at mem
      rcases mem with rfl | rfl | rfl | rfl <;> rfl
    · split at mem <;> simp only [List.mem_cons,List.not_mem_nil,or_false] at mem
      · rcases mem with rfl | rfl <;> rfl
      · rcases mem with rfl | rfl | rfl <;> rfl
  refine silentEvents (childrenEach find child array.children 0 (fun k _ _ d e mem => ?_) false).1 d
  rw [List.mem_singleton.mp mem]
  rfl

theorem finishFailed (client : HwFenceClient) (array : DmaFenceArray) (join : Fin m) (clientData : U64)
    (i : Nat) (d : DriverData m) :
    (finishArray client array join join.val clientData (.error i)).run d =
        (.error .einval,((cleanupJoinAndChildFences client i array join.val).run d).2) ∧
      signals ((finishArray client array join join.val clientData (.error i)).events d) = [] := by
  simp only [finishArray,runBind,eventsBind,pureRet,runRet,eventsRet,List.append_nil]
  exact ⟨trivial,rollbackSilent i d⟩

theorem storeSilent (d : DriverData m) : (whenever (clientData ≠ 0) (atomic
    (fun d => d.onSlot join (setClientData client.clientId clientData)) (fun _ => ([] : List Event))
    (fun _ => ()))).events d = [] := by
  unfold whenever
  split <;> simp

theorem finishWaits (some : array.numFences ≠ 0) (d : DriverData m) :
    (finishArray client array join join.val clientData (.ok false)).run d =
        (.ok (),d.onSlot join (storeClientData client clientData)) ∧
      signals ((finishArray client array join join.val clientData (.ok false)).events d) = [] := by
  have stores := @storeRun m join client clientData d
  simp only [finishArray,some,runBind,eventsBind,storeSilent,if_false,Bool.false_eq_true,pureRet,
    runRet,eventsRet,stores]
  exact ⟨trivial,rfl⟩

theorem finishCompletes (d : DriverData m) :
    let r := (finishArray client array join join.val clientData (.ok true)).run d
    let events := (finishArray client array join join.val clientData (.ok true)).events d
    r = (.ok (),((hwFenceProcessJoinFence array join.val false).run
        (afterSignal client clientData join d)).2) ∧
      signals events = [⟨client.clientId,(d.tbl join).ctxId,(d.tbl join).seqId,join.val,0,0,
        clientData.setWidth 32⟩] ∧
      .setSignaledBit array.context array.seqno ∈ events := by
  have stores := @storeRun m join client clientData d
  have signaled := (signalRun client join join.val 0 0 (clientData.setWidth 32)
    (d.onSlot join (storeClientData client clientData))).2
  have quiet := (joinQuiet array join.val false (afterSignal client clientData join d)).1
  have stored : (storeClientData client clientData (d.tbl join)).key = (d.tbl join).key := by
    rw [storeKeeps]
    rfl
  rw [DriverData.onSlotSame,show (storeClientData client clientData (d.tbl join)).ctxId =
    (d.tbl join).ctxId from congrArg Prod.fst stored,show (storeClientData client clientData
    (d.tbl join)).seqId = (d.tbl join).seqId from congrArg Prod.snd stored] at signaled
  dsimp only
  unfold afterSignal at quiet ⊢
  simp only [finishArray,emit,runBind,eventsBind,storeSilent,if_true,pureRet,runRet,eventsRet,stores,
    runAtomic,eventsAtomic,id_eq,signalsAppend,signaled,quiet]
  exact ⟨trivial,rfl,by simp⟩

theorem loopStops (client : HwFenceClient) (tidy : Tidy d) (fresh : ∀ i, ¬ d.live (arrayKey array) i)
    (contexts : ∀ child ∈ array.children, child.context ≠ 0) (creates : Creates d (arrayKey array) join) :
    let r := (processChildren client join join.val array.children 0 false).run
      (joined client array 0 join d)
    Stops array.numFences.toNat join (joined client array 0 join d) array.children r ∧
      ∃ i, Touched (fun _ => True) array join (joined client array 0 join d) i r.2 := by
  have pending : ((joined client array 0 join d).tbl join).pendingChildCnt.toNat =
      array.numFences.toNat := by
    rw [joinedSlot]
  have stops := childrenStop client (joinedTidy client 0 tidy creates.1 fresh) contexts
    (show ([] ++ array.children).length ≤ array.numFences.toNat by simp)
    (Progress.start join (joined client array 0 join d) pending) (by simp)
  obtain ⟨i,touched,-⟩ := childrenTouched client false rfl
    (Touched.start (fun _ => True) array join (joined client array 0 join d))
  exact ⟨stops,i,touched⟩

end Finish

section Failure
variable {m : Nat} {d d' : DriverData m} {join : Fin m} {client : HwFenceClient} {array : DmaFenceArray}
  {clientData : U64}

def SameFences (d d' : DriverData m) : Prop :=
  ∀ x, (d'.tbl x).valid = (d.tbl x).valid ∧ ((d.tbl x).valid = true → d'.tbl x = d.tbl x)

theorem rollbackRestores {i j : Nat} {data : U64} (creates : Creates d (arrayKey array) join)
    (trimmed : ∀ x, (d.tbl x).valid = true → Trimmed (d.tbl x))
    (unlisted : ∀ x, (d.tbl x).valid = true → join.val ∉ (d.tbl x).parents) (early : i ≤ j+1)
    (touched : Touched (fun x => (d.tbl x).valid = true) array join
      (joined client array data join d) i d') :
    SameFences d ((cleanupJoinAndChildFences client j array join.val).run d').2 := by
  have other : ∀ x, (d.tbl x).valid = true → x ≠ join := by
    rintro x used rfl
    have free := creates.1
    rw [used] at free
    cases free
  have kept : ∀ x ≠ join, (joined client array data join d).tbl x = d.tbl x := by
    intro x ne
    rw [joinedTbl,Function.update_of_ne ne]
  have undone : Touched (fun x => (d.tbl x).valid = true) array join (joined client array data join d) 0
      ((whenever array.fences.isSome (cleanupChildren client array join.val (j+1))).run d').2 := by
    unfold whenever
    split
    · refine rollbackTouched client (fun x used => ?_) (fun x used => ?_) (touched.mono early)
      · rw [kept x (other x used)]
        exact trimmed x used
      · rw [kept x (other x used)]
        exact unlisted x used
    · -- without a fences pointer no child was looked up
      rename_i none
      have none : array.fences = Option.none := by simpa using none
      refine ⟨touched.linking,fun x here => ?_⟩
      obtain ⟨k,same,room,found⟩ := touched.links x here
      refine ⟨k,same,room,fun some => ?_⟩
      obtain ⟨a,-,child,at_,-⟩ := found some
      simp [DmaFenceArray.child,none] at at_
  have destroyed := destroyCreated creates
    (((undone.linking.live _ _).mpr (joinedLive client array data join d)).2)
    (fun x ne => by rw [(undone.linking.slots x).key,kept x ne]) join.val
  simp only [cleanupJoinAndChildFences,runBind,pureRet,runRet]
  intro x
  generalize (run _ d').2 = d'' at undone destroyed ⊢
  rw [destroyed]
  by_cases xj : x = join
  · subst xj
    rw [DriverData.onSlotSame,creates.1]
    exact ⟨rfl,fun used => (by cases used)⟩
  · rw [DriverData.onSlotOther _ _ xj]
    refine ⟨by rw [(undone.linking.slots x).valid,kept x xj],fun used => ?_⟩
    rw [undone.untouched used xj,kept x xj]

theorem emptyChildren (empty : array.numFences = 0) : array.children = [] := by
  refine List.eq_nil_of_length_eq_zero ?_
  rw [array.childrenLength,empty]
  rfl

theorem failureAtomic (client : HwFenceClient) (array : DmaFenceArray) (clientData : U64)
    (names : ∀ x, (d.tbl x).valid = true → ∀ p ∈ (d.tbl x).parents, ∃ j : Fin m, j.val = p ∧ isJoin d j)
    (trimmed : ∀ x, (d.tbl x).valid = true → Trimmed (d.tbl x)) {errno : Errno}
    (failed : ((hwFenceProcessFenceArray client array clientData).run d).1.1 = .error errno) :
    SameFences d ((hwFenceProcessFenceArray client array clientData).run d).2 ∧
      signals ((hwFenceProcessFenceArray client array clientData).events d) = [] := by
  by_cases gets : TakesData client clientData ∧ ∃ join, Creates d (arrayKey array) join
  · obtain ⟨takes,join,creates⟩ := gets
    have unlisted : ∀ x, (d.tbl x).valid = true → join.val ∉ (d.tbl x).parents := by
      intro x used mem
      obtain ⟨j,same,held⟩ := names x used _ mem
      obtain rfl := Fin.ext same
      have free := creates.1
      rw [held.1] at free
      cases free
    obtain ⟨ran,before,silent,-,events⟩ := callCreates takes creates
    have quiet := loopSilent client array join (joined client array 0 join d)
    rw [ran] at failed ⊢
    rw [events]
    simp only [signalsAppend,silent,quiet,List.nil_append] at failed ⊢
    clear ran events
    by_cases empty : array.numFences = 0
    · have stores := @storeRun m join client clientData (joined client array 0 join d)
      rw [joinedStore] at stores
      simp only [emptyChildren empty,processChildren,finishArray,empty,pureRet,runRet,runBind,
        eventsBind,eventsRet,storeSilent,stores,Bool.false_eq_true,if_false,if_true,
        List.append_nil,List.nil_append]
      exact ⟨rollbackRestores creates trimmed unlisted (Nat.zero_le _) (.start ..),rollbackSilent ..⟩
    · obtain ⟨i,touched,last⟩ := childrenTouched client false
        (show array.children.drop 0 = array.children from rfl)
        (Touched.start (fun x => (d.tbl x).valid = true) array join (joined client array 0 join d))
      generalize (processChildren client join join.val array.children 0 false).run
        (joined client array 0 join d) = ended at touched last failed ⊢
      obtain ⟨ended,d'⟩ := ended
      cases ended with
      | error k =>
        obtain rfl := last k rfl
        obtain ⟨ran,signals⟩ := finishFailed client array join clientData i d'
        rw [ran]
        exact ⟨rollbackRestores creates trimmed unlisted (Nat.le_succ _) touched,signals⟩
      | ok signal =>
        cases signal with
        | true =>
          rw [(finishCompletes d').1] at failed
          cases failed
        | false =>
          rw [(finishWaits empty d').1] at failed
          cases failed
  · obtain ⟨-,same,signals,-⟩ := callRefused gets
    rw [same]
    exact ⟨fun x => ⟨rfl,fun _ => rfl⟩,signals⟩

def nestedArray : DmaFenceArray where
  context := 2
  seqno := 1
  numFences := 2
  fences := some fun i => some ⟨1,1,decide (i = 1),true⟩
  filled := fun _ _ => ⟨_,rfl,rfl⟩

theorem nestedFails :
    let d := ((hwFenceCreate creator 1 1).run (.unused 2 twoEntries)).2
    SameFences d ((hwFenceProcessFenceArray waiter nestedArray 0).run d).2 ∧
      signals ((hwFenceProcessFenceArray waiter nestedArray 0).events d) = [] := by
  have failed : ((hwFenceProcessFenceArray waiter nestedArray 0).run
      ((hwFenceCreate creator 1 1).run (.unused 2 twoEntries)).2).1.1 = .error .einval := rfl
  exact failureAtomic waiter nestedArray 0 (by decide +kernel) (by decide +kernel) failed

end Failure

section Indices
variable {m : Nat} {d : DriverData m} {join : Fin m} {client : HwFenceClient} {array : DmaFenceArray}
  {clientData : U64}

def ReadsInside (array : DmaFenceArray) (events : List Event) : Prop :=
  ∀ i, .fencesAt i ∈ events → i < array.numFences.toNat

theorem eventsBelow {n : Nat} {α : Type} {p : Driver m α} (reads : p.Each (ReadsBelow n))
    (d : DriverData m) {i : Nat} (mem : .fencesAt i ∈ p.events d) : i < n := by
  have each : ∀ upd ev, ReadsBelow (m := m) n upd ev →
      ∀ s, ∀ e ∈ ev s, ∀ i, e = .fencesAt i → i < n := by
    rintro upd ev reads s e mem i rfl
    exact reads s i mem
  exact eachEvents reads each d _ mem i rfl

theorem cleanupReads (client : HwFenceClient) (array : DmaFenceArray) (hash i : Nat) (d : DriverData m) :
    (array.fences = none →
      ∀ k, .fencesAt k ∉ (cleanupJoinAndChildFences client i array hash).events d) ∧
    (array.fences ≠ none →
      .fencesAt i ∈ (cleanupJoinAndChildFences client i array hash).events d) := by
  unfold cleanupJoinAndChildFences
  cases fences : array.fences with
  | none =>
    have quiet := (joinQuiet array hash false d).2
    refine ⟨fun _ k mem => ?_,fun some => absurd rfl some⟩
    simp [whenever,pureRet] at mem
    exact quiet k mem
  | some mem =>
    refine ⟨fun none => (by cases none),fun _ => ?_⟩
    simp [whenever,cleanupChildren,emit]

theorem emptyReads (empty : array.numFences = 0) (takes : TakesData client clientData)
    (creates : Creates d (arrayKey array) join) :
    ReadsInside array ((hwFenceProcessFenceArray client array clientData).events d) ↔
      array.fences = none := by
  have none := emptyChildren empty
  obtain ⟨-,before,-,reads,events⟩ := callCreates takes creates
  rw [events]
  clear events
  simp only [none,processChildren,finishArray,empty,pureRet,runRet,eventsRet,eventsBind,storeSilent,
    Bool.false_eq_true,if_false,if_true,List.append_nil,List.nil_append]
  generalize (run _ (joined client array 0 join d)).2 = d'
  obtain ⟨missing,listed⟩ := cleanupReads client array join.val 0 d'
  constructor
  · intro inside
    by_contra some
    have first := inside 0 (List.mem_append_right _ (listed some))
    rw [empty] at first
    exact absurd first (Nat.lt_irrefl 0)
  · intro noFences i mem
    rcases List.mem_append.mp mem with early | late
    · exact absurd early (reads i)
    · exact absurd late (missing noFences i)

theorem readsInsideIff (client : HwFenceClient) (array : DmaFenceArray) (clientData : U64) :
    (array.numFences ≠ 0 → (hwFenceProcessFenceArray (m := m) client array clientData).Each
      (ReadsBelow array.numFences.toNat)) ∧
    ∀ d : DriverData m,
      ReadsInside array ((hwFenceProcessFenceArray client array clientData).events d) ↔
        array.numFences ≠ 0 ∨ array.fences = none ∨
          ¬ (TakesData client clientData ∧ ∃ join, Creates d (arrayKey array) join) := by
  have some : array.numFences ≠ 0 → max array.numFences.toNat 1 = array.numFences.toNat := by
    intro nonzero
    have positive : array.numFences.toNat ≠ 0 := fun zero => nonzero (BitVec.eq_of_toNat_eq zero)
    omega
  have each := callReads (m := m) client array clientData
  refine ⟨fun nonzero => some nonzero ▸ each,fun d => ?_⟩
  by_cases nonzero : array.numFences = 0
  · by_cases gets : TakesData client clientData ∧ ∃ join, Creates d (arrayKey array) join
    · obtain ⟨takes,join,creates⟩ := id gets
      rw [emptyReads nonzero takes creates]
      simp [nonzero,gets]
    · have reads := (callRefused gets).2.2.2
      exact ⟨fun _ => .inr (.inr gets),fun _ i mem => absurd mem (reads i)⟩
  · rw [some nonzero] at each
    exact ⟨fun _ => .inl nonzero,fun _ i mem => eventsBelow each d mem⟩

def emptyArray : DmaFenceArray where
  context := 10
  seqno := 1
  numFences := 0
  fences := some fun _ => none
  filled i inside := absurd inside (Nat.not_lt_zero i)

theorem emptyArrayReadsOutside : ¬ ReadsInside emptyArray
    ((hwFenceProcessFenceArray (m := 2) (.plain 1 oneKnown) emptyArray 0).events
      (.unused 2 twoEntries)) := by
  intro inside
  exact absurd (inside 0 (by decide +kernel)) (by decide)

end Indices
end MmDrivers.ArrayOutcome

import MmDrivers.Wakeups

/-! A join fence while its call is under way and the controller moves: what the
table keeps, and the count against the children still to come and those linked. -/
namespace MmDrivers.JoinWaits
open Sections Interleaving FenceTypes FenceLookup FenceTable FenceSignal JoinFence JoinRun
open JoinAccounting Parties Wakeups

section Frame
variable {m : Nat} {array : DmaFenceArray} {join : Fin m} {d d' : DriverData m}

structure Frame (array : DmaFenceArray) (join : Fin m) (d : DriverData m) : Prop where
  ready : Ready d
  held : d.live (arrayKey array) join
  isJoin : isJoin d join
  plain : ∀ child ∈ array.children, ∀ x, d.live (waitsFor child) x → ¬ JoinAccounting.isJoin d x
  lists : ∀ x, (d.tbl x).valid = true → join.val ∈ (d.tbl x).parents →
    ∃ child ∈ array.children, d.live (waitsFor child) x
  tail : ∀ x, (d.tbl x).valid = true → ∃ rest k,
    (d.tbl x).parents = rest ++ List.replicate k join.val ∧ join.val ∉ rest ∧
      (0 < k → (d.tbl x).parentsCnt.toNat < 3)

theorem Frame.counted (frame : Frame array join d) (counted : CountedOnly d d') :
    Frame array join d' := by
  have used : ∀ x, (d'.tbl x).valid = (d.tbl x).valid := fun x => by rw [counted.slots x]
  have count : ∀ x, (d'.tbl x).parentsCnt = (d.tbl x).parentsCnt := fun x => by rw [counted.slots x]
  refine ⟨frame.ready.counted counted,(counted.live _ _).mpr frame.held,
    (counted.isJoin _).mpr frame.isJoin,fun child mem x held => ?_,fun x valid listed => ?_,
    fun x valid => ?_⟩
  · rw [counted.isJoin]
    exact frame.plain child mem x ((counted.live _ x).mp held)
  · rw [counted.parents] at listed
    obtain ⟨child,mem,held⟩ := frame.lists x (used x ▸ valid) listed
    exact ⟨child,mem,(counted.live _ x).mpr held⟩
  · rw [counted.parents,count]
    exact frame.tail x (used x ▸ valid)

def Alike (f f' : HwFence) : Prop :=
  f' = {f with
    waitClientMask := f'.waitClientMask
    fenceWaitTime := f'.fenceWaitTime
    debugRefcount := f'.debugRefcount
    clientData := f'.clientData}

section Alike
variable (alike : ∀ x, Alike (d.tbl x) (d'.tbl x))
include alike

theorem alikeLive (key : Key) (x : Fin m) : d'.live key x ↔ d.live key x := by
  unfold DriverData.live
  rw [alike x]
  rfl

theorem alikeJoin (x : Fin m) : isJoin d' x ↔ isJoin d x := by
  unfold JoinAccounting.isJoin
  rw [alike x]

theorem alikeParents (x : Fin m) : (d'.tbl x).parents = (d.tbl x).parents := by
  rw [alike x]
  rfl

theorem readyAlike (ready : Ready d) : Ready d' := by
  refine ⟨⟨fun x free => ?_,fun key i j hi hj => ?_⟩,fun x used p listed => ?_,fun x held => ?_⟩
  · rw [alike x] at free ⊢
    exact ready.tidy.blank x free
  · exact ready.tidy.distinct key i j ((alikeLive alike key i).mp hi) ((alikeLive alike key j).mp hj)
  · rw [alikeParents alike] at listed
    rw [alike x] at used
    obtain ⟨k,same,held⟩ := ready.names x used p listed
    exact ⟨k,same,(alikeJoin alike k).mpr held⟩
  · rw [alikeParents alike]
    exact ready.leaves x ((alikeJoin alike x).mp held)

theorem frameAlike (frame : Frame array join d) : Frame array join d' := by
  have used : ∀ x, (d'.tbl x).valid = (d.tbl x).valid := fun x => by rw [alike x]
  have count : ∀ x, (d'.tbl x).parentsCnt = (d.tbl x).parentsCnt := fun x => by rw [alike x]
  refine ⟨readyAlike alike frame.ready,(alikeLive alike _ _).mpr frame.held,
    (alikeJoin alike _).mpr frame.isJoin,fun child mem x held => ?_,fun x valid listed => ?_,
    fun x valid => ?_⟩
  · rw [alikeJoin alike]
    exact frame.plain child mem x ((alikeLive alike _ x).mp held)
  · rw [alikeParents alike] at listed
    obtain ⟨child,mem,held⟩ := frame.lists x (used x ▸ valid) listed
    exact ⟨child,mem,(alikeLive alike _ x).mpr held⟩
  · rw [alikeParents alike,count]
    exact frame.tail x (used x ▸ valid)

theorem alikeTotal : total d' join = total d join := by
  refine Finset.sum_congr rfl fun x _ => linksFromSame ?_ ?_ ?_
  · rw [alike x]
  · rw [alike x]
    rfl
  · rw [alikeParents alike]

end Alike

theorem Frame.relinked {c : Fin m} {g : HwFence → HwFence} (frame : Frame array join d)
    (relinked : Relinked (d.tbl c) (g (d.tbl c)))
    (child : ∃ child ∈ array.children, d.live (waitsFor child) c)
    {rest : List Nat} {k : Nat} (parents : (g (d.tbl c)).parents = rest ++ List.replicate k join.val)
    (unlisted : join.val ∉ rest) (old : ∀ p ∈ rest, p ∈ (d.tbl c).parents)
    (small : 0 < k → (g (d.tbl c)).parentsCnt.toNat < 3) : Frame array join (d.onSlot c g) := by
  have live : ∀ key x, (d.onSlot c g).live key x ↔ d.live key x := by
    intro key x
    by_cases xc : x = c
    · subst xc
      rw [DriverData.live,DriverData.live,DriverData.onSlotSame,relinked.valid,relinked.key]
    · rw [DriverData.live,DriverData.live,DriverData.onSlotOther d _ xc]
  have joins : ∀ x, JoinAccounting.isJoin (d.onSlot c g) x ↔ JoinAccounting.isJoin d x := by
    intro x
    by_cases xc : x = c
    · subst xc
      rw [JoinAccounting.isJoin,JoinAccounting.isJoin,DriverData.onSlotSame,relinked.valid,
        relinked.allocator]
    · rw [JoinAccounting.isJoin,JoinAccounting.isJoin,DriverData.onSlotOther d _ xc]
  obtain ⟨fence,mem,own⟩ := child
  have plain := frame.plain fence mem c own
  refine ⟨⟨⟨fun x free => ?_,fun key i j hi hj => ?_⟩,fun x used p listed => ?_,fun x held => ?_⟩,
    (live _ _).mpr frame.held,(joins _).mpr frame.isJoin,fun child mem x held => ?_,
    fun x valid listed => ?_,fun x valid => ?_⟩
  · by_cases xc : x = c
    · subst xc
      have same := congrArg Prod.fst relinked.key
      rw [DriverData.onSlotSame] at free ⊢
      exact same.trans (frame.ready.tidy.blank x (relinked.valid ▸ free))
    · rw [DriverData.onSlotOther d _ xc] at free ⊢
      exact frame.ready.tidy.blank x free
  · exact frame.ready.tidy.distinct key i j ((live key i).mp hi) ((live key j).mp hj)
  · by_cases xc : x = c
    · subst xc
      rw [DriverData.onSlotSame] at listed
      rw [parents,List.mem_append,List.mem_replicate] at listed
      rcases listed with before | ⟨-,rfl⟩
      · obtain ⟨k,same,held⟩ := frame.ready.names x own.1 p (old p before)
        exact ⟨k,same,(joins k).mpr held⟩
      · exact ⟨join,rfl,(joins join).mpr frame.isJoin⟩
    · rw [DriverData.onSlotOther d _ xc] at used listed
      obtain ⟨k,same,held⟩ := frame.ready.names x used p listed
      exact ⟨k,same,(joins k).mpr held⟩
  · have held := (joins x).mp held
    have xc : x ≠ c := fun same => plain (same ▸ held)
    rw [DriverData.onSlotOther d _ xc]
    exact frame.ready.leaves x held
  · rw [joins]
    exact frame.plain child mem x ((live _ x).mp held)
  · by_cases xc : x = c
    · subst xc
      exact ⟨fence,mem,(live _ x).mpr own⟩
    · rw [DriverData.onSlotOther d _ xc] at valid listed
      obtain ⟨child,mem,held⟩ := frame.lists x valid listed
      exact ⟨child,mem,(live _ x).mpr held⟩
  · by_cases xc : x = c
    · subst xc
      rw [DriverData.onSlotSame]
      exact ⟨rest,k,parents,unlisted,small⟩
    · rw [DriverData.onSlotOther d _ xc] at valid ⊢
      exact frame.tail x valid

end Frame

section Joined
variable {m : Nat} {array : DmaFenceArray} {join : Fin m} {d d' : DriverData m} {left : Nat}
  {flag : Bool}

/-- The join fence with `left` children to come. It is signalled by the controller when the last
child has told it; `flag` says that the call has counted the last child itself. -/
structure Joined (array : DmaFenceArray) (join : Fin m) (left : Nat) (flag : Bool)
    (d : DriverData m) : Prop where
  frame : Frame array join d
  pending : (d.tbl join).pendingChildCnt.toNat = left + total d join
  signaled : (d.tbl join).signaled = true → flag = false ∧
    (d.tbl join).pendingChildCnt.toNat = 0 ∧ 0 < array.numFences.toNat
  done : flag = false → 0 < array.numFences.toNat → (d.tbl join).pendingChildCnt.toNat = 0 →
    (d.tbl join).signaled = true
  flagged : flag = true → (d.tbl join).pendingChildCnt.toNat = 0

theorem Joined.balanced (joined : Joined array join left flag d) : Balanced d join := by
  have pending := joined.pending
  refine ⟨by omega,fun signaled => ?_⟩
  have zero := (joined.signaled signaled).2.1
  omega

theorem Frame.someChild (frame : Frame array join d) (some : 0 < total d join) :
    0 < array.numFences.toNat := by
  by_contra none
  have empty : array.children = [] := List.eq_nil_of_length_eq_zero (by simpa using none)
  have zero : total d join = 0 := by
    refine Finset.sum_eq_zero fun x _ => ?_
    by_cases used : (d.tbl x).valid = true
    · refine linksFromNone fun listed => ?_
      obtain ⟨child,mem,-⟩ := frame.lists x used listed
      rw [empty] at mem
      cases mem
    · exact linksFromFree (by simpa using used)
  omega

theorem Frame.onlyKey (frame : Frame array join d) (context : array.context ≠ 0) {x : Fin m}
    (ne : x ≠ join) : (d.tbl x).key ≠ arrayKey array := by
  intro own
  have held := frame.ready.tidy.carried context own
  exact ne (frame.ready.tidy.distinct _ x join held frame.held)

theorem Frame.only (frame : Frame array join d) (context : array.context ≠ 0) (id : Nat) :
    OnlyAt id (arrayKey array) join d := by
  intro x ne
  by_contra waits
  exact frame.onlyKey context ne (carriesIff.mp (by simpa using waits)).1

theorem Joined.stepped {id : Nat} {events : List Event} (joined : Joined array join left flag d)
    (stepped : Stepped id (arrayKey array) join d d' events) : Joined array join left flag d' := by
  obtain ⟨frame,pending,signaled,done,flagged⟩ := joined
  obtain ⟨c,counted,fewer,crossed⟩ := stepped.drops
  have crossed := crossed frame.isJoin
  refine ⟨frame.counted stepped.counted,by omega,fun after => ?_,fun open_ some zero => ?_,
    fun closed => ?_⟩
  · rcases crossed.mp after with before | ⟨more,zero⟩
    · have := signaled before
      exact ⟨this.1,by omega,this.2.2⟩
    · refine ⟨?_,zero,frame.someChild (by omega)⟩
      by_contra closed
      have := flagged (by simpa using closed)
      omega
  · by_cases before : (d.tbl join).pendingChildCnt.toNat = 0
    · exact stepped.kept (done open_ some before)
    · exact crossed.mpr (.inr ⟨by omega,zero⟩)
  · have := flagged closed
    omega

theorem Joined.alike (joined : Joined array join left flag d)
    (alike : ∀ x, Alike (d.tbl x) (d'.tbl x)) : Joined array join left flag d' := by
  have pending : (d'.tbl join).pendingChildCnt = (d.tbl join).pendingChildCnt := by
    rw [alike join]
  have signaled : (d'.tbl join).signaled = (d.tbl join).signaled := by
    rw [alike join]
    rfl
  refine ⟨frameAlike alike joined.frame,?_,?_,?_,?_⟩
  · rw [pending,alikeTotal alike,joined.pending]
  · rw [signaled,pending]
    exact joined.signaled
  · rw [signaled,pending]
    exact joined.done
  · rw [pending]
    exact joined.flagged

theorem Joined.counts (joined : Joined array join (left+1) false d) :
    let f : HwFence := {d.tbl join with pendingChildCnt := (d.tbl join).pendingChildCnt-1}
    Joined array join left (decide (f.pendingChildCnt = 0)) (d.onSlot join fun _ => f) ∧
      (d.tbl join).signaled = false := by
  obtain ⟨frame,pending,signaled,done,-⟩ := joined
  have one : (1 : U32).toNat = 1 := rfl
  have less : ((d.tbl join).pendingChildCnt-1).toNat = (d.tbl join).pendingChildCnt.toNat-1 := by
    rw [BitVec.toNat_sub_of_le (by rw [BitVec.le_def,one]; omega),one]
  have unsignaled : (d.tbl join).signaled = false := by
    by_contra set
    have := (signaled (by simpa using set)).2.1
    omega
  refine ⟨?_,unsignaled⟩
  have slot : ((d.onSlot join fun _ => {d.tbl join with
      pendingChildCnt := (d.tbl join).pendingChildCnt-1}).tbl join) =
      {d.tbl join with pendingChildCnt := (d.tbl join).pendingChildCnt-1} := by
    simp
  have counted : CountedOnly d (d.onSlot join fun _ => {d.tbl join with
      pendingChildCnt := (d.tbl join).pendingChildCnt-1}) := by
    refine ⟨rfl,fun x => ?_⟩
    by_cases xj : x = join
    · subst xj
      rw [slot]
      exact rfl
    · rw [DriverData.onSlotOther d _ xj]
      exact rfl
  have same : total (d.onSlot join fun _ => {d.tbl join with
      pendingChildCnt := (d.tbl join).pendingChildCnt-1}) join = total d join := by
    refine Finset.sum_congr rfl fun x _ => linksFromSame ?_ ?_ (by rw [counted.parents])
    · rw [counted.slots x]
    · by_cases xj : x = join
      · subst xj
        rw [slot]
        rfl
      · rw [DriverData.onSlotOther d _ xj]
  have zero : (d.tbl join).pendingChildCnt-1 = 0 ↔ (d.tbl join).pendingChildCnt.toNat-1 = 0 := by
    rw [← BitVec.toNat_inj,less]
    rfl
  refine ⟨frame.counted counted,?_,fun set => ?_,fun closed _ none => ?_,fun closed => ?_⟩
  · rw [slot,same,less]
    omega
  · rw [slot] at set
    exact absurd set (by rw [show HwFence.signaled {d.tbl join with
      pendingChildCnt := (d.tbl join).pendingChildCnt-1} = (d.tbl join).signaled from rfl]; simp [unsignaled])
  · rw [slot,less] at none
    simp only [zero] at closed
    simp [none] at closed
  · rw [slot,less]
    simpa only [zero,decide_eq_true_eq] using closed

theorem Joined.links {c : Fin m} (joined : Joined array join (left+1) flag d)
    (child : ∃ child ∈ array.children, d.live (waitsFor child) c)
    (unsignaled : (d.tbl c).signaled = false) (room : parentsExceeded (d.tbl c) = false) :
    Joined array join left flag (d.onSlot c (linkParent join.val)) := by
  obtain ⟨frame,pending,signaled,done,flagged⟩ := joined
  obtain ⟨fence,mem,own⟩ := child
  have cj : join ≠ c := fun same => frame.plain fence mem c own (same ▸ frame.isJoin)
  obtain ⟨rest,k,parents,unlisted,-⟩ := frame.tail c own.1
  have linked : (linkParent join.val (d.tbl c)).parents = rest ++ List.replicate (k+1) join.val := by
    rw [linkParents room,parents,List.replicate_succ',List.append_assoc]
  have small : (linkParent join.val (d.tbl c)).parentsCnt.toNat < 3 := by
    have count := linkCount join.val room
    have bound := exceededIff.mp room
    omega
  have slot : (d.onSlot c (linkParent join.val)).tbl join = d.tbl join :=
    DriverData.onSlotOther d _ cj
  have more : total (d.onSlot c (linkParent join.val)) join = total d join + 1 := by
    have sum := sumChange (f := linksFrom (d.onSlot c (linkParent join.val)) join)
      (g := linksFrom d join) c fun x xc => by
        have same := DriverData.onSlotOther d (linkParent join.val) xc
        exact linksFromSame (by rw [same]) (by rw [same]) (by rw [same])
    have here : linksFrom (d.onSlot c (linkParent join.val)) join c = linksFrom d join c + 1 := by
      have relinked := linkRelinked join.val (d.tbl c)
      rw [linksFrom,linksFrom,DriverData.onSlotSame,relinked.valid,relinked.signaled,own.1,unsignaled,
        linkParents room]
      simp
    unfold total
    omega
  refine ⟨frame.relinked (linkRelinked ..) ⟨fence,mem,own⟩ linked unlisted (fun p before => ?_)
    fun _ => small,?_,?_,?_,?_⟩
  · rw [parents]
    exact List.mem_append_left _ before
  · rw [slot,more]
    omega
  all_goals rw [slot]
  · exact signaled
  · exact done
  · exact flagged

theorem Joined.unlinks {c : Fin m} (joined : Joined array join left flag d)
    (child : ∃ child ∈ array.children, d.live (waitsFor child) c) :
    ∃ k, Joined array join (left+k) flag (d.onSlot c (unlinkParent join.val)) ∧
      total (d.onSlot c (unlinkParent join.val)) join + k = total d join ∧
      (d.onSlot c (unlinkParent join.val)).tbl join = d.tbl join := by
  obtain ⟨frame,pending,signaled,done,flagged⟩ := joined
  obtain ⟨fence,mem,own⟩ := child
  have cj : join ≠ c := fun same => frame.plain fence mem c own (same ▸ frame.isJoin)
  obtain ⟨rest,k,parents,unlisted,small⟩ := frame.tail c own.1
  have relinked := (unlinkRelinked join.val (d.tbl c)).1
  have unlinked : (unlinkParent join.val (d.tbl c)).parents = rest := by
    cases k with
    | zero =>
      have same : (d.tbl c).parents = rest := by simpa using parents
      rw [unlinkUnlisted (by rwa [same]),same]
    | succ k =>
      have count := small (by omega)
      exact unlinkLast parents unlisted (by omega)
  have slot : (d.onSlot c (unlinkParent join.val)).tbl join = d.tbl join :=
    DriverData.onSlotOther d _ cj
  have sum := sumChange (f := linksFrom (d.onSlot c (unlinkParent join.val)) join)
    (g := linksFrom d join) c fun x xc => by
      have same := DriverData.onSlotOther d (unlinkParent join.val) xc
      exact linksFromSame (by rw [same]) (by rw [same]) (by rw [same])
  have none : linksFrom (d.onSlot c (unlinkParent join.val)) join c = 0 :=
    linksFromNone (by rw [DriverData.onSlotSame,unlinked]; exact unlisted)
  have fewer : total (d.onSlot c (unlinkParent join.val)) join + linksFrom d join c =
      total d join := by
    unfold total
    omega
  refine ⟨linksFrom d join c,⟨frame.relinked relinked ⟨fence,mem,own⟩ (k := 0)
    (by simpa using unlinked) unlisted (fun p before => ?_) (fun none => by omega),?_,?_,?_,?_⟩,fewer,slot⟩
  · rw [parents]
    exact List.mem_append_left _ before
  · rw [slot]
    omega
  all_goals rw [slot]
  · exact signaled
  · exact done
  · exact flagged

theorem Joined.created {f : HwFence} (d' : DriverData m) (ready : Ready d) (free : (d.tbl join).valid = false)
    (fresh : ∀ x, ¬ d.live (arrayKey array) x)
    (others : ∀ child ∈ array.children, waitsFor child ≠ arrayKey array)
    (plain : ∀ child ∈ array.children, ∀ x, d.live (waitsFor child) x → ¬ isJoin d x)
    (valid : f.valid = true) (key : f.key = arrayKey array)
    (allocator : f.fenceAllocator = hwFenceJoinFenceClientId) (alone : f.parents = [])
    (pending : f.pendingChildCnt = array.numFences) (unsignaled : f.signaled = false)
    (same : d'.tbl = Function.update d.tbl join f) :
    Joined array join array.numFences.toNat false d' ∧ total d' join = 0 := by
  have slot : d'.tbl join = f := by rw [same,Function.update_self]
  have other : ∀ x ≠ join, d'.tbl x = d.tbl x := fun x ne => by rw [same,Function.update_of_ne ne]
  have joins : ∀ x, isJoin d x → isJoin d' x := by
    intro x held
    have xj : x ≠ join := by
      intro xj
      subst xj
      exact absurd held.1 (by simp [free])
    rwa [isJoin,other x xj]
  have unlisted : ∀ x, (d'.tbl x).valid = true → join.val ∉ (d'.tbl x).parents := by
    intro x used listed
    by_cases xj : x = join
    · rw [xj,slot,alone] at listed
      cases listed
    · rw [other x xj] at used listed
      obtain ⟨k,kj,held⟩ := ready.names x used _ listed
      rw [Fin.ext kj] at held
      exact absurd held.1 (by simp [free])
  have none : total d' join = 0 := by
    refine Finset.sum_eq_zero fun x _ => ?_
    by_cases used : (d'.tbl x).valid = true
    · exact linksFromNone (unlisted x used)
    · exact linksFromFree (by simpa using used)
  refine ⟨⟨⟨⟨ready.tidy.reserve free (key ▸ fresh) valid same,fun x used p listed => ?_,
    fun x held => ?_⟩,?_,?_,fun child mem x held joined => ?_,
    fun x used listed => absurd listed (unlisted x used),fun x used => ?_⟩,?_,fun set => ?_,
    fun _ some zero => ?_,fun closed => by cases closed⟩,none⟩
  · by_cases xj : x = join
    · rw [xj,slot,alone] at listed
      cases listed
    · rw [other x xj] at used listed
      obtain ⟨k,kp,held⟩ := ready.names x used p listed
      exact ⟨k,kp,joins k held⟩
  · by_cases xj : x = join
    · rw [xj,slot,alone]
    · rw [isJoin,other x xj] at held
      rw [other x xj]
      exact ready.leaves x held
  · rw [DriverData.live,slot]
    exact ⟨valid,key⟩
  · rw [isJoin,slot]
    exact ⟨valid,allocator⟩
  · by_cases xj : x = join
    · rw [DriverData.live,xj,slot,key] at held
      exact others child mem held.2.symm
    · rw [DriverData.live,other x xj] at held
      rw [isJoin,other x xj] at joined
      exact plain child mem x held joined
  · refine ⟨(d'.tbl x).parents,0,by simp,unlisted x used,fun none => by omega⟩
  · rw [slot,pending,none]
    rfl
  · rw [slot,unsignaled] at set
    cases set
  · rw [slot,pending] at zero
    omega

theorem Joined.sameUsed (joined : Joined array join left flag d)
    (back : ∀ x, (d'.tbl x).valid = true → d'.tbl x = d.tbl x)
    (forth : ∀ x, (d.tbl x).valid = true → d'.tbl x = d.tbl x)
    (blank : ∀ x, (d'.tbl x).valid = false → (d'.tbl x).ctxId = 0) :
    Joined array join left flag d' ∧ total d' join = total d join ∧ d'.tbl join = d.tbl join := by
  obtain ⟨frame,pending,signaled,done,flagged⟩ := joined
  have slot := forth join frame.held.1
  have live : ∀ key x, d'.live key x ↔ d.live key x := by
    intro key x
    refine ⟨fun held => ?_,fun held => ?_⟩
    · have same := back x held.1
      rwa [DriverData.live,same] at held
    · rwa [DriverData.live,forth x held.1]
  have joins : ∀ x, isJoin d' x ↔ isJoin d x := by
    intro x
    refine ⟨fun held => ?_,fun held => ?_⟩
    · have same := back x held.1
      rwa [isJoin,same] at held
    · rwa [isJoin,forth x held.1]
  have same : total d' join = total d join := by
    refine Finset.sum_congr rfl fun x _ => ?_
    by_cases used : (d.tbl x).valid = true
    · exact linksFromSame (by rw [forth x used]) (by rw [forth x used]) (by rw [forth x used])
    · have unused : (d'.tbl x).valid = false := by
        by_contra set
        have here := back x (by simpa using set)
        rw [here] at set
        exact used (by simpa using set)
      rw [linksFromFree unused,linksFromFree (by simpa using used)]
  refine ⟨⟨⟨⟨⟨blank,fun key i j hi hj => ?_⟩,fun x used p listed => ?_,fun x held => ?_⟩,
    (live _ _).mpr frame.held,(joins _).mpr frame.isJoin,fun child mem x held => ?_,
    fun x used listed => ?_,fun x used => ?_⟩,by rw [slot,same,pending],by rwa [slot],by rwa [slot],
    by rwa [slot]⟩,same,slot⟩
  · exact frame.ready.tidy.distinct key i j ((live key i).mp hi) ((live key j).mp hj)
  · have here := back x used
    rw [here] at used listed
    obtain ⟨k,kp,held⟩ := frame.ready.names x used p listed
    exact ⟨k,kp,(joins k).mpr held⟩
  · rw [back x held.1]
    exact frame.ready.leaves x ((joins x).mp held)
  · rw [joins]
    exact frame.plain child mem x ((live _ x).mp held)
  · have here := back x used
    rw [here] at used listed
    obtain ⟨child,mem,held⟩ := frame.lists x used listed
    exact ⟨child,mem,(live _ x).mpr held⟩
  · have here := back x used
    rw [here] at used ⊢
    exact frame.tail x used

theorem Joined.unlinksNothing (joined : Joined array join left flag d) (empty : array.children = [])
    (c : Fin m) : Joined array join left flag (d.onSlot c (unlinkParent join.val)) ∧
      total (d.onSlot c (unlinkParent join.val)) join = total d join ∧
      (d.onSlot c (unlinkParent join.val)).tbl join = d.tbl join := by
  by_cases used : (d.tbl c).valid = true
  · have unlisted : join.val ∉ (d.tbl c).parents := by
      intro listed
      obtain ⟨child,mem,-⟩ := joined.frame.lists c used listed
      rw [empty] at mem
      cases mem
    have same : d.onSlot c (unlinkParent join.val) = d := by
      unfold DriverData.onSlot
      rw [unlinkUnlisted unlisted,Function.update_eq_self]
    rw [same]
    exact ⟨joined,rfl,rfl⟩
  · have relinked := (unlinkRelinked join.val (d.tbl c)).1
    refine joined.sameUsed (fun x valid => ?_) (fun x valid => ?_) fun x free => ?_
    · by_cases xc : x = c
      · subst xc
        rw [DriverData.onSlotSame,relinked.valid] at valid
        exact absurd valid used
      · exact DriverData.onSlotOther d _ xc
    · exact DriverData.onSlotOther d _ fun xc => used (xc ▸ valid)
    · by_cases xc : x = c
      · subst xc
        have key := congrArg Prod.fst relinked.key
        rw [DriverData.onSlotSame]
        exact key.trans (joined.frame.ready.tidy.blank x (by simpa using used))
      · rw [DriverData.onSlotOther d _ xc] at free ⊢
        exact joined.frame.ready.tidy.blank x free

theorem Joined.finished (joined : Joined array join 0 false d) (some : 0 < array.numFences.toNat)
    (all : ∀ child ∈ array.children, ∀ x, d.live (waitsFor child) x → (d.tbl x).signaled = true) :
    (d.tbl join).signaled = true := by
  have none : total d join = 0 := by
    refine Finset.sum_eq_zero fun x _ => ?_
    by_cases used : (d.tbl x).valid = true
    · by_cases listed : join.val ∈ (d.tbl x).parents
      · obtain ⟨child,mem,held⟩ := joined.frame.lists x used listed
        simp [linksFrom,all child mem x held]
      · exact linksFromNone listed
    · exact linksFromFree (by simpa using used)
  have pending := joined.pending
  exact joined.done rfl some (by omega)

end Joined
end MmDrivers.JoinWaits

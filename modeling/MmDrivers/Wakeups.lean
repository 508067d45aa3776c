import MmDrivers.Parties

/-! Whom the controller wakes. A step of it tells the waiters of a fence exactly
when it signals that fence, be it the fence of the step or a join fence that has
waited for it. -/
namespace MmDrivers.Wakeups
open Sections Sections.Prog Interleaving Interleaving.Rules FenceTypes FenceLookup FenceTable
open FenceSignal JoinFence JoinRun ResetRun JoinAccounting Parties

section Count
variable {m : Nat} {ι : Type}

def wakeups (id : Nat) (key : Key) (events : List Event) : Nat :=
  (signals events).countP fun s => s.clientId = id ∧ (s.context,s.seqno) = key

def woken (id : Nat) (key : Key) (world : World ι Event (DriverData m)) : Nat :=
  wakeups id key (world.log.map Prod.snd)

variable {id : Nat} {key : Key}

@[simp] theorem wakeupsAppend (a b : List Event) :
    wakeups id key (a ++ b) = wakeups id key a + wakeups id key b := by
  simp [wakeups]

theorem wokenAct (world : World ι Event (DriverData m)) (t : ι) (events : List Event)
    (s : DriverData m) : woken id key (world.act t events s) = woken id key world + wakeups id key events := by
  simp [woken,Function.comp_def]

theorem wakeupsSilent {events : List Event} (silent : signals events = []) :
    wakeups id key events = 0 := by
  simp [wakeups,silent]

def carries (id : Nat) (key : Key) (f : HwFence) : Bool :=
  f.key = key ∧ f.waitClientMask &&& bit id ≠ 0

theorem carriesIff {f : HwFence} :
    carries id key f = true ↔ f.key = key ∧ f.waitClientMask &&& bit id ≠ 0 :=
  decide_eq_true_iff

theorem tellWaitersWakes (small : id < 64) (i : Fin m) (f : HwFence) :
    wakeups id key (tellWaiters i f) = if carries id key f then 1 else 0 := by
  have each : signals (tellWaiters i f) =
      ((List.range 64).filter fun id => f.waitClientMask &&& bit id ≠ 0).map fun id =>
        {told f i.val f.error id with clientData := ownData f id} := by
    simp [signals,tellWaiters,List.filterMap_map]
  rw [wakeups,each,List.countP_map,List.countP_filter]
  split
  · rename_i waits
    obtain ⟨own,set⟩ := carriesIff.mp waits
    rw [List.countP_congr (q := (· == id)) fun k _ => ?_]
    · exact List.count_eq_one_of_mem List.nodup_range (List.mem_range.mpr small)
    · simp only [Function.comp_apply,Bool.and_eq_true,decide_eq_true_eq,beq_iff_eq]
      exact ⟨fun h => h.1.1,fun h => ⟨⟨h,own⟩,h ▸ set⟩⟩
  · rename_i stranger
    refine List.countP_eq_zero.mpr fun k _ tells => stranger ?_
    simp only [Function.comp_apply,Bool.and_eq_true,decide_eq_true_eq] at tells
    obtain ⟨⟨same,own⟩,set⟩ := tells
    have same : k = id := same
    exact carriesIff.mpr ⟨own,same ▸ set⟩

end Count

section Parents
variable {m : Nat} {id : Nat} {key : Key} {d : DriverData m} {join : Fin m}

theorem countCounted {f : HwFence} : Counted f (countDown f) := rfl

theorem raiseSignals (f : HwFence) : (raise f).signaled = true := by
  have set : (f.flags ||| msmHwFenceFlagSignal) &&& msmHwFenceFlagSignal ≠ 0 := by
    intro none
    have low := congrArg (BitVec.getLsbD · 0) none
    simp [msmHwFenceFlagSignal,bit] at low
  exact decide_eq_true set

theorem carriesCounted {f f' : HwFence} (counted : Counted f f') :
    carries id key f' = carries id key f := by
  rw [counted]
  rfl

def OnlyAt (id : Nat) (key : Key) (join : Fin m) (d : DriverData m) : Prop :=
  ∀ x ≠ join, carries id key (d.tbl x) = false

theorem OnlyAt.counted {d' : DriverData m} (only : OnlyAt id key join d) (counted : CountedOnly d d') :
    OnlyAt id key join d' := fun x ne => (carriesCounted (counted.slots x)).trans (only x ne)

theorem getSlot (k : Fin m) : getHwFence m k.val = some k := by
  simp [getHwFence]

theorem parentOther {p : Nat} {x : Fin m} (ne : x.val ≠ p) :
    (tellParent p d).1.tbl x = d.tbl x := by
  unfold tellParent
  split
  · rfl
  · rename_i k found
    unfold getHwFence at found
    split at found <;> try contradiction
    cases Option.some.inj found
    have xk : x ≠ ⟨p,by assumption⟩ := fun same => ne (congrArg Fin.val same)
    dsimp only
    split <;> simp [xk]

theorem parentSilent (small : id < 64) {p : Nat}
    (none : ∀ k : Fin m, k.val = p → carries id key (d.tbl k) = false) :
    wakeups id key (tellParent p d).2 = 0 := by
  unfold tellParent
  split
  · rfl
  · rename_i k found
    unfold getHwFence at found
    split at found <;> try contradiction
    cases Option.some.inj found
    dsimp only
    split
    · rw [tellWaitersWakes small,if_neg]
      rw [DriverData.onSlotSame,carriesCounted countCounted,none ⟨p,by assumption⟩ rfl]
      exact Bool.false_ne_true
    · rfl

def Unwaited (id : Nat) (key : Key) (d : DriverData m) : Prop :=
  ∀ x, carries id key (d.tbl x) = false

theorem Unwaited.counted {d' : DriverData m} (none : Unwaited id key d) (counted : CountedOnly d d') :
    Unwaited id key d' := fun x => (carriesCounted (counted.slots x)).trans (none x)

theorem parentsSilent (small : id < 64) (none : Unwaited id key d) (ps : List Nat) :
    wakeups id key (tellParents ps d).2 = 0 := by
  induction ps generalizing d with
  | nil => rfl
  | cons p rest ih =>
    rw [tellParents,wakeupsAppend,parentSilent small fun k _ => none k,
      ih (none.counted (parentCounted p d))]

theorem controllerSilent (small : id < 64) (none : Unwaited id key d) (i : Fin m) :
    wakeups id key (controllerSignals i d).2 = 0 := by
  unfold controllerSignals
  split
  · rw [wakeupsAppend,tellWaitersWakes small,none i,
      parentsSilent small (none.counted (countedSlot i raiseCounted))]
    rfl
  · rfl

structure Told (id : Nat) (key : Key) (join : Fin m) (c : Nat) (d d' : DriverData m)
    (events : List Event) : Prop where
  pending : (d'.tbl join).pendingChildCnt.toNat + c = (d.tbl join).pendingChildCnt.toNat
  signaled : (d'.tbl join).signaled = true ↔
    (d.tbl join).signaled = true ∨ 0 < c ∧ (d'.tbl join).pendingChildCnt.toNat = 0
  woken : wakeups id key events =
    if carries id key (d.tbl join) ∧ 0 < c ∧ (d'.tbl join).pendingChildCnt.toNat = 0 then 1 else 0

theorem parentTold (small : id < 64) (some : 0 < (d.tbl join).pendingChildCnt.toNat) :
    Told id key join 1 d (tellParent join.val d).1 (tellParent join.val d).2 := by
  have one : (1 : U32).toNat = 1 := rfl
  have less : (countDown (d.tbl join)).pendingChildCnt.toNat =
      (d.tbl join).pendingChildCnt.toNat-1 := by
    rw [countDown,BitVec.toNat_sub_of_le (by rw [BitVec.le_def,one]; omega),one]
  have zero : (countDown (d.tbl join)).pendingChildCnt = 0 ↔
      (countDown (d.tbl join)).pendingChildCnt.toNat = 0 := by
    rw [← BitVec.toNat_inj]
    rfl
  unfold tellParent
  simp only [getSlot,DriverData.onSlotSame,zero]
  split
  · rename_i last
    have raised : (raise (countDown (d.tbl join))).pendingChildCnt =
      (countDown (d.tbl join)).pendingChildCnt := rfl
    refine ⟨?_,?_,?_⟩ <;> simp only [DriverData.onSlotSame,raised,last]
    · omega
    · simp [raiseSignals]
    · simp [tellWaitersWakes small,carriesCounted countCounted]
  · rename_i more
    refine ⟨?_,?_,?_⟩ <;> simp only [DriverData.onSlotSame,more,and_false,or_false]
    · omega
    · rfl
    · rfl

theorem parentsTold (small : id < 64) (only : OnlyAt id key join d) (ps : List Nat)
    (enough : ps.count join.val ≤ (d.tbl join).pendingChildCnt.toNat) :
    Told id key join (ps.count join.val) d (tellParents ps d).1 (tellParents ps d).2 := by
  induction ps generalizing d with
  | nil => exact ⟨rfl,by simp [tellParents],by simp [tellParents,wakeups]⟩
  | cons p rest ih =>
    have only' : OnlyAt id key join (tellParent p d).1 := only.counted (parentCounted p d)
    simp only [tellParents]
    by_cases own : p = join.val
    · subst own
      rw [List.count_cons_self] at enough ⊢
      have first : Told id key join 1 d _ _ := parentTold small (by omega)
      obtain ⟨pending,signaled,woken⟩ := first
      have later := ih only' (by omega)
      obtain ⟨pending',signaled',woken'⟩ := later
      rw [carriesCounted ((parentCounted _ d).slots join)] at woken'
      refine ⟨by omega,?_,?_⟩
      · rw [signaled',signaled]
        constructor
        · grind
        · grind
      · rw [wakeupsAppend,woken,woken']
        grind
    · have same := parentOther (d := d) (x := join) (p := p) (Ne.symm own)
      rw [List.count_cons_of_ne own] at enough ⊢
      obtain ⟨pending,signaled,woken⟩ := ih only' (by rwa [same])
      rw [same] at pending signaled woken
      refine ⟨pending,signaled,?_⟩
      have silent : wakeups id key (tellParent p d).2 = 0 := parentSilent small fun k same =>
        only k fun kj => own (by rw [← same,kj])
      rw [wakeupsAppend,silent,Nat.zero_add,woken]

theorem parentsOther {ps : List Nat} {x : Fin m} (none : x.val ∉ ps) :
    (tellParents ps d).1.tbl x = d.tbl x := by
  induction ps generalizing d with
  | nil => rfl
  | cons p rest ih =>
    rw [List.mem_cons,not_or] at none
    rw [tellParents,ih none.2,parentOther none.1]

end Parents

section Step
variable {m : Nat} {id : Nat} {key : Key} {d d' : DriverData m} {join : Fin m}

structure Ready (d : DriverData m) : Prop where
  tidy : Tidy d
  names : ∀ x, (d.tbl x).valid = true → ∀ p ∈ (d.tbl x).parents, ∃ k : Fin m, k.val = p ∧ isJoin d k
  leaves : ∀ x, isJoin d x → (d.tbl x).parents = []

def total (d : DriverData m) (join : Fin m) : Nat := ∑ x, linksFrom d join x

/-- A fence waits for all that list it, and has been signalled after the last of them. -/
def Balanced (d : DriverData m) (join : Fin m) : Prop :=
  total d join ≤ (d.tbl join).pendingChildCnt.toNat ∧
    ((d.tbl join).signaled = true → total d join = 0)

theorem sumChange {f g : Fin m → Nat} (i : Fin m) (same : ∀ x ≠ i, f x = g x) :
    (∑ x, f x) + g i = (∑ x, g x) + f i := by
  have others : ∑ x ∈ Finset.univ.erase i, f x = ∑ x ∈ Finset.univ.erase i, g x :=
    Finset.sum_congr rfl fun x mem => same x (Finset.ne_of_mem_erase mem)
  have whole := Finset.add_sum_erase Finset.univ f (Finset.mem_univ i)
  have whole' := Finset.add_sum_erase Finset.univ g (Finset.mem_univ i)
  omega

theorem Ready.counted (ready : Ready d) (counted : CountedOnly d d') : Ready d' := by
  refine ⟨counted.tidy ready.tidy,fun x used p listed => ?_,fun x held => ?_⟩
  · rw [counted.parents] at listed
    rw [counted.slots x] at used
    obtain ⟨k,same,held⟩ := ready.names x used p listed
    exact ⟨k,same,(counted.isJoin k).mpr held⟩
  · rw [counted.parents]
    exact ready.leaves x ((counted.isJoin x).mp held)

theorem Ready.plainTotal (ready : Ready d) (plain : ¬ isJoin d join) : total d join = 0 := by
  refine Finset.sum_eq_zero fun x _ => ?_
  by_cases used : (d.tbl x).valid = true
  · refine linksFromNone fun listed => plain ?_
    obtain ⟨k,same,held⟩ := ready.names x used _ listed
    rwa [← Fin.ext same]
  · exact linksFromFree (by simpa using used)

/-- What a step of the controller does to one fence in use. -/
structure Stepped (id : Nat) (key : Key) (join : Fin m) (d d' : DriverData m)
    (events : List Event) : Prop where
  counted : CountedOnly d d'
  drops : ∃ c, (d'.tbl join).pendingChildCnt.toNat + c = (d.tbl join).pendingChildCnt.toNat ∧
    total d' join + c = total d join ∧ (isJoin d join → ((d'.tbl join).signaled = true ↔
      (d.tbl join).signaled = true ∨ 0 < c ∧ (d'.tbl join).pendingChildCnt.toNat = 0))
  kept : (d.tbl join).signaled = true → (d'.tbl join).signaled = true
  balanced : Balanced d' join
  woken : wakeups id key events = if carries id key (d.tbl join) ∧ (d'.tbl join).signaled ∧
    ¬ (d.tbl join).signaled then 1 else 0

theorem steppedSelf (small : id < 64) (ready : Ready d) (only : OnlyAt id key join d)
    (plain : isPlain (d.tbl join)) (unsignaled : (d.tbl join).signaled = false) :
    let told := tellParents (d.tbl join).parents (d.onSlot join raise)
    Stepped id key join d told.1 (tellWaiters join (d.tbl join) ++ told.2) := by
  have notJoin : ¬ isJoin d join := fun held => plain.2 held.2
  have raised : CountedOnly d (d.onSlot join raise) := countedSlot join raiseCounted
  have counted := raised.trans (parentsCounted (d.tbl join).parents (d.onSlot join raise))
  have unlisted : join.val ∉ (d.tbl join).parents := by
    intro listed
    obtain ⟨k,same,held⟩ := ready.names join plain.1 _ listed
    exact notJoin (by rwa [← Fin.ext same])
  have slot := parentsOther (d := d.onSlot join raise) unlisted
  have none : (d.tbl join).parents.count join.val = 0 := List.count_eq_zero.mpr unlisted
  have told := (parentsTold small (only.counted raised) (d.tbl join).parents
    (by rw [none]; exact Nat.zero_le _)).woken
  rw [none] at told
  rw [DriverData.onSlotSame] at slot
  have zero := ready.plainTotal notJoin
  have zero' := (ready.counted counted).plainTotal fun held => notJoin ((counted.isJoin join).mp held)
  dsimp only
  refine ⟨counted,⟨0,?_,by omega,fun held => absurd held notJoin⟩,fun _ => ?_,⟨by omega,fun _ => zero'⟩,?_⟩
  · rw [slot]
    rfl
  · rw [slot,raiseSignals]
  · rw [wakeupsAppend,tellWaitersWakes small,told,slot,raiseSignals]
    simp [unsignaled]

theorem steppedOther (small : id < 64) (ready : Ready d) (only : OnlyAt id key join d)
    (balanced : Balanced d join) {i : Fin m} (ne : join ≠ i) (plain : isPlain (d.tbl i))
    (unsignaled : (d.tbl i).signaled = false) :
    let told := tellParents (d.tbl i).parents (d.onSlot i raise)
    Stepped id key join d told.1 (tellWaiters i (d.tbl i) ++ told.2) := by
  have raised : CountedOnly d (d.onSlot i raise) := countedSlot i raiseCounted
  have counted := raised.trans (parentsCounted (d.tbl i).parents (d.onSlot i raise))
  have slot : (d.onSlot i raise).tbl join = d.tbl join := DriverData.onSlotOther d _ ne
  have links : linksFrom d join i = (d.tbl i).parents.count join.val := by
    simp [linksFrom,plain.1,unsignaled]
  have part : linksFrom d join i ≤ total d join := by
    have whole := Finset.add_sum_erase Finset.univ (linksFrom d join) (Finset.mem_univ i)
    unfold total
    omega
  obtain ⟨pending,signaled,woken⟩ := parentsTold small (only.counted raised)
    (d.tbl i).parents (by rw [slot]; exact links ▸ part.trans balanced.1)
  rw [slot] at pending signaled woken
  -- the fence of the step has nothing left to tell, and a join fence never had
  have unlisted : i.val ∉ (d.tbl i).parents := by
    intro listed
    obtain ⟨k,same,held⟩ := ready.names i plain.1 _ listed
    rw [Fin.ext same] at held
    exact plain.2 held.2
  have done : linksFrom (tellParents (d.tbl i).parents (d.onSlot i raise)).1 join i = 0 := by
    have own := parentsOther (d := d.onSlot i raise) unlisted
    rw [DriverData.onSlotSame] at own
    rw [linksFrom,own,raiseSignals]
    simp
  have others : ∀ x ≠ i, linksFrom (tellParents (d.tbl i).parents (d.onSlot i raise)).1 join x =
      linksFrom d join x := by
    intro x xi
    by_cases listed : x.val ∈ (d.tbl i).parents
    · obtain ⟨k,same,held⟩ := ready.names i plain.1 _ listed
      rw [Fin.ext same] at held
      have leaf := ready.leaves x held
      rw [linksFromNone (by rw [counted.parents,leaf]; exact List.not_mem_nil),
        linksFromNone (by rw [leaf]; exact List.not_mem_nil)]
    · have same := parentsOther (d := d.onSlot i raise) listed
      rw [DriverData.onSlotOther d _ xi] at same
      exact linksFromSame (by rw [same]) (by rw [same]) (by rw [same])
  have sum := sumChange i others
  rw [done,links] at sum
  obtain ⟨enough,settled⟩ := balanced
  have fewer : total (tellParents (d.tbl i).parents (d.onSlot i raise)).1 join +
      (d.tbl i).parents.count join.val = total d join := sum
  dsimp only
  refine ⟨counted,⟨_,pending,fewer,fun _ => signaled⟩,fun before => signaled.mpr (.inl before),
    ⟨by omega,fun after => ?_⟩,?_⟩
  · rcases signaled.mp after with before | ⟨-,zero⟩
    · have := settled before
      omega
    · omega
  · rw [wakeupsAppend,tellWaitersWakes small,only i ne.symm,woken]
    rw [links] at part
    grind

theorem controllerStep (small : id < 64) (ready : Ready d) (only : OnlyAt id key join d)
    (balanced : Balanced d join) (i : Fin m) :
    Stepped id key join d (controllerSignals i d).1 (controllerSignals i d).2 := by
  unfold controllerSignals
  split
  · rename_i moves
    have unsignaled : (d.tbl i).signaled = false := by simpa using moves.2
    by_cases own : join = i
    · subst own
      exact steppedSelf small ready only moves.1 unsignaled
    · exact steppedOther small ready only balanced own moves.1 unsignaled
  · refine ⟨.refl d,⟨0,rfl,rfl,fun _ => by simp⟩,fun before => before,balanced,?_⟩
    simp [wakeups]

end Step
end MmDrivers.Wakeups

import Mathlib
import MmDrivers.JoinRun

/-! The links a fence-array call leaves in the slots of its children, exactly, and what the
rollback makes of them. -/
namespace MmDrivers.ChildLinks
open Sections Sections.Prog FenceTypes FenceLookup FenceTable FenceSignal JoinFence JoinRun Probe

section Links
variable {join k : Nat} {f f' : HwFence}

def SameLinks (f f' : HwFence) : Prop :=
  f'.parentList = f.parentList ∧ f'.parentsCnt = f.parentsCnt

theorem SameLinks.parents (same : SameLinks f f') : f'.parents = f.parents := by
  rw [HwFence.parents,same.1,same.2]
  rfl

def linkTimes (join : Nat) : Nat → HwFence → HwFence
  | 0,f => f
  | k+1,f => linkParent join (linkTimes join k f)

/-- Every entry at or beyond `parents_cnt` is invalid. -/
def Trimmed (f : HwFence) : Prop :=
  ∀ j < msmHwFenceMaxJoinParents, f.parentsCnt.toNat ≤ j →
    f.parentList[j]? = some hwFenceInvalidParentFence

instance (f : HwFence) : Decidable (Trimmed f) := inferInstanceAs (Decidable (∀ _ < _, _))

theorem linkSame (same : SameLinks f f') : SameLinks (linkParent join f) (linkParent join f') := by
  obtain ⟨list,count⟩ := same
  simp [SameLinks,linkParent,list,count]

theorem unlinkSame (join : Nat) (same : SameLinks f f') :
    SameLinks (unlinkParent join f) (unlinkParent join f') := by
  have entry : ∀ j f f', SameLinks f f' → SameLinks (unlinkEntry join j f) (unlinkEntry join j f') := by
    rintro j f f' ⟨list,count⟩
    unfold unlinkEntry
    rw [list]
    split
    · simp [SameLinks,count]
    · exact ⟨list,count⟩
  have entries : ∀ n f f', SameLinks f f' → SameLinks (unlinkFrom join n f) (unlinkFrom join n f') := by
    intro n
    induction n with
    | zero => exact fun _ _ => id
    | succ n ih => exact fun f f' same => ih _ _ (entry n f f' same)
  unfold unlinkParent
  rw [same.2]
  exact entries _ _ _ same

def Room (k : Nat) (f : HwFence) : Prop := 0 < k → f.parentsCnt.toNat+k < msmHwFenceMaxJoinParents

theorem Room.less (room : Room (k+1) f) : Room k f := by
  intro _
  have whole := room (by omega)
  omega

theorem timesCount (join : Nat) (room : Room k f) :
    (linkTimes join k f).parentsCnt.toNat = f.parentsCnt.toNat+k := by
  induction k with
  | zero => rfl
  | succ k ih =>
    have before := ih room.less
    have whole := room (by omega)
    unfold msmHwFenceMaxJoinParents at whole
    rw [linkTimes,linkCount join (exceededIff.mpr (by omega)),before]
    omega

theorem timesRoom (join : Nat) (room : Room (k+1) f) : parentsExceeded (linkTimes join k f) = false := by
  have whole := room (by omega)
  unfold msmHwFenceMaxJoinParents at whole
  rw [exceededIff,timesCount join room.less]
  omega

theorem timesParents (join : Nat) (room : Room k f) :
    (linkTimes join k f).parents = f.parents ++ List.replicate k join := by
  induction k with
  | zero => simp [linkTimes]
  | succ k ih =>
    rw [linkTimes,linkParents (timesRoom join room),ih room.less,List.replicate_succ',List.append_assoc]

theorem timesTrimmed (join : Nat) (trimmed : Trimmed f) (room : Room k f) : Trimmed (linkTimes join k f) := by
  induction k with
  | zero => exact trimmed
  | succ k ih =>
    intro j inside beyond
    have count := linkCount join (timesRoom join room)
    have last : ((linkTimes join k f).parentsCnt+1-1).toNat = (linkTimes join k f).parentsCnt.toNat := by
      congr 1
      exact BitVec.add_sub_cancel _ _
    rw [linkTimes] at beyond ⊢
    rw [count] at beyond
    simp only [linkParent,last]
    rw [Vector.getElem?_setIfInBounds_ne (by omega)]
    exact ih room.less j inside (by omega)

theorem unlinkLink (join : Nat) (trimmed : Trimmed f) (room : parentsExceeded f = false) :
    unlinkEntry join f.parentsCnt.toNat (linkParent join f) = f := by
  have small := exceededIff.mp room
  have last : (f.parentsCnt+1-1).toNat = f.parentsCnt.toNat := by
    congr 1
    exact BitVec.add_sub_cancel _ _
  have listed : (linkParent join f).parentList[f.parentsCnt.toNat]? = some join := by
    simp only [linkParent,last]
    exact Vector.getElem?_setIfInBounds_self_of_lt (by unfold msmHwFenceMaxJoinParents; omega)
  have counted : (linkParent join f).parentsCnt ≠ 0 := by
    intro zero
    have count := linkCount join room
    rw [zero] at count
    simp at count
  have invalid := trimmed f.parentsCnt.toNat (by unfold msmHwFenceMaxJoinParents; omega) (Nat.le_refl _)
  have list : (f.parentList.setIfInBounds f.parentsCnt.toNat join).setIfInBounds f.parentsCnt.toNat
      hwFenceInvalidParentFence = f.parentList := by
    ext j inside
    by_cases same : f.parentsCnt.toNat = j
    · subst same
      simp only [Vector.getElem_setIfInBounds_self]
      rw [Vector.getElem?_eq_getElem inside] at invalid
      exact (Option.some.inj invalid).symm
    · simp [same]
  have back : f.parentsCnt+1-1 = f.parentsCnt := BitVec.add_sub_cancel _ _
  rw [unlinkEntry,if_pos listed,if_pos counted]
  simp only [linkParent,back,list]

theorem unlinkTimes (trimmed : Trimmed f) (unlisted : join ∉ f.parents) (room : Room k f) :
    unlinkParent join (linkTimes join k f) = f := by
  cases k with
  | zero => exact unlinkUnlisted unlisted
  | succ k =>
    have whole := room (by omega)
    unfold msmHwFenceMaxJoinParents at whole
    have down : ∀ n, n ≤ k+1 → unlinkFrom join (f.parentsCnt.toNat+n) (linkTimes join n f) = f := by
      intro n
      induction n with
      | zero =>
        refine fun _ => unlinkFromNone fun i inside listed => ?_
        rw [linkTimes,entryParents inside] at listed
        exact unlisted (List.mem_of_getElem? listed)
      | succ n ih =>
        intro few
        have fits : Room (n+1) f := by
          intro _
          unfold msmHwFenceMaxJoinParents
          omega
        have top := unlinkLink join (timesTrimmed join trimmed fits.less) (timesRoom join fits)
        rw [timesCount join fits.less] at top
        rw [← Nat.add_assoc,unlinkFrom,linkTimes,top]
        exact ih (by omega)
    have count := timesCount join room
    have start : min (linkTimes join (k+1) f).parentsCnt.toInt.toNat msmHwFenceMaxJoinParents =
        f.parentsCnt.toNat+(k+1) := by
      rw [BitVec.toInt,count,msmHwFenceMaxJoinParents]
      split <;> omega
    rw [unlinkParent,start]
    exact down (k+1) (Nat.le_refl _)

end Links

section Touched
variable {m : Nat} {join : Fin m} {d₀ d : DriverData m} {on : Fin m → Prop} {array : DmaFenceArray}
  {i : Nat}

/-- The slot a lookup for the key ends at: the first that carries it. -/
def finds (d : DriverData m) (key : Key) : Option (Fin m) :=
  first (firstHash m key) fun x => decide ((d.tbl x).key = key)

theorem matchRun (op : LookupOp) (matches_ : op.creates = false) (clientId : Nat) (pending : U32)
    (d : DriverData m) (key : Key) :
    ∃ hash, (hwFenceLookupAndProcess op key.1 key.2 clientId pending).run d =
      ((finds d key,hash),(finds d key).elim d fun i =>
        d.onSlot i (op.processFnc d.qtime clientId key.1 key.2 pending)) := by
  have other : ∀ x, (d.tbl x).key ≠ key → probed op key.1 key.2 (d.tbl x) = .missed :=
    fun x ne => (matchesMissed matches_).mpr ne
  cases found : finds d key with
  | none =>
    have none : ∀ x, (d.tbl x).key ≠ key := fun x => by simpa using firstNone.mp found x
    exact lookupMisses fun x => other x (none x)
  | some c =>
    obtain ⟨hit,missed⟩ := firstSome.mp found
    have processed : probed op key.1 key.2 (d.tbl c) = .processed :=
      (matchesProcessed matches_).mpr (by simpa using hit)
    refine ⟨c.val,?_⟩
    rw [lookupStops (by rw [processed]; simp) fun x mem => other x (by simpa using missed x mem),
      if_pos processed]
    rfl

theorem findRun (client : Option HwFenceClient) (d : DriverData m) (key : Key) :
    ∃ hash, (msmHwFenceFind client key.1 key.2).run d = ((finds d key,hash),d) := by
  obtain ⟨hash,ran⟩ := matchRun .findFence rfl (client.elim 0xff HwFenceClient.clientId) 0 d key
  refine ⟨hash,?_⟩
  unfold msmHwFenceFind
  rw [ran]
  cases finds d key with
  | none => rfl
  | some i => simp [LookupOp.processFnc]

theorem findsLinking (linking : Linking join d₀ d) (key : Key) : finds d key = finds d₀ key := by
  unfold finds
  simp only [fun x => (linking.slots x).key]

def Found (array : DmaFenceArray) (d₀ : DriverData m) (i : Nat) (x : Fin m) : Prop :=
  ∃ j < i, ∃ child, array.child j = some child ∧ finds d₀ (waitsFor child) = some x

structure Touched (on : Fin m → Prop) (array : DmaFenceArray) (join : Fin m) (d₀ : DriverData m)
    (i : Nat) (d : DriverData m) : Prop where
  linking : Linking join d₀ d
  links : ∀ x, on x → ∃ k, SameLinks (linkTimes join.val k (d₀.tbl x)) (d.tbl x) ∧
    Room k (d₀.tbl x) ∧ (0 < k → Found array d₀ i x)

theorem Touched.start (on : Fin m → Prop) (array : DmaFenceArray) (join : Fin m) (d : DriverData m) :
    Touched on array join d 0 d :=
  ⟨.refl join d,fun _ _ => ⟨0,⟨rfl,rfl⟩,fun none => absurd none (Nat.lt_irrefl 0),
    fun none => absurd none (Nat.lt_irrefl 0)⟩⟩

theorem Touched.mono {j : Nat} (touched : Touched on array join d₀ i d) (more : i ≤ j) :
    Touched on array join d₀ j d := by
  refine ⟨touched.linking,fun x here => ?_⟩
  obtain ⟨k,same,room,found⟩ := touched.links x here
  refine ⟨k,same,room,fun some => ?_⟩
  obtain ⟨a,before,child⟩ := found some
  exact ⟨a,by omega,child⟩

theorem Touched.onSlot {c : Fin m} {g : HwFence → HwFence} {j : Nat}
    (touched : Touched on array join d₀ i d) (relinked : Relinked (d.tbl c) (g (d.tbl c)))
    (pending : c ≠ join → (g (d.tbl c)).pendingChildCnt = (d.tbl c).pendingChildCnt)
    (others : ∀ x ≠ c, Found array d₀ i x → Found array d₀ j x)
    (own : on c → ∀ k, SameLinks (linkTimes join.val k (d₀.tbl c)) (d.tbl c) → Room k (d₀.tbl c) →
      (0 < k → Found array d₀ i c) → ∃ k, SameLinks (linkTimes join.val k (d₀.tbl c)) (g (d.tbl c)) ∧
        Room k (d₀.tbl c) ∧ (0 < k → Found array d₀ j c)) :
    Touched on array join d₀ j (d.onSlot c g) := by
  refine ⟨touched.linking.onSlot relinked pending,fun x here => ?_⟩
  obtain ⟨k,same,room,found⟩ := touched.links x here
  by_cases xc : x = c
  · subst xc
    rw [DriverData.onSlotSame]
    exact own here k same room found
  · rw [DriverData.onSlotOther d _ xc]
    exact ⟨k,same,room,fun some => others x xc (found some)⟩

theorem Touched.linked {c : Fin m} (touched : Touched on array join d₀ i d)
    (found : Found array d₀ (i+1) c) (fits : parentsExceeded (d.tbl c) = false) :
    Touched on array join d₀ (i+1) (d.onSlot c (linkParent join.val)) := by
  refine touched.onSlot (linkRelinked _ _) (fun _ => rfl) (fun x _ early => ?_)
    fun _ k same room _ => ⟨k+1,linkSame same,fun _ => ?_,fun _ => found⟩
  · obtain ⟨j,before,child⟩ := early
    exact ⟨j,by omega,child⟩
  · have small := exceededIff.mp fits
    have count := timesCount join.val room
    rw [same.2,count] at small
    unfold msmHwFenceMaxJoinParents
    omega

theorem childrenTouched (client : HwFenceClient) (signal : Bool) {rest : List DmaFence}
    (suffix : array.children.drop i = rest) (touched : Touched on array join d₀ i d) :
    let r := (processChildren client join join.val rest i signal).run d
    ∃ j, Touched on array join d₀ j r.2 ∧ ∀ k, r.1 = .error k → j = k := by
  induction rest generalizing i signal d with
  | nil => exact ⟨i,touched,fun k same => (by cases same)⟩
  | cons child rest ih =>
    have listed : array.children[i]? = some child := by
      rw [← List.head?_drop,suffix]
      rfl
    have inside : i < array.numFences.toNat := by
      rw [← array.childrenLength]
      exact (List.getElem?_eq_some_iff.mp listed).1
    have here : array.child i = some child := by rw [← array.childrenAt inside,listed]
    have later : array.children.drop (i+1) = rest := by
      rw [← List.drop_drop,suffix]
      rfl
    have stays : ∃ j, Touched on array join d₀ j d ∧
        ∀ k, (.error i : Except Nat Bool) = .error k → j = k :=
      ⟨i,touched,fun k same => Except.error.inj same⟩
    obtain ⟨hash,ran⟩ := findRun (some client) d (waitsFor child)
    simp only [waitsFor] at ran
    simp only [processChildren,emit,runBind,runAtomic,id_eq]
    split
    · exact stays
    · rw [runBind,ran]
      cases found : finds d (child.context,child.seqno) with
      | none => exact stays
      | some c =>
        rw [findsLinking touched.linking] at found
        simp only [processChild,runBind,runAtomic]
        by_cases signaled : (d.tbl c).signaled = true
        · simp only [signaled,if_true]
          refine ih _ later ((touched.mono (Nat.le_succ i)).onSlot rfl (fun ne => absurd rfl ne)
            (fun _ _ => id) fun _ k same room found => ⟨k,same,room,found⟩)
        · have unsignaled : (d.tbl c).signaled = false := by simpa using signaled
          simp only [unsignaled,Bool.false_eq_true,if_false]
          by_cases exceeded : parentsExceeded (d.tbl c) = true
          · simp only [exceeded,if_true]
            exact stays
          · have fits : parentsExceeded (d.tbl c) = false := by simpa using exceeded
            simp only [fits,Bool.false_eq_true,if_false]
            exact ih _ later (touched.linked ⟨i,by omega,child,here,found⟩ fits)

theorem rollbackTouched (client : HwFenceClient) (trimmed : ∀ x, on x → Trimmed (d₀.tbl x))
    (unlisted : ∀ x, on x → join.val ∉ (d₀.tbl x).parents) (touched : Touched on array join d₀ i d) :
    Touched on array join d₀ 0 ((cleanupChildren client array join.val i).run d).2 := by
  induction i generalizing d with
  | zero => exact touched
  | succ i ih =>
    simp only [cleanupChildren,emit,runBind,runAtomic,id_eq]
    refine ih ?_
    have last : ∀ x, Found array d₀ (i+1) x →
        (∀ child, array.child i = some child → finds d₀ (waitsFor child) ≠ some x) →
        Found array d₀ i x := by
      rintro x ⟨j,before,child,here,found⟩ other
      have ji : j ≠ i := by
        rintro rfl
        exact other child here found
      exact ⟨j,by omega,child,here,found⟩
    have nothing : (∀ child, array.child i = some child → finds d₀ (waitsFor child) = none) →
        Touched on array join d₀ i d := by
      intro none
      refine ⟨touched.linking,fun x here => ?_⟩
      obtain ⟨k,same,room,found⟩ := touched.links x here
      refine ⟨k,same,room,fun some => last x (found some) fun child at_ hit => ?_⟩
      rw [none child at_] at hit
      cases hit
    cases entry : array.child i with
    | none => exact nothing fun child here => by rw [entry] at here; cases here
    | some child =>
      obtain ⟨hash,ran⟩ := findRun (some client) d (waitsFor child)
      simp only [waitsFor] at ran
      simp only [cleanupChild,runBind,ran]
      cases hit : finds d (child.context,child.seqno) with
      | none =>
        rw [findsLinking touched.linking] at hit
        refine nothing fun c here => ?_
        obtain rfl := Option.some.inj (entry.symm.trans here)
        exact hit
      | some c =>
        rw [findsLinking touched.linking] at hit
        have relinked := unlinkRelinked join.val (d.tbl c)
        simp only [unlinkChild,runAtomic]
        refine touched.onSlot relinked.1 (fun _ => relinked.2) (fun x xc found => ?_)
          fun here k same room _ => ⟨0,?_,fun none => absurd none (Nat.lt_irrefl 0),
            fun none => absurd none (Nat.lt_irrefl 0)⟩
        · refine last x found fun child' here' hit' => xc ?_
          obtain rfl := Option.some.inj (entry.symm.trans here')
          exact Option.some.inj (hit'.symm.trans hit)
        · have back := unlinkSame join.val same
          rwa [unlinkTimes (trimmed c here) (unlisted c here) room] at back

theorem Touched.untouched (touched : Touched on array join d₀ 0 d) {x : Fin m} (here : on x)
    (other : x ≠ join) : d.tbl x = d₀.tbl x := by
  obtain ⟨k,same,-,found⟩ := touched.links x here
  have none : k = 0 := by
    by_contra some
    obtain ⟨j,before,-⟩ := found (by omega)
    omega
  subst none
  rw [touched.linking.slots x,same.1,same.2,touched.linking.pending x other]
  rfl

end Touched
end MmDrivers.ChildLinks

import MmDrivers.SpecRises

/-! Arrays that nobody would signal any more: what the tracker drops, and when. -/
namespace MmDrivers.SpecOrphans
open FenceTypes Ledger Runs SpecFence SyncDevice SpecAccounts SpecBind SpecRises

def Served (array : FenceArray) : Prop :=
  array.released = true ∨ array.signaled = true ∨ array.bound = true

def Safe (s : SyncDevice) (i : Nat) : Prop :=
  i ∈ s.fenceArrayList ∨ ∃ array : FenceArray, s.arrays[i]? = some array ∧ Served array

def NoOrphan (s : SyncDevice) : Prop :=
  ∀ (i : Nat) (array : FenceArray), s.arrays[i]? = some array → array.released = false →
    array.signaled = true ∨ array.bound = true ∨ i ∈ s.fenceArrayList

/-- One decrement signals the array, or the tracker has the last reference on it. -/
def Droppable (s : SyncDevice) (i : Nat) : Prop :=
  ∀ array ∈ s.arrays[i]?, array.bound = false → array.signaled = false →
    array.numPending ≤ 1 ∨ s.kref (.base i) = 1

instance (s : SyncDevice) (i : Nat) : Decidable (Droppable s i) :=
  inferInstanceAs (Decidable (∀ array ∈ s.arrays[i]?, _))

def forces (s : SyncDevice) : Op → Bool
  | .releaseDevice => s.deviceAvailable = 1
  | .clearTracker forceClear => forceClear
  | _ => false

/-- Whatever is cleared by force can be dropped. -/
def DropsSettled (s : SyncDevice) (op : Op) : Prop :=
  forces s op = true → ∀ i ∈ s.fenceArrayList, Droppable s i

instance (s : SyncDevice) (op : Op) : Decidable (DropsSettled s op) :=
  inferInstanceAs (Decidable (forces s op = true → ∀ i ∈ s.fenceArrayList, Droppable s i))

section Served
variable {s t u : SyncDevice} {i : Nat}

theorem Served.risen {a b : FenceArray} (served : Served a) (risen : Risen a b) : Served b :=
  served.imp risen.released (Or.imp risen.signaled risen.bound)

theorem noOrphanIff : NoOrphan s ↔ ∀ i < s.arrays.length, Safe s i := by
  constructor
  · intro none i below
    have found := List.getElem?_eq_getElem below
    cases released : (s.arrays[i]).released with
    | true => exact .inr ⟨_,found,.inl released⟩
    | false =>
      rcases none i _ found released with signaled | bound | tracked
      · exact .inr ⟨_,found,.inr (.inl signaled)⟩
      · exact .inr ⟨_,found,.inr (.inr bound)⟩
      · exact .inl tracked
  · intro safe i array found unreleased
    rcases safe i (List.getElem?_eq_some_iff.mp found).1 with tracked | ⟨other,here,served⟩
    · exact .inr (.inr tracked)
    · obtain rfl := Option.some.inj (found.symm.trans here)
      rcases served with released | signaled | bound
      · exact absurd (unreleased.symm.trans released) Bool.false_ne_true
      · exact .inl signaled
      · exact .inr (.inl bound)

def Covers (s t : SyncDevice) : Prop := ∀ i, Safe s i → Safe t i

theorem Covers.trans (st : Covers s t) (tu : Covers t u) : Covers s u := fun i safe => tu i (st i safe)

theorem Covers.ofRises (rises : Rises s t) (tracked : ∀ i ∈ s.fenceArrayList, Safe t i) : Covers s t := by
  rintro i (mem | ⟨array,found,served⟩)
  · exact tracked i mem
  · obtain ⟨later,here,risen⟩ := rises i array found
    exact .inr ⟨later,here,served.risen risen⟩

theorem Covers.kept (rises : Rises s t) (list : t.fenceArrayList = s.fenceArrayList) : Covers s t :=
  .ofRises rises fun _ mem => .inl (list ▸ mem)

end Served

section Clear
variable {s t : SyncDevice} {i j : Nat} {f : FenceId} {hand : List FenceId}

theorem putReleases {array : FenceArray} (found : s.arrays[i]? = some array)
    (last : s.kref (.base i) = 1) :
    ∃ later : FenceArray, (s.dmaFencePut (.base i)).arrays[i]? = some later ∧ later.released = true := by
  have none : (s.count (.base i) (-1)).kref (.base i) = 0 := by
    rw [krefCount,if_pos rfl]
    omega
  have here : (s.count (.base i) (-1)).arrays[i]? = some array := found
  cases released : array.released with
  | true =>
    obtain ⟨later,there,risen⟩ := Rises.put s (.base i) i array found
    exact ⟨later,there,risen.released released⟩
  | false =>
    obtain ⟨fuel,length⟩ : ∃ fuel, s.arrays.length = fuel+1 :=
      ⟨s.arrays.length-1,by have := (List.getElem?_eq_some_iff.mp found).1; omega⟩
    unfold dmaFencePut
    rw [length,releaseUnreferenced]
    simp only [here,released,none,and_self,if_true]
    have marked : ((s.count (.base i) (-1)).onArray i fun array => {array with released := true}).arrays[i]? =
        some {array with released := true} := by
      rw [onArrayArrays,List.getElem?_modify,here]
      simp
    obtain ⟨later,there,risen⟩ := Rises.releases fuel array.fences _ i _ marked
    exact ⟨later,there,risen.released rfl⟩

theorem lowerRefs (s : SyncDevice) (g f : FenceId) : (s.count g (-1)).refs f ≤ s.refs f := by
  simp only [SyncDevice.count,adjustApply]
  split <;> omega

theorem putRefs (s : SyncDevice) (g f : FenceId) : (s.dmaFencePut g).refs f ≤ s.refs f := by
  have released := releaseBy (R := fun s t => t.refs f ≤ s.refs f) (fun _ => le_refl _)
    (fun _ _ _ ab bc => bc.trans ab) (lowerRefs · · f) (fun _ _ => le_refl _)
  exact (released _ g _).trans (lowerRefs s g f)

structure Aside (i : Nat) (s t : SyncDevice) : Prop where
  arrays : ∀ j ≠ i, ∀ b : FenceArray, t.arrays[j]? = some b →
    ∃ a : FenceArray, s.arrays[j]? = some a ∧ b.unreleased = a.unreleased
  kref : ∀ f, t.kref f ≤ s.kref f

theorem Aside.refl (i : Nat) (s : SyncDevice) : Aside i s s :=
  ⟨fun _ _ b found => ⟨b,found,rfl⟩,fun _ => le_refl _⟩

theorem Aside.trans {u : SyncDevice} (st : Aside i s t) (tu : Aside i t u) : Aside i s u := by
  refine ⟨fun j ne c found => ?_,fun f => (tu.kref f).trans (st.kref f)⟩
  obtain ⟨b,middle,bc⟩ := tu.arrays j ne c found
  obtain ⟨a,first,ab⟩ := st.arrays j ne b middle
  exact ⟨a,first,bc.trans ab⟩

theorem Aside.onArray (i : Nat) (s : SyncDevice) (g : FenceArray → FenceArray) : Aside i s (s.onArray i g) := by
  refine ⟨fun j ne b found => ⟨b,?_,rfl⟩,fun f => le_refl _⟩
  rwa [onArrayArrays,List.getElem?_modify_ne _ _ ne.symm] at found

theorem Aside.put (i : Nat) (s : SyncDevice) (g : FenceId) : Aside i s (s.dmaFencePut g) := by
  have drops := Drops.put s g
  refine ⟨fun j _ b found => drops.array found,fun f => ?_⟩
  have refs := putRefs s g f
  have files : (s.dmaFencePut g).filesOf f = s.filesOf f := by
    rw [filesOf,drops.files,filesOf]
  rw [SyncDevice.kref,SyncDevice.kref,drops.others,files]
  omega

theorem Aside.isSignaled (i : Nat) (s : SyncDevice) : Aside i s (s.dmaFenceIsSignaled (.base i)).2 := by
  rcases signaledCases s (.base i) with same | ⟨j,array,base,-,-,-,signals⟩
  · rw [same]
    exact .refl i s
  · obtain rfl := FenceId.base.inj base
    rw [signals]
    exact .onArray i s _

theorem clearNodeAside (forceClear : Bool) (i : Nat) (s : SyncDevice) :
    Aside i s (clearNode forceClear s i) := by
  have put : ∀ s : SyncDevice, Aside i s ((s.dmaFencePut (.base i)).listDel i) := fun s =>
    ⟨(Aside.put i s _).arrays,(Aside.put i s _).kref⟩
  exact clearNodeBy (R := Aside i) (fun _ _ _ => .trans) i (Aside.isSignaled i) (fun s => .onArray i s _) put forceClear s

theorem Droppable.later (h : Held hand t) (mem : j ∈ t.fenceArrayList) (ji : j ≠ i)
    (aside : Aside i s t) (droppable : Droppable s j) : Droppable t j := by
  intro b found unbound unsignaled
  obtain ⟨a,before,same⟩ := aside.arrays j ji b found
  have bound : a.bound = b.bound := (congrArg FenceArray.bound same).symm
  have signaled : a.signaled = b.signaled := (congrArg FenceArray.signaled same).symm
  have pending : a.numPending = b.numPending := (congrArg FenceArray.numPending same).symm
  rcases droppable a before (bound.trans unbound) (signaled.trans unsignaled) with few | last
  · exact .inl (pending ▸ few)
  · have below := aside.kref (.base j)
    have refs := h.accounts.balanced (.base j)
    rw [standingBase h.nodup,if_pos mem] at refs
    unfold kref at *
    right
    omega

theorem clearNodeCovers (h : Held hand s) (forceClear : Bool) (mem : i ∈ s.fenceArrayList)
    (droppable : forceClear = true → Droppable s i) : Covers s (clearNode forceClear s i) := by
  refine .ofRises (Rises.clearNode forceClear s i) fun j tracked => ?_
  by_cases ji : j = i
  · subst ji
    obtain ⟨array,found⟩ : ∃ array, s.arrays[j]? = some array :=
      ⟨_,List.getElem?_eq_getElem (h.created j mem)⟩
    unfold clearNode
    simp only [dmaFenceIsSignaled,found]
    -- what the question itself finds signalled is served already
    have served : ∀ (u : SyncDevice) (later : FenceArray), u.arrays[j]? = some later →
        later.signaled = true → Safe ((u.dmaFencePut (.base j)).listDel j) j := by
      intro u later here signaled
      obtain ⟨last,there,risen⟩ := Rises.put u (.base j) j later here
      exact .inr ⟨last,there,.inr (.inl (risen.signaled signaled))⟩
    have marked : ∀ g : FenceArray → FenceArray, (s.onArray j g).arrays[j]? = some (g array) := by
      intro g
      rw [onArrayArrays,List.getElem?_modify,found]
      simp
    cases signaled : array.signaled with
    | true =>
      simp only [if_true,Bool.not_true,Bool.and_false,Bool.or_true,Bool.false_eq_true,if_false]
      exact served s array found signaled
    | false =>
      by_cases settled : array.numPending ≤ 0
      · simp only [settled,if_true,if_false,Bool.false_eq_true,Bool.not_true,Bool.and_false,Bool.or_true]
        exact served _ _ (marked _) rfl
      · cases forceClear with
        | false =>
          simp only [settled,if_false,Bool.false_eq_true,Bool.false_and,Bool.or_self]
          exact .inl mem
        | true =>
          simp only [settled,if_true,if_false,Bool.false_eq_true,Bool.not_false,Bool.and_self,Bool.or_false]
          by_cases last : array.numPending-1 = 0
          · refine served _ _ (marked _) ?_
            simp [last]
          · cases bound : array.bound with
            | true =>
              obtain ⟨later,there,risen⟩ := Rises.put (s.decPending j) (.base j) j _ (marked _)
              exact .inr ⟨later,there,.inr (.inr (risen.bound bound))⟩
            | false =>
              have counted := (droppable rfl array found bound signaled).resolve_left (by omega)
              obtain ⟨later,there,released⟩ := putReleases (s := s.decPending j) (marked _) counted
              exact .inr ⟨later,there,.inl released⟩
  · exact .inl ((h.clearNode forceClear mem).2 j tracked ji)

theorem clearCovers (h : Held hand s) (forceClear : Bool)
    (droppable : forceClear = true → ∀ i ∈ s.fenceArrayList, Droppable s i) :
    Covers s (s.clearFenceArrayTracker forceClear) := by
  have nodes : ∀ (nodes : List Nat) (s : SyncDevice), Held hand s → nodes.Nodup →
      (∀ i ∈ nodes, i ∈ s.fenceArrayList) → (forceClear = true → ∀ i ∈ nodes, Droppable s i) →
      Covers s (nodes.foldl (clearNode forceClear) s) := by
    intro nodes
    induction nodes with
    | nil => exact fun s _ _ _ _ i safe => safe
    | cons i rest ih =>
      intro s h distinct tracked droppable
      obtain ⟨fresh,distinct⟩ := List.nodup_cons.mp distinct
      have mem := tracked i List.mem_cons_self
      obtain ⟨held,stay⟩ := h.clearNode forceClear mem
      have others : ∀ j ∈ rest, j ≠ i := by
        rintro j inside rfl
        exact fresh inside
      have left : ∀ j ∈ rest, j ∈ (clearNode forceClear s i).fenceArrayList := fun j inside =>
        stay j (tracked j (List.mem_cons_of_mem i inside)) (others j inside)
      have first := clearNodeCovers h forceClear mem fun force => droppable force i List.mem_cons_self
      refine first.trans (ih _ held distinct left fun force j inside => ?_)
      exact (droppable force j (List.mem_cons_of_mem i inside)).later held (left j inside)
        (others j inside) (clearNodeAside forceClear i s)
  exact nodes s.fenceArrayList s h h.nodup (fun _ mem => mem) droppable

end Clear

structure Named (s : SyncDevice) : Prop where
  files : ∀ file ∈ s.files, ∀ i, file.fence = .base i → i < s.arrays.length
  others : ∀ i, s.arrays.length ≤ i → s.others (.base i) = 0
  slots : ∀ array ∈ s.arrays, ∀ i, .base i ∈ array.fences → i < s.arrays.length

section Named
variable {s t : SyncDevice} {i : Nat}

structure Plain (s t : SyncDevice) : Prop where
  arrays : t.arrays.map FenceArray.fences = s.arrays.map FenceArray.fences
  others : t.others = s.others
  files : t.files = s.files

theorem Plain.trans {u : SyncDevice} (st : Plain s t) (tu : Plain t u) : Plain s u :=
  ⟨tu.arrays.trans st.arrays,tu.others.trans st.others,tu.files.trans st.files⟩

theorem Plain.drops (drops : Drops s t) : Plain s t := by
  refine ⟨?_,drops.others,drops.files⟩
  have same := congrArg (List.map FenceArray.fences) drops.arrays
  simpa [List.map_map,Function.comp_def,FenceArray.unreleased] using same

theorem Plain.onArray (s : SyncDevice) (i : Nat) {g : FenceArray → FenceArray}
    (same : ∀ array, (g array).fences = array.fences) : Plain s (s.onArray i g) :=
  ⟨mapModifySame same _ _,rfl,rfl⟩

theorem Plain.isSignaled (s : SyncDevice) (f : FenceId) : Plain s (s.dmaFenceIsSignaled f).2 := by
  rcases signaledCases s f with same | ⟨i,array,-,-,-,-,signals⟩
  · rw [same]
    exact ⟨rfl,rfl,rfl⟩
  · rw [signals]
    exact .onArray s i fun _ => rfl

theorem Plain.clear (forceClear : Bool) (s : SyncDevice) : Plain s (s.clearFenceArrayTracker forceClear) := by
  refine clearBy (R := Plain) (fun _ => ⟨rfl,rfl,rfl⟩) (fun _ _ _ => .trans) (fun s i => ?_) s
  have put : ∀ s : SyncDevice, Plain s ((s.dmaFencePut (.base i)).listDel i) := fun s =>
    (Plain.drops (Drops.put s (.base i))).trans ⟨rfl,rfl,rfl⟩
  exact clearNodeBy (R := Plain) (fun _ _ _ => .trans) i (fun s => .isSignaled s _)
    (fun s => .onArray s i fun _ => rfl) put
    forceClear s

theorem Named.plain (named : Named s) (plain : Plain s t) : Named t := by
  have length : t.arrays.length = s.arrays.length := by simpa using congrArg List.length plain.arrays
  refine ⟨?_,?_,fun array mem i here => ?_⟩
  · rw [plain.files,length]
    exact named.files
  · rw [plain.others,length]
    exact named.others
  · have row : array.fences ∈ s.arrays.map FenceArray.fences := by
      rw [← plain.arrays]
      exact List.mem_map_of_mem mem
    obtain ⟨before,inside,same⟩ := List.mem_map.mp row
    rw [length]
    exact named.slots before inside i (same ▸ here)

theorem Named.fenceOf (named : Named s) {fd : Int} (file : s.fenceOf fd = some (.base i)) :
    i < s.arrays.length := by
  obtain ⟨entry,found,fence⟩ := Option.map_eq_some_iff.mp file
  exact named.files entry (List.mem_of_find?_eq_some found) i fence

theorem unnamedKref (h : Held [] s) (named : Named s) (missing : s.arrays.length ≤ i) :
    s.kref (.base i) = 0 := by
  have refs := refsAre h (.base i)
  have untracked : i ∉ s.fenceArrayList := by
    intro mem
    have below := h.created i mem
    omega
  have slots : s.slotsHolding (.base i) = 0 := by
    refine List.sum_eq_zero fun n mem => ?_
    obtain ⟨array,inside,rfl⟩ := List.mem_map.mp mem
    refine List.count_eq_zero.mpr fun here => ?_
    unfold FenceArray.slots at here
    split at here
    · cases here
    · have below := named.slots array inside i here
      omega
  have files : s.filesOf (.base i) = 0 := by
    refine List.countP_eq_zero.mpr fun file mem same => ?_
    have below := named.files file mem i (by simpa using same)
    omega
  rw [standingBase h.nodup,if_neg untracked,slots] at refs
  rw [SyncDevice.kref,files,named.others i missing,refs]
  rfl

end Named

section Bind
variable {s : SyncDevice} {i : Nat} {hand : List FenceId}

theorem replaceList (i : Nat) (fds : Nat → Int) (left n : Nat) (s : SyncDevice) :
    (s.replaceFences i fds left n).2.fenceArrayList = s.fenceArrayList := by
  induction left generalizing n s with
  | zero => rfl
  | succ left ih =>
    unfold replaceFences
    split
    · rfl
    · exact (ih (n+1) _).trans (Drops.put _ dummyFence).fenceArrayList

theorem clearSignaledCovers (h : Held hand s) : Covers s (s.clearFenceArrayTracker false) :=
  clearCovers h false nofun

theorem bindFencesCovers (h : Held hand s) (held : .base i ∈ hand) (numFences : Nat)
    (fds : Nat → Int) (a : BindAnswers) (unbound : Unbound s i 0 numFences) :
    Covers s (s.bindFences i numFences fds a).2 := by
  have replaced := replaceHeld held fds numFences 0 h unbound
  have stored : Covers s (s.replaceFences i fds numFences 0).2 :=
    .kept (Rises.replace i fds numFences 0 s) (replaceList i fds numFences 0 s)
  unfold bindFences
  generalize s.replaceFences i fds numFences 0 = done at replaced stored ⊢
  obtain ⟨full,t⟩ := done
  cases full with
  | true =>
    have ready := replaced.flags (i := i) (g := fun array => {array with enableSignal := false})
      fun array => ⟨rfl,rfl⟩
    have off := Rises.onArray t i (g := fun array => {array with enableSignal := false})
      fun _ => ⟨id,id,id⟩
    have enabled := stored.trans (.kept (off.trans (Rises.enable i a _)) rfl)
    have cleared := enabled.trans (clearSignaledCovers (enableHeld ready held a))
    exact cleared.trans (.kept (Rises.onArray _ i fun _ => ⟨id,id,fun _ => rfl⟩) rfl)
  | false =>
    have bound := replaced.flags (i := i) (g := fun array => {array with bound := true})
      fun array => ⟨rfl,rfl⟩
    have signaled := bound.flags (i := i) (g := fun array => {array with error := -22,signaled := true})
      fun array => ⟨rfl,rfl⟩
    have marked := Rises.onArray t i (g := fun array => {array with bound := true})
      fun _ => ⟨id,id,fun _ => rfl⟩
    have failed := Rises.onArray (t.setBound i) i
      (g := fun array => {array with error := -22,signaled := true}) fun _ => ⟨id,fun _ => rfl,id⟩
    exact (stored.trans (.kept (marked.trans failed) rfl)).trans (clearSignaledCovers signaled)

theorem bindArrayCovers (h : Held [] s) (info : FenceBindData) (a : BindAnswers) :
    Covers s (specSyncBindArray info a s).2 := by
  unfold specSyncBindArray
  split
  · exact fun _ safe => safe
  · rename_i fence file
    have counted := fenceOfCounted h file
    have start := h.get fun _ _ => counted
    have got : Covers s (s.dmaFenceGet fence) := .kept (.same rfl) rfl
    generalize s.dmaFenceGet fence = t at start got ⊢
    have ended := checked fence a t
    generalize t.checkBind fence a = done at ended ⊢
    have put : ∀ u : SyncDevice, Covers u (u.dmaFencePut fence) := fun u =>
      .kept (Rises.put u fence) (Drops.put u fence).fenceArrayList
    cases ended with
    | refused e =>
      have asked : Covers t (t.dmaFenceIsSignaled fence).2 :=
        .kept (Rises.isSignaled t fence) (start.isSignaled fence).2
      exact (got.trans asked).trans (put _)
    | @passed i base pending tracked unbound =>
      refine (got.trans ?_).trans (put _)
      subst base
      have found := List.getElem?_eq_getElem (start.created i tracked)
      have slots := Unbound.all found (unbound _ found)
      exact bindFencesCovers start List.mem_cons_self _ info.fds a slots

end Bind

section Create
variable {s : SyncDevice} {f : FenceId} {n : Nat}

theorem getsKref (s : SyncDevice) (n : Nat) {f : FenceId} (other : dummyFence ≠ f) :
    ((List.replicate n dummyFence).foldl dmaFenceGet s).kref f = s.kref f := by
  induction n generalizing s with
  | zero => rfl
  | succ n ih =>
    refine (ih _).trans ?_
    rw [dmaFenceGet,krefCount,if_neg other,add_zero]

theorem releaseCounted (fuel : Nat) (counted : s.kref f ≠ 0) : releaseUnreferenced fuel f s = s := by
  cases fuel with
  | zero => rfl
  | succ fuel =>
    cases f with
    | fence context seqno => rfl
    | base i =>
      unfold releaseUnreferenced
      split
      · rw [if_neg fun free => counted free.2]
      · rfl

theorem fputBack (new : SyncFile.mk none f ∉ s.files) (counted : s.kref f ≠ 0) :
    (s.syncFileCreate f).fput ⟨none,f⟩ = s := by
  have files : (s.files ++ [SyncFile.mk none f]).erase ⟨none,f⟩ = s.files := by
    rw [List.erase_append_right _ new,List.erase_cons_head,List.append_nil]
  have back : {s.syncFileCreate f with files := (s.syncFileCreate f).files.erase ⟨none,f⟩} = s := by
    rw [syncFileCreate,files]
  unfold fput
  rw [back]
  exact releaseCounted _ counted

theorem getsDrops (s : SyncDevice) (fences : List FenceId) : Drops s (fences.foldl dmaFenceGet s) := by
  induction fences generalizing s with
  | nil => exact Drops.refl s
  | cons f rest ih => exact (Drops.count s f 1).trans (ih _)

theorem madeLast (fences : List FenceId) (signalOnAny : Bool) (uncounted : s.kref (.base s.arrays.length) = 0) :
    let u := s.dmaFenceArrayCreate fences signalOnAny
    u.kref (.base s.arrays.length) = 1 ∧ u.arrays.length = s.arrays.length+1 ∧ Covers s u ∧
      ∃ array : FenceArray, u.arrays[s.arrays.length]? = some array := by
  refine ⟨?_,?_,?_,?_⟩
  · rw [dmaFenceArrayCreate,krefCount,if_pos rfl]
    exact congrArg (·+1) uncounted
  · simp [dmaFenceArrayCreate]
  · refine .kept (fun i array found => ⟨array,?_,.refl array⟩) rfl
    simp only [dmaFenceArrayCreate,countArrays]
    rw [List.getElem?_append_left (List.getElem?_eq_some_iff.mp found).1]
    exact found
  · exact ⟨_,List.getElem?_eq_getElem (by simp [dmaFenceArrayCreate])⟩

theorem noOrphanLast {t : SyncDevice} (none : NoOrphan s) (covers : Covers s t)
    (length : t.arrays.length = s.arrays.length+1) (last : Safe t s.arrays.length) : NoOrphan t := by
  refine noOrphanIff.mpr fun i below => ?_
  rcases Nat.lt_or_ge i s.arrays.length with old | new
  · exact covers i (noOrphanIff.mp none i old)
  · obtain rfl : i = s.arrays.length := by omega
    exact last

theorem putLast {t : SyncDevice} (none : NoOrphan s) (covers : Covers s t)
    (length : t.arrays.length = s.arrays.length+1) {array : FenceArray}
    (found : t.arrays[s.arrays.length]? = some array) (counted : t.kref (.base s.arrays.length) = 1) :
    NoOrphan (t.dmaFencePut (.base s.arrays.length)) := by
  have drops := Drops.put t (.base s.arrays.length)
  have put : Covers t (t.dmaFencePut (.base s.arrays.length)) := .kept (Rises.put t _) drops.fenceArrayList
  obtain ⟨later,there,released⟩ := putReleases found counted
  exact noOrphanLast none (covers.trans put) (drops.length.trans length) (.inr ⟨later,there,.inl released⟩)

theorem createArrayNoOrphan (h : Held [] s) (named : Named s) (none : NoOrphan s) (f : FenceCreateData)
    (a : CreateAnswers) : NoOrphan (specSyncCreateArray f a s).2 := by
  unfold specSyncCreateArray
  split
  · exact none
  · split
    · exact none
    · split
      · exact none
      · have arrays := getsArrays s (List.replicate f.numFences dummyFence)
        have drops := getsDrops s (List.replicate f.numFences dummyFence)
        have counted := getsKref s f.numFences (f := .base s.arrays.length) nofun
        have uncounted := counted.trans (unnamedKref h named (Nat.le_refl _))
        have covers : Covers s ((List.replicate f.numFences dummyFence).foldl dmaFenceGet s) :=
          .kept (.same arrays) drops.fenceArrayList
        dsimp only
        generalize (List.replicate f.numFences dummyFence).foldl dmaFenceGet s = t at arrays drops uncounted covers ⊢
        have noneTaken : NoOrphan t := noOrphanIff.mpr fun i below =>
          covers i (noOrphanIff.mp none i (arrays ▸ below))
        have new : SyncFile.mk Option.none (.base t.arrays.length) ∉ t.files := by
          intro mem
          have below := named.files _ (drops.files ▸ mem) t.arrays.length rfl
          rw [arrays] at below
          omega
        rw [← arrays] at uncounted
        split
        · have puts := Drops.puts t (List.replicate f.numFences dummyFence)
          have put : Covers t _ := .kept (Rises.puts _ t) puts.fenceArrayList
          exact noOrphanIff.mpr fun i below =>
            put i (noOrphanIff.mp noneTaken i (puts.length ▸ below))
        · obtain ⟨one,length,grown,array,found⟩ := madeLast
            (List.replicate f.numFences dummyFence) (f.flags &&& specFenceSignalAll = 0) uncounted
          have filed : SyncFile.mk Option.none (.base t.arrays.length) ∉
              (t.dmaFenceArrayCreate (List.replicate f.numFences dummyFence)
                (f.flags &&& specFenceSignalAll = 0)).files := new
          generalize t.dmaFenceArrayCreate _ _ = u at one length grown found filed ⊢
          split
          · exact putLast noneTaken grown length found one
          · split
            · rw [fputBack filed (by omega)]
              exact putLast noneTaken grown length found one
            · refine noOrphanLast noneTaken (grown.trans (.ofRises (.same rfl) ?_)) length (.inl ?_)
              · exact fun i mem => .inl (List.mem_append_left _ mem)
              · exact List.mem_append_right _ List.mem_cons_self

end Create

section StepNamed
variable {s : SyncDevice} {i : Nat}

theorem Named.withFiles (named : Named s) (files : List SyncFile)
    (new : ∀ file ∈ files, file ∈ s.files ∨ ∀ i, file.fence = .base i → i < s.arrays.length) :
    Named {s with files} := by
  refine ⟨fun file mem i base => ?_,named.others,named.slots⟩
  rcases new file mem with old | there
  · exact named.files file old i base
  · exact there i base

theorem Named.withOthers (named : Named s) (others : FenceId → Nat)
    (none : ∀ i, s.arrays.length ≤ i → others (.base i) = 0) : Named {s with others} :=
  ⟨named.files,none,named.slots⟩

theorem Named.fput (named : Named s) (file : SyncFile) : Named (s.fput file) := by
  have erased := named.withFiles (s.files.erase file) fun _ mem => .inl (List.mem_of_mem_erase mem)
  exact erased.plain (.drops (Drops.release _ file.fence _))

theorem Named.addFile (named : Named s) (below : i < s.arrays.length) (fd : Option Int) :
    Named {s with files := s.files ++ [⟨fd,.base i⟩]} := by
  refine named.withFiles _ fun file mem => ?_
  rcases List.mem_append.mp mem with old | new
  · exact .inl old
  · obtain rfl := List.mem_singleton.mp new
    exact .inr fun j base => FenceId.base.inj base ▸ below

theorem Named.fdInstall (named : Named s) (below : i < s.arrays.length) (fd : Nat) :
    Named (s.fdInstall fd (.base i)) := by
  have erased := named.withFiles (s.files.erase ⟨none,.base i⟩) fun _ mem => .inl (List.mem_of_mem_erase mem)
  exact erased.addFile below (some fd)

theorem Named.put (named : Named s) (f : FenceId) : Named (s.dmaFencePut f) :=
  named.plain (.drops (Drops.put s f))

theorem Named.alive (f : FenceId) (alive : s.alive f = true) (base : f = .base i) : i < s.arrays.length := by
  subst base
  cases found : s.arrays[i]? with
  | none => simp [SyncDevice.alive,found] at alive
  | some array => exact (List.getElem?_eq_some_iff.mp found).1

theorem Named.store {fd : Int} {f : FenceId} (named : Named s) (file : s.fenceOf fd = some f) (n : Nat) :
    Named (s.onArray i fun array => {array with fences := array.fences.set n f}) := by
  refine ⟨?_,?_,fun array mem j here => ?_⟩
  · rw [onArrayArrays,List.length_modify]
    exact named.files
  · rw [onArrayArrays,List.length_modify]
    exact named.others
  · rw [onArrayArrays,List.length_modify]
    obtain ⟨k,found⟩ := List.getElem?_of_mem mem
    rw [onArrayArrays,List.getElem?_modify] at found
    obtain ⟨before,start,rfl⟩ := Option.map_eq_some_iff.mp found
    have slots := named.slots before (List.mem_of_getElem? start) j
    split at here
    · rcases List.mem_or_eq_of_mem_set here with old | rfl
      · exact slots old
      · exact named.fenceOf file
    · exact slots here

theorem Named.replace (named : Named s) (i : Nat) (fds : Nat → Int) (left n : Nat) :
    Named (s.replaceFences i fds left n).2 := by
  induction left generalizing n s with
  | zero => exact named
  | succ left ih =>
    unfold replaceFences
    split
    · exact named
    · rename_i f file
      have got : Named (s.dmaFenceGet f) := named.plain (.drops (Drops.count s f 1))
      exact ih ((got.store file n).put dummyFence) (n+1)

theorem Named.bindFences (named : Named s) (below : i < s.arrays.length) (numFences : Nat)
    (fds : Nat → Int) (a : BindAnswers) : Named (s.bindFences i numFences fds a).2 := by
  have replaced := named.replace i fds numFences 0
  obtain ⟨later,there,-⟩ := Rises.replace i fds numFences 0 s i _ (List.getElem?_eq_getElem below)
  have length := (List.getElem?_eq_some_iff.mp there).1
  clear there
  unfold SyncDevice.bindFences
  generalize s.replaceFences i fds numFences 0 = done at replaced length ⊢
  obtain ⟨full,t⟩ := done
  dsimp only at length
  cases full with
  | true =>
    have off := replaced.plain (.onArray t i (g := fun array => {array with enableSignal := false})
      fun _ => rfl)
    have counted := off.withOthers (Function.update t.others (.base i) (t.others (.base i)+a.callbacks)) (by
      intro j missing
      have other : FenceId.base j ≠ .base i := by
        intro same
        obtain rfl := FenceId.base.inj same
        rw [onArrayArrays,List.length_modify] at missing
        omega
      rw [Function.update_of_ne other]
      exact off.others j missing)
    have enabled := counted.plain (.onArray _ i
      (g := fun array => {array with enableSignal := true}.countDown a.numPending a.error)
      fun array => (FenceArray.countDownKept _ _ _).1)
    have cleared := enabled.plain (.clear false _)
    exact cleared.plain (.onArray _ i fun _ => rfl)
  | false =>
    have bound := replaced.plain (.onArray t i (g := fun array => {array with bound := true}) fun _ => rfl)
    have failed := bound.plain (.onArray _ i
      (g := fun array => {array with error := -22,signaled := true}) fun _ => rfl)
    exact failed.plain (.clear false _)

theorem Named.bindArray (named : Named s) (h : Held [] s) (info : FenceBindData) (a : BindAnswers) :
    Named (specSyncBindArray info a s).2 := by
  unfold specSyncBindArray
  split
  · exact named
  · rename_i fence file
    have got : Named (s.dmaFenceGet fence) := named.plain (.drops (Drops.count s fence 1))
    have created := h.created
    have ended := checked fence a (s.dmaFenceGet fence)
    generalize (s.dmaFenceGet fence).checkBind fence a = done at ended ⊢
    cases ended with
    | refused e => exact (got.plain (.isSignaled _ fence)).put fence
    | passed base pending tracked unbound =>
      exact (got.bindFences (created _ tracked) _ info.fds a).put fence

theorem Named.create (named : Named s) (fences : List FenceId) (plain : ∀ i, .base i ∉ fences)
    (signalOnAny : Bool) : Named (s.dmaFenceArrayCreate fences signalOnAny) := by
  have grown : (s.dmaFenceArrayCreate fences signalOnAny).arrays.length = s.arrays.length+1 := by
    simp [dmaFenceArrayCreate]
  refine ⟨fun file mem i base => ?_,fun i missing => ?_,fun array mem i here => ?_⟩
  · have below := named.files file mem i base
    omega
  · exact named.others i (by omega)
  · rcases List.mem_append.mp mem with old | new
    · have below := named.slots array old i here
      omega
    · obtain rfl := List.mem_singleton.mp new
      exact absurd here (plain i)

theorem Named.createArray (named : Named s) (f : FenceCreateData) (a : CreateAnswers) :
    Named (specSyncCreateArray f a s).2 := by
  unfold specSyncCreateArray
  split
  · exact named
  · split
    · exact named
    · split
      · exact named
      · have got := named.plain (.drops (getsDrops s (List.replicate f.numFences dummyFence)))
        dsimp only
        generalize (List.replicate f.numFences dummyFence).foldl dmaFenceGet s = t at got ⊢
        split
        · exact got.plain (.drops (Drops.puts t _))
        · have made := got.create (List.replicate f.numFences dummyFence)
            (fun i mem => nomatch List.eq_of_mem_replicate mem) (f.flags &&& specFenceSignalAll = 0)
          have length : t.arrays.length < (t.dmaFenceArrayCreate (List.replicate f.numFences dummyFence)
              (f.flags &&& specFenceSignalAll = 0)).arrays.length := by
            simp [dmaFenceArrayCreate]
          generalize t.dmaFenceArrayCreate _ _ = u at made length ⊢
          split
          · exact made.put _
          · split
            · exact ((made.addFile length none).fput _).put _
            · rename_i fd _ _ _ _ _ _
              have installed := (made.addFile length none).fdInstall length fd
              exact ⟨installed.files,installed.others,installed.slots⟩

theorem stepNamed (debugFs : Bool) (h : Held [] s) (named : Named s) (op : Op) :
    Named (op.step debugFs s) := by
  cases op with
  | openDevice =>
    simp only [Op.step,specSyncOpen]
    split
    · exact named
    · exact named.plain ⟨rfl,rfl,rfl⟩
  | releaseDevice =>
    simp only [Op.step,specSyncRelease]
    have closed : Named {s with deviceAvailable := s.deviceAvailable-1} := named.plain ⟨rfl,rfl,rfl⟩
    split
    · exact named
    · split
      · exact closed.plain (.clear true _)
      · exact closed
  | create f a =>
    simp only [Op.step,specSyncIoctlCreateFence]
    split
    · exact named
    · have created := named.createArray f a
      generalize specSyncCreateArray f a s = done at created ⊢
      obtain ⟨fd,s'⟩ := done
      cases fd <;> exact created
  | bind info a =>
    simp only [Op.step,specSyncIoctlBind]
    split
    · exact named
    · exact named.bindArray h info a
  | clearTracker forceClear => exact named.plain (.clear forceClear s)
  | closeFd fd =>
    simp only [Op.step]
    cases s.files.find? (·.fd == some (fd : Int)) with
    | none => exact named
    | some file => exact named.fput file
  | installFile fd f =>
    simp only [Op.step]
    split
    · rename_i allowed
      refine named.withFiles _ fun file mem => ?_
      rcases List.mem_append.mp mem with old | new
      · exact .inl old
      · obtain rfl := List.mem_singleton.mp new
        exact .inr fun i base => Named.alive f allowed.1 base
    · exact named
  | takeRef f =>
    simp only [Op.step]
    split
    · rename_i allowed
      refine named.withOthers _ fun i missing => ?_
      have other : FenceId.base i ≠ f := by
        rintro rfl
        have below := Named.alive _ allowed rfl
        omega
      rw [Function.update_of_ne other]
      exact named.others i missing
    · exact named
  | dropRef f =>
    simp only [Op.step]
    split
    · exact named
    · rename_i some
      refine Named.plain (named.withOthers _ fun i missing => ?_) (.drops (Drops.release _ f _))
      have other : FenceId.base i ≠ f := by
        rintro rfl
        exact some (named.others i missing)
      rw [Function.update_of_ne other]
      exact named.others i missing
  | countDown i numPending error =>
    exact named.plain (.onArray s i fun array => (array.countDownKept _ _).1)
  | signalFence context seqno => exact named.plain ⟨rfl,rfl,rfl⟩

end StepNamed

section Run
variable {s : SyncDevice}

theorem NoOrphan.covered {t : SyncDevice} (none : NoOrphan s) (covers : Covers s t)
    (length : t.arrays.length = s.arrays.length) : NoOrphan t :=
  noOrphanIff.mpr fun i below => covers i (noOrphanIff.mp none i (length ▸ below))

theorem bindArrayLength (s : SyncDevice) (info : FenceBindData) (a : BindAnswers) :
    (specSyncBindArray info a s).2.arrays.length = s.arrays.length := by
  unfold specSyncBindArray
  split
  · rfl
  · rename_i fence file
    have ended := checked fence a (s.dmaFenceGet fence)
    have put : ∀ u : SyncDevice, (u.dmaFencePut fence).arrays.length = u.arrays.length := fun u =>
      (Drops.put u fence).length
    generalize (s.dmaFenceGet fence).checkBind fence a = done at ended ⊢
    cases ended with
    | refused e => exact (put _).trans (Keeps.isSignaled (s.dmaFenceGet fence) fence).length
    | passed base pending tracked unbound => exact (put _).trans (SpecStores.bindStores _ _ _ info.fds a).length

theorem clearNoOrphan (h : Held [] s) (none : NoOrphan s) (forceClear : Bool)
    (droppable : forceClear = true → ∀ i ∈ s.fenceArrayList, Droppable s i) :
    NoOrphan (s.clearFenceArrayTracker forceClear) :=
  none.covered (clearCovers h forceClear droppable) (Keeps.clear forceClear s).length

theorem stepNoOrphan (debugFs : Bool) (h : Held [] s) (named : Named s) (none : NoOrphan s) {op : Op}
    (settled : DropsSettled s op) : NoOrphan (op.step debugFs s) := by
  -- most operations leave the list as it is
  have kept : ∀ t : SyncDevice, Rises s t → t.fenceArrayList = s.fenceArrayList →
      t.arrays.length = s.arrays.length → NoOrphan t := fun t rises list length =>
    none.covered (.kept rises list) length
  have rises := stepRises debugFs s op
  cases op with
  | openDevice =>
    simp only [Op.step,specSyncOpen]
    split
    · exact none
    · exact none
  | releaseDevice =>
    simp only [Op.step,specSyncRelease]
    have closed : Held [] {s with deviceAvailable := s.deviceAvailable-1} :=
      ⟨⟨h.accounts.balanced,h.accounts.gone⟩,h.nodup,h.created⟩
    split
    · exact none
    · rename_i opened
      split
      · rename_i last
        refine clearNoOrphan closed none true fun _ i mem => settled ?_ i mem
        have one : s.deviceAvailable = 1 := by omega
        simp [forces,one]
      · exact none
  | create f a =>
    simp only [Op.step,specSyncIoctlCreateFence]
    split
    · exact none
    · have created := createArrayNoOrphan h named none f a
      generalize specSyncCreateArray f a s = done at created ⊢
      obtain ⟨fd,s'⟩ := done
      cases fd <;> exact created
  | bind info a =>
    simp only [Op.step,specSyncIoctlBind]
    split
    · exact none
    · exact none.covered (bindArrayCovers h info a) (bindArrayLength s info a)
  | clearTracker forceClear => exact clearNoOrphan h none forceClear fun force => settled force
  | closeFd fd =>
    simp only [Op.step] at rises ⊢
    cases found : s.files.find? (·.fd == some (fd : Int)) with
    | none => exact none
    | some file =>
      rw [found] at rises
      have drops := Drops.release s.arrays.length file.fence {s with files := s.files.erase file}
      exact kept _ rises drops.fenceArrayList drops.length
  | installFile fd f =>
    simp only [Op.step]
    split
    · exact none
    · exact none
  | takeRef f =>
    simp only [Op.step]
    split
    · exact none
    · exact none
  | dropRef f =>
    simp only [Op.step] at rises ⊢
    split at rises
    · rename_i zero
      rw [if_pos zero]
      exact none
    · rename_i counted
      rw [if_neg counted]
      have drops := Drops.release s.arrays.length f
        {s with others := Function.update s.others f (s.others f-1)}
      exact kept _ rises drops.fenceArrayList drops.length
  | countDown i numPending error => exact kept _ rises rfl (List.length_modify _ _ _)
  | signalFence context seqno => exact none

end Run

theorem registeredNamed : Named specSyncRegisterDevice := ⟨nofun,fun _ _ => rfl,nofun⟩

theorem noneOrphaned (debugFs : Bool) (ops : List Op)
    (settled : Along (Op.step debugFs) DropsSettled specSyncRegisterDevice ops) :
    Along (Op.step debugFs) (fun s _ => NoOrphan s) specSyncRegisterDevice ops ∧
      NoOrphan (after (Op.step debugFs) specSyncRegisterDevice ops) := by
  have keep : ∀ s op, (Held [] s ∧ Named s) ∧ NoOrphan s → DropsSettled s op →
      (Held [] (Op.step debugFs s op) ∧ Named (Op.step debugFs s op)) ∧ NoOrphan (Op.step debugFs s op) := by
    rintro s op ⟨⟨h,named⟩,none⟩ settled
    exact ⟨⟨stepHeld debugFs h op,stepNamed debugFs h named op⟩,
      stepNoOrphan debugFs h named none settled⟩
  have start : NoOrphan specSyncRegisterDevice := by
    intro i array found
    cases found
  obtain ⟨along,last⟩ := invariant keep ⟨⟨registeredHeld,registeredNamed⟩,start⟩ settled
  exact ⟨alongMono (fun _ _ inv => inv.2) along,last.2⟩

theorem anyServed : NoOrphan (after (Op.step false) specSyncRegisterDevice
    [.openDevice,.create ⟨2,0⟩ (grantAll 3),.releaseDevice]) :=
  (noneOrphaned false _ (by decide)).2

theorem pairOrphaned : ¬ NoOrphan (after (Op.step false) specSyncRegisterDevice
    [.openDevice,.create ⟨2,specFenceSignalAll⟩ (grantAll 3),.releaseDevice]) := by
  intro none
  rcases none 0 _ rfl (by decide) with signaled | bound | tracked
  · exact absurd signaled (by decide)
  · exact absurd bound (by decide)
  · exact absurd tracked (by decide)

end MmDrivers.SpecOrphans

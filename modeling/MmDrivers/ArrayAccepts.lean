import Mathlib
import MmDrivers.ArrayOutcome

/-! Which arrays a fence-array call accepts, and what it leaves of the table then. -/
namespace MmDrivers.ArrayAccepts
open Sections Sections.Prog FenceTypes FenceLookup FenceTable FenceSignal JoinFence JoinRun Probe
open ChildLinks ArrayOutcome
open JoinAccounting (creator waiter unsignaledFlags joinCallsAllowed)
open DriverRuns (DriverCall settledStep)

section Children
variable {m n : Nat} {d d₀ d' : DriverData m} {join : Fin m} {client : HwFenceClient}
  {array : DmaFenceArray}

def occurrences (array : DmaFenceArray) (key : Key) : Nat := (array.children.map waitsFor).count key

def childSignaled (d : DriverData m) (child : DmaFence) : Prop :=
  ∃ x, d.live (waitsFor child) x ∧ (d.tbl x).signaled = true

instance (d : DriverData m) (child : DmaFence) : Decidable (childSignaled d child) :=
  inferInstanceAs (Decidable (∃ _, _))

theorem joinedOther {x : Fin m} (xj : x ≠ join) : (joined client array 0 join d).tbl x = d.tbl x := by
  rw [joinedTbl,Function.update_of_ne xj]

theorem joinedLiveIff (free : (d.tbl join).valid = false) {key : Key} {x : Fin m} :
    (joined client array 0 join d).live key x ↔
      x = join ∧ key = arrayKey array ∨ d.live key x := by
  by_cases xj : x = join
  · subst xj
    have used := joinedLive client array 0 x d
    have unused : ¬ d.live key x := by
      rintro ⟨used,-⟩
      rw [free] at used
      cases used
    constructor
    · rintro ⟨-,same⟩
      exact .inl ⟨rfl,same.symm.trans used.2⟩
    · rintro (⟨-,rfl⟩ | held)
      · exact used
      · exact absurd held unused
  · rw [DriverData.live,joinedOther xj]
    simp [DriverData.live,xj]

theorem joinedUnsignaled : ((joined client array 0 join d).tbl join).signaled = false := by
  rw [joinedSlot]
  exact unsignaledFlags rfl

theorem joinedSignaled (free : (d.tbl join).valid = false) (child : DmaFence) :
    childSignaled (joined client array 0 join d) child ↔ childSignaled d child := by
  constructor
  · rintro ⟨x,held,signaled⟩
    have xj : x ≠ join := by
      rintro rfl
      rw [joinedUnsignaled] at signaled
      cases signaled
    rw [joinedOther xj] at signaled
    exact ⟨x,((joinedLiveIff free).mp held).resolve_left fun own => xj own.1,signaled⟩
  · rintro ⟨x,held,signaled⟩
    have xj : x ≠ join := by
      rintro rfl
      rw [held.1] at free
      cases free
    exact ⟨x,(joinedLiveIff free).mpr (.inr held),by rwa [joinedOther xj]⟩

theorem slotsCount {children : List DmaFence} {cs : List (Fin m)} (distinct : DistinctLive d)
    (slots : List.Forall₂ (fun child c => d.live (waitsFor child) c) children cs) {key : Key}
    {x : Fin m} (held : d.live key x) : cs.count x = (children.map waitsFor).count key := by
  induction slots with
  | nil => rfl
  | @cons child c rest cs here slots ih =>
    have same : c = x ↔ waitsFor child = key := by
      constructor
      · rintro rfl
        exact here.2.symm.trans held.2
      · rintro rfl
        exact distinct _ c x here held
    simp [List.count_cons,ih,same]

theorem slotsSignaled {children : List DmaFence} {cs : List (Fin m)} (distinct : DistinctLive d)
    (slots : List.Forall₂ (fun child c => d.live (waitsFor child) c) children cs) :
    signaledOf d cs = children.countP fun child => childSignaled d child := by
  unfold signaledOf
  induction slots with
  | nil => rfl
  | @cons child c rest cs here slots ih =>
    have same : (d.tbl c).signaled = true ↔ childSignaled d child := by
      refine ⟨fun signaled => ⟨c,here,signaled⟩,?_⟩
      rintro ⟨x,held,signaled⟩
      rwa [distinct _ c x here held]
    simp [List.countP_cons,ih,same]

theorem loopLinks {done : List DmaFence} {cs : List (Fin m)} {signal : Bool} {i : Nat}
    (progress : Progress n join d₀ done cs signal d')
    (touched : Touched (fun _ => True) array join d₀ i d') (x : Fin m) :
    SameLinks (linkTimes join.val (linksOf d₀ cs x) (d₀.tbl x)) (d'.tbl x) ∧
      Room (linksOf d₀ cs x) (d₀.tbl x) := by
  obtain ⟨k,same,room,-⟩ := touched.links x trivial
  have parents := same.parents
  rw [progress.parents x,timesParents join.val room] at parents
  have length := congrArg List.length (List.append_cancel_left parents)
  simp only [List.length_replicate] at length
  subst length
  exact ⟨same,room⟩

theorem timesRelinked (join k : Nat) (f : HwFence) : Relinked f (linkTimes join k f) ∧
    (linkTimes join k f).pendingChildCnt = f.pendingChildCnt := by
  induction k with
  | zero => exact ⟨rfl,rfl⟩
  | succ k ih => exact ⟨ih.1.trans (linkRelinked join _),ih.2⟩

theorem loopSlot {done : List DmaFence} {cs : List (Fin m)} {signal : Bool} {i : Nat}
    (progress : Progress n join d₀ done cs signal d')
    (touched : Touched (fun _ => True) array join d₀ i d') {x : Fin m} (xj : x ≠ join) :
    d'.tbl x = linkTimes join.val (linksOf d₀ cs x) (d₀.tbl x) := by
  have same := (loopLinks progress touched x).1
  have relinked := timesRelinked join.val (linksOf d₀ cs x) (d₀.tbl x)
  rw [progress.linking.slots x,relinked.1,same.1,same.2,progress.linking.pending x xj,relinked.2]

end Children

section Accepts
variable {m : Nat} {d : DriverData m} {join : Fin m} {client : HwFenceClient} {array : DmaFenceArray}

inductive Unsignaled (d : DriverData m) (array : DmaFenceArray) (child : DmaFence) : Nat → Prop where
  | own (same : waitsFor child = arrayKey array) : Unsignaled d array child 0
  | held {x} (held : d.live (waitsFor child) x) (unsignaled : (d.tbl x).signaled = false) :
      Unsignaled d array child (d.tbl x).parentsCnt.toNat

/-- Every child is a hw-fence that is found, and has place for its links up to that many. -/
def Acceptable (limit : Nat) (d : DriverData m) (array : DmaFenceArray) : Prop :=
  ∀ child ∈ array.children, child.isArray = false ∧ child.hwFenceEnabled = true ∧
    (waitsFor child = arrayKey array ∨ ∃ x, d.live (waitsFor child) x) ∧
    ∀ parents, Unsignaled d array child parents →
      parents+occurrences array (waitsFor child) ≤ limit

def Fills (d : DriverData m) (array : DmaFenceArray) : Prop :=
  ∃ child ∈ array.children, ∃ parents, Unsignaled d array child parents ∧
    parents+occurrences array (waitsFor child) = msmHwFenceMaxJoinParents

theorem acceptableLess : Acceptable (msmHwFenceMaxJoinParents-1) d array ↔
    Acceptable msmHwFenceMaxJoinParents d array ∧ ¬ Fills d array := by
  constructor
  · intro acceptable
    refine ⟨fun child mem => ?_,?_⟩
    · obtain ⟨single,enabled,found,room⟩ := acceptable child mem
      exact ⟨single,enabled,found,fun parents here => (room parents here).trans (Nat.sub_le ..)⟩
    · rintro ⟨child,mem,parents,here,full⟩
      have room := (acceptable child mem).2.2.2 parents here
      rw [full] at room
      exact absurd room (by decide)
  · rintro ⟨acceptable,fills⟩ child mem
    obtain ⟨single,enabled,found,room⟩ := acceptable child mem
    refine ⟨single,enabled,found,fun parents here => Nat.le_sub_one_of_lt ?_⟩
    exact Nat.lt_of_le_of_ne (room parents here) fun full => fills ⟨child,mem,parents,here,full⟩

theorem joinedFound (free : (d.tbl join).valid = false) (child : DmaFence) :
    (∃ x, (joined client array 0 join d).live (waitsFor child) x) ↔
      waitsFor child = arrayKey array ∨ ∃ x, d.live (waitsFor child) x := by
  simp only [joinedLiveIff free,exists_or]
  simp

theorem joinedParentsCnt (free : (d.tbl join).valid = false) (child : DmaFence) (parents : Nat) :
    Unsignaled d array child parents ↔ ∃ x, (joined client array 0 join d).live (waitsFor child) x ∧
      ((joined client array 0 join d).tbl x).signaled = false ∧
      ((joined client array 0 join d).tbl x).parentsCnt.toNat = parents := by
  constructor
  · intro here
    cases here with
    | own same =>
      exact ⟨join,(joinedLiveIff free).mpr (.inl ⟨rfl,same⟩),joinedUnsignaled,by rw [joinedSlot]; rfl⟩
    | @held x held unsignaled =>
      have xj : x ≠ join := by
        rintro rfl
        rw [held.1] at free
        cases free
      refine ⟨x,(joinedLiveIff free).mpr (.inr held),?_,?_⟩
      · rwa [joinedOther xj]
      · rw [joinedOther xj]
  · rintro ⟨x,here,unsignaled,rfl⟩
    rcases (joinedLiveIff free).mp here with ⟨rfl,same⟩ | held
    · rw [joinedSlot]
      exact .own same
    · have xj : x ≠ join := by
        rintro rfl
        rw [held.1] at free
        cases free
      rw [joinedOther xj] at unsignaled ⊢
      exact .held held unsignaled

theorem freshCreates {key : Key} (fresh : ∀ x, ¬ d.live key x) (free : ∃ x, (d.tbl x).valid = false) :
    ∃ join, Creates d key join := by
  obtain ⟨x,free⟩ := free
  obtain ⟨join,hit⟩ := firstExists (firstHash m key) (fun x => !(d.tbl x).valid) (by simpa using free)
  obtain ⟨hit,missed⟩ := firstSome.mp hit
  refine ⟨join,by simpa using hit,fun j mem => ?_⟩
  have used : (d.tbl j).valid = true := by simpa using missed j mem
  exact ⟨used,fun same => fresh j ⟨used,same⟩⟩

theorem acceptedExactly (tidy : Tidy d) (fresh : ∀ x, ¬ d.live (arrayKey array) x)
    (free : ∃ x, (d.tbl x).valid = false) (contexts : ∀ child ∈ array.children, child.context ≠ 0)
    (some : array.numFences ≠ 0) :
    ((hwFenceProcessFenceArray client array 0).run d).1.1 = .ok () ↔
      Acceptable (msmHwFenceMaxJoinParents-1) d array := by
  obtain ⟨join,creates⟩ := freshCreates fresh free
  obtain ⟨ran,-⟩ := callCreates (.inl rfl : TakesData client 0) creates
  obtain ⟨stops,i,touched⟩ := loopStops client tidy fresh contexts creates
  have distinct := (joinedTidy client 0 tidy creates.1 fresh).distinct
  rw [ran]
  generalize (processChildren client join join.val array.children 0 false).run
    (joined client array 0 join d) = ended at stops touched ⊢
  dsimp only
  cases stops with
  | @all signal d' cs progress fences =>
    have ok : ((finishArray client array join join.val 0 (.ok signal)).run d').1 = .ok () := by
      cases signal with
      | true => rw [(finishCompletes d').1]
      | false => rw [(finishWaits some d').1]
    refine ⟨fun _ child mem => ?_,fun _ => ok⟩
    obtain ⟨single,enabled⟩ := fences child mem
    refine ⟨single,enabled,?_,fun parents here => ?_⟩
    · rw [← joinedFound creates.1]
      obtain ⟨k,inside,rfl⟩ := List.mem_iff_getElem.mp mem
      exact ⟨_,progress.slots.get inside (by rwa [← progress.slots.length_eq])⟩
    · obtain ⟨x,held,unsignaled,same⟩ := (joinedParentsCnt creates.1 child parents).mp here
      have room := (loopLinks progress touched x).2
      have count := slotsCount distinct progress.slots held
      rw [linksOf,unsignaled,if_neg Bool.false_ne_true,count] at room
      have positive : 0 < occurrences array (waitsFor child) :=
        List.count_pos_iff.mpr (List.mem_map_of_mem mem)
      have room := room positive
      unfold occurrences at *
      omega
  | @failed done child rest signal d' cs split progress refused =>
    rw [(finishFailed ..).1]
    refine ⟨fun ok => (by cases ok),fun acceptable => ?_⟩
    have mem : child ∈ array.children := by simp [split]
    obtain ⟨single,enabled,found,room⟩ := acceptable child mem
    cases refused with
    | nested isArray => simp [single] at isArray
    | disabled off => simp [enabled] at off
    | unknown none =>
      obtain ⟨x,held⟩ := (joinedFound creates.1 child).mpr found
      exact absurd ((progress.linking.live _ x).mpr held) (none x)
    | @full c here unsignaled exceeded =>
      have held := (progress.linking.live _ c).mp here
      rw [(progress.linking.slots c).signaled] at unsignaled
      have room := room _ ((joinedParentsCnt creates.1 child _).mpr ⟨c,held,unsignaled,rfl⟩)
      obtain ⟨same,fits⟩ := loopLinks progress touched c
      have count := slotsCount distinct progress.slots held
      have before := timesCount join.val fits
      rw [← same.2,linksOf,unsignaled,if_neg Bool.false_ne_true,count] at before
      have more : (done.map waitsFor).count (waitsFor child) < occurrences array (waitsFor child) := by
        simp [occurrences,split,List.count_append]
      have small : parentsExceeded (d'.tbl c) = false := by
        rw [exceededIff]
        unfold msmHwFenceMaxJoinParents at room
        omega
      rw [small] at exceeded
      cases exceeded

theorem acceptsIff (client : HwFenceClient) (array : DmaFenceArray) (tidy : Tidy d)
    (fresh : ∀ x, ¬ d.live (arrayKey array) x) (free : ∃ x, (d.tbl x).valid = false)
    (contexts : ∀ child ∈ array.children, child.context ≠ 0) (some : array.numFences ≠ 0) :
    (((hwFenceProcessFenceArray client array 0).run d).1.1 = .ok () ↔
        Acceptable msmHwFenceMaxJoinParents d array) ↔
      ¬ (Acceptable msmHwFenceMaxJoinParents d array ∧ Fills d array) := by
  rw [acceptedExactly tidy fresh free contexts some,acceptableLess]
  constructor
  · rintro same ⟨acceptable,fills⟩
    exact (same.mpr acceptable).2 fills
  · intro none
    exact ⟨And.left,fun acceptable => ⟨acceptable,fun fills => none ⟨acceptable,fills⟩⟩⟩

def repeatedArray (numFences : U32) : DmaFenceArray where
  context := 2
  seqno := 1
  numFences := numFences
  fences := Option.some fun _ => Option.some ⟨1,1,false,true⟩
  filled := fun _ _ => ⟨_,rfl,rfl⟩

def oneCreated : DriverData 2 := DriverCall.step (zeroTable (.unused 2 twoEntries)) ⟨.create creator 1 1,0⟩

theorem oneCreatedTidy : Tidy oneCreated :=
  (settledStep (zeroSettled _) (joinCallsAllowed _ rfl).1).tidy

theorem acceptsTwice :
    (((hwFenceProcessFenceArray waiter (repeatedArray 2) 0).run oneCreated).1.1 = .ok () ↔
        Acceptable msmHwFenceMaxJoinParents oneCreated (repeatedArray 2)) ↔
      ¬ (Acceptable msmHwFenceMaxJoinParents oneCreated (repeatedArray 2) ∧
        Fills oneCreated (repeatedArray 2)) := by
  refine acceptsIff waiter (repeatedArray 2) oneCreatedTidy (by decide +kernel) (by decide +kernel)
    (by decide +kernel) (by decide)

theorem thirdLinkRefused : Tidy oneCreated ∧ (∀ x, ¬ oneCreated.live (arrayKey (repeatedArray 3)) x) ∧
    (∃ x, (oneCreated.tbl x).valid = false) ∧ (∀ child ∈ (repeatedArray 3).children, child.context ≠ 0) ∧
    Acceptable msmHwFenceMaxJoinParents oneCreated (repeatedArray 3) ∧
    ((hwFenceProcessFenceArray waiter (repeatedArray 3) 0).run oneCreated).1.1 = .error .einval := by
  refine ⟨oneCreatedTidy,by decide +kernel,by decide +kernel,by decide +kernel,fun child mem => ?_,
    by decide +kernel⟩
  have same : ∀ child ∈ (repeatedArray 3).children, child = ⟨1,1,false,true⟩ := by decide +kernel
  obtain rfl := same child mem
  have held : ∀ x, oneCreated.live (1,1) x →
      (oneCreated.tbl x).parentsCnt.toNat+occurrences (repeatedArray 3) (1,1) ≤ 3 := by decide +kernel
  refine ⟨rfl,rfl,.inr (by decide +kernel),fun parents here => ?_⟩
  cases here with
  | own same => exact absurd same (by decide)
  | @held x here unsignaled => exact held x here

end Accepts

section Success
variable {m : Nat} {d d' : DriverData m} {join : Fin m} {client : HwFenceClient}
  {array : DmaFenceArray} {clientData : U64}

structure Extended (join : Fin m) (k : Nat) (f f' : HwFence) : Prop where
  only : f' = {f with parentList := f'.parentList, parentsCnt := f'.parentsCnt}
  parents : f'.parents = f.parents ++ List.replicate k join.val
  parentsCnt : f'.parentsCnt.toNat = f.parentsCnt.toNat+k

/-- A new join fence waits for the unsignalled children, each occurrence of which has a link to it. -/
structure LeftWaiting (client : HwFenceClient) (array : DmaFenceArray) (d : DriverData m)
    (join : Fin m) (d' : DriverData m) : Prop where
  wasFree : (d.tbl join).valid = false
  held : d'.live (arrayKey array) join
  allocator : (d'.tbl join).fenceAllocator = hwFenceJoinFenceClientId
  mask : (d'.tbl join).waitClientMask = bit client.clientId
  pending : (d'.tbl join).pendingChildCnt.toNat =
    array.children.countP fun child => !decide (childSignaled d child)
  children : ∀ child ∈ array.children, ∀ x, d.live (waitsFor child) x → (d.tbl x).signaled = false →
    Extended join (occurrences array (waitsFor child)) (d.tbl x) (d'.tbl x)
  -- links to itself, if the array lists its own key
  own : (d'.tbl join).parents = List.replicate (occurrences array (arrayKey array)) join.val ∧
    (d'.tbl join).parentsCnt.toNat = occurrences array (arrayKey array)
  others : ∀ x ≠ join, (∀ child ∈ array.children, d.live (waitsFor child) x → (d.tbl x).signaled = true) →
    d'.tbl x = d.tbl x

structure LeftComplete (client : HwFenceClient) (array : DmaFenceArray) (d d' : DriverData m)
    (events : List Event) : Prop where
  gone : ∀ x, ¬ d'.live (arrayKey array) x
  slots : ∃ join, (d.tbl join).valid = false ∧ (d'.tbl join).valid = false ∧ ∀ x ≠ join, d'.tbl x = d.tbl x
  once : ∃ s, signals events = [s] ∧ s.clientId = client.clientId ∧ (s.context,s.seqno) = arrayKey array
  base : .setSignaledBit array.context array.seqno ∈ events

theorem linksOther {cs : List (Fin m)} {x : Fin m} (free : (d.tbl join).valid = false) (xj : x ≠ join)
    (slots : List.Forall₂ (fun child c => (joined client array 0 join d).live (waitsFor child) c)
      array.children cs)
    (none : ∀ child ∈ array.children, d.live (waitsFor child) x → (d.tbl x).signaled = true) :
    linksOf (joined client array 0 join d) cs x = 0 := by
  unfold linksOf
  split
  · rfl
  · rename_i unsignaled
    rw [joinedOther xj] at unsignaled
    refine List.count_eq_zero.mpr fun mem => ?_
    obtain ⟨k,inside,rfl⟩ := List.mem_iff_getElem.mp mem
    have inside' : k < array.children.length := by rwa [slots.length_eq]
    have here := (joinedLiveIff free).mp (slots.get inside' inside)
    exact unsignaled (none _ (List.getElem_mem inside') (here.resolve_left fun own => xj own.1))

theorem timesExtended {k : Nat} {f : HwFence} (join : Fin m) (room : Room k f) :
    Extended join k f (linkTimes join.val k f) := by
  obtain ⟨relinked,pending⟩ := timesRelinked join.val k f
  refine ⟨?_,timesParents join.val room,timesCount join.val room⟩
  conv_lhs => rw [relinked,pending]

theorem loopOther {cs : List (Fin m)} {signal : Bool} {i : Nat} (tidy : Tidy d)
    (fresh : ∀ x, ¬ d.live (arrayKey array) x) (free : (d.tbl join).valid = false)
    (progress : Progress array.numFences.toNat join (joined client array 0 join d) array.children cs
      signal d') (touched : Touched (fun _ => True) array join (joined client array 0 join d) i d')
    {x : Fin m} (xj : x ≠ join) :
    (∀ child ∈ array.children, d.live (waitsFor child) x → (d.tbl x).signaled = false →
      Extended join (occurrences array (waitsFor child)) (d.tbl x) (d'.tbl x)) ∧
    ((∀ child ∈ array.children, d.live (waitsFor child) x → (d.tbl x).signaled = true) →
      d'.tbl x = d.tbl x) := by
  have slot := loopSlot progress touched xj
  have room := (loopLinks progress touched x).2
  rw [joinedOther xj] at slot room
  constructor
  · intro child mem held unsignaled
    have count := slotsCount (joinedTidy client 0 tidy free fresh).distinct progress.slots
      ((joinedLiveIff free).mpr (.inr held))
    have links : linksOf (joined client array 0 join d) cs x = occurrences array (waitsFor child) := by
      rw [linksOf,joinedOther xj,unsignaled,if_neg Bool.false_ne_true,count]
      rfl
    rw [slot]
    rw [links] at room ⊢
    exact timesExtended join room
  · intro signaled
    rw [slot,linksOther free xj progress.slots signaled]
    rfl

theorem leftWaiting {cs : List (Fin m)} {i : Nat} (clientData : U64) (tidy : Tidy d)
    (fresh : ∀ x, ¬ d.live (arrayKey array) x) (free : (d.tbl join).valid = false)
    (progress : Progress array.numFences.toNat join (joined client array 0 join d) array.children cs
      false d') (touched : Touched (fun _ => True) array join (joined client array 0 join d) i d') :
    LeftWaiting client array d join (d'.onSlot join (storeClientData client clientData)) := by
  have tidy₀ := joinedTidy client 0 tidy free fresh
  have live := joinedLive client array 0 join d
  have slot := progress.linking.slots join
  have other : ∀ x ≠ join, (d'.onSlot join (storeClientData client clientData)).tbl x = d'.tbl x :=
    fun x xj => DriverData.onSlotOther _ _ xj
  have used : ∀ key x, d.live key x → x ≠ join := by
    rintro key x held rfl
    rw [held.1] at free
    cases free
  have links := slotsCount tidy₀.distinct progress.slots live
  obtain ⟨same,room⟩ := loopLinks progress touched join
  rw [linksOf,joinedUnsignaled,if_neg Bool.false_ne_true,links] at same room
  have parents := same.parents
  have count := timesCount join.val room
  rw [timesParents join.val room,joinedParents,List.nil_append] at parents
  rw [← same.2,joinedSlot] at count
  refine ⟨free,storedLive.mpr ((progress.linking.live _ _).mpr live),?_,?_,?_,fun child mem x held => ?_,
    ⟨?_,?_⟩,fun x xj signaled => ?_⟩
  · rw [DriverData.onSlotSame,storeKeeps,slot.allocator,joinedSlot]
  · rw [DriverData.onSlotSame,storeKeeps,slot,joinedSlot]
  · have total := progress.pending
    have signaled := slotsSignaled tidy₀.distinct progress.slots
    simp only [joinedSignaled free] at signaled
    have all := List.length_eq_countP_add_countP (l := array.children) fun child =>
      decide (childSignaled d child)
    rw [array.childrenLength,← signaled] at all
    simp only [Bool.decide_eq_true,decide_not] at all
    rw [DriverData.onSlotSame,storeKeeps]
    dsimp only
    omega
  · have xj := used _ x held
    rw [other x xj]
    exact (loopOther tidy fresh free progress touched xj).1 child mem held
  · rw [DriverData.onSlotSame,storeKeeps]
    exact parents
  · rw [DriverData.onSlotSame,storeKeeps]
    exact count.trans (Nat.zero_add _)
  · rw [other x xj]
    exact (loopOther tidy fresh free progress touched xj).2 signaled

theorem leftComplete {cs : List (Fin m)} {i : Nat} (tidy : Tidy d)
    (fresh : ∀ x, ¬ d.live (arrayKey array) x) (creates : Creates d (arrayKey array) join)
    (progress : Progress array.numFences.toNat join (joined client array 0 join d) array.children cs
      true d') (touched : Touched (fun _ => True) array join (joined client array 0 join d) i d')
    {before : List Event} (silent : signals before = []) :
    LeftComplete client array d
      ((finishArray client array join join.val clientData (.ok true)).run d').2
      (before ++ (finishArray client array join join.val clientData (.ok true)).events d') := by
  have free := creates.1
  obtain ⟨ran,told,bit⟩ := @finishCompletes m join client array clientData d'
  have slot := progress.linking.slots join
  have live := joinedLive client array 0 join d
  have stored : ∀ x ≠ join, (afterSignal client clientData join d').tbl x = d'.tbl x := by
    intro x xj
    rw [signaledTbl,DriverData.onSlotOther _ _ xj]
  have own : ((afterSignal client clientData join d').tbl join).key = arrayKey array := by
    rw [signaledTbl,DriverData.onSlotSame,storeKeeps]
    exact slot.key.trans live.2
  -- the loop has met signalled children only
  have signaled : ∀ child ∈ array.children, ∀ x, d.live (waitsFor child) x → (d.tbl x).signaled = true := by
    intro child mem x held
    have all := (progress.signal.mp rfl).2
    rw [slotsSignaled (joinedTidy client 0 tidy free fresh).distinct progress.slots,
      ← array.childrenLength,List.countP_eq_length] at all
    simp only [joinedSignaled free,decide_eq_true_iff] at all
    obtain ⟨y,there,signaled⟩ := all child mem
    rwa [tidy.distinct _ x y held there]
  have others : ∀ x ≠ join, d'.tbl x = d.tbl x := fun x xj =>
    (loopOther tidy fresh free progress touched xj).2 fun child mem => signaled child mem x
  have destroyed := destroyCreated creates own
    (fun x xj => by rw [stored x xj,others x xj]) join.val
  have once := signalsAppend before
    ((finishArray client array join join.val clientData (.ok true)).events d')
  rw [silent,told,List.nil_append] at once
  rw [ran,destroyed]
  refine ⟨fun x held => ?_,⟨join,free,?_,fun x xj => ?_⟩,⟨_,once,rfl,?_⟩,?_⟩
  · by_cases xj : x = join
    · subst xj
      rw [DriverData.live,DriverData.onSlotSame] at held
      exact absurd held.1 Bool.false_ne_true
    · rw [DriverData.live,DriverData.onSlotOther _ _ xj,stored x xj,others x xj] at held
      exact fresh x held
  · rw [DriverData.onSlotSame]
    rfl
  · rw [DriverData.onSlotOther _ _ xj,stored x xj,others x xj]
  · exact slot.key.trans live.2
  · exact List.mem_append_right _ bit

def oneSignaled : DriverData 2 :=
  oneCreated.onSlot ⟨0,Nat.two_pos⟩ fun f => {f with flags := msmHwFenceFlagSignal}

theorem oneSignaledTidy : Tidy oneSignaled := by
  have same : ∀ i, (oneSignaled.tbl i).valid = (oneCreated.tbl i).valid ∧
      (oneSignaled.tbl i).key = (oneCreated.tbl i).key := by decide +kernel
  have live : ∀ key i, oneSignaled.live key i → oneCreated.live key i := fun key i held =>
    ⟨(same i).1.symm.trans held.1,(same i).2.symm.trans held.2⟩
  refine ⟨fun i free => ?_,fun key i j hi hj => oneCreatedTidy.distinct key i j (live key i hi) (live key j hj)⟩
  have blank := oneCreatedTidy.blank i ((same i).1.symm.trans free)
  exact (congrArg Prod.fst (same i).2).trans blank

end Success
end MmDrivers.ArrayAccepts

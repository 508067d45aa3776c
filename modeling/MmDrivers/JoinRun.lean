import Mathlib
import MmDrivers.JoinFence

/-! What a fence-array call does when nobody else moves. -/
namespace MmDrivers.JoinRun
open Sections Sections.Prog FenceTypes FenceLookup FenceTable FenceSignal JoinFence Probe

section Slots
variable {m : Nat} {join : Fin m} {d₀ d d' : DriverData m}

/-- The table of `d₀` with other links; what a fence waits for differs in the join fence only. -/
structure Linking (join : Fin m) (d₀ d : DriverData m) : Prop where
  only : d = {d₀ with tbl := d.tbl}
  slots : ∀ x, Relinked (d₀.tbl x) (d.tbl x)
  pending : ∀ x ≠ join, (d.tbl x).pendingChildCnt = (d₀.tbl x).pendingChildCnt

theorem Linking.refl (join : Fin m) (d : DriverData m) : Linking join d d :=
  ⟨rfl,fun _ => rfl,fun _ _ => rfl⟩

theorem Linking.live (linking : Linking join d₀ d) (key : Key) (x : Fin m) :
    d.live key x ↔ d₀.live key x := by
  unfold DriverData.live
  rw [(linking.slots x).valid,(linking.slots x).key]

theorem Linking.tidy (linking : Linking join d₀ d) (tidy : Tidy d₀) : Tidy d := by
  constructor
  · intro i free
    have key := (linking.slots i).key
    rw [(linking.slots i).valid] at free
    exact (congrArg Prod.fst key).trans (tidy.blank i free)
  · intro key i j hi hj
    exact tidy.distinct key i j ((linking.live key i).mp hi) ((linking.live key j).mp hj)

theorem Linking.onSlot {c : Fin m} {g : HwFence → HwFence} (linking : Linking join d₀ d)
    (relinked : Relinked (d.tbl c) (g (d.tbl c)))
    (pending : c ≠ join → (g (d.tbl c)).pendingChildCnt = (d.tbl c).pendingChildCnt) :
    Linking join d₀ (d.onSlot c g) := by
  refine ⟨?_,fun x => ?_,fun x ne => ?_⟩
  · conv_lhs => rw [linking.only]
    rfl
  · by_cases xc : x = c
    · subst xc
      simpa using (linking.slots x).trans relinked
    · simpa [xc] using linking.slots x
  · by_cases xc : x = c
    · subst xc
      simpa [pending ne] using linking.pending x ne
    · simpa [xc] using linking.pending x ne

end Slots

section Children
variable {m : Nat} {n : Nat} {join : Fin m} {d₀ d : DriverData m}

def waitsFor (child : DmaFence) : Key := (child.context,child.seqno)

def linksOf (d₀ : DriverData m) (cs : List (Fin m)) (x : Fin m) : Nat :=
  if (d₀.tbl x).signaled then 0 else cs.count x

def signaledOf (d₀ : DriverData m) (cs : List (Fin m)) : Nat :=
  cs.countP fun c => (d₀.tbl c).signaled

structure Progress (n : Nat) (join : Fin m) (d₀ : DriverData m) (done : List DmaFence)
    (cs : List (Fin m)) (signal : Bool) (d : DriverData m) : Prop where
  linking : Linking join d₀ d
  slots : List.Forall₂ (fun child c => d₀.live (waitsFor child) c) done cs
  parents : ∀ x, (d.tbl x).parents = (d₀.tbl x).parents ++ List.replicate (linksOf d₀ cs x) join.val
  small : ∀ x, 0 < linksOf d₀ cs x → (d.tbl x).parentsCnt.toNat < 3
  pending : (d.tbl join).pendingChildCnt.toNat + signaledOf d₀ cs = n
  signal : signal = true ↔ 0 < n ∧ signaledOf d₀ cs = n

theorem Progress.start (join : Fin m) (d : DriverData m)
    (pending : (d.tbl join).pendingChildCnt.toNat = n) : Progress n join d [] [] false d := by
  refine ⟨.refl join d,.nil,fun x => ?_,fun x linked => ?_,by simpa [signaledOf] using pending,?_⟩
  · simp [linksOf]
  · simp [linksOf] at linked
  · simp [signaledOf]
    omega

theorem Progress.absent {children : List DmaFence} {cs : List (Fin m)} {signal : Bool}
    (progress : Progress n join d₀ children cs signal d) {x : Fin m}
    (free : (d.tbl x).valid = false) : cs.count x = 0 := by
  refine List.count_eq_zero.mpr fun mem => ?_
  obtain ⟨k,inside,rfl⟩ := List.mem_iff_getElem.mp mem
  have held := progress.slots.get (by rw [progress.slots.length_eq]; exact inside) inside
  rw [(progress.linking.slots _).valid] at free
  exact absurd held.1 (by simp [free])

theorem Progress.signaled {done : List DmaFence} {cs : List (Fin m)} {signal : Bool}
    {child : DmaFence} {c : Fin m} (progress : Progress n join d₀ done cs signal d)
    (held : d₀.live (waitsFor child) c) (bound : done.length < n)
    (isSignaled : (d₀.tbl c).signaled = true) :
    Progress n join d₀ (done ++ [child]) (cs ++ [c])
      (signal || decide ((d.tbl join).pendingChildCnt-1 = 0))
      (d.onSlot join fun f => {f with pendingChildCnt := (d.tbl join).pendingChildCnt-1}) := by
  obtain ⟨linking,slots,parents,small,pending,flag⟩ := progress
  have counted : signaledOf d₀ (cs ++ [c]) = signaledOf d₀ cs + 1 := by
    simp [signaledOf,isSignaled]
  have same : ∀ x, linksOf d₀ (cs ++ [c]) x = linksOf d₀ cs x := by
    intro x
    unfold linksOf
    split
    · rfl
    · rename_i unsignaled
      have xc : c ≠ x := by
        rintro rfl
        exact unsignaled isSignaled
      simp [xc]
  have short : signaledOf d₀ cs ≤ done.length := by
    rw [slots.length_eq]
    exact List.countP_le_length
  have one : (1 : U32).toNat = 1 := rfl
  have rest : ((d.tbl join).pendingChildCnt-1).toNat = (d.tbl join).pendingChildCnt.toNat-1 := by
    rw [BitVec.toNat_sub_of_le (by rw [BitVec.le_def,one]; omega),one]
  refine ⟨linking.onSlot rfl (fun ne => absurd rfl ne),
    List.rel_append slots (.cons held .nil),fun x => ?_,fun x linked => ?_,?_,?_⟩
  · rw [same,← parents]
    by_cases xj : x = join
    · subst xj
      simp [HwFence.parents]
    · simp [xj]
  · rw [same] at linked
    by_cases xj : x = join
    · subst xj
      simpa using small x linked
    · simpa [xj] using small x linked
  · simp only [DriverData.onSlotSame,rest,counted]
    omega
  · have last : (d.tbl join).pendingChildCnt-1 = 0 ↔ (d.tbl join).pendingChildCnt.toNat = 1 := by
      rw [← BitVec.toNat_inj,rest,show (0 : U32).toNat = 0 from rfl]
      omega
    rw [Bool.or_eq_true,decide_eq_true_iff,last,flag,counted]
    omega

theorem Progress.linked {done : List DmaFence} {cs : List (Fin m)} {signal : Bool}
    {child : DmaFence} {c : Fin m} (progress : Progress n join d₀ done cs signal d)
    (held : d₀.live (waitsFor child) c) (unsignaled : (d₀.tbl c).signaled = false)
    (room : parentsExceeded (d.tbl c) = false) :
    Progress n join d₀ (done ++ [child]) (cs ++ [c]) signal
      (d.onSlot c (linkParent join.val)) := by
  obtain ⟨linking,slots,parents,small,pending,flag⟩ := progress
  have counted : signaledOf d₀ (cs ++ [c]) = signaledOf d₀ cs := by
    simp [signaledOf,unsignaled]
  have own : linksOf d₀ (cs ++ [c]) c = linksOf d₀ cs c + 1 := by
    simp [linksOf,unsignaled]
  have other : ∀ x ≠ c, linksOf d₀ (cs ++ [c]) x = linksOf d₀ cs x := by
    intro x ne
    simp [linksOf,ne.symm]
  refine ⟨linking.onSlot (linkRelinked _ _) (fun _ => rfl),
    List.rel_append slots (.cons held .nil),fun x => ?_,fun x linked => ?_,?_,?_⟩
  · by_cases xc : x = c
    · subst xc
      rw [DriverData.onSlotSame,linkParents room,parents,own,List.replicate_succ',List.append_assoc]
    · rw [DriverData.onSlotOther d _ xc,parents,other x xc]
  · by_cases xc : x = c
    · subst xc
      have count := linkCount join.val room
      have small := exceededIff.mp room
      rw [DriverData.onSlotSame]
      omega
    · rw [other x xc] at linked
      simpa [xc] using small x linked
  · by_cases jc : join = c
    · subst jc
      simpa [linkParent,counted] using pending
    · simpa [jc,counted] using pending
  · rw [flag,counted]

theorem findTidy (client : Option HwFenceClient) (key : Key) (tidy : Tidy d) (context : key.1 ≠ 0) :
    ∃ slot hash, (msmHwFenceFind client key.1 key.2).run d = ((slot,hash),d) ∧
      ∀ i, slot = some i ↔ d.live key i := by
  by_cases held : ∃ i, d.live key i
  · obtain ⟨i,held⟩ := held
    refine ⟨some i,i.val,findLive client tidy context held,fun j => ?_⟩
    constructor
    · intro same
      cases Option.some.inj same
      exact held
    · intro other
      rw [tidy.distinct key i j held other]
  · obtain ⟨hash,ran⟩ := findDead client tidy context fun i live => held ⟨i,live⟩
    exact ⟨none,hash,ran,fun i => ⟨nofun,fun live => absurd ⟨i,live⟩ held⟩⟩

inductive Refused (child : DmaFence) (d : DriverData m) : Prop where
  | nested (isArray : child.isArray = true) : Refused child d
  | disabled (off : child.hwFenceEnabled = false) : Refused child d
  | unknown (none : ∀ c, ¬ d.live (waitsFor child) c) : Refused child d
  | full {c} (held : d.live (waitsFor child) c) (unsignaled : (d.tbl c).signaled = false)
      (exceeded : parentsExceeded (d.tbl c) = true) : Refused child d

inductive Ended (n : Nat) (join : Fin m) (d₀ : DriverData m) (children : List DmaFence) :
    Except Nat Bool × DriverData m → Prop where
  | all {signal d cs} (progress : Progress n join d₀ children cs signal d) :
      Ended n join d₀ children (.ok signal,d)
  | failed {done child rest signal d cs} (split : children = done ++ child::rest)
      (progress : Progress n join d₀ done cs signal d) :
      Ended n join d₀ children (.error done.length,d)

/-- Where the loop ends, and why. -/
inductive Stops (n : Nat) (join : Fin m) (d₀ : DriverData m) (children : List DmaFence) :
    Except Nat Bool × DriverData m → Prop where
  | all {signal d cs} (progress : Progress n join d₀ children cs signal d)
      (fences : ∀ child ∈ children, child.isArray = false ∧ child.hwFenceEnabled = true) :
      Stops n join d₀ children (.ok signal,d)
  | failed {done child rest signal d cs} (split : children = done ++ child::rest)
      (progress : Progress n join d₀ done cs signal d) (refused : Refused child d) :
      Stops n join d₀ children (.error done.length,d)

theorem childrenStop (client : HwFenceClient) (tidy : Tidy d₀) {rest : List DmaFence}
    (contexts : ∀ child ∈ rest, child.context ≠ 0) {done : List DmaFence} {cs : List (Fin m)}
    {signal : Bool} (bound : (done ++ rest).length ≤ n)
    (progress : Progress n join d₀ done cs signal d)
    (fences : ∀ child ∈ done, child.isArray = false ∧ child.hwFenceEnabled = true) :
    Stops n join d₀ (done ++ rest)
      ((processChildren client join join.val rest done.length signal).run d) := by
  induction rest generalizing done cs signal d with
  | nil => simpa [processChildren] using Stops.all progress fences
  | cons child rest ih =>
    have failed : Refused child d → Stops n join d₀ (done ++ child::rest) (.error done.length,d) :=
      .failed rfl progress
    have inside : done.length < n := by
      rw [List.length_append,List.length_cons] at bound
      omega
    have next : ∀ {cs' signal' d'}, child.isArray = false ∧ child.hwFenceEnabled = true →
        Progress n join d₀ (done ++ [child]) cs' signal' d' →
        Stops n join d₀ (done ++ child::rest)
          ((processChildren client join join.val rest (done.length+1) signal').run d') := by
      intro cs' signal' d' fence progress'
      have fences' : ∀ c ∈ done ++ [child], c.isArray = false ∧ c.hwFenceEnabled = true := by
        intro c mem
        rcases List.mem_append.mp mem with before | last
        · exact fences c before
        · rwa [List.mem_singleton.mp last]
      have later := ih (fun c mem => contexts c (List.mem_cons_of_mem _ mem)) (by simpa using bound)
        progress' fences'
      simpa using later
    simp only [processChildren,emit,runBind,runAtomic,id_eq]
    split
    · rename_i wrong
      rcases wrong with isArray | off
      · exact failed (.nested isArray)
      · exact failed (.disabled (by simpa using off))
    · rename_i right
      have fence : child.isArray = false ∧ child.hwFenceEnabled = true := by simpa using right
      obtain ⟨slot,hash,found,held⟩ := findTidy (some client) (waitsFor child)
        (progress.linking.tidy tidy) (contexts child (by simp))
      simp only [waitsFor] at found
      rw [runBind,found]
      cases slot with
      | none => exact failed (.unknown fun c live => by simpa using (held c).mpr live)
      | some c =>
        have here := (held c).mp rfl
        have live := (progress.linking.live _ c).mp here
        have flag := (progress.linking.slots c).signaled
        simp only [processChild,runBind,runAtomic]
        by_cases signaled : (d₀.tbl c).signaled = true
        · simp only [flag,signaled,if_true]
          exact next fence (progress.signaled live inside signaled)
        · have unsignaled : (d₀.tbl c).signaled = false := by simpa using signaled
          simp only [flag,unsignaled,Bool.false_eq_true,if_false]
          by_cases exceeded : parentsExceeded (d.tbl c) = true
          · simp only [exceeded,if_true]
            exact failed (.full here (flag.trans unsignaled) exceeded)
          · have room : parentsExceeded (d.tbl c) = false := by simpa using exceeded
            simp only [room,Bool.false_eq_true,if_false]
            exact next fence (progress.linked live unsignaled room)

theorem childrenRun (client : HwFenceClient) (tidy : Tidy d₀) {children : List DmaFence}
    (contexts : ∀ child ∈ children, child.context ≠ 0) (bound : children.length ≤ n)
    (progress : Progress n join d₀ [] [] false d) :
    Ended n join d₀ children ((processChildren client join join.val children 0 false).run d) := by
  have stops := childrenStop client tidy contexts bound progress (by simp)
  generalize (processChildren client join join.val children 0 false).run d = r at stops
  cases stops with
  | all progress fences => exact .all progress
  | failed split progress refused => exact .failed split progress

end Children

section Rollback
variable {m : Nat} {join : Fin m} {d₀ d : DriverData m}

def Unlisted (join : Fin m) (d : DriverData m) : Prop := ∀ x, join.val ∉ (d.tbl x).parents

structure Undoing (join : Fin m) (d₀ : DriverData m) (todo : List (Fin m)) (d : DriverData m) :
    Prop where
  linking : Linking join d₀ d
  parents : Unlisted join d₀ → ∀ x, ∃ k, (d.tbl x).parents = (d₀.tbl x).parents ++ List.replicate k join.val ∧
    (0 < k → x ∈ todo ∧ (d.tbl x).parentsCnt.toNat < 3)

theorem Undoing.start {n : Nat} {done : List DmaFence} {cs : List (Fin m)} {signal : Bool}
    (progress : Progress n join d₀ done cs signal d) : Undoing join d₀ cs d := by
  refine ⟨progress.linking,fun _ x =>
    ⟨_,progress.parents x,fun linked => ⟨?_,progress.small x linked⟩⟩⟩
  unfold linksOf at linked
  split at linked
  · omega
  · exact List.count_pos_iff.mp linked

theorem Undoing.finished (undoing : Undoing join d₀ [] d) (unlisted : Unlisted join d₀)
    (x : Fin m) : (d.tbl x).parents = (d₀.tbl x).parents := by
  obtain ⟨k,parents,more⟩ := undoing.parents unlisted x
  cases k with
  | zero => simpa using parents
  | succ k => exact absurd (more (by omega)).1 List.not_mem_nil

theorem Undoing.unlink {todo todo' : List (Fin m)} (undoing : Undoing join d₀ todo d)
    (c : Fin m) (left : ∀ x ∈ todo, x ≠ c → x ∈ todo') :
    Undoing join d₀ todo' (d.onSlot c (unlinkParent join.val)) := by
  have relinked := unlinkRelinked join.val (d.tbl c)
  refine ⟨undoing.linking.onSlot relinked.1 (fun _ => relinked.2),fun unlisted x => ?_⟩
  obtain ⟨k,parents,more⟩ := undoing.parents unlisted x
  by_cases xc : x = c
  · subst xc
    refine ⟨0,?_,fun none => by omega⟩
    cases k with
    | zero =>
      have same : (d.tbl x).parents = (d₀.tbl x).parents := by simpa using parents
      rw [DriverData.onSlotSame,unlinkUnlisted (by rw [same]; exact unlisted x),parents]
    | succ k =>
      have small := (more (by omega)).2
      rw [DriverData.onSlotSame,unlinkLast parents (unlisted x) (by omega)]
      simp
  · refine ⟨k,by rw [DriverData.onSlotOther d _ xc,parents],fun linked => ?_⟩
    obtain ⟨mem,small⟩ := more linked
    exact ⟨left x mem xc,by rwa [DriverData.onSlotOther d _ xc]⟩

theorem cleanupChildRun (client : HwFenceClient) (hash : Nat) (child : Option DmaFence) :
    ((cleanupChild client hash child).run d).2 = d ∨
      ∃ c, ((cleanupChild client hash child).run d).2 = d.onSlot c (unlinkParent hash) := by
  cases child with
  | none => exact .inl rfl
  | some child =>
    have kept := findKeeps (d := d) (some client) child.context child.seqno
    simp only [cleanupChild,runBind]
    split
    · exact .inl kept
    · rename_i slot c found
      refine .inr ⟨c,?_⟩
      simp only [unlinkChild,runAtomic,kept]

theorem rollbackRun (client : HwFenceClient) (array : DmaFenceArray) (tidy : Tidy d₀)
    (contexts : ∀ child ∈ array.children, child.context ≠ 0)
    {done rest : List DmaFence} {cs : List (Fin m)} (split : array.children = done ++ rest)
    (slots : List.Forall₂ (fun child c => d₀.live (waitsFor child) c) done cs) (i : Nat)
    (undoing : Undoing join d₀ (cs.take i) d) :
    Undoing join d₀ [] ((cleanupChildren client array join.val i).run d).2 := by
  induction i generalizing d with
  | zero => simpa [cleanupChildren] using undoing
  | succ i ih =>
    simp only [cleanupChildren,emit,runBind,runAtomic,id_eq]
    refine ih ?_
    by_cases inside : i < cs.length
    · have doneInside : i < done.length := slots.length_eq ▸ inside
      have held : d₀.live (waitsFor done[i]) cs[i] := slots.get doneInside inside
      have bound : i < array.numFences.toNat := by
        have length := congrArg List.length split
        rw [array.childrenLength,List.length_append] at length
        omega
      have child : array.child i = some done[i] := by
        rw [← array.childrenAt bound,split,List.getElem?_append_left doneInside,
          List.getElem?_eq_getElem doneInside]
      have context : done[i].context ≠ 0 :=
        contexts _ (by rw [split]; exact List.mem_append_left _ (List.getElem_mem doneInside))
      have found := findLive (some client) (undoing.linking.tidy tidy) context
        ((undoing.linking.live _ _).mpr held)
      simp only [waitsFor] at found
      simp only [child,cleanupChild,runBind,found,unlinkChild,runAtomic]
      refine undoing.unlink cs[i] fun x mem ne => ?_
      rw [List.take_succ_eq_append_getElem inside,List.mem_append,List.mem_singleton] at mem
      exact mem.resolve_right ne
    · have all : cs.take (i+1) = cs.take i := by
        rw [List.take_of_length_le (by omega),List.take_of_length_le (by omega)]
      rw [all] at undoing
      rcases cleanupChildRun (d := d) client join.val (array.child i) with same | ⟨c,unlinked⟩
      · rwa [same]
      · rw [unlinked]
        exact undoing.unlink c fun x mem _ => mem

end Rollback

section Call
variable {m : Nat}

def arrayKey (array : DmaFenceArray) : Key := (array.context,array.seqno)

def storeClientData (client : HwFenceClient) (clientData : U64) (f : HwFence) : HwFence :=
  if clientData ≠ 0 then setClientData client.clientId clientData f else f

def joined (client : HwFenceClient) (array : DmaFenceArray) (data : U64) (join : Fin m)
    (d : DriverData m) : DriverData m :=
  d.onSlot join fun f => storeClientData client data (waitOnJoin client.clientId
    (reserveJoinFence d.qtime hwFenceJoinFenceClientId array.context array.seqno array.numFences f))

def afterSignal (client : HwFenceClient) (clientData : U64) (join : Fin m) (d : DriverData m) :
    DriverData m :=
  ((fenceCtlSignal client join join.val 0 0 (clientData.setWidth 32)).run
    (d.onSlot join (storeClientData client clientData))).2

inductive ArrayEnds (client : HwFenceClient) (array : DmaFenceArray) (clientData : U64)
    (d : DriverData m) : Status → DriverData m → Prop where
  | rejected : ArrayEnds client array clientData d (.error .einval) d
  | rolledBack {join data d'} (free : FreeAt d (arrayKey array) join)
      (undone : Undoing join (joined client array data join d) [] d') :
      ArrayEnds client array clientData d (.error .einval) (d'.onSlot join unreserveHwFence)
  | waiting {join cs d'} (free : FreeAt d (arrayKey array) join)
      (progress : Progress array.numFences.toNat join (joined client array 0 join d) array.children cs
        false d') :
      ArrayEnds client array clientData d (.ok ())
        (d'.onSlot join (storeClientData client clientData))
  | completed {join cs d'} (free : FreeAt d (arrayKey array) join)
      (progress : Progress array.numFences.toNat join (joined client array 0 join d) array.children cs
        true d') :
      ArrayEnds client array clientData d (.ok ())
        ((afterSignal client clientData join d').onSlot join unreserveHwFence)

variable {d : DriverData m} {join : Fin m} {array : DmaFenceArray} {client : HwFenceClient}
  {clientData : U64}

@[simp] theorem storeClientDataZero (f : HwFence) : storeClientData client 0#64 f = f := rfl

theorem storeKeeps (f : HwFence) :
    storeClientData client clientData f =
      {f with clientData := (storeClientData client clientData f).clientData} := by
  unfold storeClientData
  split <;> rfl

section Joined
variable {data : U64}

theorem joinedTbl : (joined client array data join d).tbl = Function.update d.tbl join
    ((joined client array data join d).tbl join) := by
  simp [joined]

theorem joinedSlot : (joined client array data join d).tbl join =
    {HwFence.zeroed with
      valid := true
      ctxId := array.context
      seqId := array.seqno
      waitClientMask := bit client.clientId
      fenceAllocator := hwFenceJoinFenceClientId
      parentList := Vector.replicate _ hwFenceInvalidParentFence
      pendingChildCnt := array.numFences
      fenceCreateTime := d.qtime
      debugRefcount := 1
      clientData := ((joined client array data join d).tbl join).clientData} := by
  rw [joined,DriverData.onSlotSame,storeKeeps]
  simp [waitOnJoin,reserveJoinFence,cleanupHwFence,HwFence.zeroed]

theorem joinedLive (client : HwFenceClient) (array : DmaFenceArray) (data : U64) (join : Fin m)
    (d : DriverData m) : (joined client array data join d).live (arrayKey array) join := by
  unfold DriverData.live
  rw [joinedSlot]
  exact ⟨rfl,rfl⟩

theorem joinedParents : ((joined client array data join d).tbl join).parents = [] := by
  rw [joinedSlot]
  rfl

theorem joinedTidy (client : HwFenceClient) (data : U64) (tidy : Tidy d)
    (free : (d.tbl join).valid = false) (fresh : ∀ i, ¬ d.live (arrayKey array) i) :
    Tidy (joined client array data join d) := by
  have live := joinedLive client array data join d
  unfold DriverData.live at live
  exact tidy.reserve free (live.2 ▸ fresh) live.1 joinedTbl

theorem joinedUnlisted (unlisted : Unlisted join d) :
    Unlisted join (joined client array data join d) := by
  intro x
  by_cases xj : x = join
  · subst xj
    simp [joinedParents]
  · rw [joinedTbl,Function.update_of_ne xj]
    exact unlisted x

end Joined

theorem destroyJoin {d' : DriverData m} (tidy : Tidy d') (context : array.context ≠ 0)
    (held : d'.live (arrayKey array) join) (hash : Nat) :
    ((hwFenceProcessJoinFence array hash false).run d').2 = d'.onSlot join unreserveHwFence := by
  have destroyed := cleanupLive hwFenceJoinFenceClientId tidy context held
  simp only [arrayKey] at destroyed
  simp [hwFenceProcessJoinFence,destroyed]

theorem rollbackEnds (client : HwFenceClient) {d₀ d' : DriverData m} {done rest : List DmaFence} {cs : List (Fin m)}
    (tidy : Tidy d₀) (context : array.context ≠ 0) (held : d₀.live (arrayKey array) join)
    (contexts : ∀ child ∈ array.children, child.context ≠ 0) (split : array.children = done ++ rest)
    (slots : List.Forall₂ (fun child c => d₀.live (waitsFor child) c) done cs)
    (undoing : Undoing join d₀ cs d') :
    ∃ d'', Undoing join d₀ [] d'' ∧
      ((cleanupJoinAndChildFences client done.length array join.val).run d').2 =
        d''.onSlot join unreserveHwFence := by
  have destroyed : ∀ d'', Undoing join d₀ [] d'' →
      ((hwFenceProcessJoinFence array join.val false).run d'').2 =
        d''.onSlot join unreserveHwFence := by
    intro d'' undone
    exact destroyJoin (undone.linking.tidy tidy) context ((undone.linking.live _ _).mpr held) _
  simp only [cleanupJoinAndChildFences,runBind]
  cases fences : array.fences.isSome with
  | true =>
    have all : cs.take (done.length+1) = cs := List.take_of_length_le (by rw [slots.length_eq]; omega)
    have undone := rollbackRun client array tidy contexts split slots (done.length+1)
      (all.symm ▸ undoing)
    refine ⟨_,undone,?_⟩
    simpa [whenever] using destroyed _ undone
  | false =>
    -- without a fences pointer there is nothing to link, hence nothing to undo
    have none : array.numFences.toNat = 0 := by
      by_contra some
      obtain ⟨mem,filled,-⟩ := array.filled 0 (by omega)
      simp [filled] at fences
    have empty : done = [] := by
      have length := congrArg List.length split
      rw [array.childrenLength,List.length_append] at length
      exact List.eq_nil_of_length_eq_zero (by omega)
    subst empty
    cases slots
    refine ⟨d',undoing,?_⟩
    simpa [whenever] using destroyed d' undoing

theorem storeRun (d : DriverData m) : ((whenever (clientData ≠ 0)
    (atomic (fun d => d.onSlot join (setClientData client.clientId clientData)) (fun _ => [])
      (fun _ => ())) : Driver m Unit).run d).2 =
    d.onSlot join (storeClientData client clientData) := by
  unfold whenever storeClientData
  split <;> simp

theorem signaledTbl (d : DriverData m) : (afterSignal client clientData join d).tbl =
    (d.onSlot join (storeClientData client clientData)).tbl := by
  have quiet := (signalRun client join join.val 0 0 (clientData.setWidth 32)
    (d.onSlot join (storeClientData client clientData))).1
  unfold afterSignal
  rw [quiet]

theorem storedLive {key : Key} {x : Fin m} :
    (d.onSlot join (storeClientData client clientData)).live key x ↔ d.live key x := by
  by_cases xj : x = join
  · subst xj
    rw [DriverData.live,DriverData.onSlotSame,storeKeeps]
    rfl
  · simp [DriverData.live,xj]

theorem storedTidy (tidy : Tidy d) : Tidy (d.onSlot join (storeClientData client clientData)) := by
  constructor
  · intro i free
    by_cases ij : i = join
    · subst ij
      rw [DriverData.onSlotSame,storeKeeps] at free ⊢
      exact tidy.blank i free
    · simpa [ij] using tidy.blank i (by simpa [ij] using free)
  · intro key i j hi hj
    exact tidy.distinct key i j (storedLive.mp hi) (storedLive.mp hj)

theorem joinedStore : (joined client array 0 join d).onSlot join (storeClientData client clientData) =
    joined client array clientData join d := by
  simp [joined,DriverData.onSlot]

theorem storedUndoing (client : HwFenceClient) (clientData : U64) {d₀ d' : DriverData m}
    (undoing : Undoing join d₀ [] d') :
    Undoing join (d₀.onSlot join (storeClientData client clientData)) []
      (d'.onSlot join (storeClientData client clientData)) := by
  have relinked : ∀ f f', Relinked f f' →
      Relinked (storeClientData client clientData f) (storeClientData client clientData f') := by
    intro f f' relinked
    unfold Relinked storeClientData setClientData at *
    split <;> rw [relinked]
  have parents : ∀ f, (storeClientData client clientData f).parents = f.parents := by
    intro f
    rw [storeKeeps]
    rfl
  have same := undoing.finished
  obtain ⟨linking,-⟩ := undoing
  refine ⟨⟨?_,fun x => ?_,fun x ne => ?_⟩,fun unlisted x =>
    ⟨0,?_,fun none => absurd none (by omega)⟩⟩
  · conv_lhs => rw [linking.only]
    rfl
  · by_cases xj : x = join
    · subst xj
      simpa using relinked _ _ (linking.slots x)
    · simpa [xj] using linking.slots x
  · simpa [ne] using linking.pending x ne
  · have before : Unlisted join d₀ := by
      intro y
      have listed := unlisted y
      by_cases yj : y = join
      · subst yj
        simpa [parents] using listed
      · simpa [yj] using listed
    by_cases xj : x = join
    · subst xj
      simpa [parents] using same before x
    · simpa [xj] using same before x

theorem finishEnds (clientData : U64) {d' : DriverData m} {ended : Except Nat Bool} (tidy : Tidy d)
    (fresh : ∀ i, ¬ d.live (arrayKey array) i) (context : array.context ≠ 0)
    (contexts : ∀ child ∈ array.children, child.context ≠ 0) (free : FreeAt d (arrayKey array) join)
    (ran : Ended array.numFences.toNat join (joined client array 0 join d) array.children
      (ended,d')) :
    let r := (finishArray client array join join.val clientData ended).run d'
    ArrayEnds client array clientData d r.1 r.2 := by
  have tidy₀ := joinedTidy client 0 tidy free.free fresh
  cases ran with
  | failed split progress =>
    obtain ⟨d'',undone,ran⟩ := rollbackEnds client tidy₀ context (joinedLive ..)
      contexts split progress.slots (.start progress)
    simp only [finishArray,runBind,ran]
    exact .rolledBack free undone
  | @all signal _ cs progress =>
    simp only [finishArray,runBind,storeRun]
    cases signal with
    | true =>
      have held : (afterSignal client clientData join d').live (arrayKey array) join := by
        rw [DriverData.live,signaledTbl]
        exact storedLive.mpr ((progress.linking.live _ _).mpr (joinedLive ..))
      have tidy' : Tidy (afterSignal client clientData join d') :=
        (storedTidy (progress.linking.tidy tidy₀)).sameTable (signaledTbl d')
      have destroyed := destroyJoin tidy' context held join.val
      unfold afterSignal at destroyed
      simp only [if_true,runBind,emit,runAtomic,id_eq,destroyed]
      exact .completed free progress
    | false =>
      by_cases none : array.numFences = 0
      · have noChildren : array.children = [] := by
          refine List.eq_nil_of_length_eq_zero ?_
          rw [array.childrenLength,none]
          rfl
        rw [noChildren] at progress
        have slots := progress.slots
        cases slots
        have undoing := storedUndoing client clientData (Undoing.start progress)
        rw [joinedStore] at undoing
        obtain ⟨d'',undone,ran⟩ := rollbackEnds client
          (joinedTidy client clientData tidy free.free fresh) context (joinedLive ..)
          contexts (List.nil_append _).symm .nil undoing
        simp only [List.length_nil] at ran
        simp only [none,if_true,if_false,Bool.false_eq_true,runBind,ran]
        exact .rolledBack free undone
      · simp only [none,if_false,Bool.false_eq_true]
        exact .waiting free progress

theorem arrayRun (client : HwFenceClient) (clientData : U64) (tidy : Tidy d)
    (fresh : ∀ i, ¬ d.live (arrayKey array) i) (context : array.context ≠ 0)
    (contexts : ∀ child ∈ array.children, child.context ≠ 0) :
    let r := (hwFenceProcessFenceArray client array clientData).run d
    ArrayEnds client array clientData d r.1.1 r.2 := by
  unfold hwFenceProcessFenceArray
  split
  · exact .rejected
  · have created := createFresh hwFenceJoinFenceClientId array.numFences
      (show LookupOp.createJoin.creates = true from rfl) fresh
    simp only [arrayKey] at created
    simp only [hwFenceProcessJoinFence,if_true,runBind]
    rcases created with ⟨join,free,ran⟩ | ⟨-,hash,ran⟩
    · have reserved : ((d.onSlot join (LookupOp.createJoin.processFnc d.qtime
          hwFenceJoinFenceClientId array.context array.seqno array.numFences)).onSlot join
          (waitOnJoin client.clientId)) = joined client array 0 join d := by
        simp [joined,DriverData.onSlot,LookupOp.processFnc]
      have pending : ((joined client array 0 join d).tbl join).pendingChildCnt.toNat =
          array.numFences.toNat := by
        rw [joinedSlot]
      have ended := childrenRun client (joinedTidy client 0 tidy free.free fresh) contexts
        (by simp) (Progress.start join (joined client array 0 join d) pending)
      have finished := finishEnds clientData tidy fresh context contexts free ended
      simpa [ran,reserved] using finished
    · simpa [ran] using ArrayEnds.rejected

theorem arrayHeld (client : HwFenceClient) (clientData : U64) {i : Fin m}
    (held : d.live (arrayKey array) i)
    (used : ∀ j ∈ before (firstHash m (arrayKey array)) i, (d.tbl j).valid = true) :
    let r := (hwFenceProcessFenceArray client array clientData).run d
    r.1.1 = .error .einval ∧ r.2 = d := by
  unfold hwFenceProcessFenceArray
  split
  · exact ⟨rfl,rfl⟩
  · obtain ⟨hash,ran⟩ := createHeld hwFenceJoinFenceClientId array.numFences
      (show LookupOp.createJoin.creates = true from rfl) held used
    simp only [arrayKey] at ran
    simp [hwFenceProcessJoinFence,ran]

end Call
end MmDrivers.JoinRun

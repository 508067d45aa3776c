import MmDrivers.SpecFence

/-! The references of the speculative fence driver: what each step moves between
the driver's hand, the slots of the arrays, the tracker and the one of the dummy. -/
namespace MmDrivers.SpecAccounts
open FenceTypes Ledger Runs SpecFence SyncDevice

/-- Outside the slots: one on the dummy for as long as the driver is loaded, one
on the base of every array that is tracked. -/
def standing (tracked : List Nat) : List FenceId := dummyFence::tracked.map FenceId.base

theorem standingFence (tracked : List Nat) (context seqno : U64) :
    (standing tracked).count (.fence context seqno) =
      if .fence context seqno = dummyFence then 1 else 0 := by
  have none : (tracked.map FenceId.base).count (.fence context seqno) = 0 :=
    List.count_eq_zero.mpr (by simp)
  rw [standing,List.count_cons,none]
  by_cases same : FenceId.fence context seqno = dummyFence
  · simp [same]
  · rw [if_neg (by simpa using Ne.symm same),if_neg same]

theorem standingBase {tracked : List Nat} (nodup : tracked.Nodup) (i : Nat) :
    (standing tracked).count (.base i) = if i ∈ tracked then 1 else 0 := by
  have base : (tracked.map FenceId.base).count (.base i) = tracked.count i :=
    List.count_map_of_injective tracked _ (fun _ _ same => FenceId.base.inj same) i
  have other : dummyFence ≠ .base i := nofun
  rw [standing,List.count_cons_of_ne other,base,nodup.count]

structure Accounts (tracked : List Nat) (hand : List FenceId) (s : SyncDevice) : Prop where
  balanced : Balanced s.refs (standing tracked) (s.arrays.map FenceArray.slots) hand
  gone : ∀ (i : Nat) (array : FenceArray), s.arrays[i]? = some array → array.released = true →
    s.kref (.base i) = 0

section Steps
variable {tracked : List Nat} {hand : List FenceId} {s : SyncDevice} {f : FenceId} {i : Nat}
  {array : FenceArray}

namespace Accounts

theorem refsLeKref (h : Accounts tracked hand s) (f : FenceId) : 0 ≤ s.refs f ∧ s.refs f ≤ s.kref f := by
  have nonneg := h.balanced.nonneg f
  unfold kref
  omega

theorem alive (h : Accounts tracked hand s) (found : s.arrays[i]? = some array)
    (counted : 0 < s.kref (.base i)) : array.released = false := by
  cases released : array.released with
  | false => rfl
  | true =>
    have none := h.gone i array found released
    omega

theorem heldCounted (h : Accounts tracked hand s) (held : f ∈ hand) : 0 < s.kref f := by
  have positive := h.balanced.positive held
  have le := (h.refsLeKref f).2
  omega

theorem perm (h : Accounts tracked hand s) {hand' : List FenceId} (same : hand.Perm hand') :
    Accounts tracked hand' s :=
  ⟨h.balanced.perm same,h.gone⟩

theorem get (h : Accounts tracked hand s) (counted : ∀ i, f = .base i → 0 < s.kref f) :
    Accounts tracked (f::hand) (s.dmaFenceGet f) := by
  refine ⟨h.balanced.get f,fun i array found released => ?_⟩
  have none := h.gone i array found released
  unfold dmaFenceGet
  rw [krefCount,if_neg,none,add_zero]
  rintro rfl
  have counted := counted i rfl
  omega

theorem lower (h : Accounts tracked (f::hand) s) : Accounts tracked hand (s.count f (-1)) := by
  refine ⟨h.balanced.put,fun i array found released => ?_⟩
  have none := h.gone i array found released
  rw [krefCount,if_neg,none,add_zero]
  rintro rfl
  have counted := h.heldCounted List.mem_cons_self
  omega

theorem released (h : Accounts tracked hand s) (found : s.arrays[i]? = some array)
    (unreleased : array.released = false) (unreferenced : s.kref (.base i) = 0) :
    Accounts tracked (array.fences ++ hand)
      (s.onArray i fun array => {array with released := true}) := by
  have row : (s.arrays.map FenceArray.slots)[i]? = some array.fences := by
    simp [found,FenceArray.slots,unreleased]
  constructor
  · rw [onArrayArrays,mapModify (fun _ => []) fun a _ => by simp [FenceArray.slots]]
    exact h.balanced.disband row
  · intro j other found' released'
    rw [krefOnArray]
    by_cases same : i = j
    · rw [← same]
      exact unreferenced
    · rw [onArrayArrays,List.getElem?_modify_ne _ _ same] at found'
      exact h.gone j other found' released'

theorem release (h : Accounts tracked hand s) (fuel : Nat) (f : FenceId) :
    Accounts tracked hand (releaseUnreferenced fuel f s) := by
  induction fuel generalizing f s hand with
  | zero => exact h
  | succ fuel ih =>
    have slots : ∀ (fences : List FenceId) (s : SyncDevice), Accounts tracked (fences ++ hand) s →
        Accounts tracked hand
          (fences.foldl (fun s f => releaseUnreferenced fuel f (s.count f (-1))) s) := by
      intro fences
      induction fences with
      | nil => exact fun s h => h
      | cons g rest next => exact fun s h => next _ (ih h.lower g)
    cases f with
    | fence context seqno => exact h
    | base i =>
      unfold releaseUnreferenced
      split
      · split
        · rename_i array found free
          exact slots array.fences _ (h.released found free.1 free.2)
        · exact h
      · exact h

theorem put (h : Accounts tracked (f::hand) s) : Accounts tracked hand (s.dmaFencePut f) :=
  h.lower.release _ _

theorem flags (h : Accounts tracked hand s) {g : FenceArray → FenceArray}
    (kept : ∀ array, (g array).fences = array.fences ∧ (g array).released = array.released) :
    Accounts tracked hand (s.onArray i g) := by
  have rows : (s.arrays.modify i g).map FenceArray.slots = s.arrays.map FenceArray.slots :=
    mapModifySame (fun a => by simp [FenceArray.slots,kept a]) _ _
  refine ⟨rows ▸ h.balanced,fun j array found released => ?_⟩
  rw [onArrayArrays,List.getElem?_modify] at found
  obtain ⟨old,here,rfl⟩ := Option.map_eq_some_iff.mp found
  refine h.gone j old here ?_
  split at released
  · exact (kept old).2 ▸ released
  · exact released

theorem exchange {new old : FenceId} {n : Nat} (h : Accounts tracked (new::hand) s)
    (found : s.arrays[i]? = some array) (unreleased : array.released = false)
    (entry : array.fences[n]? = some old) :
    Accounts tracked (old::hand)
      (s.onArray i fun array => {array with fences := array.fences.set n new}) := by
  have row : (s.arrays.map FenceArray.slots)[i]? = some array.fences := by
    simp [found,FenceArray.slots,unreleased]
  constructor
  · rw [onArrayArrays,mapModify fun row => row.set n new]
    · exact h.balanced.exchange row entry
    · intro a here
      obtain rfl : array = a := by simpa [found] using here
      simp [FenceArray.slots,unreleased]
  · intro j other found' released'
    rw [krefOnArray]
    rw [onArrayArrays,List.getElem?_modify] at found'
    obtain ⟨before,here,rfl⟩ := Option.map_eq_some_iff.mp found'
    refine h.gone j before here ?_
    split at released'
    · exact released'
    · exact released'

theorem create {fences : List FenceId} (h : Accounts tracked (fences ++ hand) s) (signalOnAny : Bool) :
    Accounts tracked (.base s.arrays.length::hand) (s.dmaFenceArrayCreate fences signalOnAny) := by
  constructor
  · have adopted := h.balanced.adopt.get (.base s.arrays.length)
    simpa [dmaFenceArrayCreate,count,FenceArray.slots] using adopted
  · intro i array found released
    have old : s.arrays[i]? = some array := by
      simp only [dmaFenceArrayCreate,countArrays,List.getElem?_append] at found
      split at found
      · exact found
      · rw [List.getElem?_singleton] at found
        split at found
        · obtain rfl := Option.some.inj found
          contradiction
        · contradiction
    have none := h.gone i array old released
    have below : i < s.arrays.length := (List.getElem?_eq_some_iff.mp old).1
    have other : FenceId.base s.arrays.length ≠ .base i := fun same => by cases same; omega
    unfold dmaFenceArrayCreate
    rw [krefCount,if_neg other,add_zero]
    exact none

theorem track (h : Accounts tracked (.base i::hand) s) :
    Accounts (tracked ++ [i]) hand s :=
  ⟨by simpa [standing] using h.balanced.lend,h.gone⟩

theorem untrack (h : Accounts tracked hand s) (mem : i ∈ tracked) :
    Accounts (tracked.erase i) (.base i::hand) s := by
  have less : (standing tracked).erase (.base i) = standing (tracked.erase i) := by
    have other : FenceId.base i ≠ dummyFence := nofun
    rw [standing,List.erase_cons_tail (by simpa using other.symm),standing,
      List.map_erase fun _ _ same => FenceId.base.inj same]
  exact ⟨less ▸ h.balanced.reclaim (List.mem_cons_of_mem _ (List.mem_map_of_mem mem)),h.gone⟩

end Accounts
end Steps

structure Held (hand : List FenceId) (s : SyncDevice) : Prop where
  accounts : Accounts s.fenceArrayList hand s
  nodup : s.fenceArrayList.Nodup
  created : ∀ i ∈ s.fenceArrayList, i < s.arrays.length

namespace Held
variable {hand hand' : List FenceId} {s s' : SyncDevice} {f : FenceId} {i : Nat} {array : FenceArray}

theorem get (h : Held hand s) (counted : ∀ i, f = .base i → 0 < s.kref f) :
    Held (f::hand) (s.dmaFenceGet f) :=
  ⟨h.accounts.get counted,h.nodup,h.created⟩

theorem dropped (h : Held hand s) (drops : Drops s s')
    (accounts : Accounts s.fenceArrayList hand' s') : Held hand' s' := by
  refine ⟨?_,?_,?_⟩
  · rw [drops.fenceArrayList]
    exact accounts
  · rw [drops.fenceArrayList]
    exact h.nodup
  · rw [drops.fenceArrayList,drops.length]
    exact h.created

theorem put (h : Held (f::hand) s) : Held hand (s.dmaFencePut f) :=
  h.dropped (Drops.put s f) h.accounts.put

theorem flags (h : Held hand s) {g : FenceArray → FenceArray}
    (kept : ∀ array, (g array).fences = array.fences ∧ (g array).released = array.released) :
    Held hand (s.onArray i g) :=
  ⟨h.accounts.flags kept,h.nodup,fun j mem => by simpa using h.created j mem⟩

theorem others (h : Held hand s) (others : FenceId → Nat) (files : List SyncFile)
    (kept : ∀ i array, s.arrays[i]? = some array → array.released = true →
      others (.base i) = 0 ∧ files.countP (·.fence = .base i) = 0) :
    Held hand {s with others,files} := by
  refine ⟨⟨h.accounts.balanced,fun i array found released => ?_⟩,h.nodup,h.created⟩
  have none := h.accounts.gone i array found released
  have refs := h.accounts.refsLeKref (.base i)
  have kept := kept i array found released
  unfold kref filesOf at none refs ⊢
  dsimp only
  omega

theorem uncounted (h : Held hand s) (found : s.arrays[i]? = some array)
    (released : array.released = true) : s.others (.base i) = 0 ∧ s.filesOf (.base i) = 0 := by
  have none := h.accounts.gone i array found released
  have refs := h.accounts.refsLeKref (.base i)
  unfold kref at none refs
  omega

theorem addFile (h : Held hand s) (file : SyncFile)
    (live : ∀ i array, s.arrays[i]? = some array → array.released = true → file.fence ≠ .base i) :
    Held hand {s with files := s.files ++ [file]} :=
  h.others s.others _ fun i array found released => by
    have none := h.uncounted found released
    have other := live i array found released
    exact ⟨none.1,by simpa [filesOf,List.countP_append,other] using none.2⟩

theorem dropFile (h : Held hand s) (file : SyncFile) :
    Held hand {s with files := s.files.erase file} :=
  h.others s.others _ fun i array found released => by
    have none := h.uncounted found released
    have sublist : (s.files.erase file).Sublist s.files := List.erase_sublist
    have fewer := sublist.countP_le (p := (·.fence = .base i))
    unfold filesOf at none
    omega

theorem live (h : Held hand s) (counted : 0 < s.kref f) (found : s.arrays[i]? = some array)
    (released : array.released = true) : f ≠ .base i := by
  have none := h.accounts.gone i array found released
  intro same
  rw [same] at counted
  omega

theorem release (h : Held hand s) (fuel : Nat) (f : FenceId) :
    Held hand (releaseUnreferenced fuel f s) :=
  h.dropped (Drops.release fuel f s) (h.accounts.release fuel f)

theorem isSignaled (h : Held hand s) (f : FenceId) :
    Held hand (s.dmaFenceIsSignaled f).2 ∧
      (s.dmaFenceIsSignaled f).2.fenceArrayList = s.fenceArrayList := by
  rcases signaledCases s f with same | ⟨i,array,-,-,-,-,signals⟩
  · rw [same]
    exact ⟨h,rfl⟩
  · rw [signals]
    exact ⟨h.flags fun array => ⟨rfl,rfl⟩,rfl⟩

theorem untrack (h : Held hand s) (mem : i ∈ s.fenceArrayList) :
    Held hand ((s.dmaFencePut (.base i)).listDel i) := by
  have drops := Drops.put s (.base i)
  refine ⟨?_,?_,?_⟩
  · simp only [listDel,drops.fenceArrayList]
    have put := (h.accounts.untrack mem).put
    exact ⟨put.balanced,put.gone⟩
  · simp only [listDel,drops.fenceArrayList]
    exact h.nodup.erase i
  · simp only [listDel,drops.fenceArrayList,drops.length]
    exact fun j mem => h.created j (List.mem_of_mem_erase mem)

theorem clearNode (h : Held hand s) (forceClear : Bool) (mem : i ∈ s.fenceArrayList) :
    Held hand (clearNode forceClear s i) ∧ ∀ j ∈ s.fenceArrayList, j ≠ i →
      j ∈ (SyncDevice.clearNode forceClear s i).fenceArrayList := by
  unfold SyncDevice.clearNode
  have asked := h.isSignaled (.base i)
  generalize s.dmaFenceIsSignaled (.base i) = answer at asked ⊢
  obtain ⟨isSignaled,s'⟩ := answer
  obtain ⟨asked,same⟩ := asked
  dsimp only at asked same ⊢
  rw [← same] at mem ⊢
  have lowered : ∀ c : Bool, Held hand (if c then s'.decPending i else s') ∧
      (if c then s'.decPending i else s').fenceArrayList = s'.fenceArrayList := by
    intro c
    cases c with
    | false => exact ⟨asked,rfl⟩
    | true => exact ⟨asked.flags (g := fun array =>
        {array with numPending := _,signaled := _}) fun array => ⟨rfl,rfl⟩,rfl⟩
  obtain ⟨lowered,list⟩ := lowered (forceClear && !isSignaled)
  generalize (if (forceClear && !isSignaled) = true then _ else s') = t at lowered list ⊢
  rw [← list] at mem ⊢
  split
  · refine ⟨lowered.untrack mem,fun j other ne => ?_⟩
    simp only [listDel,(Drops.put t (.base i)).fenceArrayList]
    exact (List.mem_erase_of_ne ne).mpr other
  · exact ⟨lowered,fun j other _ => other⟩

theorem clearNodes (nodes : List Nat) (h : Held hand s) (forceClear : Bool) (distinct : nodes.Nodup)
    (tracked : ∀ i ∈ nodes, i ∈ s.fenceArrayList) :
    Held hand (nodes.foldl (SyncDevice.clearNode forceClear) s) := by
  induction nodes generalizing s with
  | nil => exact h
  | cons i rest ih =>
    obtain ⟨fresh,distinct⟩ := List.nodup_cons.mp distinct
    have node := h.clearNode forceClear (tracked i List.mem_cons_self)
    refine ih node.1 distinct fun j mem => ?_
    exact node.2 j (tracked j (List.mem_cons_of_mem i mem)) fun same => fresh (same ▸ mem)

theorem clear (h : Held hand s) (forceClear : Bool) :
    Held hand (s.clearFenceArrayTracker forceClear) :=
  h.clearNodes s.fenceArrayList forceClear h.nodup fun _ mem => mem

theorem gets (h : Held hand s) (n : Nat) :
    Held (List.replicate n dummyFence ++ hand)
      ((List.replicate n dummyFence).foldl dmaFenceGet s) := by
  induction n generalizing hand s with
  | zero => exact h
  | succ n ih =>
    have next := ih (h.get (f := dummyFence) nofun)
    exact ⟨next.accounts.perm List.perm_middle,next.nodup,next.created⟩

theorem puts {fences : List FenceId} (h : Held (fences ++ hand) s) :
    Held hand (fences.foldl dmaFencePut s) := by
  induction fences generalizing s with
  | nil => exact h
  | cons f rest ih => exact ih h.put

theorem create {fences : List FenceId} (h : Held (fences ++ hand) s) (signalOnAny : Bool) :
    Held (.base s.arrays.length::hand) (s.dmaFenceArrayCreate fences signalOnAny) := by
  refine ⟨h.accounts.create signalOnAny,h.nodup,fun i mem => ?_⟩
  have below := h.created i mem
  simp only [dmaFenceArrayCreate,countArrays,List.length_append]
  omega

theorem track (h : Held (.base i::hand) s) (created : i < s.arrays.length)
    (fresh : i ∉ s.fenceArrayList) : Held hand (s.listAddTail i) := by
  have track := h.accounts.track
  refine ⟨⟨track.balanced,track.gone⟩,?_,?_⟩
  · simpa [listAddTail,List.nodup_append,h.nodup] using
      fun (j : Nat) mem (same : j = i) => fresh (same ▸ mem)
  · intro j mem
    rcases List.mem_append.mp mem with old | new
    · exact h.created j old
    · obtain rfl := List.mem_singleton.mp new
      exact created

theorem counted (h : Held hand s) (held : f ∈ hand) : 0 < s.kref f := h.accounts.heldCounted held

theorem syncFileCreate (h : Held hand s) (held : f ∈ hand) : Held hand (s.syncFileCreate f) :=
  h.addFile ⟨none,f⟩ fun _ _ found released => h.live (h.counted held) found released

theorem fdInstall (h : Held hand s) (held : f ∈ hand) (fd : Nat) : Held hand (s.fdInstall fd f) := by
  have dropped := h.dropFile ⟨none,f⟩
  exact dropped.addFile ⟨some fd,f⟩ fun _ _ found released =>
    dropped.live (dropped.counted held) found released

theorem fput (h : Held hand s) (file : SyncFile) : Held hand (s.fput file) :=
  (h.dropFile file).release _ _

theorem exchange {new old : FenceId} {n : Nat} (h : Held (new::hand) s) (held : .base i ∈ hand)
    (found : s.arrays[i]? = some array) (entry : array.fences[n]? = some old) :
    Held (old::hand) (s.onArray i fun array => {array with fences := array.fences.set n new}) := by
  have counted := h.counted (List.mem_cons_of_mem new held)
  exact ⟨h.accounts.exchange found (h.accounts.alive found counted) entry,h.nodup,
    fun j mem => by simpa using h.created j mem⟩

end Held

section Operations
variable {s : SyncDevice} {hand : List FenceId}

theorem createArrayHeld (h : Held [] s) (f : FenceCreateData) (a : CreateAnswers) :
    Held [] (specSyncCreateArray f a s).2 := by
  unfold specSyncCreateArray
  split
  · exact h
  · split
    · exact h
    · split
      · exact h
      · have taken := h.gets f.numFences
        dsimp only
        generalize (List.replicate f.numFences dummyFence).foldl dmaFenceGet s = t at taken ⊢
        split
        · exact taken.puts
        · have made := taken.create (f.flags &&& specFenceSignalAll = 0)
          split
          · exact made.put
          · have file := made.syncFileCreate List.mem_cons_self
            split
            · exact (file.fput _).put
            · have fresh : t.arrays.length ∉ t.fenceArrayList := fun mem =>
                Nat.lt_irrefl _ (taken.created _ mem)
              exact (file.fdInstall List.mem_cons_self _).track
                (by simp [dmaFenceArrayCreate,SyncDevice.syncFileCreate,SyncDevice.fdInstall]) fresh

theorem createHeld (h : Held [] s) (f : FenceCreateData) (a : CreateAnswers) :
    Held [] (specSyncIoctlCreateFence f a s).2 := by
  unfold specSyncIoctlCreateFence
  split
  · exact h
  · have created := createArrayHeld h f a
    generalize specSyncCreateArray f a s = done at created ⊢
    obtain ⟨fd,s'⟩ := done
    cases fd with
    | error e => exact created
    | ok fd => exact created

theorem fenceOfCounted (h : Held hand s) {fd : Int} {f : FenceId} (file : s.fenceOf fd = some f) :
    0 < s.kref f := by
  obtain ⟨entry,found,rfl⟩ := Option.map_eq_some_iff.mp file
  have files : 0 < s.filesOf entry.fence :=
    List.countP_pos_iff.mpr ⟨entry,List.mem_of_find?_eq_some found,by simp⟩
  have refs := h.accounts.refsLeKref entry.fence
  unfold kref at refs ⊢
  omega

def Unbound (s : SyncDevice) (i n left : Nat) : Prop :=
  ∃ array, s.arrays[i]? = some array ∧
    ∀ k, n ≤ k → k < n+left → array.fences[k]? = some dummyFence

theorem Unbound.all {i : Nat} {array : FenceArray} (found : s.arrays[i]? = some array)
    (dummies : ∀ f ∈ array.fences, f = dummyFence) :
    Unbound s i 0 (s.arrays[i]?.elim 0 FenceArray.numFences) := by
  refine ⟨array,found,fun k _ hi => ?_⟩
  simp only [found,Option.elim_some,FenceArray.numFences] at hi
  have slot := List.getElem?_eq_getElem (show k < array.fences.length by omega)
  rw [slot,dummies _ (List.getElem_mem _)]

theorem unboundRest {i n left : Nat} {f g : FenceId} (h : Unbound s i n (left+1)) :
    Unbound (((s.dmaFenceGet f).onArray i fun array =>
      {array with fences := array.fences.set n f}).dmaFencePut g) i (n+1) left := by
  obtain ⟨array,found,rest⟩ := h
  generalize same : (s.dmaFenceGet f).onArray i _ = t
  have here : t.arrays[i]? = some {array with fences := array.fences.set n f} := by
    simp [← same,dmaFenceGet,found]
  have drops := Drops.put t g
  have below : i < (t.dmaFencePut g).arrays.length := by
    rw [drops.length]
    exact (List.getElem?_eq_some_iff.mp here).1
  obtain ⟨before,old,eq⟩ := drops.array (List.getElem?_eq_getElem below)
  refine ⟨_,List.getElem?_eq_getElem below,fun k lo hi => ?_⟩
  obtain rfl := Option.some.inj (here.symm.trans old)
  have fences := congrArg FenceArray.fences eq
  simp only [FenceArray.unreleased] at fences
  rw [fences,List.getElem?_set_ne (by omega)]
  exact rest k (by omega) (by omega)

theorem replaceHeld {i : Nat} (held : .base i ∈ hand) (fds : Nat → Int) (left n : Nat)
    (h : Held hand s) (unbound : Unbound s i n left) :
    Held hand (s.replaceFences i fds left n).2 := by
  induction left generalizing s n with
  | zero => exact h
  | succ left ih =>
    unfold replaceFences
    split
    · exact h
    · rename_i f file
      obtain ⟨array,found,rest⟩ := id unbound
      have counted := fenceOfCounted h file
      have moved := (h.get fun _ _ => counted).exchange held found (rest n (by omega) (by omega))
      exact ih (n+1) moved.put (unboundRest unbound)

theorem enableHeld {i : Nat} (h : Held hand s) (held : .base i ∈ hand) (a : BindAnswers) :
    Held hand (s.dmaFenceEnableSwSignaling i a) := by
  have counted := h.counted held
  refine Held.flags (h.others _ s.files fun j array found released => ?_) fun array =>
    FenceArray.countDownKept _ _ _
  have other := h.live counted found released
  rw [Function.update_of_ne other.symm]
  exact h.uncounted found released

theorem bindFencesHeld {i : Nat} (h : Held hand s) (held : .base i ∈ hand) (numFences : Nat)
    (fds : Nat → Int) (a : BindAnswers) (unbound : Unbound s i 0 numFences) :
    Held hand (s.bindFences i numFences fds a).2 := by
  have replaced := replaceHeld held fds numFences 0 h unbound
  unfold bindFences
  generalize s.replaceFences i fds numFences 0 = done at replaced ⊢
  obtain ⟨full,s'⟩ := done
  cases full with
  | true =>
    have ready := replaced.flags (i := i) (g := fun array => {array with enableSignal := false})
      fun array => ⟨rfl,rfl⟩
    exact ((enableHeld ready held a).clear false).flags fun array => ⟨rfl,rfl⟩
  | false =>
    have bound := replaced.flags (i := i) (g := fun array => {array with bound := true})
      fun array => ⟨rfl,rfl⟩
    have signaled := bound.flags (i := i) (g := fun array => {array with error := -22,signaled := true})
      fun array => ⟨rfl,rfl⟩
    exact signaled.clear false

theorem bindArrayHeld (h : Held [] s) (info : FenceBindData) (a : BindAnswers) :
    Held [] (specSyncBindArray info a s).2 := by
  unfold specSyncBindArray
  split
  · exact h
  · rename_i fence file
    have counted := fenceOfCounted h file
    have start := h.get fun _ _ => counted
    generalize s.dmaFenceGet fence = t at start ⊢
    have ended := checked fence a t
    generalize t.checkBind fence a = done at ended ⊢
    cases ended with
    | refused e => exact (start.isSignaled fence).1.put
    | @passed i base pending tracked unbound =>
      obtain rfl := base
      have below := start.created i tracked
      have found := List.getElem?_eq_getElem below
      have slots := Unbound.all found (unbound _ found)
      exact (bindFencesHeld start List.mem_cons_self _ info.fds a slots).put

theorem stepHeld (debugFs : Bool) (h : Held [] s) (op : Op) : Held [] (op.step debugFs s) := by
  cases op with
  | openDevice =>
    simp only [Op.step,specSyncOpen]
    split
    · exact h
    · exact ⟨⟨h.accounts.balanced,h.accounts.gone⟩,h.nodup,h.created⟩
  | releaseDevice =>
    simp only [Op.step,specSyncRelease]
    have closed : Held [] {s with deviceAvailable := s.deviceAvailable-1} :=
      ⟨⟨h.accounts.balanced,h.accounts.gone⟩,h.nodup,h.created⟩
    split
    · exact h
    · split
      · exact closed.clear true
      · exact closed
  | create f a => exact createHeld h f a
  | bind info a =>
    simp only [Op.step,specSyncIoctlBind]
    split
    · exact h
    · exact bindArrayHeld h info a
  | clearTracker forceClear => exact h.clear forceClear
  | closeFd fd =>
    simp only [Op.step]
    cases s.files.find? (·.fd == some (fd : Int)) with
    | none => exact h
    | some file => exact h.fput file
  | installFile fd f =>
    simp only [Op.step]
    split
    · rename_i allowed
      refine h.addFile ⟨some fd,f⟩ fun i array found released same => ?_
      simp [show f = .base i from same,alive,found,released] at allowed
    · exact h
  | takeRef f =>
    simp only [Op.step]
    split
    · rename_i allowed
      refine h.others _ s.files fun i array found released => ?_
      have other : FenceId.base i ≠ f := by
        rintro rfl
        simp [alive,found,released] at allowed
      rw [Function.update_of_ne other]
      exact h.uncounted found released
    · exact h
  | dropRef f =>
    simp only [Op.step]
    split
    · exact h
    · rename_i some
      refine Held.release (h.others _ s.files fun i array found released => ?_) _ _
      have none := h.uncounted found released
      have other : FenceId.base i ≠ f := by
        rintro rfl
        exact some none.1
      rw [Function.update_of_ne other]
      exact none
  | countDown i numPending error => exact h.flags fun array => array.countDownKept _ _
  | signalFence context seqno => exact ⟨⟨h.accounts.balanced,h.accounts.gone⟩,h.nodup,h.created⟩

end Operations

theorem registeredHeld : Held [] specSyncRegisterDevice where
  accounts := by
    have none : Balanced (fun _ => 0) [] [] ([] : List FenceId) := fun _ => rfl
    exact ⟨(none.get dummyFence).lend,nofun⟩
  nodup := List.nodup_nil
  created := nofun

theorem runsHeld (debugFs : Bool) (ops : List Op) :
    Held [] (after (Op.step debugFs) specSyncRegisterDevice ops) :=
  invariantAlways (Held []) (fun _ op h => stepHeld debugFs h op) registeredHeld ops

theorem refsAre {s : SyncDevice} (h : Held [] s) (f : FenceId) :
    s.refs f = (standing s.fenceArrayList).count f+s.slotsHolding f := by
  have balanced := h.accounts.balanced f
  simpa [rowsHolding,SyncDevice.slotsHolding,List.map_map,Function.comp_def] using balanced

theorem referencesAccounted (debugFs : Bool) (ops : List Op) :
    let s := after (Op.step debugFs) specSyncRegisterDevice ops
    s.refs dummyFence = 1+s.slotsHolding dummyFence ∧
    (∀ context seqno, .fence context seqno ≠ dummyFence →
      s.refs (.fence context seqno) = s.slotsHolding (.fence context seqno)) ∧
    s.fenceArrayList.Nodup ∧
    ∀ i, s.refs (.base i) = (if i ∈ s.fenceArrayList then 1 else 0)+s.slotsHolding (.base i) := by
  have h := runsHeld debugFs ops
  generalize after (Op.step debugFs) specSyncRegisterDevice ops = s at h
  refine ⟨?_,fun context seqno other => ?_,h.nodup,fun i => ?_⟩
  · rw [refsAre h,show (standing s.fenceArrayList).count dummyFence = 1 by
      rw [dummyFence,standingFence,dummyFence,if_pos rfl]]
    rfl
  · rw [refsAre h,standingFence,if_neg other]
    simp
  · rw [refsAre h,standingBase h.nodup]
    split <;> rfl

end MmDrivers.SpecAccounts

import MmDrivers.FenceWait

/-! Who is left with the references that `create_fence_array` takes: every way out of the
call, by the first descriptor without a fence and by what fails after the last. -/
namespace MmDrivers.ArrayRefs
open Sections Sections.Prog FenceTypes SyncIoctl FenceWait

section Counts
variable (r : FenceRefs) (base : Nat) (bases : List Nat)

def adding : FenceRefs := {r with fence := fun base => r.fence base+bases.count base}

@[simp] theorem addingNil : adding r [] = r := by simp [adding]

theorem addingGet : adding (r.get base) bases = adding r (base::bases) := by
  simp only [adding,FenceRefs.get]
  congr 1
  funext other
  by_cases same : base = other
  · subst same
    simp only [Function.update_self,List.count_cons_self]
    omega
  · rw [Function.update_of_ne (Ne.symm same),List.count_cons_of_ne same]

theorem putsCounts : r.puts bases = {r with fence := fun base => r.fence base-bases.count base} := by
  induction bases generalizing r with
  | nil => simp [FenceRefs.puts]
  | cons base rest ih =>
    have step : r.puts (base::rest) = (r.put base).puts rest := rfl
    rw [step,ih]
    simp only [FenceRefs.put]
    congr 1
    funext other
    by_cases same : base = other
    · subst same
      simp only [Function.update_self,List.count_cons_self]
      omega
    · rw [Function.update_of_ne (Ne.symm same),List.count_cons_of_ne same]

theorem putsAdding : (adding r bases).puts bases = r := by
  rw [putsCounts]
  simp [adding]

theorem putsSameIff : ((adding r bases).puts (List.replicate bases.length base)).fence = r.fence ↔
    ∀ other ∈ bases, other = base := by
  simp only [putsCounts,adding]
  constructor
  · intro undone other mem
    by_contra differ
    have counted := congrFun undone other
    have taken : 0 < bases.count other := List.count_pos_iff.mpr mem
    rw [List.count_replicate,if_neg (by simpa using Ne.symm differ)] at counted
    omega
  · intro same
    have only : bases = List.replicate bases.length base := List.eq_replicate_iff.mpr ⟨rfl,same⟩
    rw [← only]
    funext other
    omega

theorem createdPut : ((adding r bases).createArray bases).putArray =
    {r with array := some ⟨bases,0⟩,arrayReleases := r.arrayReleases+1} := by
  have put : ((adding r bases).createArray bases).putArray =
      ({adding r bases with
        array := some ⟨bases,0⟩
        arrayReleases := r.arrayReleases+1} : FenceRefs).puts bases := rfl
  rw [put,putsCounts]
  simp [adding]

end Counts

section Descriptors
variable (files : Int → Option SyncFence) (fd : Int) (fds : List Int)

def fenceOf : Option Nat := if fd ≤ 0 then none else (files fd).map (·.base)

def children : List Nat := fds.filterMap (fenceOf files)

def missing : Option Int := fds.find? fun fd => (fenceOf files fd).isNone

def present : List Nat := children files (fds.takeWhile fun fd => (fenceOf files fd).isSome)

variable {files fd fds}

@[simp] theorem missingNil : missing files [] = none := rfl
@[simp] theorem presentNil : present files [] = [] := rfl

theorem missingHere (none : fenceOf files fd = none) : missing files (fd::fds) = some fd := by
  simp [missing,none]

theorem presentHere (none : fenceOf files fd = none) : present files (fd::fds) = [] := by
  simp [present,children,none]

theorem missingLater {base : Nat} (found : fenceOf files fd = some base) :
    missing files (fd::fds) = missing files fds := by
  simp [missing,found]

theorem presentLater {base : Nat} (found : fenceOf files fd = some base) :
    present files (fd::fds) = base::present files fds := by
  simp [present,children,found]

theorem presentAll (none : missing files fds = none) : present files fds = children files fds := by
  have every : ∀ fd ∈ fds, (fenceOf files fd).isSome = true := by
    intro fd mem
    have found := List.find?_eq_none.mp none fd mem
    cases fence : fenceOf files fd with
    | none => simp [fence] at found
    | some base => rfl
  rw [present,List.takeWhile_eq_self_iff.mpr every]

end Descriptors

section Collect
variable {m : Nat}

def collected (fences : List Nat) (r : FenceRefs) : Option Int → Except Errno (List Nat) × FenceRefs
  | none => (.ok fences,r)
  | some fd => (.error .einval,if fd ≤ 0 then r else r.puts (putChildFences (fences.length-1) fences))

theorem collectRun (call : CreateFenceArray m) (fds : List Int) (fences : List Nat) (s : SyncState m) :
    let all := collected (fences ++ present call.syncFileGetFence fds)
      (adding s.refs (present call.syncFileGetFence fds)) (missing call.syncFileGetFence fds)
    ((getChildFences call fds fences).run s).1 = all.1 ∧
      ((getChildFences call fds fences).run s).2.refs = all.2 := by
  induction fds generalizing fences s with
  | nil => simp [getChildFences,collected]
  | cons fd rest ih =>
    by_cases low : fd ≤ 0
    · have none : fenceOf call.syncFileGetFence fd = none := if_pos low
      rw [missingHere none,presentHere none]
      simp [getChildFences,collected,low]
    · have some : 0 ≤ fd := by omega
      cases file : call.syncFileGetFence fd with
      | none =>
        have none : fenceOf call.syncFileGetFence fd = none := by simp [fenceOf,low,file]
        rw [missingHere none,presentHere none]
        simp [getChildFences,collected,low,some,file]
      | some fence =>
        have found : fenceOf call.syncFileGetFence fd = Option.some fence.base := by
          simp [fenceOf,low,file]
        have run : (getChildFences call (fd::rest) fences).run s =
            (getChildFences call rest (fences ++ [fence.base])).run (s.get fence.base) := by
          simp [getChildFences,low,some,file]
        have next := ih (fences ++ [fence.base]) (s.get fence.base)
        have more : (s.get fence.base).refs = s.refs.get fence.base := rfl
        rw [run,missingLater found,presentLater found]
        rw [more,addingGet,List.append_assoc,List.singleton_append] at next
        exact next

end Collect

section Balance
variable {m : Nat} {call : CreateFenceArray m} {s : SyncState m}

def fdsOf (call : CreateFenceArray m) : List Int :=
  call.data.elim [] fun (numFences,data) =>
    (List.range numFences.toNat).map fun i => ((data i).setWidth 32).toInt

structure Collects (call : CreateFenceArray m) (s : SyncState m) : Prop where
  valid : isValidClient s.obj = true
  handle : s.obj.clientHandle.isErrOrNull = false
  data : ∃ numFences data, call.data = some (numFences,data) ∧ 0 ≤ numFences ∧ numFences < hwFenceArraySize
  memory : call.kcalloc = true

def OwnedByArray (bases : List Nat) (before after : FenceRefs) : Prop :=
  after.arrayReleases = before.arrayReleases ∧ ∃ refs, 0 < refs ∧ after.array = some ⟨bases,refs⟩

def BalancedRefs (bases : List Nat) (before after : FenceRefs) : Outcome → Prop
  | .returned (.error _) =>
    after.fence = before.fence ∧ after.arrayReleases ≤ before.arrayReleases+1
  | .returned (.ok _) =>
    after.fence = (adding before bases).fence ∧ (bases ≠ [] → OwnedByArray bases before after)
  | _ => False

/-- On error the children's references are as they were and the array is released at most
once; on success each occurrence has one more and they are the array's. -/
def Balanced (call : CreateFenceArray m) (s : SyncState m) : Prop :=
  let out := (hwSyncIoctlCreateFenceArray call).run s
  BalancedRefs (children call.syncFileGetFence (fdsOf call)) s.refs out.2.refs out.1

/-- A descriptor that is not positive comes first, one without a fence comes after
occurrences of one fence only. -/
def StopsWell (files : Int → Option SyncFence) (fds : List Int) : Prop :=
  ∀ fd, missing files fds = some fd →
    (fd ≤ 0 → present files fds = []) ∧
    (0 < fd → ∀ base ∈ present files fds, ∀ other ∈ present files fds, other = base)

def FinishesWell (call : CreateFenceArray m) : Prop :=
  missing call.syncFileGetFence (fdsOf call) = none → call.arrayMem = true →
    ∀ fd, call.unusedFd = .ok fd →
      (fd = 0 → children call.syncFileGetFence (fdsOf call) = []) ∧
      (fd ≠ 0 → call.syncFile = true ∧ call.copyBack = true)

theorem refusedBalanced {bases : List Nat} {r : FenceRefs} (e : Errno) :
    BalancedRefs bases r r (.returned (.error e)) := ⟨rfl,Nat.le_succ _⟩

theorem idleRun (idle : ¬ Collects call s) :
    ∃ e, (hwSyncIoctlCreateFenceArray call).run s = (.returned (.error e),s) := by
  unfold hwSyncIoctlCreateFenceArray
  rw [runBind,runObserve]
  by_cases valid : isValidClient s.obj = true
  case neg => exact ⟨.einval,by rw [if_pos valid,runFail]⟩
  rw [if_neg (not_not.mpr valid)]
  by_cases handle : s.obj.clientHandle.isErrOrNull = true
  · exact ⟨.einval,by rw [if_pos handle,runFail]⟩
  rw [if_neg handle]
  cases data : call.data with
  | none => exact ⟨.efault,rfl⟩
  | some entry =>
    cases entry with | mk numFences fds =>
    by_cases large : (hwFenceArraySize : Int) ≤ numFences
    · exact ⟨.einval,by simp only [if_pos large,runFail]⟩
    by_cases memory : ¬ call.kcalloc = true ∨ numFences < 0
    · exact ⟨.enomem,by simp only [if_neg large,if_pos memory,runFail]⟩
    · rw [not_or,not_not,not_lt] at memory
      exact absurd ⟨valid,by simpa using handle,⟨numFences,fds,data,memory.2,by omega⟩,memory.1⟩ idle

def finished (call : CreateFenceArray m) (bases : List Nat) (r : FenceRefs) : Outcome × FenceRefs :=
  let array := r.createArray bases
  if ¬ call.arrayMem then (.returned (.error .einval),r.puts bases)
  else
    match call.unusedFd with
    | .error e => (.returned (.error e),array.putArray)
    | .ok fd =>
      if fd = 0 then (.returned (.ok 0),array.putArray)
      else if ¬ call.syncFile then (.returned (.error .einval),array.putArray.freeArray)
      else if ¬ call.copyBack then (.returned (.error .efault),array.getArray.putArray.putArray.putArray)
      else (.returned (.ok 0),array.getArray.putArray)

def outcome (call : CreateFenceArray m) (r : FenceRefs) : Except Errno (List Nat) → Outcome × FenceRefs
  | .error e => (.returned (.error e),r)
  | .ok bases => finished call bases r

def ended (call : CreateFenceArray m) (bases : List Nat) (r : FenceRefs) (stop : Option Int) : Outcome × FenceRefs :=
  outcome call (collected bases (adding r bases) stop).2 (collected bases (adding r bases) stop).1

theorem makeRun (call : CreateFenceArray m) (bases : List Nat) (s : SyncState m) :
    ((makeFenceArray call bases).run s).1 = (finished call bases s.refs).1 ∧
      ((makeFenceArray call bases).run s).2.refs = (finished call bases s.refs).2 := by
  have puts := fun s : SyncState m => (runPutArray call.destroyed s).1
  unfold makeFenceArray finished
  by_cases memory : call.arrayMem = true
  case neg => simp [memory,fail]
  cases call.unusedFd with
  | error e => simp [memory,puts]
  | ok fd =>
    by_cases zero : fd = 0
    · simp [memory,zero,puts]
    by_cases file : call.syncFile = true
    · by_cases back : call.copyBack = true
      · simp [memory,zero,file,back,puts]
      · simp [memory,zero,file,back,puts]
    · simp [memory,zero,file,puts]

theorem collectsRun (collects : Collects call s) :
    let out := ended call (present call.syncFileGetFence (fdsOf call)) s.refs
      (missing call.syncFileGetFence (fdsOf call))
    ((hwSyncIoctlCreateFenceArray call).run s).1 = out.1 ∧
      ((hwSyncIoctlCreateFenceArray call).run s).2.refs = out.2 := by
  obtain ⟨numFences,data,got,low,small⟩ := collects.data
  have fds : fdsOf call = (List.range numFences.toNat).map fun i => ((data i).setWidth 32).toInt := by
    simp [fdsOf,got]
  obtain ⟨answer,refs⟩ := collectRun call (fdsOf call) [] s
  rw [List.nil_append] at answer refs
  unfold hwSyncIoctlCreateFenceArray
  rw [runBind,runObserve]
  simp only [collects.valid,collects.handle,collects.memory,got,not_true_eq_false,if_false,
    Bool.false_eq_true,not_le.mpr small,not_lt.mpr low,or_self,runBind,← fds,ended]
  generalize collected _ _ _ = all at answer refs
  generalize (getChildFences call (fdsOf call) []).run s = got at answer refs
  obtain ⟨result,s'⟩ := got
  obtain ⟨result',after⟩ := all
  dsimp only at answer refs
  subst answer
  subst refs
  cases result with
  | error e => exact ⟨rfl,rfl⟩
  | ok bases => exact makeRun call bases s'

section Ways
variable {bases : List Nat} {r : FenceRefs}

theorem releasedTwice {after : FenceRefs} (e : Errno) (twice : after.arrayReleases = r.arrayReleases+2) :
    ¬ BalancedRefs bases r after (.returned (.error e)) := by
  rintro ⟨-,once⟩
  omega

theorem finishedIff : BalancedRefs bases r (finished call bases (adding r bases)).2
      (finished call bases (adding r bases)).1 ↔
    (call.arrayMem = true → ∀ fd, call.unusedFd = .ok fd →
      (fd = 0 → bases = []) ∧ (fd ≠ 0 → call.syncFile = true ∧ call.copyBack = true)) := by
  unfold finished
  by_cases memory : call.arrayMem = true
  case neg =>
    simp only [memory,Bool.false_eq_true,not_false_eq_true,if_true,putsAdding,false_implies,iff_true]
    exact refusedBalanced .einval
  simp only [memory,not_true_eq_false,if_false,forall_const]
  cases unused : call.unusedFd with
  | error e =>
    simp only [reduceCtorEq,false_implies,implies_true,iff_true,createdPut]
    exact ⟨rfl,le_refl _⟩
  | ok fd =>
    simp only [Except.ok.injEq,forall_eq']
    by_cases zero : fd = 0
    · simp only [zero,if_true,createdPut,forall_const,ne_eq,not_true_eq_false,false_implies,and_true]
      constructor
      · rintro ⟨-,owned⟩
        by_contra some
        have released := (owned some).1
        simp at released
      · rintro rfl
        exact ⟨by simp,fun some => absurd rfl some⟩
    simp only [zero,if_false,false_implies,true_and,ne_eq,not_false_eq_true,forall_const]
    by_cases file : call.syncFile = true
    case neg =>
      simp only [file,not_false_eq_true,if_true,Bool.false_eq_true,false_and,iff_false,createdPut]
      exact releasedTwice .einval rfl
    by_cases back : call.copyBack = true
    · simp only [file,back,not_true_eq_false,if_false,and_self,iff_true]
      exact ⟨rfl,fun _ => ⟨rfl,1,by decide,rfl⟩⟩
    · simp only [file,back,not_true_eq_false,not_false_eq_true,if_true,if_false,Bool.false_eq_true,
        and_false,iff_false]
      have shared : ((adding r bases).createArray bases).getArray.putArray =
          (adding r bases).createArray bases := rfl
      rw [shared,createdPut]
      exact releasedTwice .efault rfl

theorem lastMem (some : bases ≠ []) : bases.getD ((bases.length-1 : Int)).toNat 0 ∈ bases := by
  have long : 0 < bases.length := List.length_pos_iff.mpr some
  have index : ((bases.length-1 : Int)).toNat < bases.length := by omega
  rw [List.getD_eq_getElem _ _ index]
  exact List.getElem_mem index

theorem putBackIff : ((adding r bases).puts (putChildFences (bases.length-1) bases)).fence = r.fence ↔
    ∀ base ∈ bases, ∀ other ∈ bases, other = base := by
  have length : ((bases.length : Int)-1+1).toNat = bases.length := by omega
  rw [putChildFences,length,putsSameIff]
  constructor
  · intro same base mem other mem'
    rw [same other mem',same base mem]
  · intro same other mem
    exact same _ (lastMem (List.ne_nil_of_mem mem)) other mem

theorem stoppedIff (fd : Int) {others : List Nat} :
    BalancedRefs others r (ended call bases r (some fd)).2 (ended call bases r (some fd)).1 ↔
    (fd ≤ 0 → bases = []) ∧ (0 < fd → ∀ base ∈ bases, ∀ other ∈ bases, other = base) := by
  simp only [ended,collected,outcome]
  by_cases low : fd ≤ 0
  · simp only [low,if_true,forall_const,not_lt.mpr low,false_implies,and_true]
    constructor
    · rintro ⟨same,-⟩
      have kept : ((adding r bases).puts []).fence = r.fence := same
      cases bases with
      | nil => rfl
      | cons base rest =>
        have counted := congrFun same base
        simp only [adding,List.count_cons_self] at counted
        omega
    · rintro rfl
      rw [addingNil]
      exact refusedBalanced .einval
  · simp only [low,if_false,false_implies,true_and,not_le.mp low,forall_const,← putBackIff (r := r)]
    constructor
    · exact fun balanced => balanced.1
    · refine fun same => ⟨same,?_⟩
      rw [putsCounts]
      exact Nat.le_succ _

end Ways

theorem balancedIff (call : CreateFenceArray m) (s : SyncState m) : Balanced call s ↔
    (Collects call s → StopsWell call.syncFileGetFence (fdsOf call) ∧ FinishesWell call) := by
  by_cases collects : Collects call s
  case neg =>
    obtain ⟨e,run⟩ := idleRun collects
    simp only [Balanced,run,collects,false_implies,iff_true]
    exact refusedBalanced e
  obtain ⟨answer,refs⟩ := collectsRun collects
  simp only [Balanced,answer,refs,collects,forall_const]
  cases none : missing call.syncFileGetFence (fdsOf call) with
  | none =>
    have stops : StopsWell call.syncFileGetFence (fdsOf call) := by
      intro fd got
      rw [none] at got
      cases got
    simp only [stops,true_and,presentAll none,FinishesWell,none,forall_const]
    exact finishedIff
  | some fd =>
    have finishes : FinishesWell call := by
      intro all
      rw [none] at all
      cases all
    simp only [finishes,and_true,StopsWell,none,Option.some.injEq,forall_eq']
    exact stoppedIff fd

def mixedArray : CreateFenceArray 1 where
  data := some (3,fun i => BitVec.ofNat 64 (i+3))
  kcalloc := true
  syncFileGetFence := fun fd =>
    if fd = 3 ∨ fd = 4 then some ⟨fd.toNat,⟨1,1,false,true⟩⟩ else none
  arrayMem := true
  unusedFd := .ok 6
  syncFile := true
  copyBack := true
  destroyed := fun _ => ⟨.ok (),valSession.registry⟩

theorem secondPutTwice : ¬ Balanced mixedArray valSession := by
  rintro ⟨same,-⟩
  have leaked : (2 : Int) = 1 := congrFun same 3
  exact absurd leaked (by decide)

end Balance
end MmDrivers.ArrayRefs

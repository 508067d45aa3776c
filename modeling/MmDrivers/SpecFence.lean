import MmDrivers.FenceTypes
import MmDrivers.Lib.Ledger
import MmDrivers.Lib.Runs

/-! The speculative fence driver. Its fence arrays are created full of one dummy
fence and bound to the user's fences later. A fence is counted apart for the
driver with its arrays and for everybody else; the kernel's fence arrays come in
by what they do to references and to the pending count. -/
namespace MmDrivers.SpecFence
open FenceTypes Ledger Runs

def fenceMin : Nat := 1
def fenceMax : Nat := 32
def dummyContext : U64 := 0xfafadadafafadada
def dummySeqno : U64 := 0xefa9ce00efa9ce00
def specFenceSignalAll : U32 := 2
def maxDeviceSupported (debugFs : Bool) : Nat := if debugFs then 2 else 1

/-- A fence goes by its context and seqno, the base of a fence array of the driver by
the number of the array; such a base has a context of its own and seqno 0. -/
inductive FenceId where
  | fence (context seqno : U64)
  | base (array : Nat)
  deriving DecidableEq, Repr

def dummyFence : FenceId := .fence dummyContext dummySeqno

def FenceId.isDummy : FenceId → Bool
  | .fence context seqno => context == dummyContext && seqno == dummySeqno
  | .base _ => false

theorem FenceId.isDummyIff {f : FenceId} : f.isDummy = true ↔ f = dummyFence := by
  cases f with
  | fence context seqno => simp [isDummy,dummyFence]
  | base i => simp [isDummy,dummyFence]

structure FenceArray where
  fences : List FenceId
  numPending : Int
  error : Int
  signaled : Bool
  enableSignal : Bool
  specFence : Bool
  bound : Bool
  released : Bool
  deriving DecidableEq, Repr

def FenceArray.numFences (array : FenceArray) : Nat := array.fences.length

def FenceArray.slots (array : FenceArray) : List FenceId :=
  if array.released then [] else array.fences

def FenceArray.countDown (array : FenceArray) (numPending error : Int) : FenceArray :=
  if array.signaled then array
  else if numPending ≤ 0 then {array with numPending,error,signaled := true}
  else {array with numPending}

theorem FenceArray.countDownKept (array : FenceArray) (numPending error : Int) :
    (array.countDown numPending error).fences = array.fences ∧
      (array.countDown numPending error).released = array.released := by
  unfold countDown
  split
  · exact ⟨rfl,rfl⟩
  · split <;> exact ⟨rfl,rfl⟩

structure SyncFile where
  fd : Option Int
  fence : FenceId
  deriving DecidableEq, Repr

/-- `struct sync_device` and what it shares with the kernel. `refs` counts the
references of the driver and of its arrays, `others` all but those of the files. -/
structure SyncDevice where
  arrays : List FenceArray
  fenceArrayList : List Nat
  refs : FenceId → Int
  others : FenceId → Nat
  files : List SyncFile
  fenceSignaled : U64 → U64 → Bool
  deviceAvailable : Nat

-- leaves the one reference of dma_fence_init
def specSyncRegisterDevice : SyncDevice where
  arrays := []
  fenceArrayList := []
  refs := adjust (fun _ => 0) dummyFence 1
  others := fun _ => 0
  files := []
  fenceSignaled := fun _ _ => false
  deviceAvailable := 0

namespace SyncDevice

def filesOf (s : SyncDevice) (f : FenceId) : Nat := s.files.countP (·.fence = f)

def kref (s : SyncDevice) (f : FenceId) : Int := s.refs f+s.others f+s.filesOf f

def slotsHolding (s : SyncDevice) (f : FenceId) : Nat :=
  (s.arrays.map fun array => array.slots.count f).sum

def count (s : SyncDevice) (f : FenceId) (d : Int) : SyncDevice := {s with refs := adjust s.refs f d}

def onArray (s : SyncDevice) (i : Nat) (f : FenceArray → FenceArray) : SyncDevice :=
  {s with arrays := s.arrays.modify i f}

def alive (s : SyncDevice) : FenceId → Bool
  | .base i => s.arrays[i]?.any fun array => !array.released
  | _ => true

/-- `dma_fence_array_release` once nothing counts on the base, one put for each
slot. An array is released once, so there are as many levels as arrays at most. -/
def releaseUnreferenced : Nat → FenceId → SyncDevice → SyncDevice
  | fuel+1,.base i,s =>
    match s.arrays[i]? with
    | some array =>
      if array.released = false ∧ s.kref (.base i) = 0 then
        array.fences.foldl (fun s f => releaseUnreferenced fuel f (s.count f (-1)))
          (s.onArray i fun array => {array with released := true})
      else s
    | none => s
  | _,_,s => s

def dmaFenceGet (s : SyncDevice) (f : FenceId) : SyncDevice := s.count f 1

def dmaFencePut (s : SyncDevice) (f : FenceId) : SyncDevice :=
  releaseUnreferenced s.arrays.length f (s.count f (-1))

def fenceOf (s : SyncDevice) (fd : Int) : Option FenceId :=
  (s.files.find? (·.fd == some fd)).map (·.fence)

def getUnusedFd (s : SyncDevice) (fd : Option Nat) : Option Nat :=
  fd.filter fun fd => !s.files.any (·.fd == some (fd : Int))

def dmaFenceIsSignaled (s : SyncDevice) : FenceId → Bool × SyncDevice
  | .fence context seqno => (s.fenceSignaled context seqno,s)
  | .base i =>
    match s.arrays[i]? with
    | none => (false,s)
    | some array =>
      if array.signaled then (true,s)
      else if array.numPending ≤ 0 then (true,s.onArray i fun array => {array with signaled := true})
      else (false,s)

def dmaFenceArrayCreate (s : SyncDevice) (fences : List FenceId) (signalOnAny : Bool) : SyncDevice :=
  let array : FenceArray :=
    {fences,numPending := if signalOnAny then 1 else fences.length,error := 0,signaled := false,
      enableSignal := true,specFence := true,bound := false,released := false}
  {s with arrays := s.arrays ++ [array]}.count (.base s.arrays.length) 1

def syncFileCreate (s : SyncDevice) (f : FenceId) : SyncDevice :=
  {s with files := s.files ++ [⟨none,f⟩]}

def fput (s : SyncDevice) (file : SyncFile) : SyncDevice :=
  releaseUnreferenced s.arrays.length file.fence {s with files := s.files.erase file}

def fdInstall (s : SyncDevice) (fd : Nat) (f : FenceId) : SyncDevice :=
  {s with files := s.files.erase ⟨none,f⟩ ++ [⟨some fd,f⟩]}

def listAddTail (s : SyncDevice) (i : Nat) : SyncDevice :=
  {s with fenceArrayList := s.fenceArrayList ++ [i]}

def listDel (s : SyncDevice) (i : Nat) : SyncDevice :=
  {s with fenceArrayList := s.fenceArrayList.erase i}

def sanitizeFenceArray (s : SyncDevice) : FenceId → Option Nat
  | .base i => if i ∈ s.fenceArrayList then some i else none
  | _ => none

def decPending (s : SyncDevice) (i : Nat) : SyncDevice :=
  s.onArray i fun array =>
    {array with
      numPending := array.numPending-1
      signaled := array.signaled || array.numPending-1 = 0}

-- array->fences is never null: the array was created with it
def clearNode (forceClear : Bool) (s : SyncDevice) (i : Nat) : SyncDevice :=
  let (isSignaled,s) := s.dmaFenceIsSignaled (.base i)
  let s := if forceClear && !isSignaled then s.decPending i else s
  if forceClear || isSignaled then (s.dmaFencePut (.base i)).listDel i else s

def clearFenceArrayTracker (forceClear : Bool) (s : SyncDevice) : SyncDevice :=
  s.fenceArrayList.foldl (clearNode forceClear) s

end SyncDevice

structure FenceCreateData where
  numFences : Nat
  flags : U32

structure CreateAnswers where
  request : Bool
  fd : Option Nat
  fences : Bool
  fenceArray : Bool
  syncFile : Bool
  node : Bool
  copied : Bool

def specSyncCreateArray (f : FenceCreateData) (a : CreateAnswers) (s : SyncDevice) :
    Except Errno Nat × SyncDevice :=
  match s.getUnusedFd a.fd with
  | none => (.error .emfile,s)
  | some fd =>
    if f.numFences < fenceMin ∨ fenceMax < f.numFences then (.error .erange,s)
    else if a.fences = false then (.error .enomem,s)
    else
      let fences := List.replicate f.numFences dummyFence
      let s := fences.foldl SyncDevice.dmaFenceGet s
      let signalAny := f.flags &&& specFenceSignalAll = 0
      if a.fenceArray = false then (.error .einval,fences.foldl SyncDevice.dmaFencePut s)
      else
        let i := s.arrays.length
        let base := FenceId.base i
        let s := s.dmaFenceArrayCreate fences signalAny
        if a.syncFile = false then (.error .einval,s.dmaFencePut base)
        else
          let s := s.syncFileCreate base
          if a.node = false then (.error .enomem,(s.fput ⟨none,base⟩).dmaFencePut base)
          else (.ok fd,(s.fdInstall fd base).listAddTail i)

def specSyncIoctlCreateFence (f : FenceCreateData) (a : CreateAnswers) (s : SyncDevice) :
    Status × SyncDevice :=
  if a.request = false then (.error .efault,s)
  else
    match specSyncCreateArray f a s with
    | (.error e,s) => (.error e,s)
    | (.ok _,s) => (if a.copied then .ok () else .error .efault,s)

/-- `fds` is what the user's memory holds there. The ioctl's test for a negative
`out_bind_fd` never fires, as the field is unsigned. -/
structure FenceBindData where
  outBindFd : U32
  fds : Nat → Int

structure BindAnswers where
  request : Bool
  userFds : Bool
  copied : Bool
  callbacks : Nat
  numPending : Int
  error : Int

namespace SyncDevice

def checkBind (fence : FenceId) (a : BindAnswers) (s : SyncDevice) : Except Errno Nat × SyncDevice :=
  match s.dmaFenceIsSignaled fence with
  | (true,s) => (.error .einval,s)
  | (false,s) =>
    match s.sanitizeFenceArray fence with
    | none => (.error .einval,s)
    | some i =>
      if s.arrays[i]?.any fun array => array.fences.any fun f => !f.isDummy then (.error .einval,s)
      else if a.userFds = false then (.error .enomem,s)
      else if a.copied = false then (.error .efault,s)
      else (.ok i,s)

def replaceFences (i : Nat) (fds : Nat → Int) : (left n : Nat) → SyncDevice → Bool × SyncDevice
  | 0,_,s => (true,s)
  | left+1,n,s =>
    match s.fenceOf (fds n) with
    | none => (false,s)
    | some userFence =>
      let s := (s.dmaFenceGet userFence).onArray i fun array =>
        {array with fences := array.fences.set n userFence}
      replaceFences i fds left (n+1) (s.dmaFencePut dummyFence)

-- each callback on a child keeps a reference on the base
def dmaFenceEnableSwSignaling (i : Nat) (a : BindAnswers) (s : SyncDevice) : SyncDevice :=
  {s with others := Function.update s.others (.base i) (s.others (.base i)+a.callbacks)}.onArray i
    fun array => {array with enableSignal := true}.countDown a.numPending a.error

def signalInvalid (i : Nat) (s : SyncDevice) : SyncDevice :=
  s.onArray i fun array => {array with error := -22,signaled := true}

def setBound (i : Nat) (s : SyncDevice) : SyncDevice :=
  s.onArray i fun array => {array with bound := true}

def bindFences (i numFences : Nat) (fds : Nat → Int) (a : BindAnswers) (s : SyncDevice) :
    Status × SyncDevice :=
  match s.replaceFences i fds numFences 0 with
  | (true,s) =>
    let s := (s.onArray i fun array => {array with enableSignal := false}).dmaFenceEnableSwSignaling i a
    (.ok (),(s.clearFenceArrayTracker false).setBound i)
  | (false,s) => (.error .einval,((s.setBound i).signalInvalid i).clearFenceArrayTracker false)

end SyncDevice

def specSyncBindArray (info : FenceBindData) (a : BindAnswers) (s : SyncDevice) :
    Status × SyncDevice :=
  match s.fenceOf info.outBindFd.toInt with
  | none => (.error .einval,s)
  | some fence =>
    match (s.dmaFenceGet fence).checkBind fence a with
    | (.error e,s) => (.error e,s.dmaFencePut fence)
    | (.ok i,s) =>
      let done := s.bindFences i (s.arrays[i]?.elim 0 FenceArray.numFences) info.fds a
      (done.1,done.2.dmaFencePut fence)

def specSyncIoctlBind (info : FenceBindData) (a : BindAnswers) (s : SyncDevice) : Status × SyncDevice :=
  if a.request = false then (.error .efault,s) else specSyncBindArray info a s

-- the timeout is zero only if the flag was clear to the last
def specSyncWaitBindArray (fenceArray : Option Nat) (s s' : SyncDevice) : Status :=
  match fenceArray with
  | none => .error .einval
  | some i =>
    if s.arrays[i]?.all fun array => !array.specFence then .error .einval
    else if s.arrays[i]?.any FenceArray.bound then .ok ()
    else if s'.arrays[i]?.any FenceArray.bound then .ok ()
    else .error .etimedout

def specSyncOpen (debugFs : Bool) (s : SyncDevice) : Status × SyncDevice :=
  if maxDeviceSupported debugFs ≤ s.deviceAvailable then (.error .eexist,s)
  else (.ok (),{s with deviceAvailable := s.deviceAvailable+1})

def specSyncRelease (s : SyncDevice) : Status × SyncDevice :=
  if s.deviceAvailable = 0 then (.error .enodev,s)
  else
    let s := {s with deviceAvailable := s.deviceAvailable-1}
    (.ok (),if s.deviceAvailable = 0 then s.clearFenceArrayTracker true else s)

inductive Op where
  | openDevice
  | releaseDevice
  | create (f : FenceCreateData) (a : CreateAnswers)
  | bind (info : FenceBindData) (a : BindAnswers)
  | clearTracker (forceClear : Bool)
  | closeFd (fd : Nat)
  | installFile (fd : Nat) (f : FenceId)
  | takeRef (f : FenceId)
  | dropRef (f : FenceId)
  | countDown (i : Nat) (numPending error : Int)
  | signalFence (context seqno : U64)

def Op.step (debugFs : Bool) (s : SyncDevice) : Op → SyncDevice
  | .openDevice => (specSyncOpen debugFs s).2
  | .releaseDevice => (specSyncRelease s).2
  | .create f a => (specSyncIoctlCreateFence f a s).2
  | .bind info a => (specSyncIoctlBind info a s).2
  | .clearTracker forceClear => s.clearFenceArrayTracker forceClear
  | .closeFd fd => (s.files.find? (·.fd == some (fd : Int))).elim s s.fput
  | .installFile fd f =>
    if s.alive f ∧ (s.getUnusedFd (some fd)).isSome then
      {s with files := s.files ++ [⟨some fd,f⟩]}
    else s
  | .takeRef f =>
    if s.alive f then {s with others := Function.update s.others f (s.others f+1)} else s
  | .dropRef f =>
    if s.others f = 0 then s
    else {s with others := Function.update s.others f (s.others f-1)}.releaseUnreferenced
      s.arrays.length f
  | .countDown i numPending error => s.onArray i fun array => array.countDown numPending error
  | .signalFence context seqno =>
    {s with fenceSignaled := fun c q => c = context && q = seqno || s.fenceSignaled c q}

def FenceArray.unreleased (array : FenceArray) : FenceArray := {array with released := false}

namespace SyncDevice
variable {s : SyncDevice} {f : FenceId} {i : Nat}

@[simp] theorem countArrays (d : Int) : (s.count f d).arrays = s.arrays := rfl
@[simp] theorem onArrayArrays (g : FenceArray → FenceArray) :
    (s.onArray i g).arrays = s.arrays.modify i g := rfl
@[simp] theorem krefOnArray (g : FenceArray → FenceArray) : (s.onArray i g).kref f = s.kref f := rfl

theorem krefCount (d : Int) (g : FenceId) :
    (s.count f d).kref g = s.kref g+if f = g then d else 0 := by
  unfold kref
  simp only [count,adjustApply,filesOf]
  split <;> omega

theorem releaseBy {R : SyncDevice → SyncDevice → Prop} (refl : ∀ s, R s s)
    (trans : ∀ a b c, R a b → R b c → R a c) (lowered : ∀ s f, R s (s.count f (-1)))
    (marked : ∀ s i, R s (s.onArray i fun array => {array with released := true}))
    (fuel : Nat) (f : FenceId) (s : SyncDevice) : R s (releaseUnreferenced fuel f s) := by
  induction fuel generalizing f s with
  | zero => exact refl s
  | succ fuel ih =>
    have slots : ∀ (fences : List FenceId) (s : SyncDevice), R s
        (fences.foldl (fun s f => releaseUnreferenced fuel f (s.count f (-1))) s) := by
      intro fences
      induction fences with
      | nil => exact refl
      | cons g rest next => exact fun s => trans _ _ _ (trans _ _ _ (lowered s g) (ih g _)) (next _)
    cases f with
    | fence context seqno => exact refl s
    | base i =>
      unfold releaseUnreferenced
      split
      · split
        · exact trans _ _ _ (marked s i) (slots _ _)
        · exact refl s
      · exact refl s

structure Drops (s s' : SyncDevice) : Prop where
  arrays : s'.arrays.map FenceArray.unreleased = s.arrays.map FenceArray.unreleased
  fenceArrayList : s'.fenceArrayList = s.fenceArrayList
  others : s'.others = s.others
  files : s'.files = s.files
  fenceSignaled : s'.fenceSignaled = s.fenceSignaled
  deviceAvailable : s'.deviceAvailable = s.deviceAvailable

namespace Drops

theorem refl (s : SyncDevice) : Drops s s := ⟨rfl,rfl,rfl,rfl,rfl,rfl⟩

theorem trans {a b c : SyncDevice} (ab : Drops a b) (bc : Drops b c) : Drops a c :=
  ⟨bc.arrays.trans ab.arrays,bc.fenceArrayList.trans ab.fenceArrayList,bc.others.trans ab.others,
    bc.files.trans ab.files,bc.fenceSignaled.trans ab.fenceSignaled,
    bc.deviceAvailable.trans ab.deviceAvailable⟩

theorem count (s : SyncDevice) (f : FenceId) (d : Int) : Drops s (s.count f d) :=
  ⟨rfl,rfl,rfl,rfl,rfl,rfl⟩

theorem onArray (s : SyncDevice) (i : Nat) {g : FenceArray → FenceArray}
    (kept : ∀ array, (g array).unreleased = array.unreleased) : Drops s (s.onArray i g) :=
  ⟨mapModifySame kept _ _,rfl,rfl,rfl,rfl,rfl⟩

theorem release (fuel : Nat) (f : FenceId) (s : SyncDevice) :
    Drops s (releaseUnreferenced fuel f s) := by
  have marked : ∀ (s : SyncDevice) i, Drops s (s.onArray i fun array => {array with released := true}) :=
    fun s i => onArray s i fun _ => rfl
  exact releaseBy refl (fun _ _ _ => trans) (fun s g => count s g _) marked fuel f s

theorem put (s : SyncDevice) (f : FenceId) : Drops s (s.dmaFencePut f) :=
  (count s f _).trans (release _ _ _)

theorem puts (s : SyncDevice) (fences : List FenceId) : Drops s (fences.foldl dmaFencePut s) := by
  induction fences generalizing s with
  | nil => exact refl s
  | cons f rest ih => exact (put s f).trans (ih _)

theorem array {s s' : SyncDevice} (h : Drops s s') {i : Nat} {array : FenceArray}
    (found : s'.arrays[i]? = some array) :
    ∃ before, s.arrays[i]? = some before ∧ array.unreleased = before.unreleased := by
  have same := congrArg (·[i]?) h.arrays
  simp only [List.getElem?_map,found,Option.map_some] at same
  obtain ⟨before,here,eq⟩ := Option.map_eq_some_iff.mp same.symm
  exact ⟨before,here,eq.symm⟩

theorem length {s s' : SyncDevice} (h : Drops s s') : s'.arrays.length = s.arrays.length := by
  simpa using congrArg List.length h.arrays

end Drops

theorem signaledCases (s : SyncDevice) (f : FenceId) :
    (s.dmaFenceIsSignaled f).2 = s ∨ ∃ i array, f = .base i ∧ s.arrays[i]? = some array ∧
      array.signaled = false ∧ array.numPending ≤ 0 ∧
      s.dmaFenceIsSignaled f = (true,s.onArray i fun array => {array with signaled := true}) := by
  cases f with
  | fence context seqno => exact .inl rfl
  | base i =>
    cases found : s.arrays[i]? with
    | none => simp [dmaFenceIsSignaled,found]
    | some array =>
      simp only [dmaFenceIsSignaled,found]
      cases signaled : array.signaled with
      | true => exact .inl rfl
      | false =>
        by_cases pending : array.numPending ≤ 0
        · simp only [if_pos pending]
          exact .inr ⟨i,array,rfl,found,signaled,pending,rfl⟩
        · simp [if_neg pending]

theorem clearNodeBy {R : SyncDevice → SyncDevice → Prop} (trans : ∀ a b c, R a b → R b c → R a c)
    (i : Nat) (asked : ∀ s, R s (s.dmaFenceIsSignaled (.base i)).2) (lowered : ∀ s, R s (s.decPending i))
    (put : ∀ s, R s ((s.dmaFencePut (.base i)).listDel i)) (forceClear : Bool) (s : SyncDevice) :
    R s (clearNode forceClear s i) := by
  unfold clearNode
  have first := asked s
  generalize s.dmaFenceIsSignaled (.base i) = answer at first ⊢
  obtain ⟨signaled,s'⟩ := answer
  dsimp only at first ⊢
  have settled : R s (if (forceClear && !signaled) = true then s'.decPending i else s') := by
    split
    · exact trans _ _ _ first (lowered s')
    · exact first
  split
  · exact trans _ _ _ settled (put _)
  · exact settled

theorem clearBy {R : SyncDevice → SyncDevice → Prop} (refl : ∀ s, R s s)
    (trans : ∀ a b c, R a b → R b c → R a c) {forceClear : Bool}
    (node : ∀ s i, R s (clearNode forceClear s i)) (s : SyncDevice) :
    R s (s.clearFenceArrayTracker forceClear) := by
  have nodes : ∀ (nodes : List Nat) (s : SyncDevice), R s (nodes.foldl (clearNode forceClear) s) := by
    intro nodes
    induction nodes with
    | nil => exact refl
    | cons i rest ih => exact fun s => trans _ _ _ (node s i) (ih _)
  exact nodes s.fenceArrayList s

inductive Checked (fence : FenceId) (s : SyncDevice) : Except Errno Nat × SyncDevice → Prop
  | refused (e : Errno) : Checked fence s (.error e,(s.dmaFenceIsSignaled fence).2)
  | passed {i : Nat} (base : fence = .base i) (pending : s.dmaFenceIsSignaled fence = (false,s))
      (tracked : i ∈ s.fenceArrayList)
      (unbound : ∀ array, s.arrays[i]? = some array → ∀ f ∈ array.fences, f = dummyFence) :
      Checked fence s (.ok i,s)

theorem checked (fence : FenceId) (a : BindAnswers) (s : SyncDevice) :
    Checked fence s (s.checkBind fence a) := by
  have refused := @Checked.refused fence s
  rcases signaledCases s fence with same | ⟨i,array,-,-,-,-,signals⟩
  · unfold checkBind
    cases answer : s.dmaFenceIsSignaled fence with
    | mk signaled s' =>
      obtain rfl : s' = s := by simpa [answer] using same
      rw [answer] at refused
      cases signaled with
      | true => exact refused _
      | false =>
        dsimp only
        cases fence with
        | fence context seqno => exact refused _
        | base i =>
          unfold sanitizeFenceArray
          by_cases tracked : i ∈ s'.fenceArrayList
          · simp only [if_pos tracked]
            split
            · exact refused _
            · rename_i unbound
              split
              · exact refused _
              · split
                · exact refused _
                · refine .passed rfl answer tracked fun array found f mem => ?_
                  simp only [found,Option.any_some,List.any_eq_true,not_exists,not_and] at unbound
                  exact FenceId.isDummyIff.mp (by simpa using unbound f mem)
          · simp only [if_neg tracked]
            exact refused _
  · have first := refused .einval
    unfold checkBind
    rw [signals] at first ⊢
    exact first

end SyncDevice
end MmDrivers.SpecFence

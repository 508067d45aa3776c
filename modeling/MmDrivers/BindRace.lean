import MmDrivers.SpecStores

/-! Bind calls that overlap: the checks of one call, which take no lock, and the replace loop
it runs under the lock of the array later. -/
namespace MmDrivers.BindRace
open FenceTypes Runs SpecFence SyncDevice SpecBind SpecStores

/-- Up to the lock; a call that passes goes on to that array, and holds its base. -/
def startBind (info : FenceBindData) (a : BindAnswers) (s : SyncDevice) :
    Except Errno Nat × SyncDevice :=
  match s.fenceOf info.outBindFd.toInt with
  | none => (.error .einval,s)
  | some fence =>
    match (s.dmaFenceGet fence).checkBind fence a with
    | (.error e,s) => (.error e,s.dmaFencePut fence)
    | (.ok i,s) => (.ok i,s)

def slotsOf (s : SyncDevice) (i : Nat) : Nat := s.arrays[i]?.elim 0 FenceArray.numFences

def finishBind (i : Nat) (info : FenceBindData) (a : BindAnswers) (s : SyncDevice) : Status × SyncDevice :=
  let done := s.bindFences i (slotsOf s i) info.fds a
  (done.1,done.2.dmaFencePut (.base i))

theorem bindSteps (info : FenceBindData) (a : BindAnswers) (s : SyncDevice) :
    specSyncBindArray info a s = match startBind info a s with
      | (.error e,s) => (.error e,s)
      | (.ok i,s) => finishBind i info a s := by
  unfold specSyncBindArray startBind
  cases s.fenceOf info.outBindFd.toInt with
  | none => rfl
  | some fence =>
    have ended := checked fence a (s.dmaFenceGet fence)
    dsimp only
    generalize (s.dmaFenceGet fence).checkBind fence a = done at ended ⊢
    cases ended with
    | refused e => rfl
    | passed base pending tracked unbound =>
      subst base
      rfl

section Start
variable {s : SyncDevice} {info : FenceBindData} {a : BindAnswers}

theorem startKeeps (info : FenceBindData) (a : BindAnswers) (s : SyncDevice) :
    Keeps s (startBind info a s).2 := by
  unfold startBind
  cases s.fenceOf info.outBindFd.toInt with
  | none => exact .refl s
  | some fence =>
    have ended := checked fence a (s.dmaFenceGet fence)
    dsimp only
    generalize (s.dmaFenceGet fence).checkBind fence a = done at ended ⊢
    cases ended with
    | refused e => exact (Keeps.isSignaled (s.dmaFenceGet fence) fence).trans (Keeps.drops (Drops.put _ _))
    | passed base pending tracked unbound => exact .refl (s.dmaFenceGet fence)

theorem startPassed {i : Nat} (passed : (startBind info a s).1 = .ok i) {array : FenceArray}
    (found : s.arrays[i]? = some array) : ∀ f ∈ array.fences, f = dummyFence := by
  unfold startBind at passed
  cases file : s.fenceOf info.outBindFd.toInt with
  | none =>
    rw [file] at passed
    cases passed
  | some fence =>
    have ended := checked fence a (s.dmaFenceGet fence)
    simp only [file] at passed
    generalize (s.dmaFenceGet fence).checkBind fence a = done at ended passed
    cases ended with
    | refused e => cases passed
    | passed base pending tracked unbound =>
      cases passed
      exact unbound array found

end Start

structure BindCall where
  info : FenceBindData
  answers : BindAnswers

inductive Stage where
  | waiting
  | passed (array : Nat)
  | ended (status : Status)

structure Replacement (ι : Type) where
  call : ι
  array : Nat
  slot : Nat
  deriving DecidableEq

structure Binds (ι : Type) where
  device : SyncDevice
  stage : ι → Stage
  log : List (Replacement ι)

inductive Turn (ι : Type) where
  | check (call : ι)
  | replace (call : ι)
  | other (op : Op)

section Race
variable {ι : Type}

def start (s : SyncDevice) : Binds ι := ⟨s,fun _ => .waiting,[]⟩

def replacements (call : ι) (i stored : Nat) : List (Replacement ι) :=
  (List.range stored).map fun slot => ⟨call,i,slot⟩

def AtMostOnce (log : List (Replacement ι)) : Prop :=
  (∀ e ∈ log, ∀ e' ∈ log, e.array = e'.array → e.call = e'.call) ∧
    (log.map fun e => (e.array,e.slot)).Nodup

variable [DecidableEq ι] (calls : ι → BindCall) (debugFs : Bool)

instance (log : List (Replacement ι)) : Decidable (AtMostOnce log) :=
  inferInstanceAs (Decidable ((∀ e ∈ log, ∀ e' ∈ log, e.array = e'.array → e.call = e'.call) ∧
    (log.map fun e => (e.array,e.slot)).Nodup))

def Turn.step (c : Binds ι) : Turn ι → Binds ι
  | .check call =>
    match c.stage call with
    | .waiting =>
      match startBind (calls call).info (calls call).answers c.device with
      | (.error e,s) => ⟨s,Function.update c.stage call (.ended (.error e)),c.log⟩
      | (.ok i,s) => ⟨s,Function.update c.stage call (.passed i),c.log⟩
    | _ => c
  | .replace call =>
    match c.stage call with
    | .passed i =>
      let stored := stores c.device (calls call).info.fds (slotsOf c.device i) 0
      let done := finishBind i (calls call).info (calls call).answers c.device
      ⟨done.2,Function.update c.stage call (.ended done.1),
        c.log ++ replacements call i stored.length⟩
    | _ => c
  -- whatever the driver and the kernel do meanwhile; binds are the calls
  | .other op => if bindInfo op = none then {c with device := op.step debugFs c.device} else c

/-- No call passes the checks while another that passed them for that array has not run its loop, and
no user fd resolves to the dummy. -/
def Exclusive (c : Binds ι) : Turn ι → Prop
  | .check call => c.stage call = .waiting →
    ∀ i, (startBind (calls call).info (calls call).answers c.device).1 = .ok i →
      ∀ other, c.stage other ≠ .passed i
  | .replace call => ∀ i, c.stage call = .passed i →
    ∀ k < slotsOf c.device i, c.device.fenceOf ((calls call).info.fds k) ≠ some dummyFence
  | .other _ => True

def SlotsKept (s t : SyncDevice) : Prop :=
  ∀ (i : Nat) (array : FenceArray), s.arrays[i]? = some array →
    ∃ later : FenceArray, t.arrays[i]? = some later ∧ later.fences = array.fences

def Shows (s : SyncDevice) (i : Nat) : Prop :=
  ∃ (array : FenceArray) (f : FenceId), s.arrays[i]? = some array ∧ f ∈ array.fences ∧ f ≠ dummyFence

structure Once (c : Binds ι) : Prop where
  once : AtMostOnce c.log
  shows : ∀ e ∈ c.log, Shows c.device e.array
  spent : ∀ e ∈ c.log, ∀ call, c.stage call ≠ .passed e.array
  alone : ∀ i call other, c.stage call = .passed i → c.stage other = .passed i → call = other

variable {calls debugFs} {c : Binds ι}

omit [DecidableEq ι] in
theorem startOnce (s : SyncDevice) : Once (start s : Binds ι) where
  once := ⟨nofun,List.nodup_nil⟩
  shows := nofun
  spent := nofun
  alone := nofun

theorem rowsLater {R : Nat → FenceArray → FenceArray → Prop} {s t : SyncDevice}
    (rows : Rows R s.arrays t.arrays) {i : Nat} {array : FenceArray} (found : s.arrays[i]? = some array) :
    ∃ later, t.arrays[i]? = some later ∧ R i array later := by
  have below : i < t.arrays.length := rows.length ▸ (List.getElem?_eq_some_iff.mp found).1
  obtain ⟨before,start,related⟩ := rows.each i _ (List.getElem?_eq_getElem below)
  obtain rfl := Option.some.inj (found.symm.trans start)
  exact ⟨_,List.getElem?_eq_getElem below,related⟩

omit [DecidableEq ι] in
theorem otherSlots (debugFs : Bool) (s : SyncDevice) {op : Op} (other : bindInfo op = none) :
    SlotsKept s (op.step debugFs s) := by
  intro i array found
  have step := otherArrays debugFs s other
  have below : i < (op.step debugFs s).arrays.length :=
    (List.getElem?_eq_some_iff.mp found).1.trans_le step.1
  refine ⟨_,List.getElem?_eq_getElem below,?_⟩
  cases step.2 i _ (List.getElem?_eq_getElem below) with
  | kept start kept =>
    obtain rfl := Option.some.inj (found.symm.trans start)
    exact kept.fences
  | created missing shape unbound => exact absurd (found.symm.trans missing) nofun
  | bound isBind out start clear settled =>
    subst isBind
    cases other

theorem Shows.kept {s t : SyncDevice} {i : Nat} (shows : Shows s i)
    (same : ∀ array : FenceArray, s.arrays[i]? = some array →
      ∃ later : FenceArray, t.arrays[i]? = some later ∧ later.fences = array.fences) : Shows t i := by
  obtain ⟨array,f,found,mem,user⟩ := shows
  obtain ⟨later,here,fences⟩ := same array found
  exact ⟨later,f,here,fences ▸ mem,user⟩

theorem passedBefore {call other : ι} {status : Status} {i : Nat}
    (passed : Function.update c.stage call (.ended status) other = .passed i) :
    other ≠ call ∧ c.stage other = .passed i := by
  by_cases oc : other = call
  · subst oc
    rw [Function.update_self] at passed
    cases passed
  · rw [Function.update_of_ne oc] at passed
    exact ⟨oc,passed⟩

theorem checkOnce (once : Once c) (call : ι) (exclusive : Exclusive calls c (.check call)) :
    Once (Turn.step calls debugFs c (.check call)) := by
  simp only [Turn.step]
  cases stage : c.stage call with
  | passed i => exact once
  | ended status => exact once
  | waiting =>
    have keeps := startKeeps (calls call).info (calls call).answers c.device
    have passes := @startPassed c.device (calls call).info (calls call).answers
    have alone := exclusive stage
    generalize startBind (calls call).info (calls call).answers c.device = done at keeps passes alone ⊢
    obtain ⟨status,s⟩ := done
    have shows : ∀ e ∈ c.log, Shows s e.array := by
      intro e mem
      refine (once.shows e mem).kept fun array found => ?_
      obtain ⟨later,here,kept⟩ := rowsLater keeps found
      exact ⟨later,here,kept.fences⟩
    cases status with
    | error e =>
      dsimp only
      refine ⟨once.once,shows,fun e mem other passed => ?_,fun i one other passed passed' => ?_⟩
      · exact once.spent e mem other (passedBefore passed).2
      · exact once.alone i one other (passedBefore passed).2 (passedBefore passed').2
    | ok i =>
      dsimp only
      have none := alone i rfl
      have stages : ∀ other j, Function.update c.stage call (.passed i) other = .passed j →
          other = call ∧ j = i ∨ c.stage other = .passed j := by
        intro other j passed
        by_cases oc : other = call
        · subst oc
          rw [Function.update_self] at passed
          exact .inl ⟨rfl,(Stage.passed.inj passed).symm⟩
        · rw [Function.update_of_ne oc] at passed
          exact .inr passed
      refine ⟨once.once,shows,fun e mem other passed => ?_,fun j one other passed passed' => ?_⟩
      · rcases stages other _ passed with ⟨-,here⟩ | passed
        · -- an array that shows a user fence does not pass the checks
          obtain ⟨array,f,found,inside,user⟩ := once.shows e mem
          exact user (passes rfl (here ▸ found) f inside)
        · exact once.spent e mem other passed
      · rcases stages one j passed with ⟨own,ji⟩ | old <;>
          rcases stages other j passed' with ⟨own',ji'⟩ | old'
        · exact own.trans own'.symm
        · exact absurd (ji ▸ old') (none other)
        · exact absurd (ji' ▸ old) (none one)
        · exact once.alone j one other old old'

omit [DecidableEq ι] in
theorem replacedOnce {log : List (Replacement ι)} (once : AtMostOnce log) (call : ι) (i stored : Nat)
    (fresh : ∀ e ∈ log, e.array ≠ i) : AtMostOnce (log ++ replacements call i stored) := by
  have new : ∀ e ∈ replacements call i stored, e.call = call ∧ e.array = i := by
    intro e mem
    obtain ⟨slot,-,rfl⟩ := List.mem_map.mp mem
    exact ⟨rfl,rfl⟩
  constructor
  · intro e mem e' mem' same
    rcases List.mem_append.mp mem with old | added <;> rcases List.mem_append.mp mem' with old' | added'
    · exact once.1 e old e' old' same
    · exact absurd (same.trans (new e' added').2) (fresh e old)
    · exact absurd (same.symm.trans (new e added).2) (fresh e' old')
    · exact (new e added).1.trans (new e' added').1.symm
  · rw [List.map_append,List.nodup_append]
    refine ⟨once.2,?_,fun a mem b mem' same => ?_⟩
    · rw [replacements,List.map_map]
      refine List.Nodup.map (fun x y same => ?_) List.nodup_range
      exact (Prod.mk.inj same).2
    · obtain ⟨e,old,rfl⟩ := List.mem_map.mp mem
      obtain ⟨e',added,rfl⟩ := List.mem_map.mp mem'
      exact fresh e old ((Prod.mk.inj same).1.trans (new e' added).2)

theorem storedShows {s t : SyncDevice} {i : Nat} {fds : Nat → Int}
    (users : ∀ k < slotsOf s i, s.fenceOf (fds k) ≠ some dummyFence)
    (rows : StoresOnly i (stores s fds (slotsOf s i) 0) 0 (slotsOf s i) s t)
    (some : stores s fds (slotsOf s i) 0 ≠ []) : Shows t i := by
  obtain ⟨f,rest,stored⟩ := List.exists_cons_of_ne_nil some
  cases found : s.arrays[i]? with
  | none =>
    rw [slotsOf,found] at stored
    cases stored
  | some array =>
    obtain ⟨later,here,fences⟩ := rowsLater rows found
    have slots : slotsOf s i = array.fences.length := by
      rw [slotsOf,found]
      rfl
    rw [if_pos rfl,slots] at fences
    have fences := fences (Nat.le_refl _)
    have mem : f ∈ stores s fds (slotsOf s i) 0 := by
      rw [stored]
      exact List.mem_cons_self
    obtain ⟨k,-,below,named⟩ := storesNamed mem
    refine ⟨later,f,here,?_,fun dummy => users k (by omega) (dummy ▸ named)⟩
    rw [fences,← slots]
    exact List.mem_append_left _ (List.mem_append_right _ mem)

theorem replaceOnce (once : Once c) (call : ι) (exclusive : Exclusive calls c (.replace call)) :
    Once (Turn.step calls debugFs c (.replace call)) := by
  simp only [Turn.step]
  cases stage : c.stage call with
  | waiting => exact once
  | ended status => exact once
  | passed i =>
    have users := exclusive i stage
    have bound := bindStores c.device i (slotsOf c.device i) (calls call).info.fds (calls call).answers
    have rows := bound.same (Keeps.fences (Keeps.drops (Drops.put _ (.base i))))
    have fresh : ∀ e ∈ c.log, e.array ≠ i := by
      rintro e mem rfl
      exact once.spent e mem call stage
    have others : ∀ other j, Function.update c.stage call (.ended (finishBind i (calls call).info
        (calls call).answers c.device).1) other = .passed j → other ≠ call ∧ c.stage other = .passed j :=
      fun other j passed => passedBefore passed
    refine ⟨replacedOnce once.once call i _ fresh,fun e mem => ?_,fun e mem other passed => ?_,
      fun j one other passed passed' => ?_⟩
    · rcases List.mem_append.mp mem with old | added
      · refine (once.shows e old).kept fun array found => ?_
        obtain ⟨later,here,fences⟩ := rowsLater rows found
        rw [if_neg (fresh e old)] at fences
        exact ⟨later,here,fences⟩
      · obtain ⟨slot,inside,rfl⟩ := List.mem_map.mp added
        refine storedShows users rows fun none => ?_
        rw [none] at inside
        cases inside
    · obtain ⟨oc,passed⟩ := others other _ passed
      rcases List.mem_append.mp mem with old | added
      · exact once.spent e old other passed
      · obtain ⟨slot,-,rfl⟩ := List.mem_map.mp added
        exact oc (once.alone i other call passed stage)
    · exact once.alone j one other (others one j passed).2 (others other j passed').2

theorem stepOnce (once : Once c) (turn : Turn ι) (exclusive : Exclusive calls c turn) :
    Once (turn.step calls debugFs c) := by
  cases turn with
  | check call => exact checkOnce once call exclusive
  | replace call => exact replaceOnce once call exclusive
  | other op =>
    simp only [Turn.step]
    split
    · rename_i other
      have slots := otherSlots debugFs c.device other
      exact ⟨once.once,fun e mem => (once.shows e mem).kept (slots e.array),once.spent,once.alone⟩
    · exact once

theorem bindsReplaceOnce (calls : ι → BindCall) (debugFs : Bool) (s : SyncDevice) (turns : List (Turn ι))
    (exclusive : Along (Turn.step calls debugFs) (Exclusive calls) (start s) turns) :
    Along (Turn.step calls debugFs) (fun c _ => AtMostOnce c.log) (start s) turns ∧
      AtMostOnce (after (Turn.step calls debugFs) (start s) turns).log := by
  have keep : ∀ c turn, Once c → Exclusive calls c turn → Once (Turn.step calls debugFs c turn) :=
    fun _ turn once allowed => stepOnce once turn allowed
  have run := invariant keep (startOnce s) exclusive
  exact ⟨alongMono (fun _ _ once => once.once) run.1,run.2.once⟩

end Race

def pairDevice : SyncDevice :=
  run false [.create ⟨2,2⟩ (grantAll 3),.installFile 7 (.fence 5 1),.installFile 8 (.fence 6 1),
    .installFile 9 (.fence 7 1)]

def pairCalls (call : Bool) : BindCall := ⟨⟨3,fun k => if call then 8+k else 7+k⟩,answerAll⟩

def inTurn : List (Turn Bool) := [.check true,.replace true,.check false,.replace false]

theorem pairInTurn :
    AtMostOnce (after (Turn.step pairCalls false) (start pairDevice) inTurn).log := by
  refine (bindsReplaceOnce pairCalls false pairDevice inTurn ⟨?_,?_,?_,?_,trivial⟩).2
  · intro waiting i passed other past
    cases past
  · intro i past
    cases past
    decide
  · intro waiting i passed
    have refused : (startBind (pairCalls false).info (pairCalls false).answers (after
        (Turn.step pairCalls false) (start pairDevice) [.check true,.replace true]).device).1 =
        .error .einval := by decide
    exact absurd (refused.symm.trans passed) nofun
  · intro i past
    cases past

def overlapping : List (Turn Bool) := [.check true,.check false,.replace true,.replace false]

theorem pairOverlaps :
    ¬ AtMostOnce (after (Turn.step pairCalls false) (start pairDevice) overlapping).log := by
  decide

end MmDrivers.BindRace

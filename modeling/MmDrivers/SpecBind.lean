import MmDrivers.Lib.Rows
import MmDrivers.SpecAccounts

/-! Binding of speculative fence arrays over whole runs: an array is full of dummies
until one bind settles it, and no later bind touches it. -/
namespace MmDrivers.SpecBind
open FenceTypes Runs SpecFence SyncDevice SpecAccounts

def Live (array : FenceArray) : Prop := array.signaled = true ∨ 0 < array.numPending

/-- What an array keeps outside its bind. -/
structure Kept (a b : FenceArray) : Prop where
  fences : b.fences = a.fences
  bound : b.bound = a.bound
  signaled : a.signaled = true → b.signaled = true ∧ b.error = a.error
  live : Live a → Live b

theorem Kept.refl (a : FenceArray) : Kept a a := ⟨rfl,rfl,fun h => ⟨h,rfl⟩,id⟩

theorem Kept.trans {a b c : FenceArray} (ab : Kept a b) (bc : Kept b c) : Kept a c where
  fences := bc.fences.trans ab.fences
  bound := bc.bound.trans ab.bound
  signaled h := ⟨(bc.signaled (ab.signaled h).1).1,
    (bc.signaled (ab.signaled h).1).2.trans (ab.signaled h).2⟩
  live h := bc.live (ab.live h)

theorem Kept.released {a b : FenceArray} (same : b.unreleased = a.unreleased) : Kept a b := by
  obtain ⟨fences,numPending,error,signaled,enableSignal,specFence,bound,released⟩ := a
  obtain ⟨fences',numPending',error',signaled',enableSignal',specFence',bound',released'⟩ := b
  simp only [FenceArray.unreleased,FenceArray.mk.injEq] at same
  obtain ⟨rfl,rfl,rfl,rfl,rfl,rfl,rfl,-⟩ := same
  exact ⟨rfl,rfl,fun h => ⟨h,rfl⟩,id⟩

theorem Kept.countDown (a : FenceArray) (numPending error : Int) :
    Kept a (a.countDown numPending error) := by
  unfold FenceArray.countDown
  split
  · exact .refl a
  · rename_i unsignaled
    split
    · exact ⟨rfl,rfl,fun h => absurd h unsignaled,fun _ => .inl rfl⟩
    · exact ⟨rfl,rfl,fun h => ⟨h,rfl⟩,fun _ => .inr (by dsimp only; omega)⟩

abbrev Keeps (s t : SyncDevice) : Prop := Rows (fun _ => Kept) s.arrays t.arrays

namespace Keeps
variable {s t u : SyncDevice}

theorem refl (s : SyncDevice) : Keeps s s := Rows.refl s.arrays fun _ => Kept.refl

theorem trans (st : Keeps s t) (tu : Keeps t u) : Keeps s u :=
  Rows.trans st tu fun _ _ _ _ => Kept.trans

theorem drops (h : Drops s t) : Keeps s t := Rows.ofMap h.arrays fun _ _ _ => Kept.released

theorem release (same : t.arrays = s.arrays) (fuel : Nat) (f : FenceId) :
    Keeps s (releaseUnreferenced fuel f t) := by
  have released : Keeps t (releaseUnreferenced fuel f t) := drops (Drops.release fuel f t)
  rwa [Keeps,same] at released

theorem onArray (s : SyncDevice) (i : Nat) {g : FenceArray → FenceArray} (kept : ∀ a, Kept a (g a)) :
    Keeps s (s.onArray i g) :=
  Rows.modify s.arrays i kept fun _ a _ => .refl a

theorem isSignaled (s : SyncDevice) (f : FenceId) : Keeps s (s.dmaFenceIsSignaled f).2 := by
  rcases signaledCases s f with unchanged | ⟨i,array,-,-,-,-,signals⟩
  · rw [unchanged]
    exact refl s
  · rw [signals]
    exact onArray s i fun a => ⟨rfl,rfl,fun _ => ⟨rfl,rfl⟩,fun _ => .inl rfl⟩

theorem decPending (s : SyncDevice) (i : Nat) : Keeps s (s.decPending i) := by
  refine onArray s i fun a => ⟨rfl,rfl,fun h => ⟨by simp [h],rfl⟩,fun live => ?_⟩
  rcases live with signaled | pending
  · exact .inl (by simp [signaled])
  · by_cases last : a.numPending-1 = 0
    · exact .inl (by simp [last])
    · exact .inr (by dsimp only; omega)

theorem clearNode (forceClear : Bool) (s : SyncDevice) (i : Nat) :
    Keeps s (clearNode forceClear s i) := by
  have put : ∀ s : SyncDevice, Keeps s ((s.dmaFencePut (.base i)).listDel i) := by
    intro s
    have put : Keeps s (s.dmaFencePut (.base i)) := drops (Drops.put s (.base i))
    exact put
  exact clearNodeBy (R := Keeps) (fun _ _ _ => trans) i (fun s => isSignaled s _) (fun s => decPending s i) put
    forceClear s

theorem clear (forceClear : Bool) (s : SyncDevice) : Keeps s (s.clearFenceArrayTracker forceClear) :=
  clearBy (R := Keeps) refl (fun _ _ _ => trans) (clearNode forceClear) s

theorem enable (i : Nat) (a : BindAnswers) (s : SyncDevice) :
    Keeps s (s.dmaFenceEnableSwSignaling i a) := by
  refine onArray s i (g := fun array =>
    {array with enableSignal := true}.countDown a.numPending a.error) fun array => ?_
  exact Kept.trans (b := {array with enableSignal := true}) ⟨rfl,rfl,fun h => ⟨h,rfl⟩,id⟩
    (Kept.countDown _ _ _)

end Keeps

def Filled (s : SyncDevice) (fds : Nat → Int) (fences : List FenceId) : Prop :=
  ∀ k < fences.length, s.fenceOf (fds k) = fences[k]?

def Failed (array : FenceArray) : Prop := array.signaled = true ∧ array.error < 0

structure Replaced (s : SyncDevice) (fds : Nat → Int) (n left : Nat) (full : Bool) (a b : FenceArray) :
    Prop where
  bound : b.bound = a.bound
  live : Live a → Live b
  length : b.fences.length = a.fences.length
  before : ∀ k < n, b.fences[k]? = a.fences[k]?
  slots : full = true → n+left ≤ a.fences.length →
    ∀ k, n ≤ k → k < n+left → s.fenceOf (fds k) = b.fences[k]?

theorem Replaced.stop {s : SyncDevice} {fds : Nat → Int} {n left : Nat} {full : Bool} (a : FenceArray)
    (stop : full = true → left = 0) : Replaced s fds n left full a a :=
  ⟨rfl,id,rfl,fun _ _ => rfl,fun done _ k lo hi => absurd hi (by have := stop done; omega)⟩

theorem Replaced.next {s t : SyncDevice} {fds : Nat → Int} {n left : Nat} {full : Bool} {f : FenceId}
    {a b c : FenceArray} (file : s.fenceOf (fds n) = some f)
    (files : ∀ fd, t.fenceOf fd = s.fenceOf fd)
    (put : Kept {a with fences := a.fences.set n f} b) (rest : Replaced t fds (n+1) left full b c) :
    Replaced s fds n (left+1) full a c where
  bound := rest.bound.trans put.bound
  live h := rest.live (put.live h)
  length := by rw [rest.length,put.fences,List.length_set]
  before k lo := by
    rw [rest.before k (by omega),put.fences,List.getElem?_set_ne (by omega)]
  slots done fits k lo hi := by
    by_cases here : k = n
    · rw [here,rest.before n (by omega),put.fences,List.getElem?_set_self (by omega),file]
    · rw [← files,rest.slots done (by rw [put.fences,List.length_set]; omega) k (by omega) (by omega)]

theorem replaceArrays (i : Nat) (fds : Nat → Int) (left n : Nat) (s : SyncDevice) :
    Rows (fun j a b => if j = i then Replaced s fds n left (s.replaceFences i fds left n).1 a b
      else Kept a b) s.arrays (s.replaceFences i fds left n).2.arrays := by
  induction left generalizing n s with
  | zero =>
    refine Rows.refl _ fun j a => ?_
    split
    · exact .stop a fun _ => rfl
    · exact .refl a
  | succ left ih =>
    unfold replaceFences
    cases file : s.fenceOf (fds n) with
    | none =>
      refine Rows.refl _ fun j a => ?_
      split
      · exact .stop a fun done => absurd done Bool.false_ne_true
      · exact .refl a
    | some f =>
      dsimp only
      generalize stored : (s.dmaFenceGet f).onArray i _ = t
      have store : Rows (fun j a b => b = if j = i then {a with fences := a.fences.set n f} else a)
          s.arrays t.arrays := by
        rw [← stored]
        exact Rows.modify s.arrays i (fun a => by rw [if_pos rfl]) fun j a other => by rw [if_neg other]
      have drops := Drops.put t dummyFence
      have files : ∀ fd, (t.dmaFencePut dummyFence).fenceOf fd = s.fenceOf fd := by
        intro fd
        unfold fenceOf
        rw [drops.files,← stored]
        rfl
      have put : Rows (fun j a b => Kept (if j = i then {a with fences := a.fences.set n f} else a) b)
          s.arrays (t.dmaFencePut dummyFence).arrays :=
        store.trans (Keeps.drops drops) fun j a b c same kept => same ▸ kept
      refine put.trans (ih (n+1) _) fun j a b c kept rest => ?_
      by_cases here : j = i
      · rw [if_pos here] at kept rest ⊢
        exact .next file files kept rest
      · rw [if_neg here] at kept rest ⊢
        exact kept.trans rest

structure Settled (s : SyncDevice) (fds : Nat → Int) (a b : FenceArray) : Prop where
  bound : b.bound = true
  live : Live a → Live b
  length : b.fences.length = a.fences.length
  outcome : Filled s fds b.fences ∨ Failed b

theorem Settled.kept {s : SyncDevice} {fds : Nat → Int} {a b c : FenceArray} (h : Settled s fds a b)
    (kept : Kept b c) : Settled s fds a c where
  bound := kept.bound.trans h.bound
  live x := kept.live (h.live x)
  length := by rw [kept.fences,h.length]
  outcome := by
    rcases h.outcome with filled | failed
    · exact .inl (kept.fences ▸ filled)
    · obtain ⟨signaled,error⟩ := kept.signaled failed.1
      exact .inr ⟨signaled,error ▸ failed.2⟩

abbrev KeepsBut (i : Nat) (R : FenceArray → FenceArray → Prop) (s t : SyncDevice) : Prop :=
  Rows (fun j a b => if j = i then R a b else Kept a b) s.arrays t.arrays

theorem KeepsBut.trans {i : Nat} {R Q : FenceArray → FenceArray → Prop} {s t u : SyncDevice}
    (first : KeepsBut i R s t) (second : Keeps t u) (compose : ∀ a b c, R a b → Kept b c → Q a c) :
    KeepsBut i Q s u := by
  refine Rows.trans first second fun j a b c ab bc => ?_
  by_cases here : j = i
  · rw [if_pos here] at ab ⊢
    exact compose a b c ab bc
  · rw [if_neg here] at ab ⊢
    exact ab.trans bc

theorem KeepsBut.modify {i : Nat} {R Q : FenceArray → FenceArray → Prop} {s t : SyncDevice}
    (first : KeepsBut i R s t) {g : FenceArray → FenceArray} (compose : ∀ a b, R a b → Q a (g b)) :
    KeepsBut i Q s (t.onArray i g) := by
  have change : Rows (fun j b c => c = if j = i then g b else b) t.arrays (t.onArray i g).arrays :=
    Rows.modify t.arrays i (fun b => by rw [if_pos rfl]) fun j b other => by rw [if_neg other]
  refine Rows.trans first change fun j a b c ab bc => ?_
  by_cases here : j = i
  · rw [if_pos here] at ab bc ⊢
    exact bc ▸ compose a b ab
  · rw [if_neg here] at ab bc ⊢
    exact bc ▸ ab

theorem bindFencesArrays (s : SyncDevice) (i : Nat) (array : FenceArray) (fds : Nat → Int)
    (a : BindAnswers) :
    KeepsBut i (fun x y => x = array → Settled s fds x y) s
      (s.bindFences i array.numFences fds a).2 := by
  have replaced := replaceArrays i fds array.numFences 0 s
  unfold bindFences
  generalize s.replaceFences i fds array.numFences 0 = done at replaced ⊢
  obtain ⟨full,t⟩ := done
  cases full with
  | true =>
    have enabled := Keeps.trans (Keeps.onArray t i (g := fun array => {array with enableSignal := false})
      fun a => ⟨rfl,rfl,fun h => ⟨h,rfl⟩,id⟩) (Keeps.enable i a _)
    have cleared := KeepsBut.trans replaced (enabled.trans (Keeps.clear false _))
      (Q := fun x y => x = array → (Live x → Live y) ∧ y.fences.length = x.fences.length ∧
        Filled s fds y.fences) fun x b c slots kept same => by
          refine ⟨fun h => kept.live (slots.live h),by rw [kept.fences,slots.length],fun k below => ?_⟩
          rw [kept.fences] at below ⊢
          rw [slots.length,same] at below
          exact slots.slots rfl (by rw [same]; simp [FenceArray.numFences]) k (Nat.zero_le k)
            (by simpa [FenceArray.numFences] using below)
    exact cleared.modify fun x y slots same =>
      ⟨rfl,fun h => (slots same).1 h,(slots same).2.1,.inl (slots same).2.2⟩
  | false =>
    have bound := KeepsBut.modify replaced (g := fun array => {array with bound := true})
      (Q := fun x y => y.bound = true ∧ y.fences.length = x.fences.length)
      fun x y slots => ⟨rfl,slots.length⟩
    have failed := KeepsBut.modify bound (g := fun array => {array with error := -22,signaled := true})
      (Q := Settled s fds) fun x y slots => ⟨slots.1,fun _ => .inl rfl,slots.2,
        .inr ⟨rfl,show (-22 : Int) < 0 by decide⟩⟩
    exact failed.trans (Keeps.clear false _) fun x b c settled kept _ => settled.kept kept

structure Shape (array : FenceArray) : Prop where
  some : 0 < array.fences.length
  unbound : array.bound = false → ∀ f ∈ array.fences, f = dummyFence
  bound : array.bound = true → (∀ f ∈ array.fences, f ≠ dummyFence) ∨ Failed array
  live : Live array

theorem Shape.kept {a b : FenceArray} (h : Shape a) (kept : Kept a b) : Shape b where
  some := kept.fences ▸ h.some
  unbound clear := by
    rw [kept.fences]
    exact h.unbound (kept.bound ▸ clear)
  bound now := by
    rw [kept.fences]
    refine (h.bound (kept.bound ▸ now)).imp_right fun failed => ?_
    obtain ⟨signaled,error⟩ := kept.signaled failed.1
    exact ⟨signaled,error ▸ failed.2⟩
  live := kept.live h.live

structure Inv (s : SyncDevice) : Prop where
  held : Held [] s
  shape : ∀ (i : Nat) (array : FenceArray), s.arrays[i]? = some array → Shape array

def beforeLoop (info : FenceBindData) (a : BindAnswers) (s : SyncDevice) : Except Errno Nat :=
  match s.fenceOf info.outBindFd.toInt with
  | none => .error .einval
  | some fence => ((s.dmaFenceGet fence).checkBind fence a).1

inductive BindEnd (info : FenceBindData) (a : BindAnswers) (s : SyncDevice) :
    Status × SyncDevice → Prop
  | refused {e : Errno} (early : beforeLoop info a s = .error e) : BindEnd info a s (.error e,s)
  | settled {i : Nat} {array : FenceArray} {status : Status} {s' : SyncDevice}
      (passed : beforeLoop info a s = .ok i)
      (out : s.fenceOf info.outBindFd.toInt = some (.base i)) (found : s.arrays[i]? = some array)
      (unsignaled : array.signaled = false) (dummies : ∀ f ∈ array.fences, f = dummyFence)
      (rows : KeepsBut i (fun x y => x = array → Settled s info.fds x y) s s') :
      BindEnd info a s (status,s')

theorem putGet {s : SyncDevice} {f : FenceId} (counted : 0 < s.kref f) :
    (s.dmaFenceGet f).dmaFencePut f = s := by
  have same : (s.dmaFenceGet f).count f (-1) = s := by
    simp [dmaFenceGet,count,Ledger.adjust]
  unfold dmaFencePut
  rw [same]
  generalize (s.dmaFenceGet f).arrays.length = fuel
  cases fuel with
  | zero => rfl
  | succ fuel =>
    cases f with
    | fence context seqno => rfl
    | base i =>
      unfold releaseUnreferenced
      split
      · rw [if_neg fun free => by omega]
      · rfl

theorem isSignaledSame {s : SyncDevice} (shape : ∀ (i : Nat) (array : FenceArray),
    s.arrays[i]? = some array → Shape array) (f : FenceId) : (s.dmaFenceIsSignaled f).2 = s := by
  rcases signaledCases s f with same | ⟨i,array,-,found,unsignaled,settled,-⟩
  · exact same
  · rcases (shape i array found).live with signaled | pending
    · simp [signaled] at unsignaled
    · omega

theorem unsignaledPending {s s' : SyncDevice} {i : Nat} {array : FenceArray}
    (pending : s.dmaFenceIsSignaled (.base i) = (false,s')) (found : s.arrays[i]? = some array) :
    array.signaled = false := by
  cases signaled : array.signaled with
  | false => rfl
  | true => simp [dmaFenceIsSignaled,found,signaled] at pending

theorem bindEnds {s : SyncDevice} (inv : Inv s) (info : FenceBindData) (a : BindAnswers) :
    BindEnd info a s (specSyncBindArray info a s) := by
  unfold specSyncBindArray
  cases file : s.fenceOf info.outBindFd.toInt with
  | none => exact .refused (by simp [beforeLoop,file])
  | some fence =>
    have counted := fenceOfCounted inv.held file
    have shape : ∀ (i : Nat) (array : FenceArray),
        (s.dmaFenceGet fence).arrays[i]? = some array → Shape array := inv.shape
    have ended := checked fence a (s.dmaFenceGet fence)
    have early : beforeLoop info a s = ((s.dmaFenceGet fence).checkBind fence a).1 := by
      simp [beforeLoop,file]
    dsimp only
    generalize (s.dmaFenceGet fence).checkBind fence a = done at ended early ⊢
    cases ended with
    | refused e =>
      dsimp only
      rw [isSignaledSame shape,putGet counted]
      exact .refused early
    | @passed i base pending tracked unbound =>
      obtain rfl := base
      obtain ⟨array,found⟩ : ∃ array, s.arrays[i]? = some array :=
        ⟨_,List.getElem?_eq_getElem (inv.held.created i tracked)⟩
      have here : (s.dmaFenceGet (.base i)).arrays[i]? = some array := found
      have rows := bindFencesArrays (s.dmaFenceGet (.base i)) i array info.fds a
      refine .settled early file found (unsignaledPending pending here) (unbound _ here) ?_
      rw [here,Option.elim_some]
      exact rows.trans (Keeps.drops (Drops.put _ _)) fun x b c settled kept same =>
        have h := (settled same).kept kept
        ⟨h.bound,h.live,h.length,h.outcome⟩

theorem getsArrays (s : SyncDevice) (fences : List FenceId) :
    (fences.foldl dmaFenceGet s).arrays = s.arrays := by
  induction fences generalizing s with
  | nil => rfl
  | cons f rest ih => exact ih _

inductive CreateEnd (s s' : SyncDevice) : Prop
  | unmade (keeps : Keeps s s')
  | made (array : FenceArray) (shape : Shape array) (unbound : array.bound = false)
      (rows : Rows (fun _ => Kept) (s.arrays ++ [array]) s'.arrays)

theorem createArrayEnds (s : SyncDevice) (f : FenceCreateData) (a : CreateAnswers) :
    CreateEnd s (specSyncCreateArray f a s).2 := by
  unfold specSyncCreateArray
  split
  · exact .unmade (.refl s)
  · rename_i fd free
    split
    · exact .unmade (.refl s)
    · rename_i inRange
      split
      · exact .unmade (.refl s)
      · have taken := getsArrays s (List.replicate f.numFences dummyFence)
        dsimp only
        generalize (List.replicate f.numFences dummyFence).foldl dmaFenceGet s = t at taken ⊢
        split
        · have puts : Keeps t _ := Keeps.drops (Drops.puts t (List.replicate f.numFences dummyFence))
          rw [Keeps,taken] at puts
          exact .unmade puts
        · generalize made : t.dmaFenceArrayCreate _ _ = u
          obtain ⟨array,shape,unbound,arrays⟩ : ∃ array, Shape array ∧ array.bound = false ∧
              u.arrays = s.arrays ++ [array] := by
            subst made
            refine ⟨_,⟨?_,fun _ f mem => (List.mem_replicate.mp mem).2,
              fun now => absurd now Bool.false_ne_true,.inr ?_⟩,rfl,congrArg (· ++ _) taken⟩
            · rw [List.length_replicate]
              unfold fenceMin at inRange
              omega
            · dsimp only
              rw [List.length_replicate]
              unfold fenceMin at inRange
              split <;> omega
          have rows : ∀ v, Keeps u v → Rows (fun _ => Kept) (s.arrays ++ [array]) v.arrays :=
            fun v keeps => arrays ▸ keeps
          have put : ∀ v, Keeps u v → Keeps u (v.dmaFencePut (.base t.arrays.length)) :=
            fun v keeps => keeps.trans (Keeps.drops (Drops.put v _))
          split
          · exact .made array shape unbound (rows _ (put u (.refl u)))
          · split
            · exact .made array shape unbound (rows _ (put _ (Keeps.release (by rfl) _ _)))
            · exact .made array shape unbound (rows _ (.refl u))

theorem createEnds (s : SyncDevice) (f : FenceCreateData) (a : CreateAnswers) :
    CreateEnd s (specSyncIoctlCreateFence f a s).2 := by
  unfold specSyncIoctlCreateFence
  split
  · exact .unmade (.refl s)
  · have created := createArrayEnds s f a
    generalize specSyncCreateArray f a s = done at created ⊢
    obtain ⟨fd,s'⟩ := done
    cases fd with
    | error e => exact created
    | ok fd => exact created

inductive ArrayStep (s : SyncDevice) (op : Op) (i : Nat) (b : FenceArray) : Prop
  | kept {a : FenceArray} (found : s.arrays[i]? = some a) (kept : Kept a b)
  | created (missing : s.arrays[i]? = none) (shape : Shape b) (unbound : b.bound = false)
  | bound {a : FenceArray} {info : FenceBindData} {answers : BindAnswers}
      (isBind : op = .bind info answers) (out : s.fenceOf info.outBindFd.toInt = some (.base i))
      (found : s.arrays[i]? = some a) (clear : a.bound = false) (settled : Settled s info.fds a b)

theorem ArrayStep.keeps {s s' : SyncDevice} {op : Op} (keeps : Keeps s s') {i : Nat} {b : FenceArray}
    (found : s'.arrays[i]? = some b) : ArrayStep s op i b := by
  obtain ⟨a,start,kept⟩ := keeps.each i b found
  exact .kept start kept

theorem Shape.clear {array : FenceArray} (shape : Shape array) (unsignaled : array.signaled = false)
    (dummies : ∀ f ∈ array.fences, f = dummyFence) : array.bound = false := by
  cases bound : array.bound with
  | false => rfl
  | true =>
    rcases shape.bound bound with full | failed
    · have slot := List.getElem_mem shape.some
      exact absurd (dummies _ slot) (full _ slot)
    · simp [failed.1] at unsignaled

def bindInfo : Op → Option FenceBindData
  | .bind info _ => some info
  | _ => none

theorem otherArrays (debugFs : Bool) (s : SyncDevice) {op : Op} (other : bindInfo op = none) :
    s.arrays.length ≤ (op.step debugFs s).arrays.length ∧
    ∀ i b, (op.step debugFs s).arrays[i]? = some b → ArrayStep s op i b := by
  have whenKept : ∀ s', Keeps s s' → s.arrays.length ≤ s'.arrays.length ∧
      ∀ i b, s'.arrays[i]? = some b → ArrayStep s op i b := fun s' keeps =>
    ⟨keeps.length.ge,fun i b found => .keeps keeps found⟩
  cases op with
  | openDevice =>
    simp only [Op.step,specSyncOpen]
    split
    · exact whenKept s (.refl s)
    · exact whenKept _ (.refl s)
  | releaseDevice =>
    simp only [Op.step,specSyncRelease]
    split
    · exact whenKept s (.refl s)
    · split
      · exact whenKept _ (Keeps.clear true {s with deviceAvailable := s.deviceAvailable-1})
      · exact whenKept _ (.refl s)
  | create f a =>
    have ended := createEnds s f a
    simp only [Op.step]
    generalize (specSyncIoctlCreateFence f a s).2 = s' at ended ⊢
    cases ended with
    | unmade keeps => exact whenKept _ keeps
    | made array shape unbound rows =>
      have length := rows.length
      rw [List.length_append,List.length_singleton] at length
      refine ⟨by omega,fun i b found => ?_⟩
      obtain ⟨before,start,kept⟩ := rows.each i b found
      rw [List.getElem?_append] at start
      split at start
      · exact .kept start kept
      · rename_i missing
        rw [List.getElem?_singleton] at start
        split at start
        · obtain rfl := Option.some.inj start
          exact .created (List.getElem?_eq_none_iff.mpr (by omega)) (shape.kept kept)
            (kept.bound.trans unbound)
        · contradiction
  | bind info a => cases other
  | clearTracker forceClear => exact whenKept _ (Keeps.clear forceClear s)
  | closeFd fd =>
    simp only [Op.step]
    cases s.files.find? (·.fd == some (fd : Int)) with
    | none => exact whenKept s (.refl s)
    | some file =>
      exact whenKept _ (Keeps.release (by rfl) _ _)
  | installFile fd f =>
    simp only [Op.step]
    split
    · exact whenKept _ (.refl s)
    · exact whenKept s (.refl s)
  | takeRef f =>
    simp only [Op.step]
    split
    · exact whenKept _ (.refl s)
    · exact whenKept s (.refl s)
  | dropRef f =>
    simp only [Op.step]
    split
    · exact whenKept s (.refl s)
    · exact whenKept _ (Keeps.release (by rfl) _ _)
  | countDown i numPending error =>
    exact whenKept _ (Keeps.onArray s i fun a => .countDown a numPending error)
  | signalFence context seqno => exact whenKept _ (.refl s)

theorem stepArrays (debugFs : Bool) {s : SyncDevice} (inv : Inv s) (op : Op) :
    s.arrays.length ≤ (op.step debugFs s).arrays.length ∧
    ∀ i b, (op.step debugFs s).arrays[i]? = some b → ArrayStep s op i b := by
  cases bind : bindInfo op with
  | none => exact otherArrays debugFs s bind
  | some info =>
    obtain ⟨a,rfl⟩ : ∃ a, op = .bind info a := by
      cases op with
      | bind info' a =>
        cases Option.some.inj bind
        exact ⟨a,rfl⟩
      | _ => cases bind
    simp only [Op.step,specSyncIoctlBind]
    split
    · exact ⟨Nat.le_refl _,fun i b found => .keeps (.refl s) found⟩
    · have ended := bindEnds inv info a
      generalize specSyncBindArray info a s = done at ended ⊢
      cases ended with
      | refused early => exact ⟨Nat.le_refl _,fun i b found => .keeps (.refl s) found⟩
      | @settled i array status s' passed out found unsignaled dummies rows =>
        refine ⟨rows.length.ge,fun j b here => ?_⟩
        obtain ⟨before,start,change⟩ := rows.each j b here
        split at change
        · rename_i same
          obtain rfl := same
          obtain rfl := Option.some.inj (found.symm.trans start)
          exact .bound rfl out found ((inv.shape j array found).clear unsignaled dummies) (change rfl)
        · exact .kept start change

def numUserFds (s : SyncDevice) (info : FenceBindData) : Nat :=
  match s.fenceOf info.outBindFd.toInt with
  | some (.base i) => s.arrays[i]?.elim 0 FenceArray.numFences
  | _ => 0

def NoDummyFd (s : SyncDevice) (op : Op) : Prop :=
  ∀ info ∈ bindInfo op, ∀ k < numUserFds s info, s.fenceOf (info.fds k) ≠ some dummyFence

instance (s : SyncDevice) (op : Op) : Decidable (NoDummyFd s op) :=
  inferInstanceAs (Decidable (∀ info ∈ bindInfo op, ∀ k < numUserFds s info,
    s.fenceOf (info.fds k) ≠ some dummyFence))

theorem stepInv (debugFs : Bool) {s : SyncDevice} {op : Op} (inv : Inv s) (users : NoDummyFd s op) :
    Inv (op.step debugFs s) := by
  refine ⟨stepHeld debugFs inv.held op,fun i b found => ?_⟩
  cases (stepArrays debugFs inv op).2 i b found with
  | kept start kept => exact (inv.shape i _ start).kept kept
  | created missing shape unbound => exact shape
  | @bound a info answers isBind out start clear settled =>
    subst isBind
    have shape := inv.shape i a start
    refine ⟨settled.length ▸ shape.some,fun unbound => ?_,fun _ => ?_,settled.live shape.live⟩
    · exact absurd (unbound.symm.trans settled.bound) Bool.false_ne_true
    · refine settled.outcome.imp_left fun filled f mem same => ?_
      obtain ⟨k,below,rfl⟩ := List.getElem_of_mem mem
      have reads : numUserFds s info = b.fences.length := by
        simp [numUserFds,out,start,FenceArray.numFences,settled.length]
      refine users info rfl k (reads ▸ below) ?_
      rw [filled k below,List.getElem?_eq_getElem below,same]

abbrev run (debugFs : Bool) (ops : List Op) : SyncDevice :=
  after (Op.step debugFs) specSyncRegisterDevice ops

structure FullyBound (debugFs : Bool) (ops : List Op) (i : Nat) (array : FenceArray) : Prop where
  noDummy : ∀ f ∈ array.fences, f ≠ dummyFence
  stored : ∃ pre info answers post, ops = pre ++ Op.bind info answers::post ∧
    (run debugFs pre).fenceOf info.outBindFd.toInt = some (.base i) ∧
    Filled (run debugFs pre) info.fds array.fences

section Runs
variable {debugFs : Bool} {ops pre post : List Op}

theorem FullyBound.later {i : Nat} {a b : FenceArray} (h : FullyBound debugFs ops i a) (op : Op)
    (same : b.fences = a.fences) : FullyBound debugFs (ops ++ [op]) i b := by
  obtain ⟨noDummy,pre,info,answers,post,rfl,out,filled⟩ := h
  refine ⟨same ▸ noDummy,pre,info,answers,post ++ [op],?_,out,same ▸ filled⟩
  rw [List.append_assoc,List.cons_append]

theorem runInv (users : Along (Op.step debugFs) NoDummyFd specSyncRegisterDevice ops) :
    Inv (run debugFs ops) :=
  (invariant (fun _ _ inv users => stepInv debugFs inv users) ⟨registeredHeld,nofun⟩ users).2

theorem boundOutcome (users : Along (Op.step debugFs) NoDummyFd specSyncRegisterDevice ops) {i : Nat}
    {array : FenceArray} (found : (run debugFs ops).arrays[i]? = some array)
    (bound : array.bound = true) : FullyBound debugFs ops i array ∨ Failed array := by
  induction ops using List.reverseRecOn generalizing array with
  | nil => simp [run,specSyncRegisterDevice] at found
  | append_singleton ops op ih =>
    have before := ((alongAppend ops [op]).mp users).1
    have inv := runInv before
    have shape := (runInv users).shape i array found
    rw [run,afterAppend] at found
    cases (stepArrays debugFs inv op).2 i array found with
    | kept start kept =>
      refine (ih before start (kept.bound ▸ bound)).imp (fun full => full.later op kept.fences)
        fun failed => ?_
      obtain ⟨signaled,error⟩ := kept.signaled failed.1
      exact ⟨signaled,error ▸ failed.2⟩
    | created missing shape unbound => exact absurd (unbound.symm.trans bound) Bool.false_ne_true
    | @bound a info answers isBind out start clear settled =>
      subst isBind
      rcases settled.outcome with filled | failed
      · exact (shape.bound bound).imp_left fun noDummy =>
          ⟨noDummy,ops,info,answers,[],rfl,out,filled⟩
      · exact .inr failed

theorem boundStays (users : Along (Op.step debugFs) NoDummyFd specSyncRegisterDevice (pre ++ post))
    {i : Nat} {array : FenceArray} (found : (run debugFs pre).arrays[i]? = some array)
    (bound : array.bound = true) :
    ∃ later, (run debugFs (pre ++ post)).arrays[i]? = some later ∧ later.bound = true ∧
      later.fences = array.fences := by
  induction post using List.reverseRecOn with
  | nil => exact ⟨array,by rwa [List.append_nil],bound,rfl⟩
  | append_singleton post op ih =>
    rw [← List.append_assoc] at users ⊢
    have before := ((alongAppend (pre ++ post) [op]).mp users).1
    obtain ⟨middle,here,stays,same⟩ := ih before
    have step := stepArrays debugFs (runInv before) op
    have below : i < (op.step debugFs (run debugFs (pre ++ post))).arrays.length :=
      ((List.getElem?_eq_some_iff.mp here).1).trans_le step.1
    rw [run,afterAppend]
    refine ⟨_,List.getElem?_eq_getElem below,?_⟩
    cases step.2 i _ (List.getElem?_eq_getElem below) with
    | kept start kept =>
      obtain rfl := Option.some.inj (here.symm.trans start)
      exact ⟨kept.bound.trans stays,kept.fences.trans same⟩
    | created missing shape unbound => exact absurd (here.symm.trans missing) nofun
    | bound isBind out start clear settled =>
      obtain rfl := Option.some.inj (here.symm.trans start)
      exact absurd (clear.symm.trans stays) Bool.false_ne_true

theorem rebindRefused {s : SyncDevice} (inv : Inv s) (info : FenceBindData) (a : BindAnswers) {i : Nat}
    {array : FenceArray} (found : s.arrays[i]? = some array) (bound : array.bound = true)
    (out : s.fenceOf info.outBindFd.toInt = some (.base i)) :
    ∃ e, specSyncBindArray info a s = (.error e,s) := by
  have ended := bindEnds inv info a
  generalize specSyncBindArray info a s = done at ended ⊢
  cases ended with
  | @refused e early => exact ⟨e,rfl⟩
  | settled passed out' found' unsignaled dummies rows =>
    obtain rfl := FenceId.base.inj (Option.some.inj (out.symm.trans out'))
    obtain rfl := Option.some.inj (found.symm.trans found')
    have clear := (inv.shape i array found).clear unsignaled dummies
    exact absurd (clear.symm.trans bound) Bool.false_ne_true

theorem earlyUnchanged {s : SyncDevice} (inv : Inv s) (info : FenceBindData) (a : BindAnswers)
    {e : Errno} (early : beforeLoop info a s = .error e) :
    specSyncBindArray info a s = (.error e,s) := by
  have ended := bindEnds inv info a
  generalize specSyncBindArray info a s = done at ended ⊢
  cases ended with
  | refused early' => exact (Except.error.inj (early.symm.trans early')) ▸ rfl
  | settled passed out found unsignaled dummies rows =>
    exact absurd (early.symm.trans passed) nofun

theorem waitSaw {s s' : SyncDevice} {i : Nat} (returns : specSyncWaitBindArray (some i) s s' = .ok ()) :
    (∃ array, s.arrays[i]? = some array ∧ array.bound = true) ∨
      ∃ array, s'.arrays[i]? = some array ∧ array.bound = true := by
  simp only [specSyncWaitBindArray] at returns
  split at returns
  · contradiction
  · split at returns
    · rename_i seen
      exact .inl (by simpa [Option.any_eq_true] using seen)
    · split at returns
      · rename_i seen
        exact .inr (by simpa [Option.any_eq_true] using seen)
      · contradiction

end Runs

/-- The state machine of the arrays at the end of a run, over all its prefixes. -/
structure BindMachine (debugFs : Bool) (ops : List Op) : Prop where
  unbound : ∀ (i : Nat) (array : FenceArray), (run debugFs ops).arrays[i]? = some array → array.bound = false →
    ∀ f ∈ array.fences, f = dummyFence
  bound : ∀ (i : Nat) (array : FenceArray), (run debugFs ops).arrays[i]? = some array → array.bound = true →
    FullyBound debugFs ops i array ∨ Failed array
  early : ∀ info a e, beforeLoop info a (run debugFs ops) = .error e →
    specSyncBindArray info a (run debugFs ops) = (.error e,run debugFs ops)
  rebind : ∀ info a (i : Nat) (array : FenceArray), (run debugFs ops).arrays[i]? = some array → array.bound = true →
    (run debugFs ops).fenceOf info.outBindFd.toInt = some (.base i) →
    ∃ e, specSyncBindArray info a (run debugFs ops) = (.error e,run debugFs ops)
  stays : ∀ pre post, ops = pre ++ post → ∀ (i : Nat) (array : FenceArray), (run debugFs pre).arrays[i]? = some array →
    array.bound = true → ∃ later : FenceArray, (run debugFs ops).arrays[i]? = some later ∧
      later.bound = true ∧ later.fences = array.fences
  wait : ∀ pre post, ops = pre ++ post → ∀ i : Nat,
    specSyncWaitBindArray (some i) (run debugFs pre) (run debugFs ops) = .ok () →
    ∃ array, (run debugFs ops).arrays[i]? = some array ∧
      (FullyBound debugFs ops i array ∨ Failed array)

theorem bindMachine (debugFs : Bool) (ops : List Op)
    (users : Along (Op.step debugFs) NoDummyFd specSyncRegisterDevice ops) :
    BindMachine debugFs ops where
  unbound i array found clear := ((runInv users).shape i array found).unbound clear
  bound i array found bound := boundOutcome users found bound
  early info a e early := earlyUnchanged (runInv users) info a early
  rebind info a i array found bound out := rebindRefused (runInv users) info a found bound out
  stays pre post split i array found bound := by
    subst split
    exact boundStays users found bound
  wait pre post split i returns := by
    subst split
    rcases waitSaw returns with ⟨array,found,bound⟩ | ⟨array,found,bound⟩
    · obtain ⟨later,here,stays,-⟩ := boundStays users found bound
      exact ⟨later,here,boundOutcome users here stays⟩
    · exact ⟨array,found,boundOutcome users found bound⟩

def grantAll (fd : Nat) : CreateAnswers := ⟨true,some fd,true,true,true,true,true⟩

def answerAll : BindAnswers := ⟨true,true,true,2,2,0⟩

def pairOps : List Op :=
  [.create ⟨2,2⟩ (grantAll 3),.create ⟨2,2⟩ (grantAll 4),.installFile 7 (.fence 5 1),
    .installFile 8 (.fence 6 1),.bind ⟨3,fun k => 7+k⟩ answerAll,.bind ⟨4,fun k => 8+k⟩ answerAll,
    .bind ⟨3,fun k => 7+k⟩ answerAll,.bind ⟨4,fun k => 7+k⟩ answerAll]

theorem pairBindMachine :
    (run false pairOps).arrays.map (fun array => (array.fences,array.bound,array.signaled,array.error)) =
      [([.fence 5 1,.fence 6 1],true,false,0),([.fence 6 1,dummyFence],true,true,-22)] ∧
    BindMachine false pairOps :=
  ⟨by decide,bindMachine false pairOps (by decide)⟩

end MmDrivers.SpecBind

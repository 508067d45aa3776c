import MmDrivers.SpecStores

/-! What never goes back: an array that is released, signalled or bound stays so. -/
namespace MmDrivers.SpecRises
open FenceTypes Runs SpecFence SyncDevice SpecAccounts SpecBind

structure Risen (a b : FenceArray) : Prop where
  released : a.released = true → b.released = true
  signaled : a.signaled = true → b.signaled = true
  bound : a.bound = true → b.bound = true

theorem Risen.refl (a : FenceArray) : Risen a a := ⟨id,id,id⟩

theorem Risen.trans {a b c : FenceArray} (ab : Risen a b) (bc : Risen b c) : Risen a c :=
  ⟨bc.released ∘ ab.released,bc.signaled ∘ ab.signaled,bc.bound ∘ ab.bound⟩

theorem Risen.countDown (a : FenceArray) (numPending error : Int) :
    Risen a (a.countDown numPending error) := by
  unfold FenceArray.countDown
  split
  · exact .refl a
  · split
    · exact ⟨id,fun _ => rfl,id⟩
    · exact ⟨id,id,id⟩

def Rises (s t : SyncDevice) : Prop :=
  ∀ (i : Nat) (a : FenceArray), s.arrays[i]? = some a →
    ∃ b : FenceArray, t.arrays[i]? = some b ∧ Risen a b

namespace Rises
variable {s t u : SyncDevice}

theorem same (same : t.arrays = s.arrays) : Rises s t := by
  intro i a found
  exact ⟨a,same ▸ found,.refl a⟩

theorem refl (s : SyncDevice) : Rises s s := same rfl

theorem trans (st : Rises s t) (tu : Rises t u) : Rises s u := by
  intro i a found
  obtain ⟨b,middle,ab⟩ := st i a found
  obtain ⟨c,last,bc⟩ := tu i b middle
  exact ⟨c,last,ab.trans bc⟩

theorem onArray (s : SyncDevice) (i : Nat) {g : FenceArray → FenceArray} (risen : ∀ a, Risen a (g a)) :
    Rises s (s.onArray i g) := by
  intro j a found
  rw [onArrayArrays,List.getElem?_modify,found]
  refine ⟨_,rfl,?_⟩
  dsimp only
  split
  · exact risen a
  · exact .refl a

theorem release (fuel : Nat) (f : FenceId) (s : SyncDevice) : Rises s (releaseUnreferenced fuel f s) := by
  have marked : ∀ (s : SyncDevice) i, Rises s (s.onArray i fun array => {array with released := true}) :=
    fun s i => onArray s i fun _ => ⟨fun _ => rfl,id,id⟩
  exact releaseBy (R := Rises) refl (fun _ _ _ => trans) (fun _ _ => same rfl) marked fuel f s

theorem released (fuel : Nat) (f : FenceId) (unchanged : t.arrays = s.arrays) :
    Rises s (releaseUnreferenced fuel f t) :=
  (same unchanged).trans (release fuel f t)

theorem put (s : SyncDevice) (f : FenceId) : Rises s (s.dmaFencePut f) := released _ f rfl

theorem releases (fuel : Nat) (fences : List FenceId) (s : SyncDevice) :
    Rises s (fences.foldl (fun s f => releaseUnreferenced fuel f (s.count f (-1))) s) := by
  induction fences generalizing s with
  | nil => exact refl s
  | cons g rest ih =>
    have first : Rises s (releaseUnreferenced fuel g (s.count g (-1))) := released fuel g rfl
    exact first.trans (ih _)

theorem puts (fences : List FenceId) (s : SyncDevice) : Rises s (fences.foldl dmaFencePut s) := by
  induction fences generalizing s with
  | nil => exact refl s
  | cons f rest ih => exact (put s f).trans (ih _)

theorem isSignaled (s : SyncDevice) (f : FenceId) : Rises s (s.dmaFenceIsSignaled f).2 := by
  rcases signaledCases s f with unchanged | ⟨i,array,-,-,-,-,signals⟩
  · rw [unchanged]
    exact refl s
  · rw [signals]
    exact onArray s i fun _ => ⟨id,fun _ => rfl,id⟩

theorem decPending (s : SyncDevice) (i : Nat) : Rises s (s.decPending i) :=
  onArray s i fun a => ⟨id,fun signaled => by simp [signaled],id⟩

theorem clearNode (forceClear : Bool) (s : SyncDevice) (i : Nat) :
    Rises s (clearNode forceClear s i) :=
  clearNodeBy (R := Rises) (fun _ _ _ => trans) i (fun s => isSignaled s _) (fun s => decPending s i)
    (fun s => (put s _).trans (same rfl)) forceClear s

theorem clear (forceClear : Bool) (s : SyncDevice) : Rises s (s.clearFenceArrayTracker forceClear) :=
  clearBy (R := Rises) refl (fun _ _ _ => trans) (clearNode forceClear) s

theorem replace (i : Nat) (fds : Nat → Int) (left n : Nat) (s : SyncDevice) :
    Rises s (s.replaceFences i fds left n).2 := by
  induction left generalizing n s with
  | zero => exact refl s
  | succ left ih =>
    unfold replaceFences
    split
    · exact refl s
    · rename_i f file
      have stored := onArray (s.dmaFenceGet f) i
        (g := fun array => {array with fences := array.fences.set n f}) fun _ => ⟨id,id,id⟩
      exact (((same rfl).trans stored).trans (put _ _)).trans (ih (n+1) _)

theorem enable (i : Nat) (a : BindAnswers) (s : SyncDevice) :
    Rises s (s.dmaFenceEnableSwSignaling i a) := by
  have risen : ∀ array : FenceArray,
      Risen array ({array with enableSignal := true}.countDown a.numPending a.error) := fun array =>
    Risen.trans (b := {array with enableSignal := true}) ⟨id,id,id⟩ (.countDown _ _ _)
  exact onArray s i risen

theorem bindFences (s : SyncDevice) (i numFences : Nat) (fds : Nat → Int) (a : BindAnswers) :
    Rises s (s.bindFences i numFences fds a).2 := by
  have replaced := replace i fds numFences 0 s
  unfold SyncDevice.bindFences
  generalize s.replaceFences i fds numFences 0 = done at replaced ⊢
  obtain ⟨full,t⟩ := done
  cases full with
  | true =>
    have off := onArray t i (g := fun array => {array with enableSignal := false}) fun _ => ⟨id,id,id⟩
    have enabled := (replaced.trans off).trans (enable i a _)
    have cleared := enabled.trans (clear false _)
    exact cleared.trans (onArray _ i fun _ => ⟨id,id,fun _ => rfl⟩)
  | false =>
    have bound := onArray t i (g := fun array => {array with bound := true}) fun _ => ⟨id,id,fun _ => rfl⟩
    have failed := onArray (t.setBound i) i (g := fun array => {array with error := -22,signaled := true})
      fun _ => ⟨id,fun _ => rfl,id⟩
    exact ((replaced.trans bound).trans failed).trans (clear false _)

theorem bindArray (s : SyncDevice) (info : FenceBindData) (a : BindAnswers) :
    Rises s (specSyncBindArray info a s).2 := by
  unfold specSyncBindArray
  split
  · exact refl s
  · rename_i fence file
    have ended := checked fence a (s.dmaFenceGet fence)
    have got : Rises s (s.dmaFenceGet fence) := same rfl
    generalize (s.dmaFenceGet fence).checkBind fence a = done at ended ⊢
    cases ended with
    | refused e => exact (got.trans (isSignaled _ fence)).trans (put _ _)
    | passed base pending tracked unbound => exact (got.trans (bindFences _ _ _ info.fds a)).trans (put _ _)

theorem create (f : FenceCreateData) (a : CreateAnswers) (s : SyncDevice) :
    Rises s (specSyncCreateArray f a s).2 := by
  unfold specSyncCreateArray
  split
  · exact refl s
  · split
    · exact refl s
    · split
      · exact refl s
      · have taken : Rises s ((List.replicate f.numFences dummyFence).foldl dmaFenceGet s) :=
          same (getsArrays s _)
        dsimp only
        generalize (List.replicate f.numFences dummyFence).foldl dmaFenceGet s = t at taken ⊢
        split
        · exact taken.trans (puts _ t)
        · have made : Rises t (t.dmaFenceArrayCreate (List.replicate f.numFences dummyFence)
              (f.flags &&& specFenceSignalAll = 0)) := by
            intro i array found
            refine ⟨array,?_,.refl array⟩
            simp only [dmaFenceArrayCreate,countArrays]
            rw [List.getElem?_append_left (List.getElem?_eq_some_iff.mp found).1]
            exact found
          have made := taken.trans made
          split
          · exact made.trans (put _ _)
          · split
            · refine made.trans (Rises.trans ?_ (put _ _))
              exact released _ _ rfl
            · exact made.trans (same rfl)

end Rises

theorem stepRises (debugFs : Bool) (s : SyncDevice) (op : Op) : Rises s (op.step debugFs s) := by
  cases op with
  | openDevice =>
    simp only [Op.step,specSyncOpen]
    split
    · exact .refl s
    · exact .same rfl
  | releaseDevice =>
    simp only [Op.step,specSyncRelease]
    split
    · exact .refl s
    · split
      · exact .clear true {s with deviceAvailable := s.deviceAvailable-1}
      · exact .same rfl
  | create f a =>
    simp only [Op.step,specSyncIoctlCreateFence]
    split
    · exact .refl s
    · have created := Rises.create f a s
      generalize specSyncCreateArray f a s = done at created ⊢
      obtain ⟨fd,s'⟩ := done
      cases fd <;> exact created
  | bind info a =>
    simp only [Op.step,specSyncIoctlBind]
    split
    · exact .refl s
    · exact .bindArray s info a
  | clearTracker forceClear => exact .clear forceClear s
  | closeFd fd =>
    simp only [Op.step]
    cases s.files.find? (·.fd == some (fd : Int)) with
    | none => exact .refl s
    | some file => exact .released _ _ rfl
  | installFile fd f =>
    simp only [Op.step]
    split
    · exact .same rfl
    · exact .refl s
  | takeRef f =>
    simp only [Op.step]
    split
    · exact .same rfl
    · exact .refl s
  | dropRef f =>
    simp only [Op.step]
    split
    · exact .refl s
    · exact .released _ _ rfl
  | countDown i numPending error => exact .onArray s i fun a => .countDown a numPending error
  | signalFence context seqno => exact .same rfl

end MmDrivers.SpecRises

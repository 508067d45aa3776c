import MmDrivers.BindRace
import MmDrivers.SpecRises
import MmDrivers.Lib.Edges

/-! Speculative arrays bound into each other: which array holds which. -/
namespace MmDrivers.BindNesting
open FenceTypes Runs SpecFence SyncDevice SpecBind SpecStores SpecRises BindRace Edges Relation

def Holds (s : SyncDevice) (x y : Nat) : Prop :=
  ∃ array : FenceArray, s.arrays[x]? = some array ∧ array.released = false ∧ .base y ∈ array.fences

/-- No user fd that a bind stores leads back to the array it binds. -/
def LeadsAway (s : SyncDevice) (op : Op) : Prop :=
  ∀ info a, op = .bind info a → a.request = true → ∀ i, (startBind info a s).1 = .ok i →
    ∀ y, .base y ∈ stores s info.fds (slotsOf s i) 0 → ¬ ReflTransGen (Holds s) y i

section Steps
variable {s t : SyncDevice} {info : FenceBindData} {a : BindAnswers} {i : Nat}

theorem startedState (passed : (startBind info a s).1 = .ok i) :
    (startBind info a s).2 = s.dmaFenceGet (.base i) := by
  unfold startBind at passed ⊢
  cases file : s.fenceOf info.outBindFd.toInt with
  | none =>
    rw [file] at passed
    cases passed
  | some fence =>
    have ended := checked fence a (s.dmaFenceGet fence)
    simp only [file] at passed ⊢
    generalize (s.dmaFenceGet fence).checkBind fence a = done at ended passed ⊢
    cases ended with
    | refused e => cases passed
    | passed base pending tracked unbound =>
      cases passed
      subst base
      rfl

theorem holdsBefore (rises : Rises s t) {x y : Nat} (holds : Holds t x y)
    {before : FenceArray} (found : s.arrays[x]? = some before)
    (fences : ∀ later : FenceArray, t.arrays[x]? = some later → .base y ∈ later.fences →
      .base y ∈ before.fences) : Holds s x y := by
  obtain ⟨array,here,unreleased,mem⟩ := holds
  obtain ⟨later,there,risen⟩ := rises x before found
  obtain rfl := Option.some.inj (here.symm.trans there)
  refine ⟨before,found,?_,fences array here mem⟩
  cases released : before.released with
  | false => rfl
  | true => exact absurd (unreleased.symm.trans (risen.released released)) Bool.false_ne_true

theorem otherHolds (debugFs : Bool) {op : Op} (other : bindInfo op = none) {x y : Nat}
    (holds : Holds (op.step debugFs s) x y) : Holds s x y := by
  obtain ⟨array,here,unreleased,mem⟩ := id holds
  cases (otherArrays debugFs s other).2 x array here with
  | @kept before start kept =>
    refine holdsBefore (stepRises debugFs s op) holds start fun later there mem => ?_
    obtain rfl := Option.some.inj (here.symm.trans there)
    rwa [← kept.fences]
  | created missing shape unbound => exact absurd (shape.unbound unbound _ mem) nofun
  | bound isBind out start clear settled =>
    subst isBind
    cases other

theorem bindHolds (info : FenceBindData) (a : BindAnswers) (s : SyncDevice) :
    (∀ x y, Holds (specSyncBindArray info a s).2 x y → Holds s x y) ∨
    ∃ i, (startBind info a s).1 = .ok i ∧ ∀ x y, Holds (specSyncBindArray info a s).2 x y →
      Holds s x y ∨ x = i ∧ .base y ∈ stores s info.fds (slotsOf s i) 0 := by
  have rises := Rises.bindArray s info a
  have steps := bindSteps info a s
  have keeps := startKeeps info a s
  have started := @startedState s info a
  generalize specSyncBindArray info a s = done at rises steps ⊢
  generalize startBind info a s = begun at steps keeps started ⊢
  obtain ⟨status,t⟩ := begun
  cases status with
  | error e =>
    subst steps
    refine .inl fun x y holds => ?_
    obtain ⟨array,here,-,-⟩ := id holds
    obtain ⟨before,start,kept⟩ := keeps.each x array here
    refine holdsBefore rises holds start fun later there mem => ?_
    obtain rfl := Option.some.inj (here.symm.trans there)
    rwa [← kept.fences]
  | ok i =>
    obtain rfl : t = s.dmaFenceGet (.base i) := started rfl
    refine .inr ⟨i,rfl,fun x y holds => ?_⟩
    have rows := (bindStores (s.dmaFenceGet (.base i)) i (slotsOf s i) info.fds a).same
      (Keeps.fences (Keeps.drops (Drops.put _ (.base i))))
    subst steps
    obtain ⟨array,here,-,mem⟩ := id holds
    obtain ⟨before,start,fences⟩ := rows.each x array here
    have slots : x = i → slotsOf s i ≤ before.fences.length := by
      rintro rfl
      have same : s.arrays[x]? = some before := start
      rw [slotsOf,same]
      exact Nat.le_refl _
    by_cases old : .base y ∈ before.fences
    · exact .inl (holdsBefore rises holds start fun _ _ _ => old)
    · by_cases xi : x = i
      · rw [if_pos xi] at fences
        rw [fences (slots xi)] at mem
        have stored := (overwriteMem mem).resolve_left old
        have files : ∀ fd, (s.dmaFenceGet (.base i)).fenceOf fd = s.fenceOf fd := fun _ => rfl
        rw [storesFiles files] at stored
        exact .inr ⟨xi,stored⟩
      · rw [if_neg xi] at fences
        exact absurd (fences ▸ mem) old

theorem stepAcyclic (debugFs : Bool) {op : Op} (acyclic : Acyclic (Holds s)) (away : LeadsAway s op) :
    Acyclic (Holds (op.step debugFs s)) := by
  cases bind : bindInfo op with
  | none => exact acyclic.mono fun x y => otherHolds debugFs bind
  | some info =>
    obtain ⟨a,rfl⟩ : ∃ a, op = .bind info a := by
      cases op with
      | bind info' a =>
        cases Option.some.inj bind
        exact ⟨a,rfl⟩
      | _ => cases bind
    simp only [Op.step,specSyncIoctlBind]
    split
    · exact acyclic
    · rename_i request
      rcases bindHolds info a s with same | ⟨i,passed,added⟩
      · exact acyclic.mono same
      · exact acyclic.addOut added (away info a rfl (by simpa using request) i passed)

end Steps

theorem nestingAcyclic (debugFs : Bool) (ops : List Op)
    (away : Along (Op.step debugFs) LeadsAway specSyncRegisterDevice ops) :
    Along (Op.step debugFs) (fun s _ => Acyclic (Holds s)) specSyncRegisterDevice ops ∧
      Acyclic (Holds (run debugFs ops)) := by
  have keep : ∀ s op, Acyclic (Holds s) → LeadsAway s op → Acyclic (Holds (Op.step debugFs s op)) :=
    fun _ _ acyclic away => stepAcyclic debugFs acyclic away
  refine invariant keep (fun x cycle => ?_) away
  obtain ⟨y,⟨array,found,-⟩,-⟩ := TransGen.head'_iff.mp cycle
  cases found

def oneAnswers : BindAnswers := ⟨true,true,true,1,1,0⟩

def twoArrays : List Op := [.create ⟨1,0⟩ (grantAll 3),.create ⟨1,0⟩ (grantAll 4)]

def bindFirst : Op := .bind ⟨3,fun _ => 4⟩ oneAnswers

def bindSecond : Op := .bind ⟨4,fun _ => 3⟩ oneAnswers

theorem secondEmpty (z : Nat) : ¬ Holds (run false twoArrays) 1 z := by
  rintro ⟨array,found,-,mem⟩
  have dummies : (run false twoArrays).arrays[1]?.all fun array => array.fences.all (· == dummyFence) := by
    decide
  rw [found] at dummies
  have dummy := List.all_eq_true.mp dummies _ mem
  cases dummy

theorem firstHoldsSecond : Acyclic (Holds (run false (twoArrays ++ [bindFirst]))) := by
  refine (nestingAcyclic false (twoArrays ++ [bindFirst]) ?_).2
  refine ⟨fun info a bind => (by cases bind),fun info a bind => (by cases bind),?_,trivial⟩
  intro info a bind request i passed y stored ways
  cases bind
  have array : (startBind ⟨3,fun _ => 4⟩ oneAnswers (run false twoArrays)).1 = .ok 0 := by decide
  obtain rfl := Except.ok.inj (array.symm.trans passed)
  have fences : stores (run false twoArrays) (fun _ => 4) (slotsOf (run false twoArrays) 0) 0 =
      [.base 1] := by decide
  have stored : FenceId.base y ∈ [FenceId.base 1] := fences ▸ stored
  obtain rfl := FenceId.base.inj (List.mem_singleton.mp stored)
  exact absurd (reachesSelf ways secondEmpty) (by decide)

theorem secondHoldsFirst : ¬ Acyclic (Holds (run false (twoArrays ++ [bindFirst,bindSecond]))) := by
  intro acyclic
  have there : Holds (run false (twoArrays ++ [bindFirst,bindSecond])) 0 1 := ⟨_,rfl,rfl,by decide⟩
  have back : Holds (run false (twoArrays ++ [bindFirst,bindSecond])) 1 0 := ⟨_,rfl,rfl,by decide⟩
  exact acyclic 0 (.tail (.single there) back)

end MmDrivers.BindNesting

import MmDrivers.CodecCache

/-! What a display is told when it registers its interface, and what a lookup of its codec
id finds afterwards. -/
namespace MmDrivers.DisplayRegistry
open FenceTypes Runs ExtDisplay CodecCache

def entries (codec : CodecId) (s : ExtDisp) : List Nat := s.displayList.filter fun p => s.codecOf p = codec

structure Added (s t : ExtDisp) (p : Nat) : Prop where
  listed : t.displayList.count p = s.displayList.count p+1
  intfOps : (t.initData p).audioConfig = true ∧ (t.initData p).audioNotify = true
  unique : entries (t.codecOf p) t = [p]

/-- 0 means added; a codec id that is taken is an error that changes nothing. -/
structure TruthfulFor (limits : DispLimits) (s : ExtDisp) (pdev : PlatformDevice) (p : Nat) (node : Bool) :
    Prop where
  added : (msmExtDispRegisterIntf limits pdev (some p) node s).1 = .ok () ↔
    Added s (msmExtDispRegisterIntf limits pdev (some p) node s).2 p
  taken : entries (s.codecOf p) s ≠ [] →
    (∃ e, (msmExtDispRegisterIntf limits pdev (some p) node s).1 = .error e) ∧
      (msmExtDispRegisterIntf limits pdev (some p) node s).2 = s

def Findable (s : ExtDisp) : Prop :=
  ∀ p ∈ s.displayList, s.getIntfData (s.codecOf p) = some p ∧ entries (s.codecOf p) s = [p]

def Truthful (limits : DispLimits) (s : ExtDisp) : Op → Prop
  | .registerIntf pdev (some p) node => TruthfulFor limits s pdev p node
  | _ => True

def FreshCodec (limits : DispLimits) (s : ExtDisp) : Op → Prop
  | .registerIntf .extDisp (some p) _ =>
    validateIntf limits (s.initData p) = .ok () → s.getIntfData (s.codecOf p) = none
  | _ => True

section Registry
variable {limits : DispLimits} {s : ExtDisp} {codec : CodecId} {p : Nat}

theorem entriesNone : entries codec s = [] ↔ s.getIntfData codec = none := by
  rw [getIntfDataNone,entries,List.filter_eq_nil_iff]
  simp

theorem listedOnce {q : Nat} {list : List Nat} (nodup : list.Nodup) (mem : q ∈ list)
    (only : ∀ r ∈ list, s.codecOf r = codec → r = q) (named : s.codecOf q = codec) :
    list.filter (fun r => s.codecOf r = codec) = [q] := by
  have filtered : list.filter (fun r => s.codecOf r = codec) = list.filter (fun r => r = q) := by
    refine List.filter_congr fun r here => ?_
    rw [decide_eq_decide]
    refine ⟨only r here,?_⟩
    rintro rfl
    exact named
  rw [filtered,List.filter_eq q,List.count_eq_one_of_mem nodup mem]
  rfl

theorem listedFindable (listed : Listed limits s) : Findable s := by
  intro p mem
  refine ⟨listed.found mem rfl,?_⟩
  exact listedOnce listed.distinct.of_map mem (fun q other same => listed.same other mem same) rfl

theorem refusedTruthful {pdev : PlatformDevice} {node : Bool} {e : Errno}
    (refused : msmExtDispRegisterIntf limits pdev (some p) node s = (.error e,s)) :
    TruthfulFor limits s pdev p node := by
  refine ⟨?_,?_⟩
  · rw [refused]
    constructor
    · nofun
    · intro added
      have more : s.displayList.count p = s.displayList.count p+1 := added.listed
      omega
  · rw [refused]
    exact fun _ => ⟨⟨e,rfl⟩,rfl⟩

theorem freshAdded (listed : Listed limits s) (valid : validateIntf limits (s.initData p) = .ok ())
    (fresh : s.getIntfData (s.codecOf p) = none) : Added s ((s.addIntfData p).setIntfOps p true) p := by
  have after := (listed.add valid fresh).intfOps p true
  have mem : p ∈ ((s.addIntfData p).setIntfOps p true).displayList := List.mem_cons_self
  refine ⟨List.count_cons_self,?_,(listedFindable after p mem).2⟩
  simp [ExtDisp.setIntfOps]

theorem registerTruthful (listed : Listed limits s) (p : Nat) (node : Bool) :
    TruthfulFor limits s .extDisp p node ↔
      (validateIntf limits (s.initData p) = .ok () → s.getIntfData (s.codecOf p) = none) := by
  cases valid : validateIntf limits (s.initData p) with
  | error e =>
    have refused : msmExtDispRegisterIntf limits .extDisp (some p) node s = (.error e,s) := by
      simp [msmExtDispRegisterIntf,valid]
    refine iff_of_true (refusedTruthful refused) fun accepted => ?_
    cases accepted
  | ok u =>
    simp only [forall_const]
    cases found : s.getIntfData (s.codecOf p) with
    | some q =>
      refine iff_of_false (fun truthful => ?_) (Option.some_ne_none q)
      have some : entries (s.codecOf p) s ≠ [] := by
        rw [Ne,entriesNone,found]
        exact Option.some_ne_none q
      obtain ⟨⟨e,refused⟩,-⟩ := truthful.taken some
      simp [msmExtDispRegisterIntf,valid,found] at refused
    | none =>
      refine iff_of_true ?_ rfl
      cases node with
      | false =>
        have refused : msmExtDispRegisterIntf limits .extDisp (some p) false s = (.error .enomem,s) := by
          simp [msmExtDispRegisterIntf,valid,found]
        exact refusedTruthful refused
      | true =>
        have ran : msmExtDispRegisterIntf limits .extDisp (some p) true s =
            (.ok (),(s.addIntfData p).setIntfOps p true) := by
          simp [msmExtDispRegisterIntf,valid,found]
        refine ⟨?_,fun some => absurd (entriesNone.mpr found) some⟩
        rw [ran]
        exact iff_of_true rfl (freshAdded listed valid found)

theorem stepTruthful (listed : Listed limits s) (op : Op) : Truthful limits s op ↔ FreshCodec limits s op := by
  cases op with
  | registerIntf pdev initData node =>
    cases initData with
    | none => cases pdev <;> exact Iff.rfl
    | some p =>
      cases pdev with
      | null => exact iff_of_true (refusedTruthful (e := .einval) rfl) trivial
      | noDrvdata => exact iff_of_true (refusedTruthful (e := .einval) rfl) trivial
      | extDisp => exact registerTruthful listed p node
  | _ => exact Iff.rfl

end Registry

theorem registrationTruthfulIff (limits : DispLimits) (initData : Nat → InitData) (ops : List Op) :
    Along (Op.step limits) (fun s op => Findable s ∧ Truthful limits s op) (msmExtDispProbe limits initData) ops ∧
      Findable (after (Op.step limits) (msmExtDispProbe limits initData) ops) ↔
    Along (Op.step limits) (FreshCodec limits) (msmExtDispProbe limits initData) ops := by
  have start := probeListed limits initData
  have keep : ∀ s op, Listed limits s → Listed limits (Op.step limits s op) :=
    fun s op listed => stepListed listed op
  have found := listedFindable (invariantAlways (Listed limits) keep start ops)
  have same : ∀ s op, Listed limits s → (Findable s ∧ Truthful limits s op ↔ FreshCodec limits s op) := by
    intro s op listed
    rw [stepTruthful listed op]
    exact and_iff_right (listedFindable listed)
  rw [and_iff_left found]
  exact alongIff (I := Listed limits) (fun s op listed _ => keep s op listed) same start

def dpTwice : List Op := [.registerIntf .extDisp (some 0) true,.registerIntf .extDisp (some 0) true]

theorem secondToldAdded :
    ¬ (Along (Op.step dpLimits) (fun s op => Findable s ∧ Truthful dpLimits s op)
        (msmExtDispProbe dpLimits fun _ => dpData) dpTwice ∧
      Findable (after (Op.step dpLimits) (msmExtDispProbe dpLimits fun _ => dpData) dpTwice)) := by
  rintro ⟨⟨-,⟨-,second⟩,-⟩,-⟩
  have told : Added _ _ 0 := second.added.mp rfl
  exact absurd told.listed (by decide)

end MmDrivers.DisplayRegistry

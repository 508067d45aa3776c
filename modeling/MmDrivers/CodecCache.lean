import MmDrivers.ExtDisplay

/-! The interface the audio codec uses, against the displays that are listed. -/
namespace MmDrivers.CodecCache
open FenceTypes Runs ExtDisplay

def Cached (s : ExtDisp) : Prop :=
  ∀ ops, s.ops = some ops → ops ≠ CodecOps.zeroed → ∃ p ∈ s.displayList,
    s.codecOf p = s.currentCodec ∧ ops = (s.initData p).codecOps ∧
      s.intfPdev = (s.initData p).pdev ∧ s.intfData = (s.initData p).intfData

def StartsZeroed : Op → Prop
  | .registerAudioCodec _ ops _ => ∀ table ∈ ops, table = CodecOps.zeroed
  | _ => True

instance (op : Op) : Decidable (StartsZeroed op) := by
  unfold StartsZeroed
  split <;> infer_instance

/-- No display is deregistered whose callbacks the codec holds. No codec registers in
vain with the table still zero, once the display that was selected has come, unless the
interface is that display's. -/
def KeepsInterface (s : ExtDisp) : Op → Prop
  | .deregisterIntf .extDisp (some p) =>
    p ∈ s.displayList → s.codecOf p = s.currentCodec → ∀ ops ∈ s.ops, ops = CodecOps.zeroed
  | .registerAudioCodec .extDisp (some _) _ =>
    s.ops = some .zeroed → ∀ p ∈ s.getIntfData s.currentCodec,
      s.intfPdev = (s.initData p).pdev ∧ s.intfData = (s.initData p).intfData
  | _ => True

instance (s : ExtDisp) (op : Op) : Decidable (KeepsInterface s op) := by
  unfold KeepsInterface
  split <;> infer_instance

section Steps
variable {limits : DispLimits} {s t : ExtDisp} {codec : CodecId} {p : Nat}

theorem Cached.zero (zero : ∀ ops ∈ s.ops, ops = CodecOps.zeroed) : Cached s :=
  fun ops registered some => absurd (zero ops registered) some

theorem Cached.displays (cached : Cached s) (codec : SameCodec s t)
    (list : ∀ p ∈ s.displayList, p ∈ t.displayList)
    (data : ∀ p ∈ s.displayList, (t.initData p).pdev = (s.initData p).pdev ∧
      (t.initData p).codec = (s.initData p).codec ∧ (t.initData p).intfData = (s.initData p).intfData ∧
      (t.initData p).codecOps = (s.initData p).codecOps) : Cached t := by
  intro table registered nonzero
  obtain ⟨p,mem,named,same,dev,own⟩ := cached table (codec.ops ▸ registered) nonzero
  obtain ⟨pdevs,codecs,datas,tables⟩ := data p mem
  refine ⟨p,list p mem,?_,same.trans tables.symm,?_,?_⟩
  · rw [codec.currentCodec,← named]
    exact codecs
  · rw [codec.intfPdev,dev,pdevs]
  · rw [codec.intfData,own,datas]

theorem intfOpsKeeps (p q : Nat) (set : Bool) (s : ExtDisp) :
    ((s.setIntfOps p set).initData q).pdev = (s.initData q).pdev ∧
      ((s.setIntfOps p set).initData q).codec = (s.initData q).codec ∧
      ((s.setIntfOps p set).initData q).intfData = (s.initData q).intfData ∧
      ((s.setIntfOps p set).initData q).codecOps = (s.initData q).codecOps := by
  by_cases same : q = p
  · simp [ExtDisp.setIntfOps,same]
  · simp [ExtDisp.setIntfOps,same]

theorem updateCached (cached : Cached s) (registered : s.ops ≠ none) (codec : CodecId) :
    Cached (s.updateAudioOps codec).2 := by
  cases found : s.getIntfData codec with
  | none => rwa [updateNone found]
  | some p =>
    obtain ⟨mem,named⟩ := getIntfDataSome found
    rw [updateSome found registered]
    intro ops stored nonzero
    obtain rfl := Option.some.inj stored
    exact ⟨p,mem,named,rfl,rfl,rfl⟩

theorem readyCached (listed : Listed limits s) (cached : Cached s) (registered : s.ops ≠ none) :
    Cached s.readyForDisplay.1 ↔ (s.ops = some .zeroed → ∀ p ∈ s.getIntfData s.currentCodec,
      s.intfPdev = (s.initData p).pdev ∧ s.intfData = (s.initData p).intfData) := by
  unfold ExtDisp.readyForDisplay
  cases found : s.getIntfData s.currentCodec with
  | none => exact ⟨fun _ _ => nofun,fun _ => cached⟩
  | some p =>
    obtain ⟨mem,named⟩ := getIntfDataSome found
    dsimp only
    constructor
    · intro after _ q here
      obtain rfl := Option.some.inj here
      obtain ⟨q,other,same,-,pdev,data⟩ := after _ rfl (validOps (listed.valid p mem))
      obtain rfl := listed.same other mem (same.trans named.symm)
      exact ⟨pdev,data⟩
    · intro interface ops stored nonzero
      obtain rfl := Option.some.inj stored
      refine ⟨p,mem,named,rfl,?_⟩
      obtain ⟨table,present⟩ := Option.ne_none_iff_exists'.mp registered
      by_cases zero : table = CodecOps.zeroed
      · exact interface (present.trans (congrArg some zero)) p rfl
      · obtain ⟨q,other,same,-,pdev,data⟩ := cached table present zero
        obtain rfl := listed.same other mem (same.trans named.symm)
        exact ⟨pdev,data⟩

theorem installCached (ops : CodecOps) (a : ExtconAnswers) (cached : Cached s) (zeroed : ops = CodecOps.zeroed) :
    Cached (installCodec ops a s).disp := by
  subst zeroed
  have zero : ∀ s : ExtDisp, Cached {s with ops := some .zeroed} := fun s =>
    .zero fun ops present => (Option.some.inj present).symm
  unfold installCodec
  split
  · exact cached
  · dsimp only
    split
    · exact updateCached (zero {s with updateAudio := false}) nofun _
    · exact zero s

theorem installInterface (deferral : Deferral limits s) (ops : CodecOps) (a : ExtconAnswers)
    (first : s.ops = none) :
    (installCodec ops a s).disp.currentCodec.type = limits.typeMax ∨
    ∀ p ∈ (installCodec ops a s).disp.getIntfData (installCodec ops a s).disp.currentCodec,
      (installCodec ops a s).disp.intfPdev = ((installCodec ops a s).disp.initData p).pdev ∧
      (installCodec ops a s).disp.intfData = ((installCodec ops a s).disp.initData p).intfData := by
  have empty : s.ops.isSome = false := by rw [first]; rfl
  unfold installCodec
  simp only [empty,Bool.false_eq_true,if_false]
  split
  · right
    generalize installed : ({s with ops := some ops,updateAudio := false} : ExtDisp) = u
    have registered : u.ops ≠ none := by rw [← installed]; nofun
    have current : u.currentCodec = s.currentCodec := by rw [← installed]
    rw [← current]
    intro p here
    cases found : u.getIntfData u.currentCodec with
    | none =>
      rw [updateNone found,found] at here
      cases here
    | some q =>
      have same := updateDisplays u.currentCodec u
      rw [same.getIntfData,updateSome found registered] at here
      rw [updateSome found registered]
      obtain rfl := Option.some.inj (found.symm.trans here)
      exact ⟨rfl,rfl⟩
  · rename_i settled
    exact .inl (deferral.idle first (by simpa using settled))

theorem registerCodecCached (listed : Listed limits s) (deferral : Deferral limits s) (cached : Cached s)
    (ops : CodecOps) (zeroed : ops = CodecOps.zeroed) (a : ExtconAnswers) :
    Cached (msmExtDispRegisterAudioCodec limits .extDisp (some ops) a s).disp ↔
      KeepsInterface s (.registerAudioCodec .extDisp (some ops) a) := by
  have installed := installCached ops a cached zeroed
  have there := listed.displays (installDisplays ops a s)
  have registered := (installRegistered deferral ops a).1
  have ready := readyCached there installed registered
  have interface := installInterface deferral ops a
  unfold msmExtDispRegisterAudioCodec KeepsInterface
  dsimp only
  cases present : s.ops with
  | none =>
    refine iff_of_true ?_ nofun
    split
    · rename_i some
      exact ready.mpr fun _ => (interface present).resolve_left some
    · exact installed
  | some table =>
    have refused : (installCodec ops a s).disp = s := by simp [installCodec,present]
    rw [refused] at ready installed ⊢
    split
    · exact present ▸ ready
    · rename_i unselected
      refine iff_of_true (by rwa [refused]) fun _ p here => ?_
      obtain ⟨mem,named⟩ := getIntfDataSome here
      have valid := (validCodec (listed.valid p mem)).1
      have type : (s.initData p).codec.type = s.currentCodec.type := congrArg CodecId.type named
      omega

theorem removeCached (listed : Listed limits s) (cached : Cached s) (p : Nat) :
    Cached ((s.removeIntfData p).setIntfOps p false) ↔
      KeepsInterface s (.deregisterIntf .extDisp (some p)) := by
  have nodup := listed.distinct.of_map
  unfold KeepsInterface
  constructor
  · intro after mem named ops present
    by_contra nonzero
    obtain ⟨q,left,same,-⟩ := after ops present nonzero
    rw [setIntfOpsCodec] at same
    have other : q ∈ s.displayList := List.mem_of_mem_erase left
    obtain rfl := listed.same other mem (same.trans named.symm)
    exact nodup.not_mem_erase left
  · intro kept
    have removed : Cached (s.removeIntfData p) := by
      intro ops present nonzero
      obtain ⟨q,mem,named,rest⟩ := cached ops present nonzero
      refine ⟨q,(nodup.mem_erase_iff).mpr ⟨?_,mem⟩,named,rest⟩
      rintro rfl
      exact nonzero (kept mem named ops present)
    exact removed.displays ⟨rfl,rfl,rfl,rfl,rfl⟩ (fun _ mem => mem) fun q _ => intfOpsKeeps p q false _

theorem stepCached (listed : Listed limits s) (deferral : Deferral limits s) (cached : Cached s) {op : Op}
    (zeroed : StartsZeroed op) : Cached (op.step limits s) ↔ KeepsInterface s op := by
  have selects : ∀ pdev codec, Cached (msmExtDispSelectAudioCodec pdev codec s).2 := by
    intro pdev codec
    unfold msmExtDispSelectAudioCodec
    split
    · split
      · rename_i none
        refine .zero fun ops present => ?_
        rw [show s.ops = Option.none from Option.isNone_iff_eq_none.mp none] at present
        cases present
      · rename_i registered
        exact updateCached cached (fun none => registered (by rw [none]; rfl)) _
    · exact cached
  cases op with
  | fill p data =>
    refine iff_of_true ?_ trivial
    simp only [Op.step]
    split
    · exact cached
    · rename_i unlisted
      refine cached.displays ⟨rfl,rfl,rfl,rfl,rfl⟩ (fun _ mem => mem) fun q mem => ?_
      have other : q ≠ p := by
        rintro rfl
        exact unlisted mem
      simp [Function.update_of_ne other]
  | registerIntf pdev initData node =>
    refine iff_of_true ?_ trivial
    simp only [Op.step,msmExtDispRegisterIntf]
    split
    · split
      · exact cached
      · split
        · exact cached
        · split
          · exact cached
          · exact cached.displays ⟨rfl,rfl,rfl,rfl,rfl⟩ (fun _ mem => List.mem_cons_of_mem _ mem)
              fun q _ => intfOpsKeeps _ q true _
    · exact cached
  | deregisterIntf pdev initData =>
    cases pdev with
    | null => exact iff_of_true cached trivial
    | noDrvdata => exact iff_of_true cached trivial
    | extDisp =>
      cases initData with
      | none => exact iff_of_true cached trivial
      | some p => exact removeCached listed cached p
  | registerAudioCodec pdev ops a =>
    cases pdev with
    | null => exact iff_of_true cached trivial
    | noDrvdata => exact iff_of_true cached trivial
    | extDisp =>
      cases ops with
      | none => exact iff_of_true cached trivial
      | some table => exact registerCodecCached listed deferral cached table (zeroed table rfl) a
  | selectAudioCodec pdev codec => exact iff_of_true (selects pdev codec) trivial
  | audioConfig pdev codec state =>
    refine iff_of_true ?_ trivial
    simp only [Op.step,msmExtDispAudioConfig]
    split
    · exact cached
    · split
      · exact selects pdev _
      · refine .zero fun ops present => ?_
        obtain ⟨_,_,zero⟩ := Option.map_eq_some_iff.mp present
        exact zero.symm
  | audioNotify pdev codec state a => exact iff_of_true cached trivial

end Steps

theorem cachedIff (limits : DispLimits) (initData : Nat → InitData) (ops : List Op)
    (zeroed : Along (Op.step limits) (fun _ op => StartsZeroed op) (msmExtDispProbe limits initData) ops) :
    Along (Op.step limits) (fun s _ => Cached s) (msmExtDispProbe limits initData) ops ∧
      Cached (after (Op.step limits) (msmExtDispProbe limits initData) ops) ↔
    Along (Op.step limits) KeepsInterface (msmExtDispProbe limits initData) ops := by
  have inv : ∀ s op, Listed limits s ∧ Deferral limits s →
      Listed limits (Op.step limits s op) ∧ Deferral limits (Op.step limits s op) := by
    rintro s op ⟨listed,deferral⟩
    exact ⟨stepListed listed op,stepDeferral deferral op⟩
  have exact : ∀ s op, Listed limits s ∧ Deferral limits s → StartsZeroed op → Cached s →
      (Cached (Op.step limits s op) ↔ KeepsInterface s op) := by
    rintro s op ⟨listed,deferral⟩ zeroed cached
    exact stepCached listed deferral cached zeroed
  exact throughoutIff inv exact ⟨probeListed limits initData,probeDeferral limits initData⟩
    (.zero nofun) zeroed

def dpLimits : DispLimits := ⟨2^32-1,2⟩

def dpCodec : CodecId := ⟨1,0,0⟩

def dpData : InitData := ⟨some 1,dpCodec,some 2,⟨some 3,some 3,some 3,some 3,some 3,some 3,some 3⟩,false,false⟩

def dpSession : List Op :=
  [.registerIntf .extDisp (some 0) true,.registerAudioCodec .extDisp (some .zeroed) ⟨0,.ok ()⟩,
    .audioConfig .extDisp (some dpCodec) .connect,.audioConfig .extDisp (some dpCodec) .disconnect,
    .deregisterIntf .extDisp (some 0)]

theorem dpSessionCached :
    Cached (after (Op.step dpLimits) (msmExtDispProbe dpLimits fun _ => dpData) dpSession) :=
  ((cachedIff dpLimits (fun _ => dpData) dpSession (by decide)).mpr (by decide)).2

def dpUnplugged : List Op :=
  [.registerIntf .extDisp (some 0) true,.registerAudioCodec .extDisp (some .zeroed) ⟨0,.ok ()⟩,
    .selectAudioCodec .extDisp (some dpCodec),.deregisterIntf .extDisp (some 0)]

theorem removedStaysCached : Along (Op.step dpLimits) (fun _ op => StartsZeroed op)
      (msmExtDispProbe dpLimits fun _ => dpData) dpUnplugged ∧
    ¬ Cached (after (Op.step dpLimits) (msmExtDispProbe dpLimits fun _ => dpData) dpUnplugged) := by
  refine ⟨by decide,fun cached => ?_⟩
  obtain ⟨p,mem,-⟩ := cached dpData.codecOps rfl (by decide)
  have gone : (after (Op.step dpLimits) (msmExtDispProbe dpLimits fun _ => dpData) dpUnplugged).displayList = [] := by
    decide
  rw [gone] at mem
  cases mem

end MmDrivers.CodecCache

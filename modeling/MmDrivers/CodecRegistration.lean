import MmDrivers.CodecCache

/-! A codec that registers: before or after its display is selected, and a second time. -/
namespace MmDrivers.CodecRegistration
open FenceTypes Runs ExtDisplay CodecCache

section Orders
variable {limits : DispLimits} {s : ExtDisp} {codec : CodecId} {p : Nat}

structure Unused (limits : DispLimits) (s : ExtDisp) : Prop where
  ops : s.ops = none
  current : s.currentCodec.type = limits.typeMax
  settled : s.updateAudio = false

/-- The deferred path: the selection is remembered, the registration replays it. -/
def selectThenRegister (limits : DispLimits) (codec : CodecId) (table : CodecOps) (a : ExtconAnswers)
    (s : ExtDisp) : ExtDisp :=
  (msmExtDispRegisterAudioCodec limits .extDisp (some table) a
    (msmExtDispSelectAudioCodec .extDisp (some codec) s).2).disp

def registerThenSelect (limits : DispLimits) (codec : CodecId) (table : CodecOps) (a : ExtconAnswers)
    (s : ExtDisp) : ExtDisp :=
  (msmExtDispSelectAudioCodec .extDisp (some codec)
    (msmExtDispRegisterAudioCodec limits .extDisp (some table) a s).disp).2

structure SameInterface (s t : ExtDisp) : Prop where
  ops : t.ops = s.ops
  intfPdev : t.intfPdev = s.intfPdev
  intfData : t.intfData = s.intfData
  updateAudio : t.updateAudio = s.updateAudio

def inUse (codec : CodecId) (p : Nat) (s : ExtDisp) : ExtDisp :=
  {s with
    ops := some (s.initData p).codecOps
    currentCodec := codec
    intfPdev := (s.initData p).pdev
    intfData := (s.initData p).intfData
    updateAudio := false}

theorem replayed (unused : Unused limits s) (codec : CodecId) (table : CodecOps) (a : ExtconAnswers) :
    (installCodec table a (msmExtDispSelectAudioCodec .extDisp (some codec) s).2).disp =
      (({s with ops := some table,currentCodec := codec,updateAudio := false} : ExtDisp).updateAudioOps codec).2 := by
  simp [msmExtDispSelectAudioCodec,installCodec,unused.ops]

theorem readyAgain {t : ExtDisp} (same : t.ops = some (t.initData p).codecOps)
    (found : t.getIntfData t.currentCodec = some p) : t.readyForDisplay.1 = t := by
  unfold ExtDisp.readyForDisplay
  rw [found]
  dsimp only
  rw [← same]

theorem readyNone {t : ExtDisp} (missing : t.getIntfData t.currentCodec = none) :
    t.readyForDisplay = (t,none) := by
  unfold ExtDisp.readyForDisplay
  rw [missing]

theorem registeredDisp {table : CodecOps} {a : ExtconAnswers}
    (ready : (installCodec table a s).disp.readyForDisplay.1 = (installCodec table a s).disp) :
    (msmExtDispRegisterAudioCodec limits .extDisp (some table) a s).disp = (installCodec table a s).disp := by
  unfold msmExtDispRegisterAudioCodec
  dsimp only
  split
  · exact ready
  · rfl

theorem deferredFound (unused : Unused limits s) (table : CodecOps) (a : ExtconAnswers)
    (found : s.getIntfData codec = some p) : selectThenRegister limits codec table a s = inUse codec p s := by
  have same : SameDisplays s {s with ops := some table,currentCodec := codec,updateAudio := false} := ⟨rfl,rfl⟩
  have install := replayed unused codec table a
  rw [updateSome ((same.getIntfData codec).trans found) nofun] at install
  have after : SameDisplays s (inUse codec p s) := ⟨rfl,rfl⟩
  have ready : (inUse codec p s).readyForDisplay.1 = inUse codec p s :=
    readyAgain (p := p) rfl ((after.getIntfData codec).trans found)
  rw [selectThenRegister,registeredDisp]
  · exact install
  · rw [install]
    exact ready

theorem deferredMissing (unused : Unused limits s) (table : CodecOps) (a : ExtconAnswers)
    (missing : s.getIntfData codec = none) :
    selectThenRegister limits codec table a s = {s with ops := some table,currentCodec := codec} := by
  have same : SameDisplays s {s with ops := some table,currentCodec := codec,updateAudio := false} := ⟨rfl,rfl⟩
  have install := replayed unused codec table a
  have gone := (same.getIntfData codec).trans missing
  rw [updateNone gone] at install
  rw [selectThenRegister,registeredDisp]
  · rw [install,← unused.settled]
  · rw [install,readyNone gone]

theorem directRegister (unused : Unused limits s) (table : CodecOps) (a : ExtconAnswers) :
    (msmExtDispRegisterAudioCodec limits .extDisp (some table) a s).disp = {s with ops := some table} := by
  simp [msmExtDispRegisterAudioCodec,installCodec,unused.ops,unused.settled,unused.current]

theorem directSelect (unused : Unused limits s) (codec : CodecId) (table : CodecOps) (a : ExtconAnswers) :
    registerThenSelect limits codec table a s = (({s with ops := some table} : ExtDisp).updateAudioOps codec).2 := by
  rw [registerThenSelect,directRegister unused]
  simp [msmExtDispSelectAudioCodec]

theorem directFound (unused : Unused limits s) (table : CodecOps) (a : ExtconAnswers)
    (found : s.getIntfData codec = some p) : registerThenSelect limits codec table a s = inUse codec p s := by
  have same : SameDisplays s {s with ops := some table} := ⟨rfl,rfl⟩
  rw [directSelect unused,updateSome ((same.getIntfData codec).trans found) nofun,inUse,← unused.settled]

theorem directMissing (unused : Unused limits s) (table : CodecOps) (a : ExtconAnswers)
    (missing : s.getIntfData codec = none) :
    registerThenSelect limits codec table a s = {s with ops := some table} := by
  have same : SameDisplays s {s with ops := some table} := ⟨rfl,rfl⟩
  rw [directSelect unused,updateNone ((same.getIntfData codec).trans missing)]

theorem ordersAgree (unused : Unused limits s) (codec : CodecId) (table : CodecOps) (a : ExtconAnswers) :
    SameInterface (selectThenRegister limits codec table a s) (registerThenSelect limits codec table a s) ∧
    (selectThenRegister limits codec table a s).currentCodec = codec ∧
    (registerThenSelect limits codec table a s).currentCodec =
      if s.getIntfData codec = none then s.currentCodec else codec := by
  cases found : s.getIntfData codec with
  | none =>
    rw [deferredMissing unused table a found,directMissing unused table a found]
    exact ⟨⟨rfl,rfl,rfl,rfl⟩,rfl,rfl⟩
  | some p =>
    rw [deferredFound unused table a found,directFound unused table a found]
    exact ⟨⟨rfl,rfl,rfl,rfl⟩,rfl,rfl⟩

end Orders

def dpListed : ExtDisp := after (Op.step dpLimits) (msmExtDispProbe dpLimits fun _ => dpData)
  [.registerIntf .extDisp (some 0) true]

theorem dpOrdersAgree :
    SameInterface (selectThenRegister dpLimits dpCodec .zeroed ⟨0,.ok ()⟩ dpListed)
      (registerThenSelect dpLimits dpCodec .zeroed ⟨0,.ok ()⟩ dpListed) ∧
    (selectThenRegister dpLimits dpCodec .zeroed ⟨0,.ok ()⟩ dpListed).currentCodec = dpCodec ∧
    (registerThenSelect dpLimits dpCodec .zeroed ⟨0,.ok ()⟩ dpListed).currentCodec =
      if dpListed.getIntfData dpCodec = none then dpListed.currentCodec else dpCodec :=
  ordersAgree ⟨rfl,rfl,rfl⟩ dpCodec .zeroed ⟨0,.ok ()⟩

theorem unlistedOrdersDiffer :
    let s := msmExtDispProbe dpLimits fun _ => dpData
    Unused dpLimits s ∧ (selectThenRegister dpLimits dpCodec .zeroed ⟨0,.ok ()⟩ s).currentCodec ≠
      (registerThenSelect dpLimits dpCodec .zeroed ⟨0,.ok ()⟩ s).currentCodec :=
  ⟨⟨rfl,rfl,rfl⟩,by decide⟩

structure Ineffective (s : ExtDisp) (o : Outcome) : Prop where
  error : ∃ e, o.ret = .error e
  codec : SameCodec s o.disp
  extcon : o.reached = none
  ready : o.ready = none

def RejectsQuietly (limits : DispLimits) (s : ExtDisp) : Op → Prop
  | .registerAudioCodec pdev ops a =>
    s.ops ≠ none → Ineffective s (msmExtDispRegisterAudioCodec limits pdev ops a s)
  | _ => True

/-- A codec that comes too late comes while no listed display is the current one. -/
def NoDisplayCurrent (s : ExtDisp) : Op → Prop
  | .registerAudioCodec .extDisp (some _) _ => s.ops ≠ none → s.getIntfData s.currentCodec = none
  | _ => True

section Rejection
variable {limits : DispLimits} {s : ExtDisp}

theorem invalidRejected : Ineffective s ⟨.error .einval,s,none,none⟩ := ⟨⟨.einval,rfl⟩,.refl s,rfl,rfl⟩

theorem rejectedReady (listed : Listed limits s) (registered : s.ops ≠ none) (table : CodecOps) (a : ExtconAnswers) :
    (msmExtDispRegisterAudioCodec limits .extDisp (some table) a s).ready = s.getIntfData s.currentCodec := by
  have taken : s.ops.isSome = true := Option.isSome_iff_ne_none.mpr registered
  simp only [msmExtDispRegisterAudioCodec,installCodec,taken,if_true]
  split
  · unfold ExtDisp.readyForDisplay
    cases s.getIntfData s.currentCodec <;> rfl
  · rename_i unselected
    have missing : s.getIntfData s.currentCodec = none := by
      rw [getIntfDataNone]
      intro p mem named
      have valid := (validCodec (listed.valid p mem)).1
      have type : (s.initData p).codec.type = s.currentCodec.type := congrArg CodecId.type named
      omega
    exact missing.symm

theorem rejectedIff (listed : Listed limits s) (registered : s.ops ≠ none) (table : CodecOps)
    (a : ExtconAnswers) : Ineffective s (msmExtDispRegisterAudioCodec limits .extDisp (some table) a s) ↔
      s.getIntfData s.currentCodec = none := by
  constructor
  · intro quiet
    exact (rejectedReady listed registered table a).symm.trans quiet.ready
  · intro missing
    have taken : s.ops.isSome = true := Option.isSome_iff_ne_none.mpr registered
    have rejected : msmExtDispRegisterAudioCodec limits .extDisp (some table) a s =
        ⟨.error .einval,s,none,none⟩ := by
      simp only [msmExtDispRegisterAudioCodec,installCodec,taken,if_true,readyNone missing,ite_self]
    rw [rejected]
    exact invalidRejected

theorem stepRejects (listed : Listed limits s) (op : Op) : RejectsQuietly limits s op ↔ NoDisplayCurrent s op := by
  cases op with
  | registerAudioCodec pdev ops a =>
    cases pdev with
    | null => exact iff_of_true (fun _ => invalidRejected) trivial
    | noDrvdata => exact iff_of_true (fun _ => invalidRejected) trivial
    | extDisp =>
      cases ops with
      | none => exact iff_of_true (fun _ => invalidRejected) trivial
      | some table => exact forall_congr' fun registered => rejectedIff listed registered table a
  | _ => exact Iff.rfl

end Rejection

theorem rejectsIff (limits : DispLimits) (initData : Nat → InitData) (ops : List Op) :
    Along (Op.step limits) (RejectsQuietly limits) (msmExtDispProbe limits initData) ops ↔
      Along (Op.step limits) NoDisplayCurrent (msmExtDispProbe limits initData) ops :=
  alongIff (I := Listed limits) (fun _ op listed _ => stepListed listed op)
    (fun _ op listed => stepRejects listed op) (probeListed limits initData)

def dpTwoCodecs : List Op :=
  [.registerIntf .extDisp (some 0) true,.registerAudioCodec .extDisp (some .zeroed) ⟨0,.ok ()⟩,
    .selectAudioCodec .extDisp (some dpCodec),.registerAudioCodec .extDisp (some .zeroed) ⟨0,.ok ()⟩]

theorem secondCodecCallsReady : ¬ Along (Op.step dpLimits) (RejectsQuietly dpLimits)
    (msmExtDispProbe dpLimits fun _ => dpData) dpTwoCodecs := by
  rintro ⟨-,-,-,second,-⟩
  have quiet := (second (by decide)).ready
  exact absurd quiet (by decide)

end MmDrivers.CodecRegistration

import MmDrivers.CodecCache

/-! The selection that waits for a codec, and the cable states reported to it. -/
namespace MmDrivers.DeferredAudio
open FenceTypes Runs ExtDisplay
open CodecCache (dpLimits dpCodec dpData)

section Watch
variable (limits : DispLimits)

def selects : Op → Option CodecId
  | .selectAudioCodec .extDisp codec => codec
  | .audioConfig pdev codec .connect => (validateAndGet limits pdev codec .connect).toOption
  | _ => none

def disconnects : Op → Option CodecId
  | .audioConfig pdev codec .disconnect => (validateAndGet limits pdev codec .disconnect).toOption
  | _ => none

/-- The driver with what was last asked of it: the selection since the last disconnect,
and the codec ids disconnected since they were selected. -/
structure Watched where
  disp : ExtDisp
  selected : Option CodecId
  unplugged : List CodecId

def Watched.step (w : Watched) (op : Op) : Watched where
  disp := op.step limits w.disp
  selected := if (disconnects limits op).isSome then none else (selects limits op).or w.selected
  unplugged := (disconnects limits op).toList ++
    w.unplugged.filter fun codec => some codec ≠ selects limits op

def watchedProbe (initData : Nat → InitData) : Watched := ⟨msmExtDispProbe limits initData,none,[]⟩

def Waits (w : Watched) : Prop :=
  w.disp.updateAudio = true → w.disp.ops = none ∧ w.selected = some w.disp.currentCodec

/-- The stream is one of `audio_sdev`, and a display that is reported connected is listed
and has not been disconnected. -/
def Fires (w : Watched) (r : Reached) : Prop :=
  r.codec.type < limits.typeMax ∧ 0 ≤ r.codec.streamId ∧ r.codec.streamId < limits.maxCodecs ∧
    (r.connect = true → r.reported = true →
      (∃ p ∈ w.disp.displayList, w.disp.codecOf p = r.codec) ∧ r.codec ∉ w.unplugged)

def Answers (w : Watched) : Op → Prop
  | .registerAudioCodec .extDisp (some _) _ => w.disp.ops = none → w.disp.updateAudio = true →
    0 ≤ w.disp.currentCodec.streamId ∧ w.disp.getIntfData w.disp.currentCodec ≠ none
  | .audioNotify .extDisp (some codec) state _ => w.disp.ops ≠ none → 0 ≤ codec.streamId ∧
    (state = .connect → w.disp.getIntfData codec ≠ none ∧ codec ∉ w.unplugged)
  | _ => True

def Orderly (w : Watched) (op : Op) : Prop :=
  (disconnects limits op ≠ none → w.disp.updateAudio = false) ∧ Answers w op

end Watch

section Steps
variable {limits : DispLimits} {w : Watched} {s : ExtDisp} {codec : CodecId} {r : Reached}

theorem validated {pdev : PlatformDevice} {given : Option CodecId} {state : CableState}
    (valid : validateAndGet limits pdev given state = .ok codec) :
    pdev = .extDisp ∧ given = some codec ∧ codec.type < limits.typeMax ∧ codec.streamId < limits.maxCodecs := by
  unfold validateAndGet at valid
  split at valid
  · cases valid
  · rename_i present
    cases given with
    | none => cases valid
    | some id =>
      dsimp only at valid
      split at valid
      · cases valid
      · rename_i inside
        simp only [not_or,not_le] at inside
        split at valid
        · cases valid
        · split at valid
          · cases valid
          · rename_i data
            obtain rfl := Except.ok.inj valid
            refine ⟨?_,rfl,inside.1,inside.2.2⟩
            cases pdev with
            | null => exact absurd rfl present
            | noDrvdata => exact absurd rfl data
            | extDisp => rfl

theorem processReached {connect : Bool} {a : ExtconAnswers} (reached : r ∈ (s.processAudio codec connect a).2) :
    s.ops ≠ none ∧ r.codec = codec ∧ r.connect = connect := by
  unfold ExtDisp.processAudio at reached
  split at reached
  · cases reached
  · rename_i registered
    have registered : s.ops ≠ none := fun none => registered (by rw [none]; rfl)
    by_cases same : a.state = if connect then 1 else 0
    · rw [if_pos same] at reached
      obtain rfl := Option.some.inj reached
      exact ⟨registered,rfl,rfl⟩
    · rw [if_neg same] at reached
      obtain rfl := Option.some.inj reached
      exact ⟨registered,rfl,rfl⟩

theorem updateCurrent (s : ExtDisp) : (s.updateAudioOps s.currentCodec).2.currentCodec = s.currentCodec := by
  unfold ExtDisp.updateAudioOps
  split
  · rfl
  · split <;> rfl

theorem installReached {ops : CodecOps} {a : ExtconAnswers} (reached : r ∈ (installCodec ops a s).reached) :
    s.ops = none ∧ s.updateAudio = true ∧ r.codec = s.currentCodec := by
  unfold installCodec at reached
  split at reached
  · cases reached
  · rename_i first
    dsimp only at reached
    split at reached
    · rename_i waits
      obtain ⟨-,named,-⟩ := processReached reached
      refine ⟨by simpa using first,waits,named.trans ?_⟩
      exact updateCurrent {s with ops := some ops,updateAudio := false}
    · cases reached

theorem registerReached {pdev : PlatformDevice} {ops : Option CodecOps} {a : ExtconAnswers}
    (reached : r ∈ (msmExtDispRegisterAudioCodec limits pdev ops a s).reached) :
    ∃ table, pdev = .extDisp ∧ ops = some table ∧ r ∈ (installCodec table a s).reached := by
  unfold msmExtDispRegisterAudioCodec at reached
  split at reached
  · rename_i table
    refine ⟨table,rfl,rfl,?_⟩
    dsimp only at reached
    split at reached
    · exact reached
    · exact reached
  · cases reached

theorem notifyReached {pdev : PlatformDevice} {given : Option CodecId} {state : CableState}
    {a : ExtconAnswers} (reached : r ∈ (msmExtDispAudioNotify limits pdev given state a s).2) :
    validateAndGet limits pdev given state = .ok r.codec ∧ s.ops ≠ none ∧
      (r.connect = true → state = .connect) := by
  unfold msmExtDispAudioNotify at reached
  split at reached
  · cases reached
  · rename_i valid
    obtain ⟨registered,rfl,connect⟩ := processReached reached
    exact ⟨valid,registered,fun connects => of_decide_eq_true (connect.symm.trans connects)⟩

theorem listedSome (missing : s.getIntfData codec ≠ none) : ∃ p ∈ s.displayList, s.codecOf p = codec := by
  obtain ⟨p,found⟩ := Option.ne_none_iff_exists'.mp missing
  exact ⟨p,getIntfDataSome found⟩

structure Inv (limits : DispLimits) (w : Watched) : Prop where
  listed : Listed limits w.disp
  deferral : Deferral limits w.disp
  waits : Waits w
  plugged : ∀ codec ∈ w.selected, codec ∉ w.unplugged

theorem reachedFires (inv : Inv limits w) {op : Op} (orderly : Orderly limits w op) :
    ∀ r ∈ op.reached limits w.disp, Fires limits w r := by
  intro r reached
  have answers := orderly.2
  cases op with
  | registerAudioCodec pdev ops a =>
    obtain ⟨table,rfl,rfl,installed⟩ := registerReached reached
    obtain ⟨first,waits,named⟩ := installReached installed
    obtain ⟨inside,found⟩ := answers first waits
    rw [← named] at inside found
    obtain ⟨p,mem,codec⟩ := listedSome found
    obtain ⟨type,stream,-⟩ := validCodec (inv.listed.valid p mem)
    have data : (w.disp.initData p).codec = r.codec := codec
    rw [data] at type stream
    refine ⟨type,inside,stream,fun _ _ => ⟨⟨p,mem,codec⟩,inv.plugged r.codec ?_⟩⟩
    rw [named]
    exact (inv.waits waits).2
  | audioNotify pdev codec state a =>
    obtain ⟨valid,registered,connects⟩ := notifyReached reached
    obtain ⟨rfl,rfl,type,stream⟩ := validated valid
    obtain ⟨inside,plugged⟩ := answers registered
    refine ⟨type,inside,stream,fun connect _ => ?_⟩
    obtain ⟨found,connected⟩ := plugged (connects connect)
    exact ⟨listedSome found,connected⟩
  | _ => cases reached

theorem otherWaits (inv : Inv limits w) {op : Op} (unselected : selects limits op = none)
    (connected : disconnects limits op = none) (same : (op.step limits w.disp).updateAudio = true →
      w.disp.updateAudio = true ∧ (op.step limits w.disp).currentCodec = w.disp.currentCodec) :
    Waits (w.step limits op) := by
  intro waits
  obtain ⟨before,current⟩ := same waits
  have selected : (w.step limits op).selected = w.selected := by
    simp [Watched.step,unselected,connected]
  refine ⟨(stepDeferral inv.deferral op).pending waits,?_⟩
  rw [selected,(inv.waits before).2]
  exact congrArg some current.symm

theorem selectedWaits (inv : Inv limits w) {op : Op} (codec : CodecId) (chosen : selects limits op = some codec)
    (connected : disconnects limits op = none)
    (stepped : op.step limits w.disp = (msmExtDispSelectAudioCodec .extDisp (some codec) w.disp).2) :
    Waits (w.step limits op) := by
  intro waits
  have selected : (w.step limits op).selected = some codec := by
    simp [Watched.step,chosen,connected]
  refine ⟨(stepDeferral inv.deferral op).pending waits,selected.trans (congrArg some ?_)⟩
  change (op.step limits w.disp).updateAudio = true at waits
  change codec = (op.step limits w.disp).currentCodec
  rw [stepped] at waits ⊢
  unfold msmExtDispSelectAudioCodec at waits ⊢
  dsimp only at waits ⊢
  by_cases none : w.disp.ops.isNone
  · rw [if_pos none]
  · rw [if_neg none] at waits
    have registered : w.disp.ops ≠ Option.none := fun gone => none (by rw [gone]; rfl)
    rw [(updateRegistered codec w.disp registered).2] at waits
    exact absurd (inv.deferral.pending waits) registered

theorem stepWaits (inv : Inv limits w) {op : Op} (orderly : Orderly limits w op) : Waits (w.step limits op) := by
  -- most calls neither select nor disconnect
  have still : selects limits op = none → disconnects limits op = none →
      SameCodec w.disp (op.step limits w.disp) → Waits (w.step limits op) := fun unselected connected same =>
    otherWaits inv unselected connected fun waits => ⟨same.updateAudio ▸ waits,same.currentCodec⟩
  cases op with
  | fill p data => exact still rfl rfl (displaysCodec w.disp rfl)
  | registerIntf pdev initData node => exact still rfl rfl (displaysCodec w.disp rfl)
  | deregisterIntf pdev initData => exact still rfl rfl (displaysCodec w.disp rfl)
  | audioNotify pdev codec state a => exact still rfl rfl (displaysCodec w.disp rfl)
  | registerAudioCodec pdev ops a =>
    cases pdev with
    | null => exact still rfl rfl (.refl w.disp)
    | noDrvdata => exact still rfl rfl (.refl w.disp)
    | extDisp =>
      cases ops with
      | none => exact still rfl rfl (.refl w.disp)
      | some table =>
        refine otherWaits inv rfl rfl fun waits => absurd waits ?_
        rw [Bool.not_eq_true]
        exact (registerRegistered inv.deferral table a).2
  | selectAudioCodec pdev codec =>
    cases pdev with
    | null => exact still rfl rfl (.refl w.disp)
    | noDrvdata => exact still rfl rfl (.refl w.disp)
    | extDisp =>
      cases codec with
      | none => exact still rfl rfl (.refl w.disp)
      | some codec => exact selectedWaits inv codec rfl rfl rfl
  | audioConfig pdev codec state =>
    cases valid : validateAndGet limits pdev codec state with
    | error e =>
      have same : Op.step limits w.disp (.audioConfig pdev codec state) = w.disp := by
        simp [Op.step,msmExtDispAudioConfig,valid]
      refine still ?_ ?_ (by rw [same]; exact .refl w.disp)
      · cases state <;> simp [selects,valid,Except.toOption]
      · cases state <;> simp [disconnects,valid,Except.toOption]
    | ok id =>
      obtain ⟨rfl,rfl,-⟩ := validated valid
      cases state with
      | connect =>
        refine selectedWaits inv id ?_ rfl ?_
        · rw [selects,valid]
          rfl
        · simp [Op.step,msmExtDispAudioConfig,valid]
      | disconnect =>
        intro waits
        have settled := orderly.1 (by simp [disconnects,valid,Except.toOption])
        have same : (Op.step limits w.disp (.audioConfig .extDisp (some id) .disconnect)).updateAudio =
            w.disp.updateAudio := by simp [Op.step,msmExtDispAudioConfig,valid]
        exact absurd (settled.symm.trans (same.symm.trans waits)) Bool.false_ne_true
      | invalid =>
        unfold validateAndGet at valid
        simp at valid

theorem stepPlugged (inv : Inv limits w) (op : Op) :
    ∀ codec ∈ (w.step limits op).selected, codec ∉ (w.step limits op).unplugged := by
  intro codec selected
  cases gone : disconnects limits op with
  | some other => simp [Watched.step,gone] at selected
  | none =>
    simp only [Watched.step,gone,Option.isSome_none,Bool.false_eq_true,if_false,Option.toList_none,
      List.nil_append] at selected ⊢
    intro mem
    obtain ⟨before,different⟩ := List.mem_filter.mp mem
    have different : some codec ≠ selects limits op := by simpa using different
    cases chosen : selects limits op with
    | some other =>
      rw [chosen] at selected different
      exact different selected.symm
    | none =>
      rw [chosen] at selected
      exact inv.plugged codec selected before

theorem stepInv (inv : Inv limits w) {op : Op} (orderly : Orderly limits w op) : Inv limits (w.step limits op) :=
  ⟨stepListed inv.listed op,stepDeferral inv.deferral op,stepWaits inv orderly,stepPlugged inv op⟩

end Steps

theorem deferredForLive (limits : DispLimits) (initData : Nat → InitData) (ops : List Op)
    (orderly : Along (Watched.step limits) (Orderly limits) (watchedProbe limits initData) ops) :
    Along (Watched.step limits) (fun w op => Waits w ∧ ∀ r ∈ op.reached limits w.disp, Fires limits w r)
        (watchedProbe limits initData) ops ∧
      Waits (after (Watched.step limits) (watchedProbe limits initData) ops) := by
  have keep : ∀ w op, Inv limits w → Orderly limits w op → Inv limits (w.step limits op) :=
    fun w op inv orderly => stepInv inv orderly
  have start : Inv limits (watchedProbe limits initData) :=
    ⟨probeListed limits initData,probeDeferral limits initData,nofun,nofun⟩
  have along := alongInvariant keep start orderly
  refine ⟨alongMono (fun w op allowed => ⟨allowed.1.waits,reachedFires allowed.1 allowed.2⟩) along,?_⟩
  exact (invariant keep start orderly).2.waits

def dpEarly : List Op :=
  [.registerIntf .extDisp (some 0) true,.audioConfig .extDisp (some dpCodec) .connect,
    .registerAudioCodec .extDisp (some .zeroed) ⟨0,.ok ()⟩,
    .audioNotify .extDisp (some dpCodec) .connect ⟨1,.ok ()⟩]

theorem dpEarlyLive :
    Along (Watched.step dpLimits) (fun w op => Waits w ∧ ∀ r ∈ op.reached dpLimits w.disp, Fires dpLimits w r)
        (watchedProbe dpLimits fun _ => dpData) dpEarly ∧
      Waits (after (Watched.step dpLimits) (watchedProbe dpLimits fun _ => dpData) dpEarly) :=
  deferredForLive dpLimits (fun _ => dpData) dpEarly
    ⟨⟨fun _ => rfl,trivial⟩,⟨fun _ => rfl,trivial⟩,⟨nofun,fun _ _ => ⟨by decide,by decide⟩⟩,
      ⟨nofun,fun _ => ⟨by decide,fun _ => ⟨by decide,by decide⟩⟩⟩,trivial⟩

def dpWithdrawn : List Op :=
  [.registerIntf .extDisp (some 0) true,.audioConfig .extDisp (some dpCodec) .connect,
    .audioConfig .extDisp (some dpCodec) .disconnect]

theorem withdrawnStillFires :
    let w := after (Watched.step dpLimits) (watchedProbe dpLimits fun _ => dpData) dpWithdrawn
    ¬ Waits w ∧ ∃ r ∈ (Op.registerAudioCodec .extDisp (some .zeroed) ⟨0,.ok ()⟩).reached dpLimits w.disp,
      r.connect = true ∧ r.reported = true ∧ ¬ Fires dpLimits w r := by
  refine ⟨fun waits => ?_,⟨⟨2^32-1,0,0⟩,true,true⟩,rfl,rfl,rfl,fun fires => ?_⟩
  · have selected := (waits rfl).2
    cases selected
  · exact absurd fires.1 (by decide)

end MmDrivers.DeferredAudio

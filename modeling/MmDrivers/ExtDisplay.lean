import MmDrivers.FenceTypes
import MmDrivers.Lib.Runs

/-! The external-display driver, between the displays that register an interface
and the one audio codec that uses the interface selected. -/
namespace MmDrivers.ExtDisplay
open FenceTypes Runs

/-- `none` is NULL. -/
abbrev Ptr := Option Nat

structure DispLimits where
  typeMax : Nat
  maxCodecs : Nat

structure CodecId where
  type : Nat
  ctrlId : Int
  streamId : Int
  deriving DecidableEq, Repr

structure CodecOps where
  audioInfoSetup : Ptr
  getAudioEdidBlk : Ptr
  cableStatus : Ptr
  getIntfId : Ptr
  teardownDone : Ptr
  acknowledge : Ptr
  ready : Ptr
  deriving DecidableEq, Repr

def CodecOps.zeroed : CodecOps := ⟨none,none,none,none,none,none,none⟩

structure InitData where
  pdev : Ptr
  codec : CodecId
  intfData : Ptr
  codecOps : CodecOps
  audioConfig : Bool
  audioNotify : Bool
  deriving DecidableEq, Repr

inductive CableState where | disconnect | connect | invalid
  deriving DecidableEq, Repr

inductive PlatformDevice where | null | noDrvdata | extDisp
  deriving DecidableEq, Repr

/-- `struct msm_ext_disp`. `ops` is the contents of the codec's table; the displays
own their init data, which go by number. -/
structure ExtDisp where
  ops : Option CodecOps
  currentCodec : CodecId
  intfPdev : Ptr
  intfData : Ptr
  displayList : List Nat
  initData : Nat → InitData
  updateAudio : Bool

def msmExtDispProbe (limits : DispLimits) (initData : Nat → InitData) : ExtDisp where
  ops := none
  currentCodec := ⟨limits.typeMax,0,0⟩
  intfPdev := none
  intfData := none
  displayList := []
  initData := initData
  updateAudio := false

structure ExtconAnswers where
  state : Int
  set : Status

/-- A call that got past the check for the codec's table: `audio_sdev` is read at
the stream of `codec`, and `reported` if the cable state is set. -/
structure Reached where
  codec : CodecId
  connect : Bool
  reported : Bool
  deriving DecidableEq, Repr

namespace ExtDisp

def codecOf (s : ExtDisp) (p : Nat) : CodecId := (s.initData p).codec

def getIntfData (codec : CodecId) (s : ExtDisp) : Option Nat :=
  s.displayList.find? fun p =>
    (s.codecOf p).type = codec.type ∧ (s.codecOf p).streamId = codec.streamId ∧
      (s.codecOf p).ctrlId = codec.ctrlId

def addIntfData (p : Nat) (s : ExtDisp) : ExtDisp := {s with displayList := p::s.displayList}

def removeIntfData (p : Nat) (s : ExtDisp) : ExtDisp := {s with displayList := s.displayList.erase p}

def setIntfOps (p : Nat) (set : Bool) (s : ExtDisp) : ExtDisp :=
  let data := {s.initData p with audioConfig := set,audioNotify := set}
  {s with initData := Function.update s.initData p data}

def processAudio (codec : CodecId) (connect : Bool) (a : ExtconAnswers) (s : ExtDisp) :
    Status × Option Reached :=
  if s.ops.isNone then (.error .eperm,none)
  else if a.state = if connect then 1 else 0 then (.error .eexist,some ⟨codec,connect,false⟩)
  else (a.set,some ⟨codec,connect,true⟩)

def updateAudioOps (codec : CodecId) (s : ExtDisp) : Status × ExtDisp :=
  match s.getIntfData codec with
  | none => (.error .enodev,s)
  | some p =>
    if s.ops.isNone then (.ok (),s)
    else
      let data := s.initData p
      (.ok (),{s with
        ops := some data.codecOps
        currentCodec := codec
        intfPdev := data.pdev
        intfData := data.intfData})

-- also the display whose ready is called
def readyForDisplay (s : ExtDisp) : ExtDisp × Option Nat :=
  match s.getIntfData s.currentCodec with
  | none => (s,none)
  | some p => ({s with ops := some (s.initData p).codecOps},some p)

end ExtDisp

section Calls
variable (limits : DispLimits)

def validateIntf (data : InitData) : Status :=
  if data.pdev = none then .error .einval
  else if limits.typeMax ≤ data.codec.type ∨ data.codec.ctrlId ≠ 0 ∨ limits.maxCodecs ≤ data.codec.streamId then
    .error .einval
  else
    let ops := data.codecOps
    if ops.audioInfoSetup = none ∨ ops.getAudioEdidBlk = none ∨ ops.cableStatus = none ∨
        ops.getIntfId = none ∨ ops.teardownDone = none ∨ ops.acknowledge = none ∨ ops.ready = none then
      .error .einval
    else .ok ()

def validateAndGet (pdev : PlatformDevice) (codec : Option CodecId) (state : CableState) :
    Except Errno CodecId :=
  if pdev = .null then .error .einval
  else
    match codec with
    | none => .error .einval
    | some codec =>
      if limits.typeMax ≤ codec.type ∨ codec.ctrlId ≠ 0 ∨ limits.maxCodecs ≤ codec.streamId then
        .error .einval
      else if state = .invalid then .error .einval
      else if pdev = .noDrvdata then .error .einval
      else .ok codec

/-- `node`: the allocation of the list entry. A codec id that is taken is no error. -/
def msmExtDispRegisterIntf (pdev : PlatformDevice) (initData : Ptr) (node : Bool) (s : ExtDisp) :
    Status × ExtDisp :=
  match pdev,initData with
  | .extDisp,some p =>
    match validateIntf limits (s.initData p) with
    | .error e => (.error e,s)
    | .ok () =>
      if (s.getIntfData (s.codecOf p)).isSome then (.ok (),s)
      else if node = false then (.error .enomem,s)
      else (.ok (),(s.addIntfData p).setIntfOps p true)
  | _,_ => (.error .einval,s)

def msmExtDispDeregisterIntf (pdev : PlatformDevice) (initData : Ptr) (s : ExtDisp) :
    Status × ExtDisp :=
  match pdev,initData with
  | .extDisp,some p => (.ok (),(s.removeIntfData p).setIntfOps p false)
  | _,_ => (.error .einval,s)

structure Outcome where
  ret : Status
  disp : ExtDisp
  reached : Option Reached
  ready : Option Nat

def installCodec (ops : CodecOps) (a : ExtconAnswers) (s : ExtDisp) : Outcome :=
  if s.ops.isSome then ⟨.error .einval,s,none,none⟩
  else
    let s := {s with ops := some ops}
    if s.updateAudio then
      let s := (({s with updateAudio := false} : ExtDisp).updateAudioOps s.currentCodec).2
      ⟨.ok (),s,(s.processAudio s.currentCodec true a).2,none⟩
    else ⟨.ok (),s,none,none⟩

def msmExtDispRegisterAudioCodec (pdev : PlatformDevice) (ops : Option CodecOps) (a : ExtconAnswers)
    (s : ExtDisp) : Outcome :=
  match pdev,ops with
  | .extDisp,some ops =>
    let o := installCodec ops a s
    if o.disp.currentCodec.type ≠ limits.typeMax then
      {o with disp := o.disp.readyForDisplay.1,ready := o.disp.readyForDisplay.2}
    else o
  | _,_ => ⟨.error .einval,s,none,none⟩

def msmExtDispSelectAudioCodec (pdev : PlatformDevice) (codec : Option CodecId) (s : ExtDisp) :
    Status × ExtDisp :=
  match pdev,codec with
  | .extDisp,some codec =>
    if s.ops.isNone then (.error .einval,{s with updateAudio := true,currentCodec := codec})
    else s.updateAudioOps codec
  | _,_ => (.error .einval,s)

def msmExtDispAudioConfig (pdev : PlatformDevice) (codec : Option CodecId) (state : CableState)
    (s : ExtDisp) : Status × ExtDisp :=
  match validateAndGet limits pdev codec state with
  | .error e => (.error e,s)
  | .ok codec =>
    if state = .connect then msmExtDispSelectAudioCodec pdev (some codec) s
    else
      (.ok (),{s with
        ops := s.ops.map fun _ => .zeroed
        currentCodec := {s.currentCodec with type := limits.typeMax}})

def msmExtDispAudioNotify (pdev : PlatformDevice) (codec : Option CodecId) (state : CableState)
    (a : ExtconAnswers) (s : ExtDisp) : Status × Option Reached :=
  match validateAndGet limits pdev codec state with
  | .error e => (.error e,none)
  | .ok codec => s.processAudio codec (state = .connect) a

end Calls

inductive Op where
  | fill (p : Nat) (data : InitData)
  | registerIntf (pdev : PlatformDevice) (initData : Ptr) (node : Bool)
  | deregisterIntf (pdev : PlatformDevice) (initData : Ptr)
  | registerAudioCodec (pdev : PlatformDevice) (ops : Option CodecOps) (a : ExtconAnswers)
  | selectAudioCodec (pdev : PlatformDevice) (codec : Option CodecId)
  | audioConfig (pdev : PlatformDevice) (codec : Option CodecId) (state : CableState)
  | audioNotify (pdev : PlatformDevice) (codec : Option CodecId) (state : CableState) (a : ExtconAnswers)

def Op.step (limits : DispLimits) (s : ExtDisp) : Op → ExtDisp
  | .fill p data =>
    if p ∈ s.displayList then s else {s with initData := Function.update s.initData p data}
  | .registerIntf pdev initData node => (msmExtDispRegisterIntf limits pdev initData node s).2
  | .deregisterIntf pdev initData => (msmExtDispDeregisterIntf pdev initData s).2
  | .registerAudioCodec pdev ops a => (msmExtDispRegisterAudioCodec limits pdev ops a s).disp
  | .selectAudioCodec pdev codec => (msmExtDispSelectAudioCodec pdev codec s).2
  | .audioConfig pdev codec state => (msmExtDispAudioConfig limits pdev codec state s).2
  | .audioNotify _ _ _ _ => s

def Op.reached (limits : DispLimits) (s : ExtDisp) : Op → Option Reached
  | .registerAudioCodec pdev ops a => (msmExtDispRegisterAudioCodec limits pdev ops a s).reached
  | .audioNotify pdev codec state a => (msmExtDispAudioNotify limits pdev codec state a s).2
  | _ => none

structure Listed (limits : DispLimits) (s : ExtDisp) : Prop where
  valid : ∀ p ∈ s.displayList, validateIntf limits (s.initData p) = .ok ()
  distinct : (s.displayList.map s.codecOf).Nodup

section Displays
variable {limits : DispLimits} {s t : ExtDisp} {codec : CodecId} {p q : Nat}

theorem codecMatches (id codec : CodecId) :
    (id.type = codec.type ∧ id.streamId = codec.streamId ∧ id.ctrlId = codec.ctrlId) ↔ id = codec := by
  cases id
  cases codec
  simp only [CodecId.mk.injEq]
  tauto

theorem getIntfDataSome (found : s.getIntfData codec = some p) : p ∈ s.displayList ∧ s.codecOf p = codec := by
  have matched := List.find?_some found
  exact ⟨List.mem_of_find?_eq_some found,(codecMatches _ _).mp (of_decide_eq_true matched)⟩

theorem getIntfDataNone : s.getIntfData codec = none ↔ ∀ p ∈ s.displayList, s.codecOf p ≠ codec := by
  rw [ExtDisp.getIntfData,List.find?_eq_none]
  refine forall₂_congr fun p mem => not_congr ?_
  rw [decide_eq_true_iff,codecMatches]

theorem Listed.same (listed : Listed limits s) (mem : p ∈ s.displayList) (other : q ∈ s.displayList)
    (codec : s.codecOf p = s.codecOf q) : p = q :=
  List.inj_on_of_nodup_map listed.distinct mem other codec

theorem Listed.found (listed : Listed limits s) (mem : p ∈ s.displayList) (named : s.codecOf p = codec) :
    s.getIntfData codec = some p := by
  cases found : s.getIntfData codec with
  | none => exact absurd named (getIntfDataNone.mp found p mem)
  | some q =>
    obtain ⟨other,matched⟩ := getIntfDataSome found
    rw [listed.same other mem (matched.trans named.symm)]

theorem validCodec {data : InitData} (valid : validateIntf limits data = .ok ()) :
    data.codec.type < limits.typeMax ∧ data.codec.streamId < limits.maxCodecs ∧ data.codecOps.ready ≠ none := by
  unfold validateIntf at valid
  split at valid
  · cases valid
  · split at valid
    · cases valid
    · rename_i inside
      dsimp only at valid
      split at valid
      · cases valid
      · rename_i pointers
        simp only [not_or,not_le] at inside pointers
        exact ⟨inside.1,inside.2.2,pointers.2.2.2.2.2.2⟩

theorem validOps {data : InitData} (valid : validateIntf limits data = .ok ()) :
    data.codecOps ≠ CodecOps.zeroed := by
  intro zeroed
  exact (validCodec valid).2.2 (by rw [zeroed]; rfl)

structure SameDisplays (s t : ExtDisp) : Prop where
  displayList : t.displayList = s.displayList
  initData : t.initData = s.initData

theorem SameDisplays.refl (s : ExtDisp) : SameDisplays s s := ⟨rfl,rfl⟩

theorem SameDisplays.trans {u : ExtDisp} (st : SameDisplays s t) (tu : SameDisplays t u) : SameDisplays s u :=
  ⟨tu.displayList.trans st.displayList,tu.initData.trans st.initData⟩

theorem Listed.displays (listed : Listed limits s) (same : SameDisplays s t) : Listed limits t := by
  obtain ⟨list,data⟩ := same
  have codecs : t.codecOf = s.codecOf := funext fun p => by rw [ExtDisp.codecOf,data,ExtDisp.codecOf]
  refine ⟨?_,?_⟩
  · rw [list,data]
    exact listed.valid
  · rw [list,codecs]
    exact listed.distinct

theorem SameDisplays.getIntfData (same : SameDisplays s t) (codec : CodecId) :
    t.getIntfData codec = s.getIntfData codec := by
  unfold ExtDisp.getIntfData ExtDisp.codecOf
  rw [same.displayList,same.initData]

theorem updateDisplays (codec : CodecId) (s : ExtDisp) : SameDisplays s (s.updateAudioOps codec).2 := by
  unfold ExtDisp.updateAudioOps
  split
  · exact .refl s
  · split
    · exact .refl s
    · exact ⟨rfl,rfl⟩

theorem readyDisplays (s : ExtDisp) : SameDisplays s s.readyForDisplay.1 := by
  unfold ExtDisp.readyForDisplay
  split
  · exact .refl s
  · exact ⟨rfl,rfl⟩

theorem installDisplays (ops : CodecOps) (a : ExtconAnswers) (s : ExtDisp) :
    SameDisplays s (installCodec ops a s).disp := by
  unfold installCodec
  split
  · exact .refl s
  · dsimp only
    split
    · have installed : SameDisplays s {s with ops := some ops,updateAudio := false} := ⟨rfl,rfl⟩
      exact installed.trans (updateDisplays _ _)
    · exact ⟨rfl,rfl⟩

theorem registerCodecDisplays (pdev : PlatformDevice) (ops : Option CodecOps) (a : ExtconAnswers) (s : ExtDisp) :
    SameDisplays s (msmExtDispRegisterAudioCodec limits pdev ops a s).disp := by
  unfold msmExtDispRegisterAudioCodec
  split
  · rename_i ops
    have installed := installDisplays ops a s
    dsimp only
    split
    · exact installed.trans (readyDisplays _)
    · exact installed
  · exact .refl s

theorem selectDisplays (pdev : PlatformDevice) (codec : Option CodecId) (s : ExtDisp) :
    SameDisplays s (msmExtDispSelectAudioCodec pdev codec s).2 := by
  unfold msmExtDispSelectAudioCodec
  split
  · split
    · exact ⟨rfl,rfl⟩
    · exact updateDisplays _ s
  · exact .refl s

theorem configDisplays (pdev : PlatformDevice) (codec : Option CodecId) (state : CableState) (s : ExtDisp) :
    SameDisplays s (msmExtDispAudioConfig limits pdev codec state s).2 := by
  unfold msmExtDispAudioConfig
  split
  · exact .refl s
  · split
    · exact selectDisplays pdev _ s
    · exact ⟨rfl,rfl⟩

theorem setIntfOpsCodec (p : Nat) (set : Bool) (s : ExtDisp) : (s.setIntfOps p set).codecOf = s.codecOf := by
  funext q
  by_cases same : q = p
  · simp [ExtDisp.codecOf,ExtDisp.setIntfOps,same]
  · simp [ExtDisp.codecOf,ExtDisp.setIntfOps,same]

theorem setIntfOpsValid (p q : Nat) (set : Bool) (s : ExtDisp) :
    validateIntf limits ((s.setIntfOps p set).initData q) = validateIntf limits (s.initData q) := by
  by_cases same : q = p
  · simp [ExtDisp.setIntfOps,same,validateIntf]
  · simp [ExtDisp.setIntfOps,same]

theorem Listed.intfOps (listed : Listed limits s) (p : Nat) (set : Bool) : Listed limits (s.setIntfOps p set) := by
  refine ⟨fun q mem => ?_,?_⟩
  · rw [setIntfOpsValid]
    exact listed.valid q mem
  · rw [setIntfOpsCodec]
    exact listed.distinct

theorem Listed.add (listed : Listed limits s) (valid : validateIntf limits (s.initData p) = .ok ())
    (fresh : s.getIntfData (s.codecOf p) = none) : Listed limits (s.addIntfData p) := by
  refine ⟨fun q mem => ?_,List.nodup_cons.mpr ⟨fun mem => ?_,listed.distinct⟩⟩
  · rcases List.mem_cons.mp mem with rfl | old
    · exact valid
    · exact listed.valid q old
  · obtain ⟨q,old,same⟩ := List.mem_map.mp mem
    exact getIntfDataNone.mp fresh q old same

theorem Listed.remove (listed : Listed limits s) (p : Nat) : Listed limits (s.removeIntfData p) := by
  refine ⟨fun q mem => listed.valid q (List.mem_of_mem_erase mem),?_⟩
  have fewer : (s.displayList.erase p).Sublist s.displayList := List.erase_sublist
  exact listed.distinct.sublist (fewer.map s.codecOf)

theorem Listed.fill (listed : Listed limits s) (unlisted : p ∉ s.displayList) (data : InitData) :
    Listed limits {s with initData := Function.update s.initData p data} := by
  have others : ∀ q ∈ s.displayList, Function.update s.initData p data q = s.initData q := by
    intro q mem
    refine Function.update_of_ne ?_ _ _
    rintro rfl
    exact unlisted mem
  refine ⟨fun q mem => ?_,?_⟩
  · dsimp only
    rw [others q mem]
    exact listed.valid q mem
  · have codecs : s.displayList.map (fun q => (Function.update s.initData p data q).codec) =
        s.displayList.map s.codecOf := List.map_congr_left fun q mem => by rw [others q mem]; rfl
    exact codecs ▸ listed.distinct

theorem stepListed (listed : Listed limits s) (op : Op) : Listed limits (op.step limits s) := by
  cases op with
  | fill p data =>
    simp only [Op.step]
    split
    · exact listed
    · rename_i unlisted
      exact listed.fill unlisted data
  | registerIntf pdev initData node =>
    simp only [Op.step,msmExtDispRegisterIntf]
    split
    · split
      · exact listed
      · rename_i valid
        split
        · exact listed
        · rename_i taken
          split
          · exact listed
          · exact (listed.add valid (by simpa using taken)).intfOps _ true
    · exact listed
  | deregisterIntf pdev initData =>
    simp only [Op.step,msmExtDispDeregisterIntf]
    split
    · exact (listed.remove _).intfOps _ false
    · exact listed
  | registerAudioCodec pdev ops a => exact listed.displays (registerCodecDisplays pdev ops a s)
  | selectAudioCodec pdev codec => exact listed.displays (selectDisplays pdev codec s)
  | audioConfig pdev codec state => exact listed.displays (configDisplays pdev codec state s)
  | audioNotify pdev codec state a => exact listed

end Displays

theorem probeListed (limits : DispLimits) (initData : Nat → InitData) :
    Listed limits (msmExtDispProbe limits initData) := ⟨nofun,List.nodup_nil⟩

structure Deferral (limits : DispLimits) (s : ExtDisp) : Prop where
  pending : s.updateAudio = true → s.ops = none
  idle : s.ops = none → s.updateAudio = false → s.currentCodec.type = limits.typeMax

structure SameCodec (s t : ExtDisp) : Prop where
  ops : t.ops = s.ops
  currentCodec : t.currentCodec = s.currentCodec
  intfPdev : t.intfPdev = s.intfPdev
  intfData : t.intfData = s.intfData
  updateAudio : t.updateAudio = s.updateAudio

theorem SameCodec.refl (s : ExtDisp) : SameCodec s s := ⟨rfl,rfl,rfl,rfl,rfl⟩

def Op.onDisplays : Op → Bool
  | .fill _ _ | .registerIntf _ _ _ | .deregisterIntf _ _ | .audioNotify _ _ _ _ => true
  | _ => false

section Codec
variable {limits : DispLimits} {s t : ExtDisp} {codec : CodecId} {p : Nat}

theorem displaysCodec (s : ExtDisp) {op : Op} (displays : op.onDisplays = true) :
    SameCodec s (op.step limits s) := by
  cases op with
  | fill p data =>
    simp only [Op.step]
    split
    · exact .refl s
    · exact ⟨rfl,rfl,rfl,rfl,rfl⟩
  | registerIntf pdev initData node =>
    simp only [Op.step,msmExtDispRegisterIntf]
    split
    · split
      · exact .refl s
      · split
        · exact .refl s
        · split
          · exact .refl s
          · exact ⟨rfl,rfl,rfl,rfl,rfl⟩
    · exact .refl s
  | deregisterIntf pdev initData =>
    simp only [Op.step,msmExtDispDeregisterIntf]
    split
    · exact ⟨rfl,rfl,rfl,rfl,rfl⟩
    · exact .refl s
  | audioNotify pdev codec state a => exact .refl s
  | _ => cases displays

theorem Deferral.sameCodec (deferral : Deferral limits s) (same : SameCodec s t) : Deferral limits t := by
  refine ⟨?_,?_⟩
  · rw [same.updateAudio,same.ops]
    exact deferral.pending
  · rw [same.updateAudio,same.ops,same.currentCodec]
    exact deferral.idle

theorem updateNone (missing : s.getIntfData codec = none) : (s.updateAudioOps codec).2 = s := by
  simp [ExtDisp.updateAudioOps,missing]

theorem updateSome (found : s.getIntfData codec = some p) (registered : s.ops ≠ none) :
    (s.updateAudioOps codec).2 = {s with
      ops := some (s.initData p).codecOps
      currentCodec := codec
      intfPdev := (s.initData p).pdev
      intfData := (s.initData p).intfData} := by
  simp [ExtDisp.updateAudioOps,found,registered]

theorem updateRegistered (codec : CodecId) (s : ExtDisp) (registered : s.ops ≠ none) :
    (s.updateAudioOps codec).2.ops ≠ none ∧ (s.updateAudioOps codec).2.updateAudio = s.updateAudio := by
  cases found : s.getIntfData codec with
  | none =>
    rw [updateNone found]
    exact ⟨registered,rfl⟩
  | some p =>
    rw [updateSome found registered]
    exact ⟨nofun,rfl⟩

theorem readyRegistered (s : ExtDisp) (registered : s.ops ≠ none) :
    s.readyForDisplay.1.ops ≠ none ∧ s.readyForDisplay.1.updateAudio = s.updateAudio := by
  unfold ExtDisp.readyForDisplay
  split
  · exact ⟨registered,rfl⟩
  · exact ⟨nofun,rfl⟩

theorem Deferral.registered (registered : s.ops ≠ none) (settled : s.updateAudio = false) :
    Deferral limits s :=
  ⟨fun pending => absurd (settled.symm.trans pending) Bool.false_ne_true,fun none => absurd none registered⟩

theorem installRegistered (deferral : Deferral limits s) (ops : CodecOps) (a : ExtconAnswers) :
    (installCodec ops a s).disp.ops ≠ none ∧ (installCodec ops a s).disp.updateAudio = false := by
  unfold installCodec
  split
  · rename_i registered
    have registered : s.ops ≠ none := Option.isSome_iff_ne_none.mp registered
    exact ⟨registered,Bool.eq_false_iff.mpr fun pending => registered (deferral.pending pending)⟩
  · dsimp only
    split
    · exact updateRegistered _ _ nofun
    · rename_i settled
      exact ⟨nofun,by simpa using settled⟩

theorem registerRegistered (deferral : Deferral limits s) (ops : CodecOps) (a : ExtconAnswers) :
    (msmExtDispRegisterAudioCodec limits .extDisp (some ops) a s).disp.ops ≠ none ∧
      (msmExtDispRegisterAudioCodec limits .extDisp (some ops) a s).disp.updateAudio = false := by
  have installed := installRegistered deferral ops a
  unfold msmExtDispRegisterAudioCodec
  dsimp only
  split
  · have ready := readyRegistered _ installed.1
    exact ⟨ready.1,ready.2.trans installed.2⟩
  · exact installed

theorem stepDeferral (deferral : Deferral limits s) (op : Op) : Deferral limits (op.step limits s) := by
  have selects : ∀ pdev codec, Deferral limits (msmExtDispSelectAudioCodec pdev codec s).2 := by
    intro pdev codec
    unfold msmExtDispSelectAudioCodec
    split
    · split
      · rename_i none
        exact ⟨fun _ => Option.isNone_iff_eq_none.mp none,nofun⟩
      · rename_i codec registered
        have registered : s.ops ≠ none := fun none => registered (by rw [none]; rfl)
        have updated := updateRegistered codec s registered
        have settled : s.updateAudio = false :=
          Bool.eq_false_iff.mpr fun pending => registered (deferral.pending pending)
        exact .registered updated.1 (updated.2.trans settled)
    · exact deferral
  cases op with
  | fill p data => exact deferral.sameCodec (displaysCodec s rfl)
  | registerIntf pdev initData node => exact deferral.sameCodec (displaysCodec s rfl)
  | deregisterIntf pdev initData => exact deferral.sameCodec (displaysCodec s rfl)
  | registerAudioCodec pdev ops a =>
    cases pdev with
    | null => exact deferral
    | noDrvdata => exact deferral
    | extDisp =>
      cases ops with
      | none => exact deferral
      | some table =>
        have registered := registerRegistered deferral table a
        exact .registered registered.1 registered.2
  | selectAudioCodec pdev codec => exact selects pdev codec
  | audioConfig pdev codec state =>
    simp only [Op.step,msmExtDispAudioConfig]
    split
    · exact deferral
    · split
      · exact selects pdev _
      · refine ⟨fun pending => ?_,fun _ _ => rfl⟩
        rw [deferral.pending pending]
        rfl
  | audioNotify pdev codec state a => exact deferral

end Codec

theorem probeDeferral (limits : DispLimits) (initData : Nat → InitData) :
    Deferral limits (msmExtDispProbe limits initData) := ⟨fun _ => rfl,fun _ _ => rfl⟩

end MmDrivers.ExtDisplay

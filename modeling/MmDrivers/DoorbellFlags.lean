import MmDrivers.Lib.Parts
import MmDrivers.QueueDrain
import MmDrivers.ResetClient

/-! The doorbell of the hardware: its flags, one for each client that is served in software, and the
callback that serves them. The callback cleans the flags of the first seven clients only. -/
namespace MmDrivers.DoorbellFlags
open Sections Sections.Prog Parts FenceTypes ClientQueue QueueDrain FenceSignal ResetClient Loops Runs

def hwFenceLoopbackDpuCtl5 : Nat := 5
def hwFenceLoopbackGfxCtx0 : Nat := 6
def hwFenceLoopbackMax : Nat := hwFenceClientIdVal6+1
def hwFenceLoopbackClientsMask : U64 := 0x7f

section Model
variable {m : Nat}

/-- The doorbell of the hypervisor: how it is rung, and `gh_dbl_read_and_clean`, which may fail. -/
structure Dbl (β : Type) where
  send : U64 → β → β
  readAndClean : U64 → β → Option U64 × β

/-- What is documented of it: rings add up, and a read returns all flags and clears those asked for. -/
structure Documented {β : Type} (dbl : Dbl β) (flags : β → U64) : Prop where
  sends : ∀ rung b, flags (dbl.send rung b) = flags b ||| rung
  returns : ∀ mask b dbFlags, (dbl.readAndClean mask b).1 = some dbFlags → dbFlags = flags b
  cleans : ∀ mask b, (dbl.readAndClean mask b).1.isSome → flags (dbl.readAndClean mask b).2 = flags b &&& ~~~mask
  fails : ∀ mask b, (dbl.readAndClean mask b).1 = none → flags (dbl.readAndClean mask b).2 = flags b

/-- The write to the register is compiled out. -/
def processDpuClientLoopback (ctlStart : Nat → Bool) (clientId : Nat) : Status :=
  if hwFenceLoopbackDpuCtl5 < clientId then .error .einval
  else if ¬ ctlStart clientId then .error .einval
  else .ok ()

/-- What the handlers are called with: the mapped registers, and what the payload of the gpu handler
holds before it is read. The bound on the gpu handler's loop is not the code's. -/
structure Handlers where
  ctlStart : Nat → Bool
  payload : Payload
  fuel : Nat

variable (h : Handlers)

-- none: the loop of the gpu handler is still going; the caller only logs the result
def processDoorbellClient (clientId : Nat) : Driver m (Option Unit) :=
  if clientId ≤ hwFenceLoopbackDpuCtl5 then
    let _ := processDpuClientLoopback h.ctlStart clientId
    pure (some ())
  else if clientId = hwFenceLoopbackGfxCtx0 then do
    let read ← processGfxClientLoopback h.fuel h.payload
    pure (read.map fun _ => ())
  else if hwFenceClientIdVal0 ≤ clientId ∧ clientId ≤ hwFenceClientIdVal6 then do
    processValidationClientLoopback clientId
    pure (some ())
  else pure (some ())

def doorbellLoop : Nat → Nat → U64 → Driver m (Option Unit)
  | 0,_,_ => pure (some ())
  | left+1,clientId,dbFlags =>
    let mask := bit clientId
    if mask &&& dbFlags ≠ 0 then do
      match ← processDoorbellClient h clientId with
      | none => pure none
      | some () =>
        let dbFlags := dbFlags &&& ~~~mask
        if dbFlags = 0 then pure (some ()) else doorbellLoop left (clientId+1) dbFlags
    else doorbellLoop left (clientId+1) dbFlags

def hwFenceUtilsProcessDoorbellMask (dbFlags : U64) : Driver m (Option Unit) :=
  doorbellLoop h hwFenceLoopbackMax 0 dbFlags

def msmHwFenceDriverDoorbellSim (dbMask : U64) : Driver m (Status × Option Unit) := do
  let ready ← observe fun d => d.resourcesReady
  if ¬ ready then pure (.error .eagain,some ())
  else do
    let served ← hwFenceUtilsProcessDoorbellMask h dbMask
    pure (.ok (),served)

def visits : List Nat → Driver m (Option Unit)
  | [] => pure (some ())
  | clientId::rest => do
    match ← processDoorbellClient h clientId with
    | none => pure none
    | some () => visits rest

end Model

section Mask
variable {m : Nat} {h : Handlers} {dbFlags : U64}

def flagged (dbFlags : U64) (ids : List Nat) : List Nat := ids.filter fun id => dbFlags.getLsbD id

theorem maskSet {clientId : Nat} (inside : clientId < 64) :
    bit clientId &&& dbFlags ≠ 0 ↔ dbFlags.getLsbD clientId = true := by
  have waits := waitsIff (f := {HwFence.zeroed with waitClientMask := dbFlags}) clientId
  rwa [Nat.mod_eq_of_lt inside,BitVec.and_comm] at waits

theorem clearedBit {clientId k : Nat} (inside : clientId < 64) (later : clientId < k) :
    (dbFlags &&& ~~~bit clientId).getLsbD k = dbFlags.getLsbD k := by
  have other : k ≠ clientId % 64 := by omega
  by_cases bound : k < 64
  · simp only [BitVec.getLsbD_and,BitVec.getLsbD_not,bitLsb,bound,other,decide_true,decide_false,
      Bool.not_false,Bool.and_self,Bool.and_true]
  · simp only [BitVec.getLsbD_of_ge _ _ (Nat.le_of_not_lt bound)]

theorem flaggedCleared {clientId : Nat} {ids : List Nat} (inside : clientId < 64)
    (later : ∀ k ∈ ids, clientId < k) :
    flagged (dbFlags &&& ~~~bit clientId) ids = flagged dbFlags ids :=
  List.filter_congr fun k mem => clearedBit inside (later k mem)

theorem loopVisits (left clientId : Nat) (inside : clientId+left ≤ 64) :
    doorbellLoop (m := m) h left clientId dbFlags = visits h (flagged dbFlags (List.range' clientId left)) := by
  induction left generalizing clientId dbFlags with
  | zero => rfl
  | succ left ih =>
    have later : ∀ k ∈ List.range' (clientId+1) left, clientId < k := by
      intro k mem
      have bounds := List.mem_range'_1.mp mem
      omega
    have rest := @ih
    rw [List.range'_succ,doorbellLoop,flagged,List.filter_cons]
    by_cases set : dbFlags.getLsbD clientId = true
    · rw [if_pos ((maskSet (by omega)).mpr set),if_pos set,visits]
      congr 1
      funext served
      cases served with
      | none => rfl
      | some u =>
        dsimp only
        have cleared := @flaggedCleared dbFlags clientId _ (by omega) later
        unfold flagged at cleared
        rw [← cleared]
        split
        · rename_i none
          rw [none]
          have empty : (List.range' (clientId+1) left).filter (fun k => (0#64).getLsbD k) = [] := by simp
          exact (congrArg (visits h) empty).symm
        · exact ih (clientId+1) (by omega)
    · rw [if_neg (fun some => set ((maskSet (by omega)).mp some)),if_neg set]
      exact ih (clientId+1) (by omega)

theorem maskVisits (h : Handlers) (dbFlags : U64) :
    hwFenceUtilsProcessDoorbellMask (m := m) h dbFlags =
      visits h (flagged dbFlags (List.range hwFenceLoopbackMax)) := by
  rw [hwFenceUtilsProcessDoorbellMask,loopVisits _ _ (by decide),List.range_eq_range']

end Mask

section Pending
variable {m : Nat} {β : Type} (dbl : Dbl β) {flags : β → U64}

structure Doorbell (m : Nat) (β : Type) where
  dbl : β
  d : DriverData m

def driverPart (m : Nat) (β : Type) : Part (Doorbell m β) (DriverData m) :=
  ⟨fun s => s.d,fun d s => {s with d := d},fun _ _ => rfl,fun _ => rfl,fun _ _ _ => rfl⟩

def ghDblReadAndClean (clearFlags : U64) : Prog Event (Doorbell m β) (Option U64) :=
  atomic (fun s => {s with dbl := (dbl.readAndClean clearFlags s.dbl).2}) (fun _ => [])
    fun s => (dbl.readAndClean clearFlags s.dbl).1

def hwFenceCb (h : Handlers) : Prog Event (Doorbell m β) (Option Unit) := do
  match ← ghDblReadAndClean dbl hwFenceLoopbackClientsMask with
  | none => pure (some ())
  | some dbFlags => within (driverPart m β) id (hwFenceUtilsProcessDoorbellMask h dbFlags)

inductive DoorbellEvent (m : Nat) where
  | ring (flags : U64)
  | callback (h : Handlers)
  | doorbellSim (h : Handlers) (dbMask : U64)
  | works (d : DriverData m)

def Doorbell.step (s : Doorbell m β) : DoorbellEvent m → Doorbell m β
  | .ring flags => {s with dbl := dbl.send flags s.dbl}
  | .callback h => ((hwFenceCb dbl h).run s).2
  | .doorbellSim h dbMask => {s with d := ((msmHwFenceDriverDoorbellSim h dbMask).run s.d).2}
  | .works d => {s with d := d}

def Reads (s : Doorbell m β) : Prop := (dbl.readAndClean hwFenceLoopbackClientsMask s.dbl).1.isSome

def Rings (k : Nat) : DoorbellEvent m → Prop
  | .ring flags => flags.getLsbD k = true
  | _ => False

def Leaves (k : Nat) (s : Doorbell m β) : DoorbellEvent m → Prop
  | .callback _ => hwFenceLoopbackClientsMask.getLsbD k = true → ¬ Reads dbl s
  | _ => True

def Pending (start : Doorbell m β) (events : List (DoorbellEvent m)) (k : Nat) : Prop :=
  Since (Doorbell.step dbl) (fun _ => Rings k) (Leaves dbl k) start events

variable {dbl} {s : Doorbell m β} {k : Nat}

theorem keptBit {dbFlags : U64} : (dbFlags &&& ~~~hwFenceLoopbackClientsMask).getLsbD k = true ↔
    dbFlags.getLsbD k = true ∧ hwFenceLoopbackClientsMask.getLsbD k = false := by
  by_cases inside : k < 64
  · simp only [BitVec.getLsbD_and,BitVec.getLsbD_not,inside,decide_true,Bool.true_and,Bool.and_eq_true,
      Bool.not_eq_true']
  · simp only [BitVec.getLsbD_of_ge _ _ (Nat.le_of_not_lt inside)]
    simp

theorem cbFlags (h : Handlers) (s : Doorbell m β) :
    flags ((hwFenceCb dbl h).run s).2.dbl = flags (dbl.readAndClean hwFenceLoopbackClientsMask s.dbl).2 := by
  unfold hwFenceCb ghDblReadAndClean
  simp only [runBind,runAtomic]
  cases (dbl.readAndClean hwFenceLoopbackClientsMask s.dbl).1 with
  | none => rfl
  | some dbFlags =>
    simp only [runWithin]
    rfl

theorem stepFlag (documented : Documented dbl flags) (e : DoorbellEvent m) :
    (flags (Doorbell.step dbl s e).dbl).getLsbD k = true ↔
      Rings k e ∨ (flags s.dbl).getLsbD k = true ∧ Leaves dbl k s e := by
  cases e with
  | ring rung =>
    simp only [Doorbell.step,documented.sends,BitVec.getLsbD_or,Bool.or_eq_true,Rings,Leaves,and_true]
    exact or_comm
  | callback h =>
    simp only [Doorbell.step,cbFlags,Rings,Leaves,false_or]
    by_cases reads : Reads dbl s
    · rw [documented.cleans _ _ reads,keptBit]
      simp [reads]
    · rw [documented.fails _ _ (by simpa [Reads] using reads)]
      simp [reads]
  | doorbellSim h dbMask => simp [Doorbell.step,Rings,Leaves]
  | works d => simp [Doorbell.step,Rings,Leaves]

theorem pendingIff (documented : Documented dbl flags) {start : Doorbell m β} (quiet : flags start.dbl = 0)
    (events : List (DoorbellEvent m)) (k : Nat) :
    (flags (after (Doorbell.step dbl) start events).dbl).getLsbD k = true ↔ Pending dbl start events k := by
  have along : Along (Doorbell.step dbl) (fun _ _ => True) start events := alongAlways fun _ _ => trivial
  have since := @sinceIff _ _ (Doorbell.step dbl) _ _ _ _ _ (fun s => (flags s.dbl).getLsbD k = true)
    (fun s e _ => stepFlag documented e) along
  exact since.trans (or_iff_right fun both => by simp [quiet] at both)

end Pending

section Served
variable {m : Nat} {h : Handlers} {d d' : DriverData m}

def served (d : DriverData m) : DriverData m :=
  match d.clients hwFenceClientIdCtx0 with
  | none => d
  | some client =>
    if (client.queues (hwFenceRxQueue-1)).vaHeader then
      d.onQueue client.clientId (hwFenceRxQueue-1) fun q => {q with readIndex := q.writeIndex}
    else d

def valSignals (events : List Event) : List Nat :=
  events.filterMap fun | .valSignal id => some id | _ => none

@[simp] theorem valSignalsAppend (a b : List Event) : valSignals (a ++ b) = valSignals a ++ valSignals b := by
  simp [valSignals]

theorem servedClients (d : DriverData m) : (served d).clients = d.clients := by
  unfold served
  split
  · rfl
  · split <;> rfl

theorem servedIdle {client : HwFenceClient} (reader : d.clients hwFenceClientIdCtx0 = some client)
    (idle : (rxQueue d client).readIndex = (rxQueue d client).writeIndex) : served d = d := by
  unfold served
  rw [reader]
  dsimp only
  split
  · unfold rxQueue at idle
    have same : {d.queue client.clientId (hwFenceRxQueue-1) with
        readIndex := (d.queue client.clientId (hwFenceRxQueue-1)).writeIndex} =
        d.queue client.clientId (hwFenceRxQueue-1) := by
      rw [← idle]
    unfold DriverData.onQueue
    dsimp only
    rw [same,Function.update_eq_self,Function.update_eq_self]
  · rfl

theorem servedReadOn {client : HwFenceClient} (reader : d.clients hwFenceClientIdCtx0 = some client)
    (header : (client.queues (hwFenceRxQueue-1)).vaHeader = true) : served (readOn d client) = served d := by
  have reader' : (readOn d client).clients hwFenceClientIdCtx0 = some client := reader
  unfold served
  rw [reader,reader']
  simp [header,readOn,DriverData.onQueue]

theorem gfxPass (d : DriverData m) (payload : Payload) :
    (∃ a, (processGfxClientLoopbackPass payload).run d = (.stop a,served d)) ∨
      ∃ payload' d', (processGfxClientLoopbackPass payload).run d = (.next payload',d') ∧
        served d' = served d := by
  cases reader : d.clients hwFenceClientIdCtx0 with
  | none =>
    have same : served d = d := by
      unfold served
      rw [reader]
    exact .inl ⟨.error .einval,by simp [processGfxClientLoopbackPass,readQueue,reader,same]⟩
  | some client =>
    cases header : (client.queues (hwFenceRxQueue-1)).vaHeader with
    | false =>
      have same : served d = d := by
        unfold served
        rw [reader]
        simp [header]
      have ran : (hwFenceReadQueue client (hwFenceRxQueue-1)).run d = ((.error .einval,none),d) := by
        have kind : ¬ hwFenceClientQueues ≤ hwFenceRxQueue-1 := by decide
        unfold hwFenceReadQueue
        rw [if_neg kind]
        simp [header]
      exact .inl ⟨.error .einval,by simp [processGfxClientLoopbackPass,readQueue,reader,ran,same]⟩
    | true =>
      by_cases idle : (rxQueue d client).readIndex = (rxQueue d client).writeIndex
      · have pass := @passIdle _ .loopback _ _ payload reader header idle
        exact .inl ⟨_,by rw [servedIdle reader idle]; exact pass⟩
      · have pass := @passReads _ .loopback _ _ payload reader header idle
        simp only [Drain.pass,Drain.finds,Bool.false_eq_true,false_or] at pass
        by_cases last : nextIdx (rxSizeU32 client) (rxQueue d client).readIndex = (rxQueue d client).writeIndex
        · have empty : (rxQueue (readOn d client) client).readIndex =
              (rxQueue (readOn d client) client).writeIndex := by
            rw [readOnQueue]
            exact last
          rw [if_pos last] at pass
          have reader' : (readOn d client).clients hwFenceClientIdCtx0 = some client := reader
          rw [← servedReadOn reader header,servedIdle reader' empty]
          exact .inl ⟨_,pass⟩
        · rw [if_neg last] at pass
          exact .inr ⟨_,_,pass,servedReadOn reader header⟩

theorem gfxRun {fuel : Nat} {payload : Payload} {read : Except Errno Nat}
    (ran : (processGfxClientLoopback fuel payload).run d = (some read,d')) : d' = served d := by
  induction fuel generalizing payload d with
  | zero => simp [processGfxClientLoopback,loop] at ran
  | succ fuel ih =>
    simp only [processGfxClientLoopback,loop,runBind] at ran ih
    rcases gfxPass d payload with ⟨a,stopped⟩ | ⟨payload',d₁,next,same⟩
    · rw [stopped] at ran
      exact (congrArg Prod.snd ran).symm
    · rw [next] at ran
      rw [← same]
      exact ih ran

theorem gfxQuiet (fuel : Nat) (payload : Payload) (d : DriverData m) :
    valSignals ((processGfxClientLoopback fuel payload).events d) = [] := by
  have each : (processGfxClientLoopback (m := m) fuel payload).Each fun _ ev =>
      ∀ d, ∀ e ∈ ev d, ∀ id, e ≠ .valSignal id := by
    refine eachLoop (fun payload => ?_) fuel payload
    unfold processGfxClientLoopbackPass readQueue
    refine eachBind (eachAtomic (by simp)) fun client => eachBind ?_ fun read => ?_
    · cases client with
      | none => trivial
      | some client =>
        unfold hwFenceReadQueue
        refine eachBind (eachIte (fun _ => trivial) fun _ => eachIte (fun _ => trivial) fun _ => eachAtomic ?_)
          fun _ => trivial
        intro d e mem id same
        obtain ⟨word,-,rfl⟩ := List.mem_map.mp mem
        cases same
    · obtain ⟨read,payload⟩ := read
      cases read <;> trivial
  have none := eachEvents each (E := fun e => ∀ id, e ≠ .valSignal id) (fun _ _ h => h) d
  rw [valSignals,List.filterMap_eq_nil_iff]
  intro e mem
  cases e with
  | valSignal id => exact absurd rfl (none _ mem id)
  | _ => rfl

def tells (clients : Nat → Option HwFenceClient) (clientId : Nat) : Bool :=
  (hwFenceClientIdVal0 ≤ clientId && clientId ≤ hwFenceClientIdVal6) && (clients clientId).isSome

theorem clientRun (h : Handlers) (d : DriverData m) (clientId : Nat) :
    let p := processDoorbellClient h clientId
    ((p.run d).1 = some () ↔ (clientId = hwFenceLoopbackGfxCtx0 →
      ((processGfxClientLoopback h.fuel h.payload).run d).1.isSome)) ∧
    ((p.run d).1 = some () → (p.run d).2 = if clientId = hwFenceLoopbackGfxCtx0 then served d else d) ∧
    valSignals (p.events d) = if tells d.clients clientId then [clientId] else [] := by
  unfold processDoorbellClient
  by_cases dpu : clientId ≤ hwFenceLoopbackDpuCtl5
  · have gfx : clientId ≠ hwFenceLoopbackGfxCtx0 := by
      rintro rfl
      exact absurd dpu (by decide)
    have val : tells d.clients clientId = false := by
      have low : ¬ hwFenceClientIdVal0 ≤ clientId := fun high => absurd (high.trans dpu) (by decide)
      simp [tells,low]
    simp [dpu,gfx,val,valSignals]
  · by_cases gfx : clientId = hwFenceLoopbackGfxCtx0
    · subst gfx
      have val : tells d.clients hwFenceLoopbackGfxCtx0 = false := rfl
      have quiet := gfxQuiet h.fuel h.payload d
      have ends : ∀ read d', (processGfxClientLoopback h.fuel h.payload).run d = (some read,d') →
          d' = served d := fun _ _ => gfxRun
      rw [if_neg dpu,if_pos rfl]
      simp only [runBind,eventsBind,valSignalsAppend,quiet,val]
      generalize (processGfxClientLoopback h.fuel h.payload).run d = r at ends
      obtain ⟨read,d'⟩ := r
      cases read with
      | none => simp [valSignals]
      | some read => simp [valSignals,ends read d' rfl]
    · rw [if_neg dpu,if_neg gfx]
      by_cases val : hwFenceClientIdVal0 ≤ clientId ∧ clientId ≤ hwFenceClientIdVal6
      · have inside : ¬ (clientId < hwFenceClientIdVal0 ∨ hwFenceClientIdVal6 < clientId) := by omega
        unfold processValidationClientLoopback emit
        rw [if_pos val,if_neg inside]
        cases registered : (d.clients clientId).isSome <;>
          simp [gfx,tells,val.1,val.2,registered,valSignals]
      · have untold : tells d.clients clientId = false := by
          simp [tells]
          intro low high
          exact absurd ⟨low,high⟩ val
        simp [val,gfx,untold,valSignals]

theorem visitsRun (h : Handlers) (ids : List Nat) (nodup : ids.Nodup) (d : DriverData m) :
    let p := visits h ids
    ((p.run d).1 = some () ↔ (hwFenceLoopbackGfxCtx0 ∈ ids →
      ((processGfxClientLoopback h.fuel h.payload).run d).1.isSome)) ∧
    ((p.run d).1 = some () →
      (p.run d).2 = (if hwFenceLoopbackGfxCtx0 ∈ ids then served d else d) ∧
        valSignals (p.events d) = ids.filter (tells d.clients)) := by
  induction ids generalizing d with
  | nil => simp [visits,valSignals]
  | cons clientId rest ih =>
    obtain ⟨ends,leaves,tells⟩ := clientRun h d clientId
    obtain ⟨fresh,nodup⟩ := List.nodup_cons.mp nodup
    simp only [visits,runBind,eventsBind,valSignalsAppend]
    cases stopped : ((processDoorbellClient h clientId).run d).1 with
    | none =>
      rw [stopped] at ends
      have gfx : ¬ (clientId = hwFenceLoopbackGfxCtx0 →
          ((processGfxClientLoopback h.fuel h.payload).run d).1.isSome) := fun all => by simpa using ends.mpr all
      obtain ⟨same,stuck⟩ := Classical.not_imp.mp gfx
      simp [same,stuck]
    | some u =>
      have after := leaves stopped
      have own := ends.mp stopped
      dsimp only
      rw [after,tells]
      by_cases gfx : clientId = hwFenceLoopbackGfxCtx0
      · rw [if_pos gfx]
        obtain ⟨ends',leaves'⟩ := ih nodup (served d)
        have none : hwFenceLoopbackGfxCtx0 ∉ rest := gfx ▸ fresh
        have mem : hwFenceLoopbackGfxCtx0 ∈ clientId::rest := by simp [gfx]
        refine ⟨⟨fun _ _ => own gfx,fun _ => ends'.mpr fun mem => absurd mem none⟩,fun done => ?_⟩
        obtain ⟨state,told⟩ := leaves' done
        rw [if_neg none] at state
        rw [if_pos mem,state,told,servedClients,List.filter_cons]
        refine ⟨rfl,?_⟩
        split <;> rfl
      · rw [if_neg gfx]
        obtain ⟨ends',leaves'⟩ := ih nodup d
        have mem : hwFenceLoopbackGfxCtx0 ∈ clientId::rest ↔ hwFenceLoopbackGfxCtx0 ∈ rest := by
          simp [Ne.symm gfx]
        refine ⟨ends'.trans (by rw [mem]),fun done => ?_⟩
        obtain ⟨state,told⟩ := leaves' done
        rw [state,told,List.filter_cons]
        refine ⟨by simp only [mem],?_⟩
        split <;> rfl

end Served

section Callbacks
variable {m : Nat} {β : Type} {dbl : Dbl β} {flags : β → U64}

theorem callbackServes (documented : Documented dbl flags) (start : Doorbell m β) (quiet : flags start.dbl = 0)
    (events : List (DoorbellEvent m)) (h : Handlers) :
    let s := after (Doorbell.step dbl) start events
    let p : Prog Event (Doorbell m β) (Option Unit) := hwFenceCb dbl h
    let gfx := Pending dbl start events hwFenceLoopbackGfxCtx0
    (¬ Reads dbl s → (p.run s).1 = some () ∧ (p.run s).2.d = s.d ∧ valSignals (p.events s) = []) ∧
    (Reads dbl s →
      ((p.run s).1 = some () ↔ (gfx → ((processGfxClientLoopback h.fuel h.payload).run s.d).1.isSome)) ∧
      ((p.run s).1 = some () →
        (gfx → (p.run s).2.d = served s.d) ∧ (¬ gfx → (p.run s).2.d = s.d) ∧
        (valSignals (p.events s)).Pairwise (· < ·) ∧
        ∀ k, k ∈ valSignals (p.events s) ↔ tells s.d.clients k ∧ Pending dbl start events k)) := by
  intro s p gfx
  dsimp only [p,hwFenceCb,ghDblReadAndClean]
  simp only [runBind,runAtomic,eventsBind,eventsAtomic,List.nil_append]
  cases read : (dbl.readAndClean hwFenceLoopbackClientsMask s.dbl).1 with
  | none =>
    have unread : ¬ Reads dbl s := by simp [Reads,read]
    exact ⟨fun _ => ⟨rfl,rfl,rfl⟩,fun reads => absurd reads unread⟩
  | some dbFlags =>
    have reads : Reads dbl s := by simp [Reads,read]
    refine ⟨fun unread => absurd reads unread,fun _ => ?_⟩
    have all : dbFlags = flags s.dbl := documented.returns _ _ _ read
    have pending : ∀ k, dbFlags.getLsbD k = true ↔ Pending dbl start events k := fun k =>
      all ▸ pendingIff documented quiet events k
    have mem : ∀ k, k ∈ flagged dbFlags (List.range hwFenceLoopbackMax) ↔
        k < hwFenceLoopbackMax ∧ Pending dbl start events k := by
      intro k
      rw [flagged,List.mem_filter,List.mem_range,pending]
    have rung : hwFenceLoopbackGfxCtx0 ∈ flagged dbFlags (List.range hwFenceLoopbackMax) ↔ gfx :=
      (mem _).trans (and_iff_right (by decide))
    have nodup : (flagged dbFlags (List.range hwFenceLoopbackMax)).Nodup := List.nodup_range.filter _
    have sorted : (flagged dbFlags (List.range hwFenceLoopbackMax)).Pairwise (· < ·) :=
      List.pairwise_lt_range.filter _
    obtain ⟨ends,leaves⟩ := visitsRun h _ nodup s.d
    simp only [runWithin,eventsWithin,List.map_id,maskVisits]
    refine ⟨ends.trans (by rw [rung]),fun done => ?_⟩
    obtain ⟨state,told⟩ := leaves done
    dsimp only [driverPart]
    rw [told,state]
    refine ⟨fun on => if_pos (rung.mpr on),fun off => if_neg fun here => off (rung.mp here),sorted.filter _,
      fun k => ?_⟩
    rw [List.mem_filter,mem]
    constructor
    · rintro ⟨⟨-,on⟩,tells⟩
      exact ⟨tells,on⟩
    · rintro ⟨tells,on⟩
      refine ⟨⟨?_,on⟩,tells⟩
      simp only [DoorbellFlags.tells,Bool.and_eq_true,decide_eq_true_eq] at tells
      unfold hwFenceLoopbackMax
      omega

def softDbl : Dbl U64 := ⟨fun rung flags => flags ||| rung,fun mask flags => (some flags,flags &&& ~~~mask)⟩

theorem softDocumented : Documented softDbl id where
  sends := fun _ _ => rfl
  returns := fun _ _ _ read => (Option.some.inj read).symm
  cleans := fun _ _ _ => rfl
  fails := fun _ _ failed => by cases failed

def gfxClient : HwFenceClient := {HwFenceClient.plain 1 oneKnown with queues := fun _ => ⟨128,true⟩}
theorem firstVal : 0 < 8 ∧ 8 < hwFenceClientMax := by decide

def rungClients (id : Nat) : Option HwFenceClient :=
  [gfxClient,.plain 8 firstVal].find? fun c => c.clientId = id

theorem rungOwnId (id : Nat) (c : HwFenceClient) (found : rungClients id = some c) : c.clientId = id := by
  simpa using List.find?_some found

def gfxDriver : DriverData 1 :=
  {DriverData.unused 1 oneEntry with
    clients := rungClients, queue := fun _ _ => ⟨0,16,0,fun _ => 0⟩, entries := oneEntry, ownId := rungOwnId}

def onePass : Handlers := ⟨fun _ => false,⟨0,0,0,0,0,0⟩,1⟩

def bothRung : List (DoorbellEvent 1) := [.ring 0x100,.callback onePass,.ring 0x40]

def rungState : Doorbell 1 U64 := after (Doorbell.step softDbl) ⟨0,gfxDriver⟩ bothRung

theorem bothServed : ((hwFenceCb softDbl onePass).run rungState).2.d = served rungState.d ∧
    8 ∈ valSignals ((hwFenceCb softDbl onePass).events rungState) := by
  have pending : ∀ k, rungState.dbl.getLsbD k = true ↔ Pending softDbl ⟨0,gfxDriver⟩ bothRung k :=
    pendingIff softDocumented rfl bothRung
  have gfx : Pending softDbl ⟨0,gfxDriver⟩ bothRung hwFenceLoopbackGfxCtx0 := (pending _).mp (by decide +kernel)
  have val : Pending softDbl ⟨0,gfxDriver⟩ bothRung 8 := (pending _).mp (by decide +kernel)
  obtain ⟨ends,leaves⟩ := (callbackServes softDocumented ⟨0,gfxDriver⟩ rfl bothRung onePass).2 rfl
  obtain ⟨drained,-,-,told⟩ := leaves (ends.mpr fun _ => by decide +kernel)
  exact ⟨drained gfx,(told 8).mpr ⟨by decide +kernel,val⟩⟩

end Callbacks
end MmDrivers.DoorbellFlags

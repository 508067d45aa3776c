import MmDrivers.ArrayReleases
import MmDrivers.RegisterRuns

/-! Sessions over whole runs of ioctls: which handles they give to the driver. The
driver is found in any state by each call, since others use it in between. -/
namespace MmDrivers.SyncSession
open Sections Sections.Prog FenceTypes DeviceTree CarveOut Loops Parts QueueDrain Registration RegisterRuns
open SyncIoctl FenceWait ArrayReleases Runs

section Model
variable {m : Nat}

inductive Ioctl (m : Nat) where
  | regClient (arg : Option Int) (kzalloc : Bool)
  | unregClient (arg : Option Int)
  | createFence (call : CreateFence m)
  | createFenceArray (call : CreateFenceArray m)
  | regForWait (call : RegForWait m)
  | fenceSignal (call : FenceSignalCall m)
  | fenceWait (call : FenceWait m) (reads : Nat)
  | resetClient (call : ResetCall m)

def Ioctl.prog (p : Platform) : Ioctl m → Sync m Outcome
  | .regClient arg kzalloc => hwSyncIoctlRegClient p arg kzalloc
  | .unregClient _ => hwSyncIoctlUnregClient p
  | .createFence call => hwSyncIoctlCreateFence call
  | .createFenceArray call => hwSyncIoctlCreateFenceArray call
  | .regForWait call => hwSyncIoctlRegForWait call
  | .fenceSignal call => hwSyncIoctlFenceSignal call
  | .fenceWait call reads => hwSyncIoctlFenceWait call reads
  | .resetClient call => hwSyncIoctlResetClient call

structure Call (m : Nat) where
  session : Nat
  found : Registry m
  refs : FenceRefs
  below : Nat → List Nat
  ioctl : Ioctl m

/-- Any number of open sessions, the handles their fences keep, and all that they did so far. -/
structure World where
  sessions : Nat → HwSyncObj
  grants : Nat
  kept : Nat → Option Handle
  log : List (Nat × SyncEvent)

def Call.start (w : World) (c : Call m) : SyncState m :=
  ⟨w.sessions c.session,w.grants,c.found,c.refs,w.kept,c.below⟩

def Call.run (p : Platform) (w : World) (c : Call m) : Outcome × SyncState m :=
  (c.ioctl.prog p).run (c.start w)

def Call.events (p : Platform) (w : World) (c : Call m) : List SyncEvent :=
  (c.ioctl.prog p).events (c.start w)

def logged (c : Call m) (events : List SyncEvent) : List (Nat × SyncEvent) :=
  events.map fun e => (c.session,e)

def Call.step (p : Platform) (w : World) (c : Call m) : World where
  sessions := Function.update w.sessions c.session (c.run p w).2.obj
  grants := (c.run p w).2.grants
  kept := (c.run p w).2.kept
  log := w.log ++ logged c (c.events p w)

def started (contexts : Nat → U64) : World :=
  ⟨fun session => .opened (contexts session),0,fun _ => none,[]⟩

def given : SyncEvent → Option Handle
  | .passed handle | .released handle => some handle
  | _ => none

def Held (log : List (Nat × SyncEvent)) (session : Nat) (handle : Handle) : Prop :=
  ∃ grant c, handle = .client grant c ∧ (session,.granted grant) ∈ log ∧
    ∀ other, (other,.revoked grant) ∉ log

structure Lawful (p : Platform) (w : World) (c : Call m) : Prop where
  passes : ∀ pre e handle post, c.events p w = pre ++ e::post → given e = some handle →
    Held (w.log ++ logged c pre) c.session handle
  failures : ∀ arg kzalloc e, c.ioctl = .regClient arg kzalloc → (c.run p w).1 = .returned (.error e) →
    (w.sessions c.session).clientHandle.isNull = true →
    ((c.step p w).sessions c.session).clientHandle.isNull = true

def Ioctl.reaches : Ioctl m → Bool
  | .regClient _ _ | .unregClient _ | .createFenceArray _ => false
  | .createFence call => call.data.isSome && call.lockMem && call.fenceMem
  | .regForWait call =>
    call.fd.any fun fd => decide (0 ≤ fd) && (call.syncFileGetFence fd).isSome
  | .fenceSignal call => call.copied
  | .fenceWait call _ =>
    (call.data.any fun data => decide (0 ≤ data.1) && (call.syncFileGetFence data.1).isSome) &&
      call.arrived
  | .resetClient call => call.copied

def Ioctl.releases (s : SyncState m) : Ioctl m → Handle → Prop
  | .createFenceArray call,handle => ∃ base, OverPuts call s base ∧ Gives s base handle
  | _,_ => False

def Left (w : World) (session : Nat) : Prop :=
  ∃ grant c other, (w.sessions session).clientHandle = .client grant c ∧ (other,.revoked grant) ∈ w.log

def Joined (w : World) (session : Nat) : Prop :=
  (w.sessions session).clientHandle.isErrOrNull = false ∧ ¬ Left w session

def accepts (p : Platform) (found : Registry m) (arg : Option Int) (kzalloc : Bool) : Prop :=
  ∃ client, ((msmHwFenceRegister p (clientIdExt (getClientId arg)) true kzalloc).run found).1 =
    .ok client

/-- A session without a handle registers successfully if it registers; it unregisters only
while registered; after that, none of its calls comes to the driver. No array call releases a fence
that gives another handle than the session's own. -/
def Orderly (p : Platform) (w : World) (c : Call m) : Prop :=
  match c.ioctl with
  | .regClient arg kzalloc =>
    (w.sessions c.session).clientHandle.isNull = true → accepts p c.found arg kzalloc
  | .unregClient _ => Joined w c.session
  | ioctl => (ioctl.reaches = true → ¬ Left w c.session) ∧
    ∀ handle, ioctl.releases (c.start w) handle → Held w.log c.session handle

end Model

section Uses
variable {m : Nat}

def OwnEvent (handle : Handle) : SyncEvent → Prop
  | .passed h => h = handle
  | .granted _ | .revoked _ => False
  | _ => True

structure Own (handle : Handle) (upd : SyncState m → SyncState m) (ev : SyncState m → List SyncEvent) :
    Prop where
  keepsHandle : ∀ s, (upd s).obj.clientHandle = s.obj.clientHandle
  keepsId : ∀ s, (upd s).obj.clientId = s.obj.clientId
  events : ∀ s, ∀ e ∈ ev s, OwnEvent handle e

variable {handle : Handle}

theorem ownPassed (_ : SyncState m) (e : SyncEvent) (mem : e ∈ [SyncEvent.passed handle]) :
    OwnEvent handle e := by
  rw [List.mem_singleton.mp mem]
  rfl

theorem ownSilent (_ : SyncState m) (e : SyncEvent) (mem : e ∈ ([] : List SyncEvent)) :
    OwnEvent handle e := absurd mem List.not_mem_nil

theorem ownCall (call : DriverCall m) : (callDriver handle call).Each (Own handle) :=
  eachAtomic ⟨fun _ => rfl,fun _ => rfl,ownPassed⟩

theorem ownPass : (passes handle : Sync m Unit).Each (Own handle) :=
  eachAtomic ⟨fun _ => rfl,fun _ => rfl,ownPassed⟩

theorem ownRefs (f : FenceRefs → FenceRefs) : (onRefs f : Sync m Unit).Each (Own handle) :=
  eachAtomic ⟨fun _ => rfl,fun _ => rfl,ownSilent⟩

theorem ownObserve {α : Type} (read : SyncState m → α) :
    (observe read : Sync m α).Each (Own handle) :=
  eachAtomic ⟨fun _ => rfl,fun _ => rfl,ownSilent⟩

theorem ownPut (destroyed : Nat → DriverCall m) (base : Nat) :
    (putFence destroyed base).Each (Own handle) := by
  refine eachBind (ownObserve _) fun handles => eachBind (eachAtomic ⟨fun _ => rfl,fun _ => rfl,ownSilent⟩)
    fun _ => eachWhenever fun _ => eachAtomic ⟨fun _ => rfl,fun _ => rfl,fun _ e mem => ?_⟩
  obtain ⟨handle,-,rfl⟩ := List.mem_map.mp mem
  trivial

theorem ownPuts (destroyed : Nat → DriverCall m) (bases : List Nat) :
    (putFences destroyed bases).Each (Own handle) := by
  induction bases with
  | nil => trivial
  | cons base rest ih => exact eachBind (ownPut _ _) fun _ => ih

theorem ownPutArray (destroyed : Nat → DriverCall m) : (putArray destroyed).Each (Own handle) := by
  refine eachBind (ownObserve _) fun array => eachBind (ownRefs _) fun _ => ?_
  cases array with
  | none => trivial
  | some a => exact eachWhenever fun _ => ownPuts _ _

theorem ownFence (files : Int → Option SyncFence) (fd : Int) :
    (hwSyncGetFence files fd : Sync m _).Each (Own handle) := by
  unfold hwSyncGetFence
  refine eachIte (fun _ => ?_) fun _ => trivial
  cases files fd with
  | none => trivial
  | some fence => exact eachBind (eachAtomic ⟨fun _ => rfl,fun _ => rfl,ownSilent⟩) fun _ => trivial

def UsesOwn (prog : Sync m Outcome) : Prop :=
  ∀ s, (prog.run s).2.obj.clientHandle = s.obj.clientHandle ∧ (prog.run s).2.obj.clientId = s.obj.clientId ∧
    ∀ e ∈ prog.events s, OwnEvent s.obj.clientHandle e

theorem ownRun {α : Type} {prog : Sync m α} (own : prog.Each (Own handle)) (s : SyncState m) :
    (prog.run s).2.obj.clientHandle = s.obj.clientHandle ∧ (prog.run s).2.obj.clientId = s.obj.clientId ∧
      ∀ e ∈ prog.events s, OwnEvent handle e := by
  refine ⟨?_,?_,eachEvents own (fun _ _ h => h.events) s⟩
  · exact eachRun (R := fun s s' => s'.obj.clientHandle = s.obj.clientHandle) own
      (fun _ _ h => h.keepsHandle) (fun _ => rfl)
      (fun a _ c ab bc => show c.obj.clientHandle = a.obj.clientHandle from Eq.trans bc ab) s
  · exact eachRun (R := fun s s' => s'.obj.clientId = s.obj.clientId) own
      (fun _ _ h => h.keepsId) (fun _ => rfl)
      (fun a _ c ab bc => show c.obj.clientId = a.obj.clientId from Eq.trans bc ab) s

theorem usesRest {rest : HwSyncObj → Sync m Outcome} (own : ∀ obj, (rest obj).Each (Own obj.clientHandle)) :
    UsesOwn ((observe fun s => s.obj) >>= rest) := by
  intro s
  simp only [runBind,runObserve,eventsBind,eventsObserve,List.nil_append]
  exact ownRun (own s.obj) s

theorem usesCreateFence (call : CreateFence m) : UsesOwn (hwSyncIoctlCreateFence call) := by
  refine usesRest fun obj => eachIte (fun _ => trivial) fun _ => eachIte (fun _ => trivial) fun _ => ?_
  have put : call.putFence.Each (Own obj.clientHandle) := ownPut _ _
  cases call.data with
  | none => trivial
  | some data =>
    refine eachIte (fun _ => trivial) fun _ => eachBind (eachAtomic ⟨fun _ => rfl,fun _ => rfl,ownSilent⟩)
      fun _ => eachBind (ownCall _) fun status => ?_
    cases status with
    | error e => exact eachBind put fun _ => trivial
    | ok done =>
      refine eachBind (eachAtomic ⟨fun _ => rfl,fun _ => rfl,ownSilent⟩) fun _ =>
        eachBind (eachWhenever fun _ => eachAtomic ⟨fun _ => rfl,fun _ => rfl,ownSilent⟩) fun _ => ?_
      cases call.unusedFd with
      | error e => exact eachBind put fun _ => trivial
      | ok fd =>
        refine eachIte (fun _ => eachBind put fun _ => trivial) fun _ =>
          eachBind (ownRefs _) fun _ => eachBind put fun _ => eachIte (fun _ => ?_) fun _ => trivial
        exact eachBind put fun _ => eachBind put fun _ => trivial

theorem usesRegForWait (call : RegForWait m) : UsesOwn (hwSyncIoctlRegForWait call) := by
  refine usesRest fun obj => eachIte (fun _ => trivial) fun _ => ?_
  cases call.fd with
  | none => trivial
  | some fd =>
    refine eachBind (ownFence _ _) fun fence => ?_
    cases fence with
    | none => trivial
    | some fence =>
      refine eachBind (ownCall _) fun status => eachBind (ownPut _ _) fun _ => ?_
      cases status <;> trivial

theorem usesFenceSignal (call : FenceSignalCall m) : UsesOwn (hwSyncIoctlFenceSignal call) := by
  refine usesRest fun obj => eachIte (fun _ => trivial) fun _ => eachIte (fun _ => trivial) fun _ =>
    eachIte (fun _ => trivial) fun _ => eachBind (ownCall _) fun updated => ?_
  cases updated with
  | error e => trivial
  | ok done =>
    refine eachIte (fun _ => trivial) fun _ => eachBind (ownCall _) fun triggered => ?_
    cases triggered <;> trivial

theorem usesFenceWait (call : FenceWait m) (reads : Nat) :
    UsesOwn (hwSyncIoctlFenceWait call reads : Sync m Outcome) := by
  refine usesRest fun obj => eachIte (fun _ => trivial) fun _ => ?_
  cases call.data with
  | none => trivial
  | some data =>
    refine eachBind (ownFence _ _) fun fence => ?_
    cases fence with
    | none => trivial
    | some fence =>
      obtain ⟨context,clientId,handle⟩ := obj
      cases handle with
      | null => exact eachBind (ownPut _ _) fun _ => trivial
      | error e => trivial
      | client grant client =>
        refine eachIte (fun _ => eachBind (ownPut _ _) fun _ => trivial) fun _ =>
          eachBind (eachAtomic ⟨fun _ => rfl,fun _ => rfl,?_⟩) fun _ => eachBind ?_ fun read => ?_
        · intro _ e mem
          rw [List.mem_singleton.mp mem]
          trivial
        · refine eachLoop (fun payload => eachBind ownPass fun _ => ?_) _ _
          refine eachWithin fun upd ev => ⟨fun _ => rfl,fun _ => rfl,fun s e mem => ?_⟩
          obtain ⟨inner,-,rfl⟩ := List.mem_map.mp mem
          trivial
        · cases read with
          | none => trivial
          | some read => exact eachBind (ownPut _ _) fun _ => trivial

theorem usesReset (call : ResetCall m) : UsesOwn (hwSyncIoctlResetClient call) := by
  refine usesRest fun obj => eachIte (fun _ => trivial) fun _ => eachIte (fun _ => trivial) fun _ =>
    eachIte (fun _ => trivial) fun _ => eachBind (ownCall _) fun status => ?_
  cases status <;> trivial

theorem ownChildren (call : CreateFenceArray m) (fds : List Int) (fences : List Nat) :
    (getChildFences call fds fences).Each (Own handle) := by
  induction fds generalizing fences with
  | nil => trivial
  | cons fd rest ih =>
    refine eachIte (fun _ => trivial) fun _ => eachBind (ownFence _ _) fun fence => ?_
    cases fence with
    | none => exact eachBind (ownPuts _ _) fun _ => trivial
    | some fence => exact ih _

theorem ownMake (call : CreateFenceArray m) (fences : List Nat) :
    (makeFenceArray call fences).Each (Own handle) := by
  refine eachIte (fun _ => eachBind (ownPuts _ _) fun _ => trivial) fun _ =>
    eachBind (ownRefs _) fun _ => ?_
  have put : (putArray call.destroyed).Each (Own handle) := ownPutArray _
  cases call.unusedFd with
  | error e => exact eachBind put fun _ => trivial
  | ok fd =>
    refine eachIte (fun _ => eachBind put fun _ => trivial) fun _ =>
      eachIte (fun _ => eachBind put fun _ => eachBind (ownRefs _) fun _ => trivial) fun _ =>
      eachBind (ownRefs _) fun _ => eachBind put fun _ => eachIte (fun _ => ?_) fun _ => trivial
    exact eachBind put fun _ => eachBind put fun _ => trivial

theorem ownCreateFenceArray (handle : Handle) (call : CreateFenceArray m) :
    (hwSyncIoctlCreateFenceArray call).Each (Own handle) := by
  refine eachBind (ownObserve _) fun obj => eachIte (fun _ => trivial) fun _ =>
    eachIte (fun _ => trivial) fun _ => ?_
  cases call.data with
  | none => trivial
  | some data =>
    refine eachIte (fun _ => trivial) fun _ => eachIte (fun _ => trivial) fun _ =>
      eachBind (ownChildren _ _ _) fun fences => ?_
    cases fences with
    | error e => trivial
    | ok fences => exact ownMake call fences

end Uses

section Reaches
variable {m : Nat} {p : Platform} {s : SyncState m} {ioctl : Ioctl m}

def Ioctl.uses : Ioctl m → Bool
  | .regClient _ _ | .unregClient _ => false
  | _ => true

theorem usesProg (use : ioctl.uses = true) : UsesOwn (ioctl.prog p) := by
  cases ioctl with
  | regClient arg kzalloc => contradiction
  | unregClient arg => contradiction
  | createFence call => exact usesCreateFence call
  | createFenceArray call => exact fun s => ownRun (ownCreateFenceArray _ call) s
  | regForWait call => exact usesRegForWait call
  | fenceSignal call => exact usesFenceSignal call
  | fenceWait call reads => exact usesFenceWait call reads
  | resetClient call => exact usesReset call

theorem invalidSilent (use : ioctl.uses = true) (invalid : isValidClient s.obj = false) :
    (ioctl.prog p).events s = [] := by
  cases ioctl with
  | regClient arg kzalloc => contradiction
  | unregClient arg => contradiction
  | createFence call => simp [Ioctl.prog,hwSyncIoctlCreateFence,invalid,fail]
  | createFenceArray call => simp [Ioctl.prog,hwSyncIoctlCreateFenceArray,invalid,fail]
  | regForWait call => simp [Ioctl.prog,hwSyncIoctlRegForWait,invalid,fail]
  | fenceSignal call => simp [Ioctl.prog,hwSyncIoctlFenceSignal,invalid,fail]
  | fenceWait call reads => simp [Ioctl.prog,hwSyncIoctlFenceWait,invalid,fail]
  | resetClient call => simp [Ioctl.prog,hwSyncIoctlResetClient,invalid,fail]

def Passes (events : List SyncEvent) : Prop := ∃ handle, .passed handle ∈ events

theorem noPasses : ¬ Passes [] := by
  rintro ⟨handle,mem⟩
  exact absurd mem List.not_mem_nil

theorem passesFirst (handle : Handle) (rest : List SyncEvent) : Passes (.passed handle::rest) :=
  ⟨handle,List.mem_cons_self⟩

theorem createFencePasses {grant : Nat} {c : HwFenceClient} (call : CreateFence m)
    (valid : isValidClient s.obj = true) (own : s.obj.clientHandle = .client grant c) :
    Passes ((hwSyncIoctlCreateFence call).events s) ↔ (Ioctl.createFence call).reaches = true := by
  unfold hwSyncIoctlCreateFence Ioctl.reaches
  have handle : s.obj.clientHandle.isErrOrNull = false := by rw [own]; rfl
  cases data : call.data with
  | none => simp [valid,handle,data,noPasses]
  | some data =>
    by_cases lockMem : call.lockMem = true
    · by_cases fenceMem : call.fenceMem = true
      · simp [valid,handle,data,lockMem,fenceMem,passesFirst]
      · simp [valid,handle,data,lockMem,fenceMem,noPasses]
    · simp [valid,handle,data,lockMem,noPasses]

theorem regForWaitPasses (call : RegForWait m) (valid : isValidClient s.obj = true) :
    Passes ((hwSyncIoctlRegForWait call).events s) ↔ (Ioctl.regForWait call).reaches = true := by
  unfold hwSyncIoctlRegForWait Ioctl.reaches
  cases fd : call.fd with
  | none => simp [valid,fd,noPasses]
  | some n =>
    by_cases some : 0 ≤ n
    · cases file : call.syncFileGetFence n with
      | none => simp [valid,fd,some,file,noPasses]
      | some fence => simp [valid,fd,some,file,passesFirst]
    · simp [valid,fd,some,noPasses]

theorem fenceSignalPasses {grant : Nat} {c : HwFenceClient} (call : FenceSignalCall m)
    (valid : isValidClient s.obj = true) (own : s.obj.clientHandle = .client grant c) :
    Passes ((hwSyncIoctlFenceSignal call).events s) ↔ (Ioctl.fenceSignal call).reaches = true := by
  unfold hwSyncIoctlFenceSignal Ioctl.reaches
  have handle : s.obj.clientHandle.isErrOrNull = false := by rw [own]; rfl
  by_cases copied : call.copied = true
  · simp [valid,handle,copied,passesFirst]
  · simp [valid,handle,copied,noPasses]

theorem resetPasses {grant : Nat} {c : HwFenceClient} (call : ResetCall m)
    (valid : isValidClient s.obj = true) (own : s.obj.clientHandle = .client grant c) :
    Passes ((hwSyncIoctlResetClient call).events s) ↔ (Ioctl.resetClient call).reaches = true := by
  unfold hwSyncIoctlResetClient Ioctl.reaches
  have handle : s.obj.clientHandle.isErrOrNull = false := by rw [own]; rfl
  by_cases copied : call.copied = true
  · simp [valid,handle,copied,passesFirst]
  · simp [valid,handle,copied,noPasses]

theorem readsPass (handle : Handle) (client : HwFenceClient) (fence : DmaFence) (reads : Nat)
    (payload : Payload) (s : SyncState m) :
    ∃ later, (loop (fenceWaitRead handle client fence) (reads+1) payload).events s =
      .passed handle::later := by
  simp only [loop,fenceWaitRead,eventsBind,eventsPasses,List.cons_append]
  exact ⟨_,rfl⟩

theorem fenceWaitPasses {grant : Nat} {c : HwFenceClient} (call : FenceWait m) (reads : Nat)
    (valid : isValidClient s.obj = true) (own : s.obj.clientHandle = .client grant c) :
    Passes ((hwSyncIoctlFenceWait call reads).events s) ↔
      (Ioctl.fenceWait call reads : Ioctl m).reaches = true := by
  unfold hwSyncIoctlFenceWait Ioctl.reaches
  cases data : call.data with
  | none => simp [valid,data,noPasses]
  | some data' =>
    by_cases some : 0 ≤ data'.1
    · cases file : call.syncFileGetFence data'.1 with
      | none => simp [valid,data,some,file,noPasses]
      | some fence =>
        by_cases arrived : call.arrived = true
        · obtain ⟨later,passed⟩ := readsPass (m := m) (.client grant c) c fence.fence reads call.payload
            (s.get fence.base)
          refine iff_of_true ⟨.client grant c,?_⟩ (by simp [data,some,file,arrived])
          simp [valid,some,file,own,arrived,passed]
        · simp [valid,data,some,file,own,arrived,noPasses]
    · simp [valid,data,some,noPasses]

theorem passesIff {grant : Nat} {c : HwFenceClient} (use : ioctl.uses = true)
    (valid : isValidClient s.obj = true) (own : s.obj.clientHandle = .client grant c) :
    Passes ((ioctl.prog p).events s) ↔ ioctl.reaches = true := by
  cases ioctl with
  | regClient arg kzalloc => contradiction
  | unregClient arg => contradiction
  | createFence call => exact createFencePasses call valid own
  | createFenceArray call =>
    refine iff_of_false ?_ nofun
    rintro ⟨handle,mem⟩
    obtain ⟨other,base,same,-⟩ := (arrayReleases call s).mp mem
    cases same
  | regForWait call => exact regForWaitPasses call valid
  | fenceSignal call => exact fenceSignalPasses call valid own
  | fenceWait call reads => exact fenceWaitPasses call reads valid own
  | resetClient call => exact resetPasses call valid own

theorem releasesValid {handle : Handle} (releases : ioctl.releases s handle) :
    isValidClient s.obj = true := by
  cases ioctl with
  | createFenceArray call =>
    obtain ⟨base,often,-⟩ := releases
    exact often.collects.valid
  | _ => exact releases.elim

theorem releasesMem {handle : Handle} (releases : ioctl.releases s handle) :
    .released handle ∈ (ioctl.prog p).events s := by
  cases ioctl with
  | createFenceArray call =>
    obtain ⟨base,often,gives⟩ := releases
    exact (arrayReleases call s).mpr ⟨handle,base,rfl,often,gives⟩
  | _ => exact releases.elim

theorem initReleases (base : Nat) (s : SyncState m) : (s.init base).releases base = [] := by
  simp [SyncState.releases,SyncState.init]

theorem releasesRegistry (base : Nat) (r : Registry m) (s : SyncState m) :
    ({s with registry := r} : SyncState m).releases base = s.releases base := rfl

/-- A new fence that keeps a handle, whatever else the call has changed. -/
structure Fresh (base : Nat) (handle : Handle) (s : SyncState m) : Prop where
  counted : s.refs.fence base = 1
  kept : s.kept base = some handle
  below : s.below base = []

theorem Fresh.releases {base : Nat} {handle : Handle} (fresh : Fresh base handle s) :
    s.releases base = [handle] := by
  simp [SyncState.releases,fresh.counted,fresh.kept,fresh.below]

theorem Fresh.putReleases {base : Nat} {handle : Handle} (fresh : Fresh base handle s)
    (destroyed : Nat → DriverCall m) : (s.drop destroyed base).releases base = [] := by
  simp [SyncState.releases,SyncState.drop,SyncState.put,FenceRefs.put,fresh.counted]

/-- A second reference of a fence, taken and put, changes nothing. -/
theorem getDrop {base : Nat} (alive : 0 < s.refs.fence base) (destroyed : Nat → DriverCall m) :
    ({s with refs := s.refs.get base} : SyncState m).releases base = [] ∧
      ({s with refs := s.refs.get base} : SyncState m).drop destroyed base = s := by
  have more : ¬ s.refs.fence base+1 = 1 := by omega
  have quiet : ({s with refs := s.refs.get base} : SyncState m).releases base = [] := by
    simp [SyncState.releases,FenceRefs.get,more]
  refine ⟨quiet,?_⟩
  rw [SyncState.drop,if_pos quiet]
  simp [SyncState.put,FenceRefs.get,FenceRefs.put,more]

theorem runContext (incr : Bool) (f : HwSyncObj → HwSyncObj) (s : SyncState m) :
    (whenever (incr = true) (onObj f)).run s = ((),{s with obj := bif incr then f s.obj else s.obj}) ∧
      (whenever (incr = true) (onObj f)).events s = [] := by
  cases incr <;> exact ⟨rfl,rfl⟩

/-- What the call has made once its hw-fence is there. -/
def made (call : CreateFence m) (incr : Bool) (s : SyncState m) : SyncState m :=
  {SyncState.keep call.base s.obj.clientHandle {SyncState.init call.base s with registry := call.created.after} with
    obj := bif incr then {s.obj with context := call.newContext} else s.obj}

theorem madeFresh (call : CreateFence m) (incr : Bool) (s : SyncState m) :
    Fresh call.base s.obj.clientHandle (made call incr s) where
  counted := by simp [made,SyncState.keep,SyncState.init]
  kept := by simp [made,SyncState.keep]
  below := by simp [made,SyncState.keep,SyncState.init]

theorem createFenceReleased {handle : Handle} (call : CreateFence m)
    (mem : .released handle ∈ (hwSyncIoctlCreateFence call).events s) :
    handle = s.obj.clientHandle ∧ (Ioctl.createFence call).reaches = true := by
  unfold hwSyncIoctlCreateFence at mem
  rw [eventsBind,eventsObserve,runObserve,List.nil_append] at mem
  split at mem
  · cases mem
  split at mem
  · cases mem
  cases data : call.data with
  | none =>
    rw [data] at mem
    cases mem
  | some entry =>
    obtain ⟨seqno,incr⟩ := entry
    rw [data] at mem
    dsimp only at mem
    split at mem
    · cases mem
    rename_i memory
    have reaches : (Ioctl.createFence call).reaches = true := by
      simpa [Ioctl.reaches,data] using memory
    refine ⟨?_,reaches⟩
    simp only [CreateFence.putFence] at mem
    cases answer : call.created.answer with
    | error e => simp [answer,fail,releasesRegistry,initReleases] at mem
    | ok done =>
      have context := runContext (m := m) incr fun obj => {obj with context := call.newContext}
      simp only [answer,eventsBind,runAtomic,eventsAtomic,eventsCall,runCall,(context _).1,(context _).2,
        List.nil_append] at mem
      have fresh := madeFresh call incr s
      change SyncEvent.released handle ∈ [SyncEvent.passed s.obj.clientHandle] ++ Prog.events _ (made call incr s) at mem
      generalize made call incr s = t at mem fresh
      have once := fresh.releases
      cases fd : call.unusedFd with
      | error e => simpa [fd,fail,once] using mem
      | ok fd' =>
        by_cases file : call.syncFile = true
        case neg => simpa [fd,file,fail,once] using mem
        have alive : 0 < t.refs.fence call.base := by rw [fresh.counted]; decide
        obtain ⟨quiet,back⟩ := getDrop alive fun _ => call.destroyed
        by_cases copied : call.copyBack = true
        · simp [fd,file,copied,succeed,quiet] at mem
        · simpa [fd,file,copied,fail,quiet,back,once,fresh.putReleases] using mem

theorem regForWaitReleased {handle : Handle} (call : RegForWait m) :
    .released handle ∉ (hwSyncIoctlRegForWait call).events s := by
  unfold hwSyncIoctlRegForWait
  by_cases valid : isValidClient s.obj = true
  case neg => simp [valid,fail]
  cases call.fd with
  | none => simp [valid,fail]
  | some fd =>
    cases file : (if 0 ≤ fd then call.syncFileGetFence fd else none) with
    | none => simp [valid,file,fail]
    | some fence =>
      have quiet := getReleases fence.base s
      cases answer : call.waited.answer with
      | error e => simp [valid,file,fail,answer,releasesRegistry,quiet]
      | ok done => simp [valid,file,fail,answer,releasesRegistry,quiet]

def NoRelease (_upd : SyncState m → SyncState m) (ev : SyncState m → List SyncEvent) : Prop :=
  ∀ s, ∀ e ∈ ev s, ∀ handle, e ≠ .released handle

theorem noRelease {α : Type} {prog : Sync m α} (plain : prog.Each NoRelease) (s : SyncState m)
    (handle : Handle) : .released handle ∉ prog.events s :=
  fun mem => eachEvents plain (fun _ _ h => h) s _ mem handle rfl

theorem callPlain (handle : Handle) (call : DriverCall m) : (callDriver handle call).Each NoRelease := by
  refine eachAtomic fun s e mem handle => ?_
  rw [List.mem_singleton.mp mem]
  exact nofun

theorem fenceSignalPlain (call : FenceSignalCall m) : (hwSyncIoctlFenceSignal call).Each NoRelease := by
  refine eachBind (eachAtomic fun _ _ mem => absurd mem List.not_mem_nil) fun obj =>
    eachIte (fun _ => trivial) fun _ => eachIte (fun _ => trivial) fun _ => eachIte (fun _ => trivial)
      fun _ => eachBind (callPlain _ _) fun updated => ?_
  cases updated with
  | error e => trivial
  | ok done =>
    refine eachIte (fun _ => trivial) fun _ => eachBind (callPlain _ _) fun triggered => ?_
    cases triggered <;> trivial

theorem resetPlain (call : ResetCall m) : (hwSyncIoctlResetClient call).Each NoRelease := by
  refine eachBind (eachAtomic fun _ _ mem => absurd mem List.not_mem_nil) fun obj =>
    eachIte (fun _ => trivial) fun _ => eachIte (fun _ => trivial) fun _ => eachIte (fun _ => trivial)
      fun _ => eachBind (callPlain _ _) fun status => ?_
  cases status <;> trivial

theorem readsPlain (handle : Handle) (client : HwFenceClient) (fence : DmaFence) (fuel : Nat)
    (payload : Payload) : (loop (fenceWaitRead (m := m) handle client fence) fuel payload).Each NoRelease := by
  refine eachLoop (fun payload => eachBind (eachAtomic fun s e mem handle => ?_) fun _ =>
    eachWithin fun upd ev s e mem handle => ?_) fuel payload
  · rw [List.mem_singleton.mp mem]
    exact nofun
  · obtain ⟨inner,-,rfl⟩ := List.mem_map.mp mem
    exact nofun

theorem fenceWaitReleased {handle : Handle} (call : FenceWait m) (reads : Nat) :
    .released handle ∉ (hwSyncIoctlFenceWait call reads).events s := by
  unfold hwSyncIoctlFenceWait
  by_cases valid : isValidClient s.obj = true
  case neg => simp [valid,fail]
  cases call.data with
  | none => simp [valid,fail]
  | some data =>
    cases file : (if 0 ≤ data.1 then call.syncFileGetFence data.1 else none) with
    | none => simp [valid,file,fail]
    | some fence =>
      have quiet := getReleases fence.base s
      cases own : s.obj.clientHandle with
      | null => simp [valid,file,own,fail,quiet]
      | error e => simp [valid,file,own]
      | client grant client =>
        by_cases arrived : call.arrived = true
        case neg => simp [valid,file,own,arrived,fail,quiet]
        have reading := noRelease (readsPlain (.client grant client) client fence.fence (reads+1)
          call.payload) (s.get fence.base) handle
        have kept := readsRelease (.client grant client) client fence.fence (reads+1)
          fence.base call.payload (s.get fence.base)
        rw [quiet] at kept
        cases read : ((loop (fenceWaitRead (.client grant client) client fence.fence) (reads+1)
          call.payload).run (s.get fence.base)).1 with
        | none => simp [valid,file,own,arrived,read,reading]
        | some status => simp [valid,file,own,arrived,read,reading,kept]

theorem releasedOnly {handle : Handle} (use : ioctl.uses = true)
    (mem : .released handle ∈ (ioctl.prog p).events s) :
    handle = s.obj.clientHandle ∧ ioctl.reaches = true ∨ ioctl.releases s handle := by
  cases ioctl with
  | regClient arg kzalloc => contradiction
  | unregClient arg => contradiction
  | createFence call => exact .inl (createFenceReleased call mem)
  | createFenceArray call =>
    obtain ⟨other,base,same,often,gives⟩ := (arrayReleases call s).mp mem
    cases same
    exact .inr ⟨base,often,gives⟩
  | regForWait call => exact absurd mem (regForWaitReleased call)
  | fenceSignal call => exact absurd mem (noRelease (fenceSignalPlain call) s handle)
  | fenceWait call reads => exact absurd mem (fenceWaitReleased call reads)
  | resetClient call => exact absurd mem (noRelease (resetPlain call) s handle)

end Reaches

section Register
variable {m : Nat} {p : Platform} {s : SyncState m}

theorem invalidRefused (arg : Option Int) (kzalloc : Bool) (found : Registry m)
    (invalid : getClientId arg < hwFenceClientIdVal0 ∨ hwFenceClientIdVal6 < getClientId arg) :
    ¬ accepts p found arg kzalloc := by
  rintro ⟨client,ok⟩
  have code : getClientId arg = efaultCode ∨ getClientId arg = einvalCode := by
    cases arg with
    | none => exact .inl rfl
    | some clientId =>
      by_cases outside : clientId < hwFenceClientIdVal0 ∨ hwFenceClientIdVal6 < clientId
      · exact .inr (if_pos outside)
      · have same : getClientId (some clientId) = clientId := if_neg outside
        rw [same] at invalid
        exact absurd invalid outside
  have beyond : hwFenceClientMax ≤ clientIdExt (getClientId arg) := by
    rcases code with code | code <;> rw [code] <;> decide
  unfold msmHwFenceRegister at ok
  by_cases ready : found.d.resourcesReady = true
  · simp [ready,beyond] at ok
  · simp [ready] at ok

theorem regTaken (arg : Option Int) (kzalloc : Bool) (taken : s.obj.clientHandle.isNull = false) :
    (hwSyncIoctlRegClient p arg kzalloc).run s = (.returned (.error .einval),s) ∧
      (hwSyncIoctlRegClient p arg kzalloc).events s = [] := by
  simp [hwSyncIoctlRegClient,taken]

structure Joins (arg : Option Int) (prog : Sync m Outcome) (s : SyncState m) : Prop where
  returned : (prog.run s).1 = .returned (.ok 0)
  obj : ∃ client, (prog.run s).2.obj =
    {s.obj with clientId := getClientId arg, clientHandle := .client s.grants client}
  granted : .granted s.grants ∈ prog.events s
  silent : ∀ e ∈ prog.events s, given e = none

theorem regAccepted {arg : Option Int} {kzalloc : Bool} (free : s.obj.clientHandle.isNull = true)
    (accepted : accepts p s.registry arg kzalloc) :
    Joins arg (hwSyncIoctlRegClient p arg kzalloc) s := by
  obtain ⟨client,ok⟩ := accepted
  refine ⟨?_,⟨client,?_⟩,?_,?_⟩
  · simp [hwSyncIoctlRegClient,free,registryPart,ok]
  · simp [hwSyncIoctlRegClient,free,registryPart,ok]
  · simp [hwSyncIoctlRegClient,free,registryPart,ok]
  · intro e mem
    simp only [hwSyncIoctlRegClient,free,registryPart,ok,eventsBind,eventsObserve,runObserve,eventsOnObj,
      eventsWithin,runOnObj,runWithin,not_true_eq_false,if_false,List.nil_append,eventsAtomic,
      List.mem_append,List.mem_map] at mem
    rcases mem with ⟨a,-,rfl⟩ | mem
    · rfl
    · simp at mem
      rw [mem]
      rfl

theorem regRefused {arg : Option Int} {kzalloc : Bool} (free : s.obj.clientHandle.isNull = true)
    (refused : ¬ accepts p s.registry arg kzalloc) :
    ((hwSyncIoctlRegClient p arg kzalloc).run s).1 = .returned (.error .einval) ∧
      ((hwSyncIoctlRegClient p arg kzalloc).run s).2.obj.clientHandle.isNull = false := by
  cases done : ((msmHwFenceRegister p (clientIdExt (getClientId arg)) true kzalloc).run
      s.registry).1 with
  | ok client => exact absurd ⟨client,done⟩ refused
  | error e =>
    have error : (Handle.error e).isNull = false := rfl
    simp [hwSyncIoctlRegClient,free,registryPart,done,error]

theorem unregRun (s : SyncState m) : ∃ later,
    (hwSyncIoctlUnregClient p).events s = .passed s.obj.clientHandle::later ∧
      (∀ e ∈ later, given e = none) ∧
      ((hwSyncIoctlUnregClient p).run s).2.obj = s.obj := by
  unfold hwSyncIoctlUnregClient
  simp only [runBind,eventsBind,runObserve,eventsObserve,runPasses,eventsPasses,runWithin,eventsWithin,
    List.nil_append,List.singleton_append]
  refine ⟨_,rfl,?_,?_⟩
  · intro e mem
    rcases List.mem_append.mp mem with table | last
    · obtain ⟨a,-,rfl⟩ := List.mem_map.mp table
      rfl
    · split at last <;> simp at last
      rw [last]
      rfl
  · split <;> rfl

end Register

section Runs
variable {m : Nat} {p : Platform} {w : World} {c : Call m}

inductive Standing (w : World) (session : Nat) : Prop
  | fresh (free : (w.sessions session).clientHandle.isNull = true)
      (invalid : isValidClient (w.sessions session) = false)
  | member {grant : Nat} {client : HwFenceClient} (own : (w.sessions session).clientHandle = .client grant client)
      (valid : isValidClient (w.sessions session) = true)
      (granted : (session,.granted grant) ∈ w.log)

theorem notBoth {handle : Handle} {grant : Nat} {client : HwFenceClient} (free : handle.isNull = true)
    (own : handle = .client grant client) : False := by
  subst own
  contradiction

theorem ofPassing {events : List SyncEvent} {handle : Handle} (mem : .passed handle ∈ events) :
    ∃ pre post, events = pre ++ .passed handle::post := List.append_of_mem mem

theorem heldDuring {handle : Handle} {pre : List SyncEvent} (plain : ∀ e ∈ pre, OwnEvent handle e)
    {given : Handle} : Held (w.log ++ logged c pre) c.session given ↔ Held w.log c.session given := by
  have none : ∀ session grant, (session,.granted grant) ∉ logged c pre ∧
      (session,.revoked grant) ∉ logged c pre := by
    refine fun session grant => ⟨fun mem => ?_,fun mem => ?_⟩
    · obtain ⟨e,inside,same⟩ := List.mem_map.mp mem
      cases same
      exact plain _ inside
    · obtain ⟨e,inside,same⟩ := List.mem_map.mp mem
      cases same
      exact plain _ inside
  unfold Held
  simp only [List.mem_append,none,or_false]

theorem lawfulEach (use : c.ioctl.uses = true) : Lawful p w c ↔
    ∀ e ∈ c.events p w, ∀ handle, given e = some handle → Held w.log c.session handle := by
  have plain : ∀ pre e post, c.events p w = pre ++ e::post →
      ∀ e ∈ pre, OwnEvent (w.sessions c.session).clientHandle e := by
    intro pre e post split e mem
    refine (usesProg (p := p) use (c.start w)).2.2 e (?_ : _ ∈ c.events p w)
    rw [split]
    exact List.mem_append_left _ mem
  constructor
  · intro lawful e mem handle gives
    obtain ⟨pre,post,split⟩ := List.append_of_mem mem
    exact (heldDuring (plain pre e post split)).mp (lawful.passes pre e handle post split gives)
  · intro each
    refine ⟨fun pre e handle post split gives => ?_,fun arg kzalloc e reg => ?_⟩
    · exact (heldDuring (plain pre e post split)).mpr (each e (by rw [split]; simp) handle gives)
    · rw [reg] at use
      contradiction

theorem ownHeld {session grant : Nat} {client : HwFenceClient}
    (own : (w.sessions session).clientHandle = .client grant client) (granted : (session,.granted grant) ∈ w.log) :
    Held w.log session (w.sessions session).clientHandle ↔ ¬ Left w session := by
  rw [own]
  constructor
  · rintro ⟨grant',client',same,-,kept⟩ ⟨_,_,other,own',revoked⟩
    rw [own] at own'
    cases own'
    cases same
    exact kept other revoked
  · exact fun stays => ⟨grant,client,rfl,granted,fun other revoked => stays ⟨_,_,other,own,revoked⟩⟩

theorem lawfulUses (standing : Standing w c.session) (use : c.ioctl.uses = true) :
    Lawful p w c ↔ ((c.ioctl.reaches = true → ¬ Left w c.session) ∧
      ∀ handle, c.ioctl.releases (c.start w) handle → Held w.log c.session handle) := by
  have uses := usesProg (p := p) use (c.start w)
  rw [lawfulEach use]
  cases standing with
  | fresh free invalid =>
    have silent : c.events p w = [] := invalidSilent use invalid
    rw [silent]
    refine iff_of_true (fun e mem => absurd mem List.not_mem_nil) ⟨fun _ => ?_,fun handle releases => ?_⟩
    · rintro ⟨grant,client,other,own,-⟩
      exact notBoth free own
    · exact absurd (releasesValid releases) (by rw [show isValidClient (c.start w).obj = false from invalid]; decide)
  | @member grant client own valid granted =>
    rw [← ownHeld own granted]
    constructor
    · intro each
      refine ⟨fun reaches => ?_,fun handle releases => ?_⟩
      · obtain ⟨handle,mem⟩ := (passesIff (p := p) (s := c.start w) use valid own).mpr reaches
        have same : handle = (w.sessions c.session).clientHandle := uses.2.2 _ mem
        exact each _ mem _ (congrArg some same)
      · exact each _ (releasesMem (p := p) releases) handle rfl
    · rintro ⟨reaches,releases⟩ e mem handle gives
      cases e with
      | passed other =>
        cases gives
        have same : handle = (w.sessions c.session).clientHandle := uses.2.2 _ mem
        rw [same]
        exact reaches ((passesIff (p := p) (s := c.start w) use valid own).mp ⟨handle,mem⟩)
      | released other =>
        cases gives
        rcases releasedOnly (p := p) use mem with ⟨same,comes⟩ | extra
        · rw [same]
          exact reaches comes
        · exact releases handle extra
      | _ => cases gives

theorem lawfulUnreg {arg : Option Int} (standing : Standing w c.session) (unreg : c.ioctl = .unregClient arg) :
    Lawful p w c ↔ Joined w c.session := by
  obtain ⟨later,events,silent,-⟩ := unregRun (p := p) (c.start w)
  have own : c.events p w = .passed (w.sessions c.session).clientHandle::later := by
    unfold Call.events
    rw [unreg]
    exact events
  constructor
  · intro lawful
    obtain ⟨grant,client,same,-,kept⟩ := lawful.passes [] _ _ later own rfl
    refine ⟨by rw [same]; rfl,?_⟩
    rintro ⟨grant',client',other,same',revoked⟩
    rw [same] at same'
    cases same'
    exact kept other (List.mem_append_left _ revoked)
  · rintro ⟨some,stays⟩
    refine ⟨fun pre e handle post split gives => ?_,fun arg kzalloc e reg => ?_⟩
    · rw [own] at split
      cases pre with
      | nil =>
        rw [List.nil_append,List.cons.injEq] at split
        rw [← split.1] at gives
        cases gives
        cases standing with
        | fresh free invalid =>
          cases handle : (w.sessions c.session).clientHandle with
          | null => simp [handle,Handle.isErrOrNull,Handle.client?] at some
          | error e => simp [handle,Handle.isErrOrNull,Handle.client?] at some
          | client grant client => exact (notBoth free handle).elim
        | member own valid granted =>
          refine ⟨_,_,own,List.mem_append_left _ granted,fun other revoked => ?_⟩
          rcases List.mem_append.mp revoked with before | now
          · exact stays ⟨_,_,other,own,before⟩
          · exact absurd now List.not_mem_nil
      | cons first pre =>
        rw [List.cons_append,List.cons.injEq] at split
        rw [silent e (by rw [split.2]; simp)] at gives
        cases gives
    · rw [unreg] at reg
      contradiction

theorem lawfulReg {arg : Option Int} {kzalloc : Bool} (reg : c.ioctl = .regClient arg kzalloc) :
    Lawful p w c ↔
      ((w.sessions c.session).clientHandle.isNull = true → accepts p c.found arg kzalloc) := by
  have run : c.run p w = (hwSyncIoctlRegClient p arg kzalloc).run (c.start w) := by
    unfold Call.run
    rw [reg]
    rfl
  have events : c.events p w = (hwSyncIoctlRegClient p arg kzalloc).events (c.start w) := by
    unfold Call.events
    rw [reg]
    rfl
  have session : (c.step p w).sessions c.session = (c.run p w).2.obj := by simp [Call.step]
  constructor
  · intro lawful free
    by_contra refused
    obtain ⟨failed,lost⟩ := regRefused (p := p) (s := c.start w) free refused
    have kept := lawful.failures arg kzalloc .einval reg (by rw [run]; exact failed) free
    rw [session,run,lost] at kept
    contradiction
  · intro orderly
    refine ⟨fun pre e handle post split gives => ?_,fun arg' kzalloc' e _ failed free => ?_⟩
    · have silent : ∀ e ∈ c.events p w, given e = none := by
        rw [events]
        by_cases free : (w.sessions c.session).clientHandle.isNull = true
        · exact (regAccepted (s := c.start w) free (orderly free)).silent
        · have taken : (c.start w).obj.clientHandle.isNull = false := Bool.eq_false_iff.mpr free
          rw [(regTaken (p := p) arg kzalloc taken).2]
          exact fun e mem => absurd mem List.not_mem_nil
      rw [silent e (by rw [split]; simp)] at gives
      cases gives
    · have returned := (regAccepted (s := c.start w) free (orderly free)).returned
      rw [← run,failed] at returned
      exact absurd returned (by simp)

theorem lawfulIff (standing : ∀ session, Standing w session) : Lawful p w c ↔ Orderly p w c := by
  obtain ⟨session,found,refs,below,ioctl⟩ := c
  cases ioctl with
  | regClient arg kzalloc => exact lawfulReg rfl
  | unregClient arg => exact lawfulUnreg (standing session) rfl
  | createFence call => exact lawfulUses (standing session) rfl
  | createFenceArray call => exact lawfulUses (standing session) rfl
  | regForWait call => exact lawfulUses (standing session) rfl
  | fenceSignal call => exact lawfulUses (standing session) rfl
  | fenceWait call reads => exact lawfulUses (standing session) rfl
  | resetClient call => exact lawfulUses (standing session) rfl

theorem logKept {session : Nat} {e : SyncEvent} (mem : (session,e) ∈ w.log) :
    (session,e) ∈ (c.step p w).log := List.mem_append_left _ mem

theorem otherKept {session : Nat} (other : session ≠ c.session) (standing : Standing w session) :
    Standing (c.step p w) session := by
  have same : (c.step p w).sessions session = w.sessions session := by simp [Call.step,other]
  cases standing with
  | fresh free invalid => exact .fresh (by rw [same]; exact free) (by rw [same]; exact invalid)
  | member own valid granted =>
    exact .member (by rw [same]; exact own) (by rw [same]; exact valid) (logKept granted)

theorem sameKept (standing : Standing w c.session)
    (handle : (c.run p w).2.obj.clientHandle = (w.sessions c.session).clientHandle)
    (id : (c.run p w).2.obj.clientId = (w.sessions c.session).clientId) : Standing (c.step p w) c.session := by
  have session : (c.step p w).sessions c.session = (c.run p w).2.obj := by simp [Call.step]
  have valid' : isValidClient (c.run p w).2.obj = isValidClient (w.sessions c.session) := by
    unfold isValidClient
    rw [id]
  cases standing with
  | fresh free invalid =>
    exact .fresh (by rw [session,handle]; exact free) (by rw [session,valid']; exact invalid)
  | member own valid granted =>
    exact .member (by rw [session,handle]; exact own) (by rw [session,valid']; exact valid) (logKept granted)

theorem regKept {arg : Option Int} {kzalloc : Bool} (standing : Standing w c.session)
    (reg : c.ioctl = .regClient arg kzalloc)
    (orderly : (w.sessions c.session).clientHandle.isNull = true → accepts p c.found arg kzalloc) :
    Standing (c.step p w) c.session := by
  have run : c.run p w = (hwSyncIoctlRegClient p arg kzalloc).run (c.start w) := by
    unfold Call.run
    rw [reg]
    rfl
  have session : (c.step p w).sessions c.session = (c.run p w).2.obj := by simp [Call.step]
  by_cases free : (w.sessions c.session).clientHandle.isNull = true
  · have accepted := orderly free
    have joins := regAccepted (s := c.start w) free accepted
    obtain ⟨client,obj⟩ := joins.obj
    rw [← run] at obj
    refine .member (by rw [session,obj]) ?_ ?_
    · rw [session,obj]
      by_contra outside
      simp [isValidClient] at outside
      refine invalidRefused arg kzalloc c.found ?_ accepted
      exact or_iff_not_imp_left.mpr fun above => outside (not_lt.mp above)
    · refine List.mem_append_right _ (List.mem_map.mpr ⟨_,?_,rfl⟩)
      unfold Call.events
      rw [reg]
      exact joins.granted
  · have taken := (regTaken (p := p) (s := c.start w) arg kzalloc (Bool.eq_false_iff.mpr free)).1
    rw [← run] at taken
    exact sameKept standing (by rw [taken]; rfl) (by rw [taken]; rfl)

theorem standingStep (standing : ∀ session, Standing w session) (orderly : Orderly p w c) (session : Nat) :
    Standing (c.step p w) session := by
  by_cases own : session = c.session
  swap
  · exact otherKept own (standing session)
  subst own
  have kept : c.ioctl.uses = true → Standing (c.step p w) c.session := by
    intro use
    have uses := usesProg (p := p) use (c.start w)
    exact sameKept (standing _) uses.1 uses.2.1
  obtain ⟨session,found,refs,below,ioctl⟩ := c
  cases ioctl with
  | regClient arg kzalloc => exact regKept (standing _) rfl orderly
  | unregClient arg =>
    obtain ⟨later,-,-,obj⟩ := unregRun (p := p) (Call.start w ⟨session,found,refs,below,.unregClient arg⟩)
    have same : (Call.run p w ⟨session,found,refs,below,.unregClient arg⟩).2.obj = w.sessions session := obj
    exact sameKept (standing _) (by rw [same]) (by rw [same])
  | createFence call => exact kept rfl
  | createFenceArray call => exact kept rfl
  | regForWait call => exact kept rfl
  | fenceSignal call => exact kept rfl
  | fenceWait call reads => exact kept rfl
  | resetClient call => exact kept rfl

def noRefs : FenceRefs := ⟨fun _ => 0,none,0⟩

def wrongIdCalls (d : DtData) : List (Call 1) :=
  [⟨0,freshRegistry d,noRefs,fun _ => [],.regClient (some 20) true⟩,
    ⟨0,freshRegistry d,noRefs,fun _ => [],.regClient (some 8) true⟩]

end Runs
end MmDrivers.SyncSession

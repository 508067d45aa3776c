import MmDrivers.FenceApi

/-! The flag of a dma fence and the table, over all calls of the entry points. The flag is what
keeps a fence from a second entry, and a call that frees entries by their slot leaves it set. -/
namespace MmDrivers.FenceFlags
open Sections Sections.Prog FenceTypes FenceLookup FenceTable FenceSignal JoinFence JoinRun ResetRun
open DriverRuns DeviceTree Probe Runs FenceApi

section Others
variable {m : Nat} {F : Type} {s : ApiState m F}

theorem quietTxq (client : Option HwFenceClient) (handle : Nat) (flags : U64) (error : U32) :
    (msmHwFenceUpdateTxq (m := m) client handle flags error).Each Quiet := by
  unfold msmHwFenceUpdateTxq
  refine eachBind (quietObserve _) fun ready => eachIte (fun _ => eachPure _) fun _ => ?_
  split
  · refine eachBind (quietObserve _) fun context => eachBind (quietObserve _) fun seqno => ?_
    refine eachBind (eachMono (fun _ _ => Delivery.quiet) (deliverUpdate ..)) fun _ => eachPure _
  · exact eachPure _

theorem txqRun (client : Option HwFenceClient) (handle : Nat) (flags : U64) (error : U32) (d : DriverData m) :
    ((msmHwFenceUpdateTxq client handle flags error).run d).2.tbl = d.tbl := by
  rw [(quietRun (quietTxq client handle flags error) d).1]

theorem triggerRun (client : Option HwFenceClient) (txClientPid rxClientVid signalId : Nat) :
    ((msmHwFenceTriggerSignal client txClientPid rxClientVid signalId).run s).2 = s := by
  unfold msmHwFenceTriggerSignal
  simp only [runBind,runObserve]
  by_cases ready : (s.d.resourcesReady && s.d.vmReady) = true
  · cases client <;> simp [ready]
  · simp [ready]

end Others

section Calls
variable {m : Nat} {F : Type} [DecidableEq F] {w : DmaFences F} {s : ApiState m F}

structure ApiInv (w : DmaFences F) (s : ApiState m F) : Prop where
  settled : Settled s.d
  flagged : ∀ f, w.children f = none → Held s.d (w.key f) → s.enabled f = true
  named : ∀ key, Held s.d key → ∃ f, key = w.key f
  arrays : ∀ f, (w.children f).isSome → s.enabled f = false

def resetsClient (s : ApiState m F) : ApiOp F → Option (HwFenceClient × ResetFlags)
  | .resetClient client flags => client.map (·,flags)
  | .resetClientById types clientIdExt flags =>
    if hwFenceClientMax ≤ clientIdExt then none
    else if hwFenceClientMax ≤ hwFenceUtilsGetClientIdPriv types clientIdExt then none
    else (s.d.clients (hwFenceUtilsGetClientIdPriv types clientIdExt)).map (·,flags)
  | _ => none

/-- The slots a call frees whatever fence they hold. -/
def FreesSlot (s : ApiState m F) (op : ApiOp F) (i : Fin m) : Prop :=
  (∃ client, op = .destroyWithHandle (some client) i.val ∧ client.clientId < s.d.clientsNum ∧
    (s.d.tbl i).fenceAllocator = client.clientId) ∨
  ∃ client flags, resetsClient s op = some (client,flags) ∧ s.d.vmReady = true ∧ ¬ flags.withoutDestroy ∧
    (s.d.tbl i).fenceAllocator = client.clientId

/-- The fence-arrays a call waits for leave no room for a second join fence. -/
def GaplessArrays (w : DmaFences F) (s : ApiState m F) : ApiOp F → Prop
  | .waitUpdate _ (some fences) _ => ∀ f ∈ fences, (w.children f).isSome → Gapless s.d (w.key f)
  | _ => True

def servedReset (s : ApiState m F) (op : ApiOp F) : Option HwFenceClient :=
  if s.d.vmReady then (resetsClient s op).map Prod.fst else none

def takenFences (w : DmaFences F) (s : ApiState m F) : ApiOp F → List F
  | .waitUpdate client (some fences) list =>
    fences.take ((msmHwFenceWaitUpdateV2 w client (some fences) list).run s).1.2.length
  | _ => []

inductive ApiEffect (w : DmaFences F) (s : ApiState m F) : ApiOp F → ApiState m F → Prop where
  | same {op s'} (tbl : s'.d.tbl = s.d.tbl) (flags : s'.enabled = s.enabled)
      (kept : ∀ i, FreesSlot s op i → (s.d.tbl i).valid = true → False)
      (taken : takenFences w s op = []) (reset : servedReset s op = none) : ApiEffect w s op s'
  | created {client f handle s' i} (qtime : U64) (plain : w.children f = none)
      (unflagged : s.enabled f = false) (unheld : ¬ Held s.d (w.key f)) (free : (s.d.tbl i).valid = false)
      (tbl : s'.d.tbl = Function.update s.d.tbl i
        (reserveHwFence qtime client.clientId (w.context f) (w.seqno f) 0 (s.d.tbl i)))
      (flags : s'.enabled = Function.update s.enabled f true) :
      ApiEffect w s (.create (some client) (some f) handle) s'
  | destroyed {client f s' i} (plain : w.children f = none) (live : s.d.live (w.key f) i)
      (tbl : s'.d.tbl = Function.update s.d.tbl i (unreserveHwFence (s.d.tbl i)))
      (flags : s'.enabled = Function.update s.enabled f false) :
      ApiEffect w s (.destroy (some client) (some f)) s'
  | freed {op s'} (slots : Fin m → Prop) (frees : ∀ i, slots i ↔ FreesSlot s op i)
      (gone : ∀ i, slots i → (s'.d.tbl i).valid = false ∧ (s.d.tbl i).valid = true)
      (settled : Settled s'.d)
      (others : ∀ i, ¬ slots i → s'.d.tbl i = (servedReset s op).elim (s.d.tbl i)
        fun client => clearWaitBit client.clientId (s.d.tbl i))
      (flags : s'.enabled = s.enabled) (taken : takenFences w s op = []) : ApiEffect w s op s'
  | waited {client fences list status handles s'}
      (updated : WaitUpdated w client s.enabled (fun k => list.elim 0 (· k)) s.d fences status handles s'.d)
      (flags : s'.enabled = s.enabled)
      (taken : takenFences w s (.waitUpdate (some client) (some fences) list) = fences.take handles.length) :
      ApiEffect w s (.waitUpdate (some client) (some fences) list) s'

theorem clearedLive {client : HwFenceClient} {d d' : DriverData m} {i : Fin m}
    (same : d'.tbl i = clearWaitBit client.clientId (d.tbl i)) (key : Key) : d'.live key i ↔ d.live key i := by
  rw [DriverData.live,DriverData.live,same,clearWaitBitKeeps]
  exact Iff.rfl

omit [DecidableEq F] in
theorem othersLive {op : ApiOp F} {s' : ApiState m F} {i : Fin m}
    (same : s'.d.tbl i = (servedReset s op).elim (s.d.tbl i)
      fun client => clearWaitBit client.clientId (s.d.tbl i)) (key : Key) :
    s'.d.live key i ↔ s.d.live key i := by
  cases reset : servedReset s op with
  | none =>
    rw [reset] at same
    rw [DriverData.live,DriverData.live,same]
    exact Iff.rfl
  | some client =>
    rw [reset] at same
    exact clearedLive same key

theorem sameEffect {op : ApiOp F} {s' : ApiState m F} (tbl : s'.d.tbl = s.d.tbl)
    (flags : s'.enabled = s.enabled) (handles : ∀ client handle, op ≠ .destroyWithHandle client handle)
    (resets : resetsClient s op = none) (taken : takenFences w s op = []) : ApiEffect w s op s' := by
  refine .same tbl flags (fun i frees _ => ?_) taken (by simp [servedReset,resets])
  rcases frees with ⟨client,same,-⟩ | ⟨client,flags,same,-⟩
  · exact handles _ _ same
  · rw [resets] at same
    cases same

theorem createApi (client : Option HwFenceClient) (fence : Option F) (handle : Bool) (inv : ApiInv w s) :
    ApiEffect w s (.create client fence handle) ((msmHwFenceCreate w client fence handle).run s).2 := by
  have same : ∀ {s' : ApiState m F}, s'.d.tbl = s.d.tbl → s'.enabled = s.enabled →
      ApiEffect w s (.create client fence handle) s' := fun tbl flags =>
    sameEffect tbl flags (by simp) rfl rfl
  unfold msmHwFenceCreate
  split
  · rename_i client f
    simp only [runBind,runObserve]
    by_cases ready : s.d.vmReady = true
    · by_cases array : (w.children f).isSome = true
      · simpa [ready,array] using same rfl rfl
      · by_cases flagged : s.enabled f = true
        · simpa [ready,array,flagged] using same rfl rfl
        · have plain : w.children f = none := by simpa using array
          have unheld : ¬ Held s.d (w.key f) := fun held => flagged (inv.flagged f plain held)
          have fresh : ∀ i, ¬ s.d.live (w.context f,w.seqno f) i := fun i live => unheld ⟨i,live⟩
          simp only [ready,array,flagged,not_true_eq_false,if_false,Bool.false_eq_true,runBind,runObserve,
            runDriver,createRun]
          rcases createFresh client.clientId 0 (show LookupOp.create.creates = true from rfl) fresh with
            ⟨i,free,ran⟩ | ⟨-,hash,ran⟩
          · rw [ran]
            exact .created s.d.qtime plain (by simpa using flagged) unheld free.free rfl rfl
          · rw [ran]
            exact same rfl rfl
    · simpa [ready] using same rfl rfl
  · exact same rfl rfl

theorem destroyApi (client : Option HwFenceClient) (fence : Option F) (inv : ApiInv w s) :
    ApiEffect w s (.destroy client fence) ((msmHwFenceDestroy w client fence).run s).2 := by
  have same : ∀ {s' : ApiState m F}, s'.d.tbl = s.d.tbl → s'.enabled = s.enabled →
      ApiEffect w s (.destroy client fence) s' := fun tbl flags => sameEffect tbl flags (by simp) rfl rfl
  unfold msmHwFenceDestroy
  split
  · rename_i client f
    by_cases array : (w.children f).isSome = true
    · simpa [array] using same rfl rfl
    · by_cases flagged : s.enabled f = true
      · have plain : w.children f = none := by simpa using array
        simp only [array,flagged,not_true_eq_false,if_false,Bool.false_eq_true,runBind,runObserve,runDriver,
          hwFenceDestroy]
        by_cases held : Held s.d (w.key f)
        · obtain ⟨i,live⟩ := held
          have ran := cleanupLive client.clientId inv.settled.tidy (w.contexts f) live
          simp only [DmaFences.key] at ran
          rw [ran]
          exact .destroyed plain live rfl rfl
        · have ran := cleanupDead client.clientId inv.settled.tidy (w.contexts f)
            fun i live => held ⟨i,live⟩
          simp only [DmaFences.key] at ran
          rw [ran]
          exact same rfl rfl
      · simpa [array,flagged] using same rfl rfl
  · exact same rfl rfl

theorem handleApi (client : Option HwFenceClient) (handle : Nat) (inv : ApiInv w s) :
    ApiEffect w s (.destroyWithHandle client handle) ((msmHwFenceDestroyWithHandle client handle).run s).2 := by
  have only : ∀ i, FreesSlot s (.destroyWithHandle client handle) i →
      ∃ c, client = some c ∧ handle = i.val ∧ c.clientId < s.d.clientsNum ∧
        (s.d.tbl i).fenceAllocator = c.clientId := by
    rintro i (⟨c,same,known,own⟩ | ⟨c,flags,same,-⟩)
    · cases same
      exact ⟨c,rfl,rfl,known,own⟩
    · cases same
  have quiet : servedReset s (.destroyWithHandle client handle) = none := by simp [servedReset,resetsClient]
  unfold msmHwFenceDestroyWithHandle
  cases client with
  | none =>
    refine .same rfl rfl (fun i frees _ => ?_) rfl quiet
    obtain ⟨c,same,-⟩ := only i frees
    cases same
  | some client =>
    simp only [runBind,runObserve]
    by_cases known : s.d.clientsNum ≤ client.clientId
    · simp only [known,if_true]
      refine .same rfl rfl (fun i frees _ => ?_) rfl quiet
      obtain ⟨c,same,-,few,-⟩ := only i frees
      cases same
      omega
    · simp only [known,if_false,runDriver]
      unfold hwFenceDestroyWithHash getHwFence
      split
      · rename_i outside
        refine .same rfl rfl (fun i frees _ => ?_) rfl quiet
        obtain ⟨c,-,rfl,-⟩ := only i frees
        simp at outside
      · rename_i i found
        split at found <;> try contradiction
        cases Option.some.inj found
        by_cases own : (s.d.tbl ⟨handle,by assumption⟩).fenceAllocator = client.clientId
        · have used := ownUsed inv.settled own
          have destroyed := cleanupLive client.clientId inv.settled.tidy
            (inv.settled.context _ used) ⟨used,rfl⟩
          simp only [HwFence.key] at destroyed
          simp only [runBind,runObserve,own,ne_eq,not_true_eq_false,if_false,destroyed]
          refine .freed (fun i => i.val = handle) (fun i => ⟨?_,fun frees => ?_⟩) ?_
            (inv.settled.unreserve rfl) ?_ rfl rfl
          · rintro rfl
            exact .inl ⟨client,rfl,by omega,own⟩
          · obtain ⟨c,-,same,-⟩ := only i frees
            exact same.symm
          · rintro i rfl
            simp [used,unreserveHwFence]
          · intro i other
            have ne : i ≠ ⟨handle,by assumption⟩ := fun same => other (congrArg Fin.val same)
            rw [quiet]
            exact DriverData.onSlotOther _ _ ne
        · simp only [runBind,runObserve,own,ne_eq,not_false_eq_true,if_true]
          refine .same rfl rfl (fun i frees _ => ?_) rfl quiet
          obtain ⟨c,same,rfl,-,alloc⟩ := only i frees
          cases same
          exact own alloc

def Served (client : HwFenceClient) (list : Option (Nat → U64)) (d : DriverData m) : Prop :=
  d.vmReady = true ∧ ¬ (list.isSome ∧ (hwFenceGetClientDataId client.clientId).isNone) ∧
    client.clientId ≤ d.rxqClientsNum

omit [DecidableEq F] in
theorem servedRun {client : HwFenceClient} {fences : List F} {list : Option (Nat → U64)}
    (settled : Settled s.d) (served : Served client list s.d)
    (gapless : GaplessArrays w s (.waitUpdate (some client) (some fences) list)) :
    let r := (msmHwFenceWaitUpdateV2 w (some client) (some fences) list).run s
    r.2.enabled = s.enabled ∧ WaitUpdated w client s.enabled (fun k => list.elim 0 (· k)) s.d fences
      r.1.1 r.1.2 r.2.d := by
  obtain ⟨ready,sends,receives⟩ := served
  obtain ⟨flags,new,handles,updated⟩ := loopRun client list fences 0 [] settled gapless
  rw [List.nil_append] at handles
  simp only [Nat.zero_add] at updated
  unfold msmHwFenceWaitUpdateV2
  simp only [runBind,runObserve,ready,sends,not_lt.mpr receives,not_true_eq_false,if_false]
  exact ⟨flags,handles ▸ updated⟩

omit [DecidableEq F] in
theorem refusedRun (client : HwFenceClient) (fences : List F) (list : Option (Nat → U64))
    (refused : ¬ Served client list s.d) :
    let p := msmHwFenceWaitUpdateV2 w (some client) (some fences) list
    (∃ e, p.run s = ((.error e,[]),s)) ∧ p.events s = [] := by
  dsimp only [msmHwFenceWaitUpdateV2]
  simp only [runBind,eventsBind,runObserve,eventsObserve,List.nil_append]
  by_cases ready : s.d.vmReady = true
  · by_cases sends : list.isSome = true ∧ (hwFenceGetClientDataId client.clientId).isNone = true
    · simp only [ready,sends,not_true_eq_false,if_false,and_self,if_true]
      exact ⟨⟨_,rfl⟩,rfl⟩
    · have few : s.d.rxqClientsNum < client.clientId := by
        by_contra receives
        exact refused ⟨ready,sends,not_lt.mp receives⟩
      simp only [ready,sends,few,not_true_eq_false,if_false,if_true,runBind,eventsBind,runObserve,eventsObserve]
      exact ⟨⟨_,rfl⟩,rfl⟩
  · simp only [ready]
    exact ⟨⟨_,rfl⟩,rfl⟩

theorem waitApi (client : Option HwFenceClient) (fences : Option (List F)) (list : Option (Nat → U64))
    (inv : ApiInv w s) (gapless : GaplessArrays w s (.waitUpdate client fences list)) :
    ApiEffect w s (.waitUpdate client fences list) ((msmHwFenceWaitUpdateV2 w client fences list).run s).2 := by
  cases client with
  | none =>
    cases fences with
    | none => exact sameEffect rfl rfl (by simp) rfl rfl
    | some fences => exact sameEffect rfl rfl (by simp) rfl (by simp [takenFences,msmHwFenceWaitUpdateV2])
  | some client =>
    cases fences with
    | none => exact sameEffect rfl rfl (by simp) rfl rfl
    | some fences =>
      by_cases served : Served client list s.d
      · obtain ⟨flags,updated⟩ := servedRun inv.settled served gapless
        exact .waited updated flags rfl
      · obtain ⟨⟨e,ran⟩,-⟩ := refusedRun (w := w) client fences list served
        rw [ran]
        exact sameEffect rfl rfl (by simp) rfl (by simp [takenFences,ran])

theorem resetApi {op : ApiOp F} (client : HwFenceClient) (flags : ResetFlags) (inv : ApiInv w s)
    (handles : ∀ client handle, op ≠ .destroyWithHandle client handle)
    (resets : resetsClient s op = some (client,flags)) (taken : takenFences w s op = []) :
    ApiEffect w s op ((driver (msmHwFenceResetClient client flags)).run s).2 := by
  have only : ∀ i, FreesSlot s op i ↔ s.d.vmReady = true ∧ ¬ flags.withoutDestroy ∧
      (s.d.tbl i).fenceAllocator = client.clientId := by
    refine fun i => ⟨?_,fun frees => .inr ⟨client,flags,resets,frees⟩⟩
    rintro (⟨c,same,-⟩ | ⟨c,f,same,frees⟩)
    · exact absurd same (handles _ _)
    · rw [resets] at same
      cases same
      exact frees
  rw [runDriver]
  by_cases ready : s.d.vmReady = true
  · have each := (resetRun client flags inv.settled ready).2.1
    have settled := resetSettled client flags inv.settled fun i => .inr (each i)
    refine .freed (FreesSlot s op) (fun _ => Iff.rfl) (fun i frees => ?_) settled (fun i other => ?_) rfl taken
    · obtain ⟨-,destroys,own⟩ := (only i).mp frees
      refine ⟨?_,ownUsed inv.settled own⟩
      rw [each,resetSlot,if_pos ⟨own,destroys⟩]
      rfl
    · have reset : servedReset s op = some client := by simp [servedReset,ready,resets]
      rw [reset,each,resetSlot,if_neg fun frees => other ((only i).mpr ⟨ready,frees.2,frees.1⟩)]
      rfl
  · unfold msmHwFenceResetClient
    simp only [runBind,runObserve,ready]
    exact .same rfl rfl (fun i frees _ => ready ((only i).mp frees).1) taken (by simp [servedReset,ready])

theorem callApi (op : ApiOp F) (inv : ApiInv w s) (allowed : GaplessArrays w s op) :
    ApiEffect w s op ((op.call w).run s).2 := by
  cases op with
  | create client fence handle => simpa [ApiOp.call] using createApi client fence handle inv
  | destroy client fence => exact destroyApi client fence inv
  | destroyWithHandle client handle => exact handleApi client handle inv
  | waitUpdate client fences list => simpa [ApiOp.call] using waitApi client fences list inv allowed
  | resetClient client flags =>
    cases client with
    | none => exact sameEffect rfl rfl (by simp) rfl rfl
    | some client => exact resetApi client flags inv (by simp) rfl rfl
  | resetClientById types clientIdExt flags =>
    simp only [ApiOp.call,msmHwFenceResetClientById]
    by_cases past : hwFenceClientMax ≤ clientIdExt
    · rw [if_pos past]
      exact sameEffect rfl rfl (by simp) (by simp [resetsClient,past]) rfl
    · rw [if_neg past]
      by_cases unknown : hwFenceClientMax ≤ hwFenceUtilsGetClientIdPriv types clientIdExt
      · rw [if_pos unknown]
        exact sameEffect rfl rfl (by simp) (by simp [resetsClient,unknown]) rfl
      · rw [if_neg unknown]
        simp only [runBind,runObserve]
        cases registered : s.d.clients (hwFenceUtilsGetClientIdPriv types clientIdExt) with
        | none => exact sameEffect rfl rfl (by simp) (by simp [resetsClient,registered]) rfl
        | some client =>
          exact resetApi client flags inv (by simp) (by simp [resetsClient,past,unknown,registered]) rfl
  | updateTxq client handle flags error =>
    refine sameEffect ?_ ?_ (by simp) rfl rfl
    · simpa [ApiOp.call] using txqRun client handle flags error s.d
    · simp [ApiOp.call]
  | triggerSignal client txClientPid rxClientVid signalId =>
    have same := triggerRun (s := s) client txClientPid rxClientVid signalId
    exact sameEffect (by rw [ApiOp.call,same]) (by rw [ApiOp.call,same]) (by simp) rfl rfl

theorem invEffect {op : ApiOp F} {s' : ApiState m F} (inv : ApiInv w s) (effect : ApiEffect w s op s') :
    ApiInv w s' := by
  obtain ⟨settled,flagged,named,arrays⟩ := inv
  cases effect with
  | same tbl flags kept =>
    have held : ∀ key, Held s'.d key ↔ Held s.d key := fun key => by
      unfold Held DriverData.live
      rw [tbl]
    exact ⟨settled.sameTable tbl,fun f plain here => flags ▸ flagged f plain ((held _).mp here),
      fun key here => named key ((held key).mp here),fun f array => flags ▸ arrays f array⟩
  | @created client f handle _ i qtime plain unflagged unheld free tbl flags =>
    have fresh : ∀ j, ¬ s.d.live (w.key f) j := fun j live => unheld ⟨j,live⟩
    have held : ∀ key, Held s'.d key → Held s.d key ∨ key = w.key f := by
      rintro key ⟨x,live⟩
      by_cases xi : x = i
      · subst xi
        rw [DriverData.live,tbl,Function.update_self] at live
        exact .inr live.2.symm
      · rw [DriverData.live,tbl,Function.update_of_ne xi] at live
        exact .inl ⟨x,live⟩
    refine ⟨settled.reserve (f := reserveHwFence qtime client.clientId (w.context f) (w.seqno f) 0 (s.d.tbl i))
      free fresh rfl (w.contexts f) tbl,fun g plain here => ?_,fun key here => ?_,fun g array => ?_⟩
    · rw [flags]
      by_cases gf : g = f
      · rw [gf,Function.update_self]
      · rw [Function.update_of_ne gf]
        exact flagged g plain ((held _ here).resolve_right fun same => gf (sameKey same))
    · exact (held key here).elim (named key) fun same => ⟨f,same⟩
    · have gf : g ≠ f := by
        rintro rfl
        rw [plain] at array
        cases array
      rw [flags,Function.update_of_ne gf]
      exact arrays g array
  | @destroyed client f _ i plain live tbl flags =>
    have held : ∀ key, Held s'.d key → Held s.d key ∧ key ≠ w.key f := by
      rintro key ⟨x,here⟩
      have xi : x ≠ i := by
        rintro rfl
        rw [DriverData.live,tbl,Function.update_self] at here
        cases here.1
      rw [DriverData.live,tbl,Function.update_of_ne xi] at here
      exact ⟨⟨x,here⟩,fun same => xi (settled.distinct _ x i here (same ▸ live))⟩
    refine ⟨settled.unreserve tbl,fun g plain here => ?_,fun key here => named key (held key here).1,
      fun g array => ?_⟩
    · have gf : g ≠ f := fun same => (held _ here).2 (congrArg w.key same)
      rw [flags,Function.update_of_ne gf]
      exact flagged g plain (held _ here).1
    · rw [flags]
      by_cases gf : g = f
      · rw [gf,Function.update_self]
      · rw [Function.update_of_ne gf]
        exact arrays g array
  | freed slots frees gone settled' others flags =>
    have held : ∀ key, Held s'.d key → Held s.d key := by
      rintro key ⟨x,live⟩
      refine ⟨x,(othersLive (others x fun slot => ?_) key).mp live⟩
      exact absurd live.1 (by simp [(gone x slot).1])
    exact ⟨settled',fun f plain here => flags ▸ flagged f plain (held _ here),
      fun key here => named key (held key here),fun f array => flags ▸ arrays f array⟩
  | waited updated flags =>
    refine ⟨updated.settled,fun f plain here => ?_,fun key here => ?_,fun f array => flags ▸ arrays f array⟩
    · rcases updated.enters _ here with was | ⟨g,-,key,array⟩
      · exact flags ▸ flagged f plain was
      · rw [← sameKey key,plain] at array
        cases array
    · rcases updated.enters _ here with was | ⟨g,-,same,-⟩
      · exact named key was
      · exact ⟨g,same⟩

def FlagsExact (w : DmaFences F) (s : ApiState m F) : Prop :=
  ∀ f, w.children f = none → (s.enabled f = true ↔ Held s.d (w.key f))

def SparesFlags (w : DmaFences F) (s : ApiState m F) (op : ApiOp F) : Prop :=
  ∀ f i, w.children f = none → s.d.live (w.key f) i → ¬ FreesSlot s op i

omit [DecidableEq F] in
theorem ApiInv.plain (inv : ApiInv w s) {f : F} (flagged : s.enabled f = true) : w.children f = none := by
  by_contra array
  have off := inv.arrays f (Option.isSome_iff_ne_none.mpr array)
  rw [flagged] at off
  cases off

omit [DecidableEq F] in
theorem exactIff (inv : ApiInv w s) : FlagsExact w s ↔ ∀ f, s.enabled f = true → Held s.d (w.key f) :=
  ⟨fun exact f flagged => (exact f (inv.plain flagged)).mp flagged,
    fun held f plain => ⟨held f,inv.flagged f plain⟩⟩

theorem exactEffect {op : ApiOp F} {s' : ApiState m F} (inv : ApiInv w s) (was : FlagsExact w s)
    (effect : ApiEffect w s op s') : FlagsExact w s' ↔ SparesFlags w s op := by
  have exact := (exactIff inv).mp was
  rw [exactIff (invEffect inv effect)]
  have never : (∀ f i, s.d.live (w.key f) i → ¬ FreesSlot s op i) →
      (∀ f, s'.enabled f = true → Held s'.d (w.key f)) →
      ((∀ f, s'.enabled f = true → Held s'.d (w.key f)) ↔ SparesFlags w s op) := fun none exact' =>
    ⟨fun _ f i _ => none f i,fun _ => exact'⟩
  cases effect with
  | same tbl flags kept =>
    refine never (fun f i live frees => kept i frees live.1) fun f flagged => ?_
    obtain ⟨i,live⟩ := exact f (flags ▸ flagged)
    exact ⟨i,by rwa [DriverData.live,tbl]⟩
  | @created client f handle _ i qtime plain unflagged unheld free tbl flags =>
    refine never (fun g j live frees => ?_) fun g flagged => ?_
    · rcases frees with ⟨c,same,-⟩ | ⟨c,f,same,-⟩ <;> cases same
    · by_cases gf : g = f
      · subst gf
        refine ⟨i,?_⟩
        rw [DriverData.live,tbl,Function.update_self]
        exact ⟨rfl,rfl⟩
      · rw [flags,Function.update_of_ne gf] at flagged
        obtain ⟨x,live⟩ := exact g flagged
        have xi : x ≠ i := by
          rintro rfl
          exact absurd live.1 (by simp [free])
        exact ⟨x,by rwa [DriverData.live,tbl,Function.update_of_ne xi]⟩
  | @destroyed client f _ i plain live tbl flags =>
    refine never (fun g j live frees => ?_) fun g flagged => ?_
    · rcases frees with ⟨c,same,-⟩ | ⟨c,f,same,-⟩ <;> cases same
    · have gf : g ≠ f := by
        rintro rfl
        rw [flags,Function.update_self] at flagged
        cases flagged
      rw [flags,Function.update_of_ne gf] at flagged
      obtain ⟨x,here⟩ := exact g flagged
      have xi : x ≠ i := by
        rintro rfl
        exact gf (sameKey (here.2.symm.trans live.2))
      exact ⟨x,by rwa [DriverData.live,tbl,Function.update_of_ne xi]⟩
  | freed slots frees gone settled' others flags =>
    constructor
    · intro exact' f i plain live freed
      obtain ⟨x,here⟩ := exact' f (flags ▸ inv.flagged f plain ⟨i,live⟩)
      by_cases slot : slots x
      · exact absurd here.1 (by simp [(gone x slot).1])
      · have same := inv.settled.distinct _ x i ((othersLive (others x slot) _).mp here) live
        exact slot ((frees x).mpr (same ▸ freed))
    · intro spares f flagged
      rw [flags] at flagged
      obtain ⟨x,live⟩ := exact f flagged
      have spared : ¬ slots x := fun slot => spares f x (inv.plain flagged) live ((frees x).mp slot)
      exact ⟨x,(othersLive (others x spared) _).mpr live⟩
  | waited updated flags =>
    refine never (fun g j live frees => ?_) fun f flagged => ?_
    · rcases frees with ⟨c,same,-⟩ | ⟨c,f,same,-⟩ <;> cases same
    · obtain ⟨x,live⟩ := exact f (flags ▸ flagged)
      exact ⟨x,(updated.stays _ _ live).1⟩

def Stale (w : DmaFences F) (s : ApiState m F) (f : F) : Prop :=
  s.enabled f = true ∧ ¬ Held s.d (w.key f)

theorem staleEffect {op : ApiOp F} {s' : ApiState m F} {f : F} (inv : ApiInv w s) (stale : Stale w s f)
    (effect : ApiEffect w s op s') : Stale w s' f := by
  obtain ⟨flagged,unheld⟩ := stale
  cases effect with
  | same tbl flags kept =>
    refine ⟨flags ▸ flagged,fun ⟨x,live⟩ => unheld ⟨x,?_⟩⟩
    rwa [DriverData.live,tbl] at live
  | @created client g handle _ i qtime plain unflagged fresh free tbl flags =>
    have fg : f ≠ g := by
      rintro rfl
      rw [flagged] at unflagged
      cases unflagged
    refine ⟨by rw [flags,Function.update_of_ne fg,flagged],fun ⟨x,live⟩ => ?_⟩
    by_cases xi : x = i
    · subst xi
      rw [DriverData.live,tbl,Function.update_self] at live
      exact fg (sameKey live.2.symm)
    · rw [DriverData.live,tbl,Function.update_of_ne xi] at live
      exact unheld ⟨x,live⟩
  | @destroyed client g _ i plain live tbl flags =>
    have fg : f ≠ g := by
      rintro rfl
      exact unheld ⟨i,live⟩
    refine ⟨by rw [flags,Function.update_of_ne fg,flagged],fun ⟨x,here⟩ => ?_⟩
    by_cases xi : x = i
    · subst xi
      rw [DriverData.live,tbl,Function.update_self] at here
      cases here.1
    · rw [DriverData.live,tbl,Function.update_of_ne xi] at here
      exact unheld ⟨x,here⟩
  | freed slots frees gone settled' others flags =>
    refine ⟨flags ▸ flagged,fun ⟨x,live⟩ => ?_⟩
    by_cases slot : slots x
    · exact absurd live.1 (by simp [(gone x slot).1])
    · exact unheld ⟨x,(othersLive (others x slot) _).mp live⟩
  | waited updated flags =>
    refine ⟨flags ▸ flagged,fun held => ?_⟩
    rcases updated.enters _ held with was | ⟨g,-,key,array⟩
    · exact unheld was
    · have off := inv.arrays g array
      rw [← sameKey key,flagged] at off
      cases off

theorem freedStale {op : ApiOp F} {s' : ApiState m F} {f : F} {i : Fin m} (inv : ApiInv w s)
    (plain : w.children f = none) (live : s.d.live (w.key f) i) (frees : FreesSlot s op i)
    (effect : ApiEffect w s op s') : Stale w s' f := by
  cases effect with
  | same tbl flags kept => exact absurd live.1 (kept i frees)
  | created qtime plain' unflagged unheld free tbl flags =>
    rcases frees with ⟨c,same,-⟩ | ⟨c,f,same,-⟩ <;> cases same
  | destroyed plain' live' tbl flags =>
    rcases frees with ⟨c,same,-⟩ | ⟨c,f,same,-⟩ <;> cases same
  | freed slots own gone settled' others flags =>
    refine ⟨flags ▸ inv.flagged f plain ⟨i,live⟩,fun ⟨x,here⟩ => ?_⟩
    by_cases slot : slots x
    · exact absurd here.1 (by simp [(gone x slot).1])
    · have same := inv.settled.distinct _ x i ((othersLive (others x slot) _).mp here) live
      exact slot ((own x).mpr (same ▸ frees))
  | waited updated flags =>
    rcases frees with ⟨c,same,-⟩ | ⟨c,f,same,-⟩ <;> cases same

end Calls

section Runs
variable {m : Nat} {F : Type} {w : DmaFences F} {s : ApiState m F} {calls : List (ApiCall m F)}

def unflagged (F : Type) (d : DriverData m) : ApiState m F := ⟨zeroTable d,fun _ => false⟩

def Allowed (w : DmaFences F) (s : ApiState m F) (c : ApiCall m F) : Prop := GaplessArrays w (c.start s) c.op

theorem startInv (w : DmaFences F) (d : DriverData m) : ApiInv w (unflagged F d) := by
  have none : ∀ key, ¬ Held (unflagged F d).d key := by
    rintro key ⟨i,live⟩
    cases live.1
  exact ⟨zeroSettled d,fun f _ held => absurd held (none _),fun key held => absurd held (none key),
    fun f _ => rfl⟩

theorem FlagsExact.around (exact : FlagsExact w s) (c : ApiCall m F) : FlagsExact w (c.start s) :=
  fun f plain => (exact f plain).trans (startHeld _).symm

theorem Stale.around {f : F} (stale : Stale w s f) (c : ApiCall m F) : Stale w (c.start s) f :=
  ⟨stale.1,fun held => stale.2 ((startHeld _).mp held)⟩

theorem ApiInv.around (inv : ApiInv w s) (c : ApiCall m F) : ApiInv w (c.start s) :=
  ⟨startSettled inv.settled,fun f plain held => inv.flagged f plain ((startHeld _).mp held),
    fun key held => inv.named key ((startHeld key).mp held),inv.arrays⟩

variable [DecidableEq F]

theorem stepEffect {c : ApiCall m F} (inv : ApiInv w s) (allowed : Allowed w s c) :
    ApiEffect w (c.start s) c.op (c.step w s) := callApi c.op (inv.around c) allowed

theorem invStep {c : ApiCall m F} (inv : ApiInv w s) (allowed : Allowed w s c) : ApiInv w (c.step w s) :=
  invEffect (inv.around c) (stepEffect inv allowed)

theorem runInv (start : DriverData m) (allowed : Along (ApiCall.step w) (Allowed w) (unflagged F start) calls) :
    ApiInv w (after (ApiCall.step w) (unflagged F start) calls) :=
  (invariant (fun _ _ => invStep) (startInv w start) allowed).2

theorem twoContexts (f : Bool) : (fun _ : Bool => (1 : U64)) f ≠ 0 := by decide +revert
theorem twoDistinct (f g : Bool) (_ : (fun _ : Bool => (1 : U64)) f = (fun _ => 1) g)
    (seqno : (fun f : Bool => bif f then (2 : U64) else 1) f = bif g then 2 else 1) : f = g := by
  decide +revert
theorem twoCounted (f : Bool) (cs : List Bool) (children : (fun _ : Bool => none) f = some cs) :
    cs.length < 2^32 := by cases children

def twoFences : DmaFences Bool :=
  ⟨fun _ => 1,fun f => bif f then 2 else 1,fun _ => none,twoContexts,twoDistinct,twoCounted⟩

def twoClients : DriverData 2 :=
  {DriverData.unused 2 twoEntries with
    clientsNum := 2, rxqClientsNum := 2, entries := twoEntries, ownId := noneRegistered}

def oneCreated : List (ApiCall 2 Bool) := [⟨.create (some (.plain 1 oneKnown)) (some false) true,twoClients⟩]

theorem oneCreatedAllowed : Along (ApiCall.step twoFences) (Allowed twoFences) (unflagged Bool twoClients)
    oneCreated := ⟨trivial,trivial⟩

theorem firstLive :
    (after (ApiCall.step twoFences) (unflagged Bool twoClients) oneCreated).d.live (twoFences.key false) 0 := by
  decide +kernel

def freeFirst : ApiCall 2 Bool := ⟨.destroyWithHandle (some (.plain 1 oneKnown)) 0,twoClients⟩

theorem freeFirstAllowed : Along (ApiCall.step twoFences) (Allowed twoFences)
    (unflagged Bool twoClients) (oneCreated ++ [freeFirst]) := ⟨trivial,trivial,trivial⟩

theorem firstFreed : FreesSlot
    (freeFirst.start (after (ApiCall.step twoFences) (unflagged Bool twoClients) oneCreated)) freeFirst.op 0 :=
  .inl ⟨.plain 1 oneKnown,rfl,by decide,by decide +kernel⟩

def IsAbout (f : F) (op : ApiOp F) : Prop :=
  (∃ client handle, op = .create client (some f) handle) ∨ ∃ client, op = .destroy client (some f)

theorem staleRefused {op : ApiOp F} {f : F} (inv : ApiInv w s)
    (stale : Stale w s f) (about : IsAbout f op) : ((op.call w).run s).1 ≠ .ok () := by
  obtain ⟨flagged,unheld⟩ := stale
  have plain : ¬ (w.children f).isSome = true := by simp [inv.plain flagged]
  rcases about with ⟨client,handle,rfl⟩ | ⟨client,rfl⟩
  · unfold ApiOp.call msmHwFenceCreate
    by_cases ready : s.d.vmReady = true
    · cases client <;> cases handle <;> simp [ready,plain,flagged]
    · cases client <;> cases handle <;> simp [ready]
  · unfold ApiOp.call msmHwFenceDestroy
    cases client with
    | none => simp
    | some client =>
      have ran := cleanupDead client.clientId inv.settled.tidy (w.contexts f)
        fun i live => unheld ⟨i,live⟩
      simp only [DmaFences.key] at ran
      simp [plain,flagged,hwFenceDestroy,ran]

def clientTwo : HwFenceClient := .plain 2 twoKnown

theorem clientTwoServed : Served clientTwo none twoClients := ⟨rfl,by decide,by decide⟩

theorem bothGapless : Allowed twoFences (after (ApiCall.step twoFences) (unflagged Bool twoClients) oneCreated)
    ⟨.waitUpdate (some clientTwo) (some [false,true]) none,twoClients⟩ := fun f _ array => by cases array

end Runs
end MmDrivers.FenceFlags

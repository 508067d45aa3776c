import Mathlib
import MmDrivers.FenceLookup
import MmDrivers.Lib.Runs

/-! The table operations of the driver and what whole runs of them keep. The
table refines a finite map as long as no key is created twice; nothing in the
lookup itself keeps keys unique once a destroy has left a hole. -/
namespace MmDrivers.FenceTable
open Sections Sections.Prog FenceTypes FenceLookup Probe Runs

section Operations
variable {m : Nat}

def hwFenceCreate (client : HwFenceClient) (context seqno : U64) : Driver m (Status × Nat) := do
  let (fence,hash) ← hwFenceLookupAndProcess .create context seqno client.clientId 0
  match fence with
  | none => pure (.error .einval,hash)
  | some _ => pure (.ok (),hash)

def hwFenceCleanup (clientId : Nat) (context seqno : U64) : Driver m Status := do
  let (fence,_) ← hwFenceLookupAndProcess .destroy context seqno clientId 0
  match fence with
  | none => pure (.error .einval)
  | some _ => pure (.ok ())

def hwFenceDestroy (client : HwFenceClient) (context seqno : U64) : Driver m Status :=
  hwFenceCleanup client.clientId context seqno

def hwFenceDestroyWithHash (client : HwFenceClient) (hash : Nat) : Driver m Status :=
  match getHwFence m hash with
  | none => pure (.error .einval)
  | some i => do
    -- the fields of the fence are read without its lock
    let allocator ← observe (fun d => (d.tbl i).fenceAllocator)
    if allocator ≠ client.clientId then pure (.error .einval)
    else
      let context ← observe (fun d => (d.tbl i).ctxId)
      let seqno ← observe (fun d => (d.tbl i).seqId)
      hwFenceCleanup client.clientId context seqno

def hwFenceProcessJoinFence (array : DmaFenceArray) (hash : Nat) (create : Bool) :
    Driver m (Option (Fin m) × Nat) :=
  if create then
    hwFenceLookupAndProcess .createJoin array.context array.seqno hwFenceJoinFenceClientId
      array.numFences
  else do
    -- a failure is only logged
    let _ ← hwFenceCleanup hwFenceJoinFenceClientId array.context array.seqno
    pure (none,hash)

def msmHwFenceFind (client : Option HwFenceClient) (context seqno : U64) :
    Driver m (Option (Fin m) × Nat) :=
  hwFenceLookupAndProcess .findFence context seqno (client.elim 0xff HwFenceClient.clientId) 0

end Operations

inductive TableOp where
  | create (client : HwFenceClient) (context seqno : U64)
  | createJoin (array : DmaFenceArray)
  | destroy (client : HwFenceClient) (context seqno : U64)
  | destroyWithHash (client : HwFenceClient) (hash : Nat)
  | destroyJoin (array : DmaFenceArray)
  | find (client : Option HwFenceClient) (context seqno : U64)

inductive Outcome (m : Nat) where
  | failed
  | created (hash : Nat)
  | destroyed
  | found (slot : Fin m) (hash : Nat)
  | unreported

namespace TableOp

def createsKey : TableOp → Option Key
  | .create _ context seqno => some (context,seqno)
  | .createJoin array => some (array.context,array.seqno)
  | _ => none

def call {m : Nat} : TableOp → Driver m (Outcome m)
  | .create client context seqno => do
    let (status,hash) ← hwFenceCreate client context seqno
    pure (match status with | .ok _ => .created hash | .error _ => .failed)
  | .createJoin array => do
    let (fence,hash) ← hwFenceProcessJoinFence array 0 true
    pure (match fence with | some _ => .created hash | none => .failed)
  | .destroy client context seqno => do
    let status ← hwFenceDestroy client context seqno
    pure (match status with | .ok _ => .destroyed | .error _ => .failed)
  | .destroyWithHash client hash => do
    let status ← hwFenceDestroyWithHash client hash
    pure (match status with | .ok _ => .destroyed | .error _ => .failed)
  | .destroyJoin array => do
    let _ ← hwFenceProcessJoinFence array 0 false
    pure .unreported
  | .find client context seqno => do
    let (fence,hash) ← msmHwFenceFind client context seqno
    pure (match fence with | some i => .found i hash | none => .failed)

end TableOp

structure TableCall where
  op : TableOp
  qtime : U64

namespace TableCall
variable {m : Nat}

def exec (c : TableCall) (d : DriverData m) : Outcome m × DriverData m :=
  c.op.call.run {d with qtime := c.qtime}

def step (d : DriverData m) (c : TableCall) : DriverData m := (c.exec d).2

end TableCall

section Lookups
variable {m : Nat} {d : DriverData m}

inductive Effect (d : DriverData m) (op : TableOp) (tbl : Fin m → HwFence) : Prop where
  | unchanged (same : tbl = d.tbl)
  | reserved (i : Fin m) (f : HwFence) (creates : op.createsKey = some f.key)
      (wasFree : (d.tbl i).valid = false) (valid : f.valid = true)
      (missed : ∀ j ∈ before (firstHash m f.key) i, (d.tbl j).valid = true ∧ (d.tbl j).key ≠ f.key)
      (same : tbl = Function.update d.tbl i f)
  | unreserved (i : Fin m) (same : tbl = Function.update d.tbl i (unreserveHwFence (d.tbl i)))

theorem createLookup {key : Key} (op : TableOp) (d : DriverData m) (lookup : LookupOp)
    (clientId : Nat) (pending : U32) (creates : lookup.creates = true)
    (own : op.createsKey = some key) :
    Effect d op ((hwFenceLookupAndProcess lookup key.1 key.2 clientId pending).run d).2.tbl := by
  generalize ran : (hwFenceLookupAndProcess lookup key.1 key.2 clientId pending).run d = r
  obtain ⟨⟨slot,hash⟩,d'⟩ := r
  cases slot with
  | none => exact .unchanged (by rw [lookupNone ran])
  | some i =>
    obtain ⟨-,hit,missed,rfl⟩ := lookupSome ran
    have free := (createsProcessed creates).mp hit
    have stored := createsStores creates key.1 key.2 (d.tbl i) d.qtime clientId pending
    refine .reserved i _ (by rw [stored.2,own]) free stored.1 ?_ rfl
    intro j mem
    rw [stored.2] at mem ⊢
    exact (createsMissed creates).mp (missed j mem)

theorem createRun (client : HwFenceClient) (context seqno : U64) :
    (hwFenceCreate client context seqno).run d =
      let r := (hwFenceLookupAndProcess .create context seqno client.clientId 0).run d
      (((if r.1.1.isSome then .ok () else .error .einval),r.1.2),r.2) := by
  simp only [hwFenceCreate,runBind]
  split <;> simp_all

theorem cleanupRun (clientId : Nat) (context seqno : U64) :
    (hwFenceCleanup clientId context seqno).run d =
      let r := (hwFenceLookupAndProcess .destroy context seqno clientId 0).run d
      ((if r.1.1.isSome then .ok () else .error .einval),r.2) := by
  simp only [hwFenceCleanup,runBind]
  split <;> simp_all

theorem cleanupEffect (op : TableOp) (clientId : Nat) (context seqno : U64) :
    Effect d op ((hwFenceCleanup clientId context seqno).run d).2.tbl := by
  rw [cleanupRun]
  generalize ran : (hwFenceLookupAndProcess .destroy context seqno clientId 0).run d = r
  obtain ⟨⟨slot,hash⟩,d'⟩ := r
  cases slot with
  | none => exact .unchanged (by simp [lookupNone ran])
  | some i =>
    obtain ⟨-,-,-,rfl⟩ := lookupSome ran
    exact .unreserved i (by simp [LookupOp.processFnc])

theorem findKeeps (client : Option HwFenceClient) (context seqno : U64) :
    ((msmHwFenceFind client context seqno).run d).2 = d := by
  rw [msmHwFenceFind]
  generalize ran : (hwFenceLookupAndProcess .findFence context seqno _ 0).run d = r
  obtain ⟨⟨slot,hash⟩,d'⟩ := r
  cases slot with
  | none => exact lookupNone ran
  | some i =>
    obtain ⟨-,-,-,rfl⟩ := lookupSome ran
    simp [LookupOp.processFnc]

theorem callEffect (op : TableOp) : Effect d op (op.call.run d).2.tbl := by
  cases op with
  | create client context seqno =>
    have effect := createLookup (.create client context seqno) d .create client.clientId 0
      rfl rfl
    simpa [TableOp.call,createRun] using effect
  | createJoin array =>
    have effect := createLookup (.createJoin array) d .createJoin hwFenceJoinFenceClientId
      array.numFences rfl rfl
    simpa [TableOp.call,hwFenceProcessJoinFence] using effect
  | destroy client context seqno =>
    simpa [TableOp.call,hwFenceDestroy] using cleanupEffect _ client.clientId context seqno
  | destroyWithHash client hash =>
    simp only [TableOp.call,hwFenceDestroyWithHash,runBind]
    cases getHwFence m hash with
    | none => exact .unchanged rfl
    | some i =>
      by_cases own : (d.tbl i).fenceAllocator = client.clientId
      · simpa [own] using cleanupEffect _ client.clientId (d.tbl i).ctxId (d.tbl i).seqId
      · exact .unchanged (by simp [own])
  | destroyJoin array =>
    simpa [TableOp.call,hwFenceProcessJoinFence] using
      cleanupEffect _ hwFenceJoinFenceClientId array.context array.seqno
  | find client context seqno =>
    exact .unchanged (by simp [TableOp.call,findKeeps])

end Lookups

section Unique
variable {m : Nat}

def DistinctLive (d : DriverData m) : Prop :=
  ∀ key i j, d.live key i → d.live key j → i = j

/-- Every slot the probes for a created key meet before the slot that holds it is in use. -/
def NoHole (d : DriverData m) (c : TableCall) : Prop :=
  ∀ key ∈ c.op.createsKey, ∀ i, d.live key i →
    ∀ j ∈ before (firstHash m key) i, (d.tbl j).valid = true

def RejectsHeld (d : DriverData m) (c : TableCall) : Prop :=
  ∀ key ∈ c.op.createsKey, (∃ i, d.live key i) →
    (c.exec d).1 = .failed ∧ (c.exec d).2.tbl = d.tbl

def KeysStayUnique (d : DriverData m) (calls : List TableCall) : Prop :=
  Along TableCall.step (fun d c => DistinctLive d ∧ RejectsHeld d c) d calls ∧
    DistinctLive (after TableCall.step d calls)

def zeroTable (d : DriverData m) : DriverData m := {d with tbl := fun _ => .zeroed}

theorem stepEffect (d : DriverData m) (c : TableCall) : Effect d c.op (c.step d).tbl := by
  have effect := callEffect (d := {d with qtime := c.qtime}) c.op
  cases effect with
  | unchanged same => exact .unchanged same
  | reserved i f creates wasFree valid missed same =>
    exact .reserved i f creates wasFree valid missed same
  | unreserved i same => exact .unreserved i same

theorem distinctStep {d : DriverData m} {c : TableCall} (distinct : DistinctLive d)
    (noHole : NoHole d c) : DistinctLive (c.step d) := by
  intro key i j hi hj
  cases stepEffect d c with
  | unchanged same =>
    simp only [DriverData.live,same] at hi hj
    exact distinct key i j hi hj
  | reserved k f creates wasFree valid missed same =>
    have fresh : ∀ l, l ≠ k → ¬ d.live f.key l := by
      intro l ne held
      rcases beforeTotal (firstHash m f.key) ne with early | late
      · exact (missed l early).2 held.2
      · simpa [wasFree] using noHole f.key creates l held k late
    have own : ∀ l, (c.step d).live key l → l ≠ k → d.live key l := by
      intro l held ne
      simpa [DriverData.live,same,ne] using held
    have new : (c.step d).live key k → key = f.key := by
      intro held
      simpa [DriverData.live,same,valid,eq_comm] using held
    by_cases ik : i = k <;> by_cases jk : j = k
    · rw [ik,jk]
    · subst ik
      exact absurd (own j hj jk) (new hi ▸ fresh j jk)
    · subst jk
      exact absurd (own i hi ik) (new hj ▸ fresh i ik)
    · exact distinct key i j (own i hi ik) (own j hj jk)
  | unreserved k same =>
    have old : ∀ l, (c.step d).live key l → d.live key l := by
      intro l held
      by_cases lk : l = k
      · subst lk
        simp [DriverData.live,same,unreserveHwFence] at held
      · simpa [DriverData.live,same,lk] using held
    exact distinct key i j (old i hi) (old j hj)

theorem execCreates {d : DriverData m} {c : TableCall} {key : Key} (creates : key ∈ c.op.createsKey) :
    ∃ lookup clientId pending, LookupOp.creates lookup = true ∧
      ∀ r, (hwFenceLookupAndProcess lookup key.1 key.2 clientId pending).run
          {d with qtime := c.qtime} = r →
        c.exec d = (if r.1.1.isSome then .created r.1.2 else .failed,r.2) := by
  obtain ⟨op,qtime⟩ := c
  cases op with
  | create client context seqno =>
    cases Option.some.inj creates
    refine ⟨.create,client.clientId,0,rfl,?_⟩
    rintro r rfl
    simp only [TableCall.exec,TableOp.call,runBind,createRun]
    generalize (hwFenceLookupAndProcess .create context seqno client.clientId 0).run
      {d with qtime := qtime} = r
    cases h : r.1.1 <;> rfl
  | createJoin array =>
    cases Option.some.inj creates
    refine ⟨.createJoin,hwFenceJoinFenceClientId,array.numFences,rfl,?_⟩
    rintro r rfl
    simp only [TableCall.exec,TableOp.call,runBind,hwFenceProcessJoinFence,if_true]
    generalize (hwFenceLookupAndProcess .createJoin array.context array.seqno
      hwFenceJoinFenceClientId array.numFences).run {d with qtime := qtime} = r
    cases h : r.1.1 <;> rfl
  | destroy client context seqno => cases creates
  | destroyWithHash client hash => cases creates
  | destroyJoin array => cases creates
  | find client context seqno => cases creates

theorem createHeld {key : Key} {op : LookupOp} {d : DriverData m} {i : Fin m} (clientId : Nat) (pending : U32)
    (creates : op.creates = true)
    (held : d.live key i) (used : ∀ j ∈ before (firstHash m key) i, (d.tbl j).valid = true) :
    ∃ hash, (hwFenceLookupAndProcess op key.1 key.2 clientId pending).run d = ((none,hash),d) := by
  generalize ran : (hwFenceLookupAndProcess op key.1 key.2 clientId pending).run d = r
  obtain ⟨⟨slot,hash⟩,d'⟩ := r
  cases slot with
  | none => exact ⟨hash,by rw [lookupNone ran]⟩
  | some j =>
    obtain ⟨-,hit,missed,-⟩ := lookupSome ran
    have free : (d.tbl j).valid = false := (createsProcessed creates).mp hit
    have ne : j ≠ i := by
      intro same
      rw [same,held.1] at free
      cases free
    rcases beforeTotal (firstHash m key) ne with early | late
    · exact absurd (used j early) (by simp [free])
    · exact absurd held.2 ((createsMissed creates).mp (missed i late)).2

theorem rejectsHeld {d : DriverData m} {c : TableCall} (noHole : NoHole d c) : RejectsHeld d c := by
  intro key creates ⟨i,held⟩
  obtain ⟨lookup,clientId,pending,creating,ran⟩ := execCreates (d := d) creates
  obtain ⟨hash,turnedAway⟩ := createHeld (d := {d with qtime := c.qtime}) clientId pending creating
    held (noHole key creates i held)
  rw [ran _ turnedAway]
  exact ⟨rfl,rfl⟩

theorem noHoleOfRejects {d : DriverData m} {c : TableCall} (distinct : DistinctLive d)
    (rejects : RejectsHeld d c) : NoHole d c := by
  intro key creates i held j early
  obtain ⟨lookup,clientId,pending,creating,ran⟩ := execCreates (d := d) creates
  obtain ⟨failed,-⟩ := rejects key creates ⟨i,held⟩
  generalize hr : (hwFenceLookupAndProcess lookup key.1 key.2 clientId pending).run
    {d with qtime := c.qtime} = r at ran
  obtain ⟨⟨slot,hash⟩,d'⟩ := r
  rw [ran _ rfl] at failed
  cases slot with
  | some k => simp at failed
  | none =>
    have stop : probed lookup key.1 key.2 (d.tbl i) ≠ .missed := by
      intro missed
      exact ((createsMissed creating).mp missed).2 held.2
    obtain ⟨k,duplicate,missed⟩ := lookupDuplicate hr stop
    have same : k = i := distinct key k i (createsDuplicate creating |>.mp duplicate) held
    subst same
    exact ((createsMissed creating).mp (missed j early)).1

theorem keysStayUniqueIffNoHole (d : DriverData m) (calls : List TableCall) :
    KeysStayUnique (zeroTable d) calls ↔ Along TableCall.step NoHole (zeroTable d) calls := by
  constructor
  · rintro ⟨unique,-⟩
    exact alongMono (fun s c h => noHoleOfRejects h.1 h.2) unique
  · intro noHole
    have start : DistinctLive (zeroTable d) := by
      intro key i j held
      cases held.1
    have distinct := invariant (fun s c inv hole => distinctStep inv hole) start noHole
    exact ⟨alongAnd distinct.1 (alongMono (fun s c h => rejectsHeld h) noHole),distinct.2⟩

def holeRun : List TableCall :=
  let client := HwFenceClient.plain 1 oneKnown
  [⟨.create client 1 1,0⟩,⟨.create client 1 3,0⟩,⟨.destroy client 1 1,0⟩,⟨.create client 1 3,0⟩]

theorem holeRunRepeatsKey : ¬ KeysStayUnique (zeroTable (.unused 2 twoEntries)) holeRun := by
  intro unique
  have same := unique.2 (1,3) 0 1 (by decide +kernel) (by decide +kernel)
  exact absurd same (by decide)

end Unique

structure Tidy {m : Nat} (d : DriverData m) : Prop where
  blank : ∀ i, (d.tbl i).valid = false → (d.tbl i).ctxId = 0
  distinct : DistinctLive d

section TidyTable
variable {m : Nat} {d d' : DriverData m} {key : Key} {i : Fin m}

theorem zeroTidy (d : DriverData m) : Tidy (zeroTable d) := by
  refine ⟨fun i _ => rfl,?_⟩
  intro key i j held
  simp [DriverData.live,zeroTable,HwFence.zeroed] at held

theorem Tidy.carried (tidy : Tidy d) (context : key.1 ≠ 0) (carries : (d.tbl i).key = key) :
    d.live key i := by
  refine ⟨?_,carries⟩
  by_contra free
  have zero := tidy.blank i (by simpa using free)
  exact context (by rw [← carries]; exact zero)

theorem Tidy.sameTable (tidy : Tidy d) (same : d'.tbl = d.tbl) : Tidy d' := by
  obtain ⟨blank,distinct⟩ := tidy
  constructor
  · simpa [same] using blank
  · simpa [DistinctLive,DriverData.live,same] using distinct

theorem Tidy.reserve {f : HwFence} (tidy : Tidy d) (wasFree : (d.tbl i).valid = false)
    (fresh : ∀ j, ¬ d.live f.key j) (valid : f.valid = true)
    (same : d'.tbl = Function.update d.tbl i f) : Tidy d' := by
  have own : ∀ k j, j ≠ i → (d'.live k j ↔ d.live k j) := by
    intro k j ne
    simp [DriverData.live,same,ne]
  have new : ∀ k, d'.live k i ↔ k = f.key := by
    intro k
    simp [DriverData.live,same,valid,eq_comm]
  constructor
  · intro j free
    by_cases ji : j = i
    · subst ji
      simp [same,valid] at free
    · simpa [same,ji] using tidy.blank j (by simpa [same,ji] using free)
  · intro k a b ha hb
    by_cases ai : a = i <;> by_cases bi : b = i
    · rw [ai,bi]
    · subst ai
      exact absurd ((own k b bi).mp hb) ((new k).mp ha ▸ fresh b)
    · subst bi
      exact absurd ((own k a ai).mp ha) ((new k).mp hb ▸ fresh a)
    · exact tidy.distinct k a b ((own k a ai).mp ha) ((own k b bi).mp hb)

theorem Tidy.unreserve (tidy : Tidy d)
    (same : d'.tbl = Function.update d.tbl i (unreserveHwFence (d.tbl i))) : Tidy d' := by
  have old : ∀ k j, d'.live k j → d.live k j := by
    intro k j live
    by_cases ji : j = i
    · subst ji
      simp [DriverData.live,same,unreserveHwFence] at live
    · simpa [DriverData.live,same,ji] using live
  constructor
  · intro j free
    by_cases ji : j = i
    · subst ji
      simp [same,unreserveHwFence,cleanupHwFence,HwFence.zeroed]
    · simpa [same,ji] using tidy.blank j (by simpa [same,ji] using free)
  · intro k a b ha hb
    exact tidy.distinct k a b (old k a ha) (old k b hb)

end TidyTable

section TidyLookups
variable {m : Nat} {d : DriverData m} {key : Key} {op : LookupOp}
  {clientId : Nat} {pending : U32}

def FreeAt (d : DriverData m) (key : Key) (i : Fin m) : Prop :=
  first (firstHash m key) (fun i => !(d.tbl i).valid) = some i

theorem FreeAt.free {i : Fin m} (freeAt : FreeAt d key i) : (d.tbl i).valid = false := by
  simpa using firstPasses freeAt

theorem createFresh (clientId : Nat) (pending : U32) (creates : op.creates = true)
    (fresh : ∀ i, ¬ d.live key i) :
    (∃ i, FreeAt d key i ∧
      (hwFenceLookupAndProcess op key.1 key.2 clientId pending).run d =
        ((some i,i.val),d.onSlot i (op.processFnc d.qtime clientId key.1 key.2 pending))) ∨
    ((∀ i, (d.tbl i).valid = true) ∧ ∃ hash,
      (hwFenceLookupAndProcess op key.1 key.2 clientId pending).run d = ((none,hash),d)) := by
  have missed : ∀ j, (d.tbl j).valid = true → probed op key.1 key.2 (d.tbl j) = .missed :=
    fun j used => (createsMissed creates).mpr ⟨used,fun same => fresh j ⟨used,same⟩⟩
  cases free : first (firstHash m key) (fun i => !(d.tbl i).valid) with
  | some i =>
    obtain ⟨hit,miss⟩ := firstSome.mp free
    have isFree : (d.tbl i).valid = false := by simpa using hit
    have processed : probed op key.1 key.2 (d.tbl i) = .processed :=
      (createsProcessed creates).mpr isFree
    refine .inl ⟨i,free,?_⟩
    rw [lookupStops (by rw [processed]; simp) (fun j mem => missed j (by simpa using miss j mem)),
      if_pos processed]
  | none =>
    have used : ∀ i, (d.tbl i).valid = true := fun i => by simpa using firstNone.mp free i
    exact .inr ⟨used,lookupMisses fun j => missed j (used j)⟩

theorem matchLive {i : Fin m} (tidy : Tidy d) (matching : op.creates = false)
    (context : key.1 ≠ 0) (held : d.live key i) :
    (hwFenceLookupAndProcess op key.1 key.2 clientId pending).run d =
      ((some i,i.val),d.onSlot i (op.processFnc d.qtime clientId key.1 key.2 pending)) := by
  have processed := (matchesProcessed matching).mpr held.2
  have missed : ∀ j ∈ before (firstHash m key) i, probed op key.1 key.2 (d.tbl j) = .missed := by
    intro j mem
    refine (matchesMissed matching).mpr fun carries => ?_
    have ji := tidy.distinct key j i (tidy.carried context carries) held
    subst ji
    exact notMemBefore _ _ mem
  rw [lookupStops (by rw [processed]; simp) missed,if_pos processed]

theorem matchDead (tidy : Tidy d) (matching : op.creates = false)
    (context : key.1 ≠ 0) (dead : ∀ i, ¬ d.live key i) :
    ∃ hash, (hwFenceLookupAndProcess op key.1 key.2 clientId pending).run d = ((none,hash),d) :=
  lookupMisses fun j => (matchesMissed matching).mpr
    fun carries => dead j (tidy.carried context carries)

theorem cleanupLive {i : Fin m} (clientId : Nat) (tidy : Tidy d) (context : key.1 ≠ 0)
    (held : d.live key i) : (hwFenceCleanup clientId key.1 key.2).run d =
      (.ok (),d.onSlot i unreserveHwFence) := by
  rw [cleanupRun,matchLive tidy rfl context held]
  rfl

theorem cleanupDead (clientId : Nat) (tidy : Tidy d) (context : key.1 ≠ 0)
    (dead : ∀ i, ¬ d.live key i) :
    (hwFenceCleanup clientId key.1 key.2).run d = (.error .einval,d) := by
  obtain ⟨hash,ran⟩ : ∃ hash, (hwFenceLookupAndProcess .destroy key.1 key.2 clientId 0).run d =
      ((none,hash),d) := matchDead tidy rfl context dead
  rw [cleanupRun,ran]
  rfl

theorem findLive {i : Fin m} (client : Option HwFenceClient) (tidy : Tidy d)
    (context : key.1 ≠ 0) (held : d.live key i) :
    (msmHwFenceFind client key.1 key.2).run d = ((some i,i.val),d) := by
  rw [msmHwFenceFind,matchLive tidy rfl context held]
  simp [LookupOp.processFnc]

theorem findDead (client : Option HwFenceClient) (tidy : Tidy d)
    (context : key.1 ≠ 0) (dead : ∀ i, ¬ d.live key i) :
    ∃ hash, (msmHwFenceFind client key.1 key.2).run d = ((none,hash),d) :=
  matchDead tidy rfl context dead

end TidyLookups

/-- Cleaned, but for links and flags, which the controller may still change. -/
def Blank (f : HwFence) : Prop :=
  f = {HwFence.zeroed with
    flags := f.flags
    parentList := f.parentList
    parentsCnt := f.parentsCnt
    pendingChildCnt := f.pendingChildCnt}

structure Settled {m : Nat} (d : DriverData m) : Prop where
  blank : ∀ i, (d.tbl i).valid = false → Blank (d.tbl i)
  context : ∀ i, (d.tbl i).valid = true → (d.tbl i).ctxId ≠ 0
  distinct : DistinctLive d

section SettledTable
variable {m : Nat} {d d' : DriverData m}

theorem Settled.tidy (settled : Settled d) : Tidy d :=
  ⟨fun i free => by rw [settled.blank i free]; rfl,settled.distinct⟩

theorem zeroSettled (d : DriverData m) : Settled (zeroTable d) := by
  refine ⟨fun i _ => rfl,fun i used => ?_,(zeroTidy d).distinct⟩
  simp [zeroTable,HwFence.zeroed] at used

theorem unreserveBlank (f : HwFence) : Blank (unreserveHwFence f) := rfl

theorem Settled.keep (settled : Settled d)
    (used : ∀ i, (d'.tbl i).valid = true → d.live (d'.tbl i).key i)
    (free : ∀ i, (d'.tbl i).valid = false → Blank (d'.tbl i)) : Settled d' := by
  have live : ∀ key i, d'.live key i → d.live key i := by
    intro key i held
    exact held.2 ▸ used i held.1
  refine ⟨free,fun i held => ?_,fun key i j hi hj => ?_⟩
  · have old := used i held
    have context := settled.context i old.1
    rwa [show (d.tbl i).ctxId = (d'.tbl i).ctxId from congrArg Prod.fst old.2] at context
  · exact settled.distinct key i j (live key i hi) (live key j hj)

theorem Settled.reserve {i : Fin m} {f : HwFence} (settled : Settled d)
    (wasFree : (d.tbl i).valid = false) (fresh : ∀ j, ¬ d.live f.key j) (valid : f.valid = true)
    (context : f.ctxId ≠ 0) (same : d'.tbl = Function.update d.tbl i f) : Settled d' := by
  refine ⟨fun j free => ?_,fun j used => ?_,(settled.tidy.reserve wasFree fresh valid same).distinct⟩
  · by_cases ji : j = i
    · subst ji
      simp [same,valid] at free
    · simp only [same,Function.update_of_ne ji] at free ⊢
      exact settled.blank j free
  · by_cases ji : j = i
    · subst ji
      simpa [same] using context
    · simp only [same,Function.update_of_ne ji] at used ⊢
      exact settled.context j used

theorem Settled.sameTable (settled : Settled d) (same : d'.tbl = d.tbl) : Settled d' := by
  refine settled.keep (fun i used => ?_) (fun i free => ?_)
  · rw [same] at used ⊢
    exact ⟨used,rfl⟩
  · rw [same] at free ⊢
    exact settled.blank i free

theorem Settled.unreserve {i : Fin m} (settled : Settled d)
    (same : d'.tbl = Function.update d.tbl i (unreserveHwFence (d.tbl i))) : Settled d' := by
  refine settled.keep (fun j used => ?_) (fun j free => ?_)
  · by_cases ji : j = i
    · subst ji
      simp [same,unreserveHwFence] at used
    · simp only [same,Function.update_of_ne ji] at used ⊢
      exact ⟨used,rfl⟩
  · by_cases ji : j = i
    · subst ji
      simpa [same] using unreserveBlank _
    · simp only [same,Function.update_of_ne ji] at free ⊢
      exact settled.blank j free

end SettledTable

end MmDrivers.FenceTable

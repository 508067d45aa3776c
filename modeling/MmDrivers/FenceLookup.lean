import MmDrivers.FenceTypes
import MmDrivers.Lib.Probe

/-! The lookup every table operation goes through: one probe loop that creates,
destroys or finds a fence, each probe a section under the lock of its slot. -/
namespace MmDrivers.FenceLookup
open Sections Sections.Prog FenceTypes Probe

def calculateHash (tableTotalEntries : Nat) (context seqno : U64) (step hash : Nat) : Option Nat :=
  if step = 0 then
    let bMultiplier := context + (context-1)
    some ((hwFenceHashAMult*seqno*bMultiplier + hwFenceHashCMult*context).toNat % tableTotalEntries)
  else if tableTotalEntries ≤ step then none
  else some ((hash+1) % tableTotalEntries)

def getHwFence (tableTotalEntries hash : Nat) : Option (Fin tableTotalEntries) :=
  if h : hash < tableTotalEntries then some ⟨hash,h⟩ else none

def isHwFenceFree (f : HwFence) (_context _seqno : U64) : Bool := if f.valid then false else true

def hwFenceMatch (f : HwFence) (context seqno : U64) : Bool :=
  f.ctxId = context ∧ f.seqId = seqno

/-- Clears everything but the `valid` field. -/
def cleanupHwFence (f : HwFence) : HwFence :=
  {HwFence.zeroed with
    valid := f.valid, parentList := Vector.replicate _ hwFenceInvalidParentFence}

def reserveHwFence (qtime : U64) (clientId : Nat) (context seqno : U64) (_pending : U32)
    (f : HwFence) : HwFence :=
  let f := cleanupHwFence f
  {f with
    valid := true, ctxId := context, seqId := seqno, flags := 0, fenceAllocator := clientId,
    fenceCreateTime := qtime, debugRefcount := f.debugRefcount+1}

def unreserveHwFence (f : HwFence) : HwFence := {cleanupHwFence f with valid := false}

def reserveJoinFence (qtime : U64) (clientId : Nat) (context seqno : U64) (pending : U32)
    (f : HwFence) : HwFence :=
  let f := cleanupHwFence f
  {f with
    valid := true, ctxId := context, seqId := seqno, fenceAllocator := clientId,
    fenceCreateTime := qtime, debugRefcount := f.debugRefcount+1, pendingChildCnt := pending}

inductive LookupOp where | create | destroy | createJoin | findFence
  deriving DecidableEq, Repr

namespace LookupOp

def compareFnc : LookupOp → HwFence → U64 → U64 → Bool
  | .create | .createJoin => isHwFenceFree
  | .destroy | .findFence => hwFenceMatch

def processFnc : LookupOp → U64 → Nat → U64 → U64 → U32 → HwFence → HwFence
  | .create => reserveHwFence
  | .destroy => fun _ _ _ _ _ => unreserveHwFence
  | .createJoin => reserveJoinFence
  | .findFence => fun _ _ _ _ _ f => f

def creates : LookupOp → Bool
  | .create | .createJoin => true
  | .destroy | .findFence => false

def event {m : Nat} (op : LookupOp) (i : Fin m) (context seqno : U64) : Event :=
  match op with
  | .create | .createJoin => .reserve i context seqno
  | .destroy => .unreserve i
  | .findFence => .found i

end LookupOp

inductive Probed where | processed | duplicate | missed
  deriving DecidableEq, Repr

def probed (op : LookupOp) (context seqno : U64) (f : HwFence) : Probed :=
  if op.compareFnc f context seqno then .processed
  -- ctx & seqno must be unique creating a hw-fence
  else if op.creates && seqno = f.seqId && context = f.ctxId then .duplicate
  else .missed

section Loop
variable {m : Nat} (op : LookupOp) (context seqno : U64) (clientId : Nat) (pending : U32)

def probeSlot (i : Fin m) : Driver m Probed :=
  atomic
    (fun d => match probed op context seqno (d.tbl i) with
      | .processed => d.onSlot i (op.processFnc d.qtime clientId context seqno pending)
      | .duplicate | .missed => d)
    (fun d => match probed op context seqno (d.tbl i) with
      | .processed => [.lock i,op.event i context seqno,.unlock i]
      | .duplicate | .missed => [.lock i,.unlock i])
    (fun d => probed op context seqno (d.tbl i))

-- fuel turns are left: step+fuel is the number of entries
def lookupLoop : Nat → Nat → Nat → Driver m (Option (Fin m) × Nat)
  | 0,_,hash => pure (none,hash)
  | fuel+1,step,hash =>
    match calculateHash m context seqno step hash with
    | none => pure (none,hash)
    | some hash =>
      match getHwFence m hash with
      | none => pure (none,hash)
      | some i => do
        match ← probeSlot op context seqno clientId pending i with
        | .processed => pure (some i,hash)
        | .duplicate => pure (none,hash)
        | .missed => lookupLoop fuel (step+1) hash

/-- Returns the slot, if there is one, and what `*hash` is left at. -/
def hwFenceLookupAndProcess : Driver m (Option (Fin m) × Nat) :=
  lookupLoop op context seqno clientId pending m 0 (2^64-1)

def scan : List (Fin m) → Nat → Driver m (Option (Fin m) × Nat)
  | [],hash => pure (none,hash)
  | i::rest,_ => do
    match ← probeSlot op context seqno clientId pending i with
    | .processed => pure (some i,i.val)
    | .duplicate => pure (none,i.val)
    | .missed => scan rest i.val

end Loop

def firstHash (m : Nat) (key : Key) : Nat :=
  (hwFenceHashAMult*key.2*(key.1+(key.1-1)) + hwFenceHashCMult*key.1).toNat % m

theorem calculateFirst (m : Nat) (context seqno : U64) (hash : Nat) :
    calculateHash m context seqno 0 hash = some (firstHash m (context,seqno)) := rfl

theorem calculateNext {m step hash : Nat} {context seqno : U64} (started : step ≠ 0)
    (inside : step < m) :
    calculateHash m context seqno step hash = some ((hash+1) % m) := by
  simp [calculateHash,started,inside]

theorem getPosition {m : Nat} (start : Nat) (k : Fin m) :
    getHwFence m ((start+k) % m) = some (position start k) := by
  simp [getHwFence,position,Nat.mod_lt _ k.pos]

theorem loopScan {m : Nat} (op : LookupOp) (context seqno : U64) (clientId : Nat) (pending : U32)
    (fuel step hash : Nat) (turns : step+fuel = m)
    (reached : step ≠ 0 → hash = (firstHash m (context,seqno) + (step-1)) % m) :
    lookupLoop (m := m) op context seqno clientId pending fuel step hash =
      scan op context seqno clientId pending
        ((order m (firstHash m (context,seqno))).drop step) hash := by
  induction fuel generalizing step hash with
  | zero =>
    have done : (order m (firstHash m (context,seqno))).drop step = [] := by
      simp [List.drop_eq_nil_iff]; omega
    simp [lookupLoop,scan,done]
  | succ fuel ih =>
    have inside : step < m := by omega
    have next : calculateHash m context seqno step hash =
        some ((firstHash m (context,seqno) + step) % m) := by
      by_cases started : step = 0
      · subst started
        have small : firstHash m (context,seqno) < m := Nat.mod_lt _ (by omega)
        rw [calculateFirst,Nat.add_zero,Nat.mod_eq_of_lt small]
      · rw [calculateNext started inside,reached started]
        congr 1
        rw [Nat.mod_add_mod]
        congr 1
        omega
    have slot := getPosition (firstHash m (context,seqno)) ⟨step,inside⟩
    have later := ih (step+1) ((firstHash m (context,seqno) + step) % m) (by omega)
      (fun _ => by simp)
    rw [orderDrop _ inside,lookupLoop,next]
    dsimp only at slot ⊢
    rw [slot]
    dsimp only
    rw [later]
    rfl

theorem lookupScan {m : Nat} (op : LookupOp) (context seqno : U64) (clientId : Nat) (pending : U32) :
    hwFenceLookupAndProcess (m := m) op context seqno clientId pending =
      scan op context seqno clientId pending (order m (firstHash m (context,seqno))) (2^64-1) := by
  have whole := loopScan (m := m) op context seqno clientId pending m 0 (2^64-1) (by omega)
    (fun h => absurd rfl h)
  simpa [hwFenceLookupAndProcess] using whole

theorem lookupEach {m : Nat} {op : LookupOp} {context seqno : U64} {clientId : Nat} {pending : U32}
    {P : (DriverData m → DriverData m) → (DriverData m → List Event) → Prop}
    (probe : ∀ i, (probeSlot op context seqno clientId pending i).Each P) :
    (hwFenceLookupAndProcess op context seqno clientId pending).Each P := by
  have slots : ∀ slots hash, (scan op context seqno clientId pending slots hash).Each P := by
    intro slots
    induction slots with
    | nil => exact fun _ => trivial
    | cons i rest ih =>
      intro hash
      refine eachBind (probe i) fun found => ?_
      cases found with
      | processed | duplicate => trivial
      | missed => exact ih i.val
  rw [lookupScan]
  exact slots _ _

section Alone
variable {m : Nat} {op : LookupOp} {context seqno : U64} {clientId : Nat} {pending : U32}
  {d : DriverData m}

def lastHash : List (Fin m) → Nat → Nat
  | [],hash => hash
  | i::rest,_ => lastHash rest i.val

theorem scanRun (slots : List (Fin m)) (hash : Nat) :
    (scan op context seqno clientId pending slots hash).run d =
      match slots.find? (fun i => probed op context seqno (d.tbl i) ≠ .missed) with
      | none => ((none,lastHash slots hash),d)
      | some i => match probed op context seqno (d.tbl i) with
        | .processed =>
          ((some i,i.val),d.onSlot i (op.processFnc d.qtime clientId context seqno pending))
        | .duplicate | .missed => ((none,i.val),d) := by
  induction slots generalizing hash with
  | nil => rfl
  | cons i rest ih =>
    simp only [scan,probeSlot,runBind,runAtomic,List.find?_cons]
    cases h : probed op context seqno (d.tbl i) with
    | processed => simp [h]
    | duplicate => simp [h]
    | missed => simp [ih,lastHash]

theorem lookupSome {i : Fin m} {hash : Nat} {after : DriverData m}
    (ran : (hwFenceLookupAndProcess op context seqno clientId pending).run d =
      ((some i,hash),after)) :
    hash = i.val ∧ probed op context seqno (d.tbl i) = .processed ∧
      (∀ j ∈ before (firstHash m (context,seqno)) i, probed op context seqno (d.tbl j) = .missed) ∧
      after = d.onSlot i (op.processFnc d.qtime clientId context seqno pending) := by
  rw [lookupScan,scanRun] at ran
  split at ran
  · simp at ran
  · rename_i k stop
    have passed := firstSome.mp stop
    split at ran
    · rename_i hit
      simp only [Prod.mk.injEq,Option.some.injEq] at ran
      obtain ⟨⟨rfl,rfl⟩,rfl⟩ := ran
      exact ⟨rfl,hit,fun j mem => by simpa using passed.2 j mem,rfl⟩
    · simp at ran
    · simp at ran

theorem lookupNone {hash : Nat} {after : DriverData m}
    (ran : (hwFenceLookupAndProcess op context seqno clientId pending).run d =
      ((none,hash),after)) : after = d := by
  rw [lookupScan,scanRun] at ran
  split at ran
  · simp_all
  · split at ran <;> simp_all

theorem lookupDuplicate {i : Fin m} {hash : Nat} {after : DriverData m}
    (ran : (hwFenceLookupAndProcess op context seqno clientId pending).run d =
      ((none,hash),after)) (stop : probed op context seqno (d.tbl i) ≠ .missed) :
    ∃ k, probed op context seqno (d.tbl k) = .duplicate ∧
      ∀ j ∈ before (firstHash m (context,seqno)) k, probed op context seqno (d.tbl j) = .missed := by
  obtain ⟨k,hk⟩ := firstExists (firstHash m (context,seqno))
    (fun i => decide (probed op context seqno (d.tbl i) ≠ .missed)) (by simpa using stop)
  obtain ⟨hit,miss⟩ := firstSome.mp hk
  refine ⟨k,?_,fun j mem => by simpa using miss j mem⟩
  rw [lookupScan,scanRun,show (order m (firstHash m (context,seqno))).find? _ = some k from hk] at ran
  cases h : probed op context seqno (d.tbl k) with
  | processed => simp [h] at ran
  | duplicate => rfl
  | missed => simp [h] at hit

theorem lookupStops {i : Fin m} (stop : probed op context seqno (d.tbl i) ≠ .missed)
    (miss : ∀ j ∈ before (firstHash m (context,seqno)) i,
      probed op context seqno (d.tbl j) = .missed) :
    (hwFenceLookupAndProcess op context seqno clientId pending).run d =
      if probed op context seqno (d.tbl i) = .processed then
        ((some i,i.val),d.onSlot i (op.processFnc d.qtime clientId context seqno pending))
      else ((none,i.val),d) := by
  have hit : (order m (firstHash m (context,seqno))).find?
      (fun i => probed op context seqno (d.tbl i) ≠ .missed) = some i :=
    firstSome.mpr ⟨by simpa using stop,fun j mem => by simpa using miss j mem⟩
  rw [lookupScan,scanRun,hit]
  cases h : probed op context seqno (d.tbl i) with
  | processed => simp [h]
  | duplicate => simp [h]
  | missed => exact absurd h stop

theorem lookupMisses
    (miss : ∀ j : Fin m, probed op context seqno (d.tbl j) = .missed) :
    ∃ hash, (hwFenceLookupAndProcess op context seqno clientId pending).run d = ((none,hash),d) := by
  have passes : (order m (firstHash m (context,seqno))).find?
      (fun i => probed op context seqno (d.tbl i) ≠ .missed) = none :=
    firstNone.mpr (fun j => by simpa using miss j)
  rw [lookupScan,scanRun,passes]
  exact ⟨_,rfl⟩

end Alone

section Tests
variable {context seqno : U64} {f : HwFence} {op : LookupOp}

@[simp] theorem matchKey : hwFenceMatch f context seqno = true ↔ f.key = (context,seqno) := by
  simp [hwFenceMatch,HwFence.key]

@[simp] theorem freeValid : isHwFenceFree f context seqno = true ↔ f.valid = false := by
  simp [isHwFenceFree]

theorem createsProcessed (creates : op.creates = true) :
    probed op context seqno f = .processed ↔ f.valid = false := by
  cases op <;> simp_all [LookupOp.creates,probed,LookupOp.compareFnc] <;> split <;> simp_all

theorem createsMissed (creates : op.creates = true) :
    probed op context seqno f = .missed ↔ f.valid = true ∧ f.key ≠ (context,seqno) := by
  cases op <;> simp_all [LookupOp.creates,probed,LookupOp.compareFnc,HwFence.key] <;> grind

theorem createsDuplicate (creates : op.creates = true) :
    probed op context seqno f = .duplicate ↔ f.valid = true ∧ f.key = (context,seqno) := by
  cases op <;> simp_all [LookupOp.creates,probed,LookupOp.compareFnc,HwFence.key] <;> grind

theorem createsStores (creates : op.creates = true) (context seqno : U64) (f : HwFence)
    (qtime : U64) (clientId : Nat) (pending : U32) :
    (op.processFnc qtime clientId context seqno pending f).valid = true ∧
      (op.processFnc qtime clientId context seqno pending f).key = (context,seqno) := by
  cases op <;> simp_all [LookupOp.creates,LookupOp.processFnc,reserveHwFence,reserveJoinFence,
    HwFence.key]

theorem matchesProcessed (matches_ : op.creates = false) :
    probed op context seqno f = .processed ↔ f.key = (context,seqno) := by
  cases op <;> simp_all [LookupOp.creates,probed,LookupOp.compareFnc]

theorem matchesMissed (matches_ : op.creates = false) :
    probed op context seqno f = .missed ↔ f.key ≠ (context,seqno) := by
  cases op <;> simp_all [LookupOp.creates,probed,LookupOp.compareFnc]

end Tests

end MmDrivers.FenceLookup

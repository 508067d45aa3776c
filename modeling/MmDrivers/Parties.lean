import MmDrivers.JoinAccounting
import MmDrivers.OpSections
import MmDrivers.Lib.Interleaving

/-! The parties that share the table: the calls of the driver, the clock, and the
fence controller. The controller is not part of the driver; its step is what the
driver relies on, one fence signalled at a time, with all that follows. -/
namespace MmDrivers.Parties
open Sections Sections.Prog Interleaving Interleaving.Rules FenceTypes FenceLookup FenceTable FenceSignal JoinFence
open JoinRun ResetRun DriverRuns JoinAccounting OpSections Probe

section Controller
variable {m : Nat}

def raise (f : HwFence) : HwFence := {f with flags := f.flags ||| msmHwFenceFlagSignal}

def countDown (f : HwFence) : HwFence := {f with pendingChildCnt := f.pendingChildCnt-1}

def ownData (f : HwFence) (id : Nat) : U64 := (hwFenceGetClientDataId id).elim 0 f.clientData

def tellWaiters (i : Fin m) (f : HwFence) : List Event :=
  ((List.range 64).filter fun id => f.waitClientMask &&& bit id ≠ 0).map fun id =>
    .signal {told f i.val f.error id with clientData := ownData f id}

-- one entry of parent_list
def tellParent (p : Nat) (d : DriverData m) : DriverData m × List Event :=
  match getHwFence m p with
  | none => (d,[])
  | some k =>
    let d' := d.onSlot k countDown
    if (d'.tbl k).pendingChildCnt = 0 then (d'.onSlot k raise,tellWaiters k (d'.tbl k)) else (d',[])

def tellParents : List Nat → DriverData m → DriverData m × List Event
  | [],d => (d,[])
  | p::rest,d =>
    let told := tellParent p d
    let later := tellParents rest told.1
    (later.1,told.2 ++ later.2)

def isPlain (f : HwFence) : Prop := f.valid = true ∧ f.fenceAllocator ≠ hwFenceJoinFenceClientId

instance (f : HwFence) : Decidable (isPlain f) := inferInstanceAs (Decidable (_ ∧ _))

/-- A fence that is no join fence is signalled, unless it already is. -/
def controllerSignals (i : Fin m) (d : DriverData m) : DriverData m × List Event :=
  if isPlain (d.tbl i) ∧ ¬ (d.tbl i).signaled then
    let told := tellParents (d.tbl i).parents (d.onSlot i raise)
    (told.1,tellWaiters i (d.tbl i) ++ told.2)
  else (d,[])

end Controller

inductive Party (m : Nat) where
  | call (op : DriverOp)
  | clock (qtime : U64)
  | controller (i : Fin m)

section Pool
variable {m : Nat}

def Party.prog : Party m → Driver m Status
  | .call op => op.call
  | .clock qtime => atomic (fun d => {d with qtime := qtime}) (fun _ => []) (fun _ => .ok ())
  | .controller i =>
    atomic (fun d => (controllerSignals i d).1) (fun d => (controllerSignals i d).2) (fun _ => .ok ())

def pool {ι : Type} (parties : ι → Party m) (d : DriverData m) :
    Config ι Event (DriverData m) Status :=
  ⟨⟨d,[]⟩,fun t => (parties t).prog⟩

end Pool

section Counted
variable {m : Nat} {d : DriverData m}

def Counted (f f' : HwFence) : Prop :=
  f' = {f with flags := f'.flags, pendingChildCnt := f'.pendingChildCnt}

theorem raiseCounted (f : HwFence) : Counted f (raise f) := rfl

theorem Counted.trans {f f' f'' : HwFence} (left : Counted f f') (right : Counted f' f'') :
    Counted f f'' := by
  unfold Counted at *
  rw [right,left]

structure CountedOnly (d d' : DriverData m) : Prop where
  only : d' = {d with tbl := d'.tbl}
  slots : ∀ x, Counted (d.tbl x) (d'.tbl x)

theorem CountedOnly.refl (d : DriverData m) : CountedOnly d d := ⟨rfl,fun _ => rfl⟩

theorem CountedOnly.trans {a b c : DriverData m} (ab : CountedOnly a b) (bc : CountedOnly b c) :
    CountedOnly a c := by
  refine ⟨?_,fun x => (ab.slots x).trans (bc.slots x)⟩
  rw [bc.only,ab.only]

theorem countedSlot (i : Fin m) {g : HwFence → HwFence} (counted : ∀ f, Counted f (g f)) :
    CountedOnly d (d.onSlot i g) := by
  refine ⟨rfl,fun x => ?_⟩
  by_cases xi : x = i
  · subst xi
    simpa using counted _
  · simp only [DriverData.onSlotTbl,Function.update_of_ne xi]
    exact rfl

theorem parentCounted (p : Nat) (d : DriverData m) : CountedOnly d (tellParent p d).1 := by
  unfold tellParent
  split
  · exact .refl d
  · rename_i k _
    have counted : CountedOnly d (d.onSlot k countDown) := countedSlot k fun _ => rfl
    dsimp only
    split
    · exact counted.trans (countedSlot k raiseCounted)
    · exact counted

theorem parentsCounted (ps : List Nat) (d : DriverData m) : CountedOnly d (tellParents ps d).1 := by
  induction ps generalizing d with
  | nil => exact .refl d
  | cons p rest ih => exact (parentCounted p d).trans (ih _)

theorem controllerCounted (i : Fin m) (d : DriverData m) :
    CountedOnly d (controllerSignals i d).1 := by
  unfold controllerSignals
  split
  · exact (countedSlot i raiseCounted).trans (parentsCounted _ _)
  · exact .refl d

section
variable {d' : DriverData m} (counted : CountedOnly d d')
include counted

theorem CountedOnly.live (key : Key) (x : Fin m) : d'.live key x ↔ d.live key x := by
  unfold DriverData.live
  rw [counted.slots x]
  rfl

theorem CountedOnly.isJoin (x : Fin m) : isJoin d' x ↔ isJoin d x := by
  unfold JoinAccounting.isJoin
  rw [counted.slots x]

theorem CountedOnly.parents (x : Fin m) : (d'.tbl x).parents = (d.tbl x).parents := by
  rw [counted.slots x]
  rfl

theorem CountedOnly.tidy (tidy : Tidy d) : Tidy d' := by
  constructor
  · intro x free
    rw [counted.slots x] at free ⊢
    exact tidy.blank x free
  · intro key i j hi hj
    exact tidy.distinct key i j ((counted.live key i).mp hi) ((counted.live key j).mp hj)

end
end Counted

section Sections
variable {m : Nat}

def KeepsUsed (upd : DriverData m → DriverData m) (ev : DriverData m → List Event) : Prop :=
  ∀ d i, (d.tbl i).valid = true → Event.unreserve i.val ∉ ev d → (upd d).live (d.tbl i).key i

def Aside (upd : DriverData m → DriverData m) (ev : DriverData m → List Event) : Prop :=
  ∀ d, (upd d).tbl = d.tbl ∧ ∀ e ∈ ev d, e.onTable = false

theorem Aside.keepsUsed {upd : DriverData m → DriverData m} {ev : DriverData m → List Event}
    (aside : Aside upd ev) : KeepsUsed upd ev := by
  intro d i used _
  rw [DriverData.live,(aside d).1]
  exact ⟨used,rfl⟩

theorem asideQuiet {α : Type} {p : Driver m α} (quiet : p.Each Quiet) : p.Each Aside := by
  refine eachMono (fun upd ev quiet d => ⟨?_,fun e mem => (quiet.2 d e mem).2⟩) quiet
  rw [quiet.1 d]

theorem asideSignals : SignalSections (m := m) Aside := by
  refine ⟨fun ev looks d => ⟨rfl,fun e mem => ?_⟩,
    fun _ _ _ _ _ _ _ _ => asideQuiet (eachMono (fun _ _ => Delivery.quiet) (deliverUpdate ..))⟩
  have look := looks d e mem
  cases e <;> first | rfl | cases look

theorem keepsAside {α : Type} {p : Driver m α} (aside : p.Each Aside) : p.Each KeepsUsed :=
  eachMono (fun _ _ => Aside.keepsUsed) aside

theorem keepsSlot {i : Fin m} {g : DriverData m → HwFence → HwFence} {ev : DriverData m → List Event}
    (kept : ∀ d f, (g d f).valid = f.valid ∧ (g d f).key = f.key) :
    KeepsUsed (fun d => d.onSlot i (g d)) ev := by
  intro d j used _
  by_cases ji : j = i
  · subst ji
    rw [DriverData.live,DriverData.onSlotSame,(kept d _).1,(kept d _).2]
    exact ⟨used,rfl⟩
  · rw [DriverData.live,DriverData.onSlotOther d _ ji]
    exact ⟨used,rfl⟩

theorem keepsProbe (op : LookupOp) (context seqno : U64) (clientId : Nat) (pending : U32)
    (i : Fin m) : (probeSlot op context seqno clientId pending i).Each KeepsUsed := by
  refine eachAtomic fun d j used keeps => ?_
  have same : d.live (d.tbl j).key j := ⟨used,rfl⟩
  cases hit : probed op context seqno (d.tbl i) with
  | duplicate | missed => exact same
  | processed =>
    simp only [hit] at keeps ⊢
    by_cases ji : j = i
    · subst ji
      cases op with
      | create | createJoin =>
        have free := (createsProcessed rfl).mp hit
        exact absurd (used.symm.trans free) (by simp)
      | destroy => exact absurd keeps (by simp [LookupOp.event])
      | findFence => simpa [LookupOp.processFnc] using same
    · rw [DriverData.live,DriverData.onSlotOther d _ ji]
      exact same

theorem keepsChild (join child : Fin m) (hash : Nat) :
    (processChild join child hash).Each KeepsUsed := by
  have slot : ∀ (d : DriverData m) (i k : Fin m) (g : HwFence → HwFence), (d.tbl k).valid = true →
      (∀ f, Relinked f (g f)) → (d.onSlot i g).live (d.tbl k).key k := by
    intro d i k g used relinked
    by_cases ki : k = i
    · subst ki
      rw [DriverData.live,DriverData.onSlotSame,(relinked _).valid,(relinked _).key]
      exact ⟨used,rfl⟩
    · rw [DriverData.live,DriverData.onSlotOther d _ ki]
      exact ⟨used,rfl⟩
  refine eachAtomic fun d i used _ => ?_
  split
  · exact slot d join i _ used fun _ => rfl
  · split
    · exact ⟨used,rfl⟩
    · exact slot d child i _ used fun f => linkRelinked hash f

/-- What the sections of a fence-array call keep, one kind of section at a time. -/
structure ArraySections (P : (DriverData m → DriverData m) → (DriverData m → List Event) → Prop)
    (client : HwFenceClient) (clientData : U64) : Prop where
  aside : ∀ upd ev, Aside upd ev → P upd ev
  probe : ∀ op context seqno clientId pending i,
    (probeSlot op context seqno clientId pending i).Each P
  child : ∀ join c hash, (processChild join c hash).Each P
  unlink : ∀ hash c, (unlinkChild hash c).Each P
  wait : ∀ join, P (fun d => d.onSlot join (waitOnJoin client.clientId))
    fun _ => [.lock join,.waitBit join client.clientId,.unlock join]
  store : clientData ≠ 0 → ∀ join, P (fun d => d.onSlot join
    (setClientData client.clientId clientData)) fun _ => []

theorem ArraySections.each
    {P : (DriverData m → DriverData m) → (DriverData m → List Event) → Prop}
    {client : HwFenceClient} {clientData : U64} (sections : ArraySections P client clientData)
    (array : DmaFenceArray) : (hwFenceProcessFenceArray (m := m) client array clientData).Each P := by
  have emits : ∀ e : Event, e.onTable = false → P id fun _ => [e] :=
    fun e aside => sections.aside _ _ fun d => ⟨rfl,by simpa using aside⟩
  exact callEach ⟨sections.probe,sections.child,sections.unlink,sections.wait,sections.store,
    fun fence hash flags data error => eachMono sections.aside (asideSignals.signal ..),emits _ rfl,
    fun k _ => emits _ rfl⟩

theorem keepsArray (client : HwFenceClient) (array : DmaFenceArray) (clientData : U64) :
    (hwFenceProcessFenceArray (m := m) client array clientData).Each KeepsUsed := by
  have sections : ArraySections (m := m) KeepsUsed client clientData := by
    refine ⟨fun _ _ => Aside.keepsUsed,fun op context seqno clientId pending i => keepsProbe ..,
      keepsChild,fun hash c => eachAtomic (keepsSlot fun d f => ?_),fun join => keepsSlot fun _ _ => ⟨rfl,rfl⟩,
      fun _ join => keepsSlot fun _ _ => ⟨rfl,rfl⟩⟩
    have relinked := (unlinkRelinked hash f).1
    exact ⟨relinked.valid,relinked.key⟩
  exact sections.each array

theorem keepsTable : TableSections (m := m) KeepsUsed := by
  refine ⟨⟨fun ev looks => (asideSignals.looks ev looks).keepsUsed,
    fun _ _ _ _ _ _ _ _ => keepsAside (asideSignals.update ..)⟩,fun _ _ _ _ _ _ => keepsProbe ..,
    fun _ _ _ => keepsSlot fun _ _ => ⟨rfl,rfl⟩,fun _ _ => keepsSlot fun d f => ?_,
    fun _ => keepsAside (asideQuiet (quietResetQueues ..))⟩
  rw [clearWaitBitKeeps]
  exact ⟨rfl,rfl⟩

theorem keepsProg (party : Party m) : party.prog.Each KeepsUsed := by
  cases party with
  | clock qtime => exact eachAtomic fun d i used _ => ⟨used,rfl⟩
  | controller i =>
    refine eachAtomic fun d j used _ => ?_
    rw [DriverData.live,(controllerCounted i d).slots j]
    exact ⟨used,rfl⟩
  | call op => exact keepsTable.call keepsArray op

end Sections

section Lookup
variable {m : Nat} {ι : Type} {R : Rules ι Event (DriverData m)} {t : ι}
  {P : World ι Event (DriverData m) → Prop} {L : List (Fin m) → World ι Event (DriverData m) → Prop}
  {S : Option (Fin m) × Nat → World ι Event (DriverData m) → Prop}

theorem scanTriple {op : LookupOp} {context seqno : U64} {clientId : Nat} {pending : U32}
    (stable : ∀ slots, R.Stable t (L slots)) (stable' : ∀ r, R.Stable t (S r))
    (hit : ∀ i rest w, L (i::rest) w → probed op context seqno (w.shared.tbl i) = .processed →
      let ev := [.lock i.val,op.event i context seqno,.unlock i.val]
      let s := w.shared.onSlot i (op.processFnc w.shared.qtime clientId context seqno pending)
      R.allow t w ev → R.move t w ev s ∧ S (some i,i.val) (w.act t ev s))
    (pass : ∀ (i : Fin m) rest w, L (i::rest) w → let ev := [.lock i.val,.unlock i.val]
      R.move t w ev w.shared ∧
        (probed op context seqno (w.shared.tbl i) = .missed → L rest (w.act t ev w.shared)) ∧
        (probed op context seqno (w.shared.tbl i) = .duplicate → S (none,i.val) (w.act t ev w.shared)))
    (none : ∀ hash w, L [] w → S (none,hash) w) :
    R.Triple t (L (order m (firstHash m (context,seqno))))
      (hwFenceLookupAndProcess op context seqno clientId pending) S := by
  have probe : ∀ i rest, R.Triple t (L (i::rest)) (probeSlot op context seqno clientId pending i)
      fun found w => (found = .processed → S (some i,i.val) w) ∧
        (found = .duplicate → S (.none,i.val) w) ∧ (found = .missed → L rest w) := by
    intro i rest
    refine tripleAtomic (stable _) (fun found => ?_) fun w holds allowed => ?_
    · intro w u ev s ne move holds
      exact ⟨fun here => stable' _ w u ev s ne move (holds.1 here),
        fun here => stable' _ w u ev s ne move (holds.2.1 here),
        fun here => stable _ w u ev s ne move (holds.2.2 here)⟩
    · obtain ⟨move,missed,duplicate⟩ := pass i rest w holds
      cases found : probed op context seqno (w.shared.tbl i) with
      | processed =>
        obtain ⟨move,post⟩ := hit i rest w holds found (by simpa [found] using allowed)
        exact ⟨move,fun _ => post,nofun,nofun⟩
      | duplicate => exact ⟨move,nofun,fun _ => duplicate found,nofun⟩
      | missed => exact ⟨move,nofun,nofun,fun _ => missed found⟩
  have slots : ∀ slots hash, R.Triple t (L slots)
      (scan op context seqno clientId pending slots hash) S := by
    intro slots
    induction slots with
    | nil => exact fun hash => triplePure (stable _) (none hash)
    | cons i rest ih =>
      intro hash
      refine tripleBind (probe i rest) fun found => ?_
      cases found with
      | processed =>
        exact tripleMono (fun _ h => h.1 rfl) (fun _ _ => id) (triplePure (stable' _) fun _ => id)
      | duplicate =>
        exact tripleMono (fun _ h => h.2.1 rfl) (fun _ _ => id) (triplePure (stable' _) fun _ => id)
      | missed => exact tripleMono (fun _ h => h.2.2 rfl) (fun _ _ => id) (ih i.val)
  rw [lookupScan]
  exact slots _ _

theorem lookupTriple {op : LookupOp} {context seqno : U64} {clientId : Nat} {pending : U32}
    (stable : R.Stable t P) (stable' : ∀ r, R.Stable t (S r))
    (hit : ∀ i w, P w → probed op context seqno (w.shared.tbl i) = .processed →
      let ev := [.lock i.val,op.event i context seqno,.unlock i.val]
      let s := w.shared.onSlot i (op.processFnc w.shared.qtime clientId context seqno pending)
      R.allow t w ev → R.move t w ev s ∧ S (some i,i.val) (w.act t ev s))
    (pass : ∀ (i : Fin m) w, P w → let ev := [.lock i.val,.unlock i.val]
      R.move t w ev w.shared ∧ P (w.act t ev w.shared))
    (none : ∀ hash w, P w → S (none,hash) w) :
    R.Triple t P (hwFenceLookupAndProcess op context seqno clientId pending) S := by
  refine scanTriple (L := fun _ => P) (fun _ => stable) stable' (fun i _ => hit i)
    (fun i _ w holds => ?_) none
  obtain ⟨move,kept⟩ := pass i w holds
  exact ⟨move,fun _ => kept,fun _ => none _ _ kept⟩

end Lookup
end MmDrivers.Parties

import MmDrivers.JoinWaits
import MmDrivers.ArrayAccepts

/-! Fence-array calls that run at once: which call holds which join fence, and what a section of
one call leaves alone for all others. -/
namespace MmDrivers.LinkLedger
open Sections Sections.Prog Interleaving Interleaving.Rules FenceTypes FenceLookup FenceTable
open JoinFence JoinRun JoinWaits Parties

structure ArrayCall where
  client : HwFenceClient
  array : DmaFenceArray
  clientData : U64

section Ledger
variable {m : Nat} {ι : Type}

def holding (events : List Event) : Option Nat :=
  events.foldl (fun slot e => match e with
    | .reserve i _ _ => some i
    | .unreserve _ => none
    | _ => slot) none

def onHold : Event → Bool
  | .reserve _ _ _ | .unreserve _ => true
  | _ => false

theorem holdingKept {before events : List Event} (off : ∀ e ∈ events, onHold e = false) :
    holding (before ++ events) = holding before := by
  induction events generalizing before with
  | nil => rw [List.append_nil]
  | cons e rest ih =>
    have first : holding (before ++ [e]) = holding before := by
      have off := off e (List.mem_cons_self ..)
      rw [holding,List.foldl_append]
      cases e with
      | reserve i context seqno | unreserve i => cases off
      | _ => rfl
    have later := @ih (before ++ [e]) fun e mem => off e (List.mem_cons_of_mem _ mem)
    rwa [first,List.append_assoc,List.singleton_append] at later

/-- Keys are unique, and fences in use list fences in use only, as many as fit. -/
structure Orderly (d : DriverData m) : Prop where
  tidy : Tidy d
  small : ∀ x, (d.tbl x).valid = true → (d.tbl x).parentsCnt.toNat ≤ msmHwFenceMaxJoinParents
  named : ∀ x, (d.tbl x).valid = true → ∀ p : Fin m, p.val ∈ (d.tbl x).parents →
    (d.tbl p).valid = true

structure Moves (own : Key) (held held' : Option Nat) (d d' : DriverData m) : Prop where
  orderly : Orderly d'
  takes : ∀ x : Fin m, held' = some x.val → held = some x.val ∨ (d.tbl x).valid = false
  holds : ∀ x : Fin m, held' = some x.val → (d'.tbl x).valid = true
  keeps : ∀ key x, d.live key x → d'.live key x ∨ key = own ∧ held = some x.val
  made : ∀ key x, d'.live key x → d.live key x ∨ key = own ∧ (d'.tbl x).parents = []
  signaled : ∀ key x, d.live key x → d'.live key x → (d'.tbl x).signaled = (d.tbl x).signaled
  pending : ∀ key x, d.live key x → d'.live key x → held ≠ some x.val →
    (d'.tbl x).pendingChildCnt = (d.tbl x).pendingChildCnt
  links : ∀ key x, d.live key x → d'.live key x → ∀ h, held ≠ some h →
    (d'.tbl x).parents.count h = (d.tbl x).parents.count h

def Last (join : Nat) (parents : List Nat) : Prop :=
  parents = parents.filter (fun p => p ≠ join) ++ List.replicate (parents.count join) join

instance (join : Nat) (parents : List Nat) : Decidable (Last join parents) :=
  inferInstanceAs (Decidable (_ = _))

/-- A join fence is created while no fence carries its key, and a rollback takes out the last
entries of a child. -/
def Careful (d : DriverData m) : Event → Prop
  | .reserve _ context seqno => ∀ x, ¬ d.live (context,seqno) x
  | .unlink child join => ∀ c : Fin m, c.val = child → Last join (d.tbl c).parents
  | _ => True

instance (d : DriverData m) (e : Event) : Decidable (Careful d e) :=
  match e with
  | .reserve _ _ _ => inferInstanceAs (Decidable (∀ _, _))
  | .unlink _ _ => inferInstanceAs (Decidable (∀ _, _))
  | .lock _ | .unlock _ | .lockClient _ | .unlockClient _ | .found _ | .unreserve _ | .waitBit _ _
  | .readFlags _ | .link _ _ | .signal _ | .ipc _ _ _ | .valSignal _ | .setSignaledBit _ _
  | .fencesAt _ | .queueWord _ _ _ => inferInstanceAs (Decidable True)

variable [DecidableEq ι]

def linking (calls : ι → ArrayCall) : Rules ι Event (DriverData m) where
  allow _ world events := ∀ e ∈ events, Careful world.shared e
  move t world events s := Moves (arrayKey (calls t).array) (holding (world.own t))
    (holding (world.own t ++ events)) world.shared s

structure Ledger (world : World ι Event (DriverData m)) : Prop where
  orderly : Orderly world.shared
  used : ∀ u (x : Fin m), holding (world.own u) = some x.val → (world.shared.tbl x).valid = true
  apart : ∀ u v (x : Fin m), holding (world.own u) = some x.val →
    holding (world.own v) = some x.val → u = v

variable {calls : ι → ArrayCall} {t : ι} {world : World ι Event (DriverData m)}
  {events : List Event} {s : DriverData m}

theorem Ledger.moved (ledger : Ledger world) (move : (linking calls).move t world events s) :
    Ledger (world.act t events s) := by
  have other : ∀ u ≠ t, (world.act t events s).own u = world.own u :=
    fun u ne => World.ownActOther world (Ne.symm ne) events s
  have self : (world.act t events s).own t = world.own t ++ events := World.ownActSelf ..
  have alone : ∀ u ≠ t, ∀ x : Fin m, holding (world.own u) = some x.val →
      holding (world.own t ++ events) ≠ some x.val := by
    intro u ne x held taken
    rcases move.takes x taken with before | free
    · exact ne (ledger.apart u t x held before)
    · simp [ledger.used u x held] at free
  refine ⟨move.orderly,fun u x held => ?_,fun u v x hu hv => ?_⟩
  · by_cases ut : u = t
    · subst ut
      rw [self] at held
      exact move.holds x held
    · rw [other u ut] at held
      rcases move.keeps _ x ⟨ledger.used u x held,rfl⟩ with live | ⟨-,own⟩
      · exact live.1
      · exact absurd (ledger.apart u t x held own) ut
  · by_cases ut : u = t <;> by_cases vt : v = t
    · rw [ut,vt]
    · subst ut
      rw [self] at hu
      rw [other v vt] at hv
      exact absurd hu (alone v vt x hv)
    · subst vt
      rw [self] at hv
      rw [other u ut] at hu
      exact absurd hv (alone u ut x hu)
    · rw [other u ut] at hu
      rw [other v vt] at hv
      exact ledger.apart u v x hu hv

def Plain (calls : ι → ArrayCall) (key : Key) : Prop :=
  key.1 ≠ 0 ∧ ∀ u, key ≠ arrayKey (calls u).array

structure Holds (calls : ι → ArrayCall) (t : ι) (join : Fin m) (left : Nat)
    (listed : Key → Bool → Nat → Prop) (world : World ι Event (DriverData m)) : Prop where
  ledger : Ledger world
  held : holding (world.own t) = some join.val
  live : world.shared.live (arrayKey (calls t).array) join
  pending : (world.shared.tbl join).pendingChildCnt.toNat = left
  slots : ∀ key x, world.shared.live key x →
    listed key (world.shared.tbl x).signaled ((world.shared.tbl x).parents.count join.val)

structure Idle (t : ι) (world : World ι Event (DriverData m)) : Prop where
  ledger : Ledger world
  none : holding (world.own t) = none

def Signaled (keys : List Key) (world : World ι Event (DriverData m)) : Prop :=
  ∀ key ∈ keys, ∀ x, world.shared.live key x → (world.shared.tbl x).signaled = true

theorem idleStable : (linking calls).Stable t (Idle (m := m) t) := by
  intro world u events s ne move idle
  exact ⟨idle.ledger.moved move,by rw [World.ownActOther world ne]; exact idle.none⟩

theorem liveStable {key : Key} (plain : Plain calls key) (x : Fin m) :
    (linking calls).Stable t fun world => world.shared.live key x := by
  intro world u events s ne move live
  rcases move.keeps key x live with later | ⟨own,-⟩
  · exact later
  · exact absurd own (plain.2 u)

theorem goneStable {key : Key} (plain : Plain calls key) (x : Fin m) :
    (linking calls).Stable t fun world => ¬ world.shared.live key x := by
  intro world u events s ne move gone live
  rcases move.made key x live with before | ⟨own,-⟩
  · exact gone before
  · exact plain.2 u own

theorem Signaled.moved {keys : List Key} (signaled : Signaled keys world)
    (plain : ∀ key ∈ keys, Plain calls key) (move : (linking calls).move t world events s) :
    Signaled keys (world.act t events s) := by
  intro key mem x live
  rcases move.made key x live with before | ⟨own,-⟩
  · have same : (s.tbl x).signaled = (world.shared.tbl x).signaled := move.signaled key x before live
    rw [World.actShared,same]
    exact signaled key mem x before
  · exact absurd own ((plain key mem).2 t)

theorem signaledStable {keys : List Key} (plain : ∀ key ∈ keys, Plain calls key) :
    (linking (m := m) calls).Stable t (Signaled keys) :=
  fun _ _ _ _ _ move signaled => signaled.moved plain move

theorem holdsStable {join : Fin m} {left : Nat} {listed : Key → Bool → Nat → Prop}
    (fresh : ∀ u flag, listed (arrayKey (calls u).array) flag 0) :
    (linking calls).Stable t (Holds calls t join left listed) := by
  intro world u events s ne move holds
  obtain ⟨ledger,held,live,pending,slots⟩ := holds
  have alone : holding (world.own u) ≠ some join.val :=
    fun other => ne (ledger.apart u t join other held)
  have later : s.live (arrayKey (calls t).array) join := by
    rcases move.keeps _ join live with later | ⟨-,own⟩
    · exact later
    · exact absurd own alone
  refine ⟨ledger.moved move,by rw [World.ownActOther world ne]; exact held,later,?_,fun key x here => ?_⟩
  · rw [World.actShared,move.pending _ join live later alone]
    exact pending
  · rw [World.actShared] at here ⊢
    rcases move.made key x here with before | ⟨own,empty⟩
    · rw [move.signaled key x before here,move.links key x before here join.val alone]
      exact slots key x before
    · rw [own,empty]
      exact fresh u _

end Ledger

section Stages
variable {m : Nat} {ι : Type} [DecidableEq ι] {calls : ι → ArrayCall} {t : ι} {α : Type}
  {world : World ι Event (DriverData m)} {events : List Event} {s : DriverData m}
  {P : World ι Event (DriverData m) → Prop}

theorem orderlyAlike {d d' : DriverData m} (orderly : Orderly d)
    (alike : ∀ x, Alike (d.tbl x) (d'.tbl x)) : Orderly d' := by
  have used : ∀ x, (d'.tbl x).valid = (d.tbl x).valid := fun x => by rw [alike x]
  refine ⟨⟨fun x free => ?_,fun key i j hi hj => ?_⟩,fun x valid => ?_,fun x valid p listed => ?_⟩
  · rw [alike x] at free ⊢
    exact orderly.tidy.blank x free
  · exact orderly.tidy.distinct key i j ((alikeLive alike key i).mp hi) ((alikeLive alike key j).mp hj)
  · have count : (d'.tbl x).parentsCnt = (d.tbl x).parentsCnt := by rw [alike x]
    rw [count]
    exact orderly.small x (used x ▸ valid)
  · rw [alikeParents alike] at listed
    rw [used p]
    exact orderly.named x (used x ▸ valid) p listed

theorem Ledger.quiet (ledger : Ledger world) (alike : ∀ x, Alike (world.shared.tbl x) (s.tbl x))
    (same : holding (world.own t ++ events) = holding (world.own t)) :
    (linking calls).move t world events s := by
  have live := alikeLive alike
  refine ⟨orderlyAlike ledger.orderly alike,fun x held => .inl (same ▸ held),fun x held => ?_,
    fun key x here => .inl ((live key x).mpr here),fun key x here => .inl ((live key x).mp here),
    fun key x _ _ => ?_,fun key x _ _ _ => ?_,fun key x _ _ h _ => ?_⟩
  · rw [alike x]
    exact ledger.used t x (same ▸ held)
  · rw [alike x]
    rfl
  · rw [alike x]
  · rw [alikeParents alike]

structure Stage (calls : ι → ArrayCall) (t : ι) (P : World ι Event (DriverData m) → Prop) : Prop where
  stable : (linking calls).Stable t P
  ledger : ∀ world, P world → Ledger world
  quiet : ∀ world events s, (∀ x, Alike (world.shared.tbl x) (s.tbl x)) →
    holding (world.own t ++ events) = holding (world.own t) → Ledger (world.act t events s) →
    P world → P (world.act t events s)

def Quietly (upd : DriverData m → DriverData m) (ev : DriverData m → List Event) : Prop :=
  ∀ d, (∀ x, Alike (d.tbl x) ((upd d).tbl x)) ∧ ∀ e ∈ ev d, onHold e = false

theorem quietAside {p : Driver m α} (aside : p.Each Aside) : p.Each Quietly := by
  refine eachMono (fun upd ev aside d => ⟨fun x => ?_,fun e mem => ?_⟩) aside
  · rw [(aside d).1]
    exact rfl
  · have off := (aside d).2 e mem
    cases e with
    | reserve i context seqno | unreserve i => cases off
    | _ => rfl

theorem quietSlot {i : Fin m} {g : HwFence → HwFence} {ev : List Event} (alike : ∀ f, Alike f (g f))
    (off : ∀ e ∈ ev, onHold e = false) :
    (atomic (fun d => d.onSlot i g) (fun _ => ev) (fun _ => ()) : Driver m Unit).Each Quietly := by
  refine eachAtomic fun d => ⟨fun x => ?_,off⟩
  by_cases xi : x = i
  · subst xi
    rw [DriverData.onSlotSame]
    exact alike _
  · rw [DriverData.onSlotOther _ _ xi]
    exact rfl

theorem Stage.move (stage : Stage calls t P) (events : List Event) (holds : P world)
    (alike : ∀ x, Alike (world.shared.tbl x) (s.tbl x)) (off : ∀ e ∈ events, onHold e = false) :
    (linking calls).move t world events s ∧ P (world.act t events s) := by
  have ledger := stage.ledger world holds
  have move : (linking calls).move t world events s := ledger.quiet alike (holdingKept off)
  exact ⟨move,stage.quiet world events s alike (holdingKept off) (ledger.moved move) holds⟩

theorem Stage.each {p : Driver m α} (stage : Stage calls t P) (quiet : p.Each Quietly) :
    (linking calls).Triple t P p fun _ => P :=
  tripleEach stage.stable (eachMono (fun _ _ quiet world holds _ =>
    stage.move _ holds (quiet world.shared).1 (quiet world.shared).2) quiet)

theorem Stage.ended (stage : Stage calls t P) {Q : α → World ι Event (DriverData m) → Prop} {a : α}
    (post : ∀ world, P world → Q a world) : (linking calls).Triple t P (pure a) Q :=
  triplePure stage.stable post

theorem Stage.exist {P : Nat → World ι Event (DriverData m) → Prop} (stage : ∀ k, Stage calls t (P k)) :
    Stage calls t fun world => ∃ k, P k world := by
  refine ⟨fun world u events s ne move holds => ?_,fun world holds => ?_,
    fun world events s alike same ledger holds => ?_⟩
  · obtain ⟨k,holds⟩ := holds
    exact ⟨k,(stage k).stable world u events s ne move holds⟩
  · obtain ⟨k,holds⟩ := holds
    exact (stage k).ledger world holds
  · obtain ⟨k,holds⟩ := holds
    exact ⟨k,(stage k).quiet world events s alike same ledger holds⟩

theorem Stage.fact (c : Prop) (stage : Stage calls t P) : Stage calls t fun world => c ∧ P world :=
  ⟨fun world u events s ne move holds => ⟨holds.1,stage.stable world u events s ne move holds.2⟩,
    fun world holds => stage.ledger world holds.2,
    fun world events s alike same ledger holds =>
      ⟨holds.1,stage.quiet world events s alike same ledger holds.2⟩⟩

theorem idleStage : Stage calls t (Idle (m := m) t) := by
  refine ⟨idleStable,fun _ idle => idle.ledger,fun world events s alike same ledger idle => ?_⟩
  exact ⟨ledger,by rw [World.ownActSelf,same]; exact idle.none⟩

theorem holdsStage {join : Fin m} {left : Nat} {listed : Key → Bool → Nat → Prop}
    (fresh : ∀ u flag, listed (arrayKey (calls u).array) flag 0) :
    Stage calls t (Holds calls t join left listed) := by
  refine ⟨holdsStable fresh,fun _ holds => holds.ledger,fun world events s alike same ledger holds => ?_⟩
  obtain ⟨-,held,live,pending,slots⟩ := holds
  refine ⟨ledger,by rw [World.ownActSelf,same]; exact held,(alikeLive alike _ _).mpr live,?_,
    fun key x here => ?_⟩
  · rw [World.actShared,alike join]
    exact pending
  · have flags : (s.tbl x).signaled = (world.shared.tbl x).signaled := by
      rw [alike x]
      rfl
    rw [World.actShared,flags,alikeParents alike]
    exact slots key x ((alikeLive alike key x).mp here)

theorem Stage.signaled {keys : List Key} (stage : Stage calls t P) (plain : ∀ key ∈ keys, Plain calls key) :
    Stage calls t fun world => P world ∧ Signaled keys world := by
  refine ⟨stage.stable.and (signaledStable plain),fun world holds => stage.ledger world holds.1,
    fun world events s alike same ledger holds => ⟨stage.quiet world events s alike same ledger holds.1,?_⟩⟩
  intro key mem x here
  rw [World.actShared,alike x]
  exact holds.2 key mem x ((alikeLive alike key x).mp here)

end Stages

section Acts
variable {m : Nat} {ι : Type} [DecidableEq ι] {calls : ι → ArrayCall} {t : ι} {join : Fin m} {left : Nat}
  {listed listed' : Key → Bool → Nat → Prop} {world : World ι Event (DriverData m)}

theorem Holds.relist (holds : Holds calls t join left listed world)
    (imp : ∀ key x, world.shared.live key x →
      listed key (world.shared.tbl x).signaled ((world.shared.tbl x).parents.count join.val) →
      listed' key (world.shared.tbl x).signaled ((world.shared.tbl x).parents.count join.val)) :
    Holds calls t join left listed' world :=
  ⟨holds.ledger,holds.held,holds.live,holds.pending,fun key x here => imp key x here (holds.slots key x here)⟩

theorem Holds.slot {c : Fin m} {g : HwFence → HwFence} (holds : Holds calls t join left listed world)
    (events : List Event) (left' : Nat) (listed' : Key → Bool → Nat → Prop)
    (relinked : Relinked (world.shared.tbl c) (g (world.shared.tbl c)))
    (pending : c ≠ join → (g (world.shared.tbl c)).pendingChildCnt = (world.shared.tbl c).pendingChildCnt)
    (counts : (world.shared.tbl c).valid = true → ∀ h ≠ join.val,
      (g (world.shared.tbl c)).parents.count h = (world.shared.tbl c).parents.count h)
    (small : (world.shared.tbl c).valid = true →
      (g (world.shared.tbl c)).parentsCnt.toNat ≤ msmHwFenceMaxJoinParents)
    (fewer : ((world.shared.onSlot c g).tbl join).pendingChildCnt.toNat = left')
    (others : ∀ key x, x ≠ c → world.shared.live key x →
      listed key (world.shared.tbl x).signaled ((world.shared.tbl x).parents.count join.val) →
      listed' key (world.shared.tbl x).signaled ((world.shared.tbl x).parents.count join.val))
    (own : ∀ key, world.shared.live key c →
      listed key (world.shared.tbl c).signaled ((world.shared.tbl c).parents.count join.val) →
      listed' key (world.shared.tbl c).signaled ((g (world.shared.tbl c)).parents.count join.val))
    (off : ∀ e ∈ events, onHold e = false) :
    (linking calls).move t world events (world.shared.onSlot c g) ∧
      Holds calls t join left' listed' (world.act t events (world.shared.onSlot c g)) := by
  obtain ⟨ledger,held,live,-,slots⟩ := id holds
  have linking := (Linking.refl join world.shared).onSlot relinked pending
  have self : (world.shared.onSlot c g).tbl c = g (world.shared.tbl c) := DriverData.onSlotSame ..
  have other : ∀ x ≠ c, (world.shared.onSlot c g).tbl x = world.shared.tbl x :=
    fun x ne => DriverData.onSlotOther _ _ ne
  have same : holding (world.own t ++ events) = holding (world.own t) := holdingKept off
  have valid : ∀ x, ((world.shared.onSlot c g).tbl x).valid = (world.shared.tbl x).valid :=
    fun x => (linking.slots x).valid
  have listing : ∀ x, (world.shared.tbl x).valid = true → ∀ h ≠ join.val,
      ((world.shared.onSlot c g).tbl x).parents.count h = (world.shared.tbl x).parents.count h := by
    intro x used h ne
    by_cases xc : x = c
    · rw [xc,self]
      exact counts (xc ▸ used) h ne
    · rw [other x xc]
  have orderly : Orderly (world.shared.onSlot c g) := by
    refine ⟨linking.tidy ledger.orderly.tidy,fun x used => ?_,fun x used p listed => ?_⟩
    · rw [valid] at used
      by_cases xc : x = c
      · rw [xc,self]
        exact small (xc ▸ used)
      · rw [other x xc]
        exact ledger.orderly.small x used
    · rw [valid] at used ⊢
      by_cases pj : p = join
      · rw [pj]
        exact live.1
      · refine ledger.orderly.named x used p (List.count_pos_iff.mp ?_)
        rw [← listing x used p.val fun h => pj (Fin.ext h)]
        exact List.count_pos_iff.mpr listed
  have move : (LinkLedger.linking calls).move t world events (world.shared.onSlot c g) := by
    refine ⟨orderly,fun x h => .inl (same ▸ h),fun x h => ?_,fun key x here => .inl ((linking.live key x).mpr here),
      fun key x here => .inl ((linking.live key x).mp here),fun key x _ _ => (linking.slots x).signaled,
      fun key x _ _ ne => ?_,
      fun key x here _ h ne => listing x here.1 h fun hj => ne (by rw [hj]; exact held)⟩
    · rw [valid]
      exact ledger.used t x (same ▸ h)
    · refine linking.pending x fun xj => ne ?_
      rw [xj]
      exact held
  refine ⟨move,ledger.moved move,by rw [World.ownActSelf,same]; exact held,(linking.live _ _).mpr live,fewer,
    fun key x here => ?_⟩
  have before := (linking.live key x).mp here
  have flag : ((world.shared.onSlot c g).tbl x).signaled = (world.shared.tbl x).signaled :=
    (linking.slots x).signaled
  rw [World.actShared,flag]
  by_cases xc : x = c
  · subst xc
    rw [self]
    exact own key before (slots key x before)
  · rw [other x xc]
    exact others key x xc before (slots key x before)

theorem orderlyReserve {d s : DriverData m} {i : Fin m} {key : Key} (orderly : Orderly d)
    (free : (d.tbl i).valid = false) (unused : ∀ x, ¬ d.live key x) (used : (s.tbl i).valid = true)
    (named : (s.tbl i).key = key) (empty : (s.tbl i).parents = [])
    (stored : s.tbl = Function.update d.tbl i (s.tbl i))
    (small : (s.tbl i).parentsCnt.toNat ≤ msmHwFenceMaxJoinParents) : Orderly s := by
  have other : ∀ x ≠ i, s.tbl x = d.tbl x := by
    intro x ne
    rw [stored]
    exact Function.update_of_ne ne _ _
  refine ⟨orderly.tidy.reserve free (fun j held => unused j (named ▸ held)) used stored,
    fun x live => ?_,fun x live p listed => ?_⟩
  · by_cases xi : x = i
    · rw [xi]
      exact small
    · rw [other x xi] at live ⊢
      exact orderly.small x live
  · by_cases xi : x = i
    · rw [xi,empty] at listed
      cases listed
    · rw [other x xi] at live listed
      have held := orderly.named x live p listed
      have pi : p ≠ i := by
        rintro rfl
        simp [held] at free
      rw [other p pi]
      exact held

theorem Idle.reserves {i : Fin m} (listed : Key → Bool → Nat → Prop) (idle : Idle t world)
    (free : (world.shared.tbl i).valid = false)
    (unused : ∀ x, ¬ world.shared.live (arrayKey (calls t).array) x)
    (fresh : listed (arrayKey (calls t).array) false 0)
    (none : ∀ key x, world.shared.live key x → listed key (world.shared.tbl x).signaled 0) :
    let array := (calls t).array
    let events : List Event := [.lock i.val,.reserve i.val array.context array.seqno,.unlock i.val]
    let s := world.shared.onSlot i
      (reserveJoinFence world.shared.qtime hwFenceJoinFenceClientId array.context array.seqno array.numFences)
    (linking calls).move t world events s ∧
      Holds calls t i array.numFences.toNat listed (world.act t events s) := by
  intro array events s
  obtain ⟨ledger,nothing⟩ := idle
  have self : s.tbl i = reserveJoinFence world.shared.qtime hwFenceJoinFenceClientId array.context
      array.seqno array.numFences (world.shared.tbl i) := DriverData.onSlotSame ..
  have other : ∀ x ≠ i, s.tbl x = world.shared.tbl x := fun x ne => DriverData.onSlotOther _ _ ne
  have taken : holding (world.own t ++ events) = some i.val := by
    rw [holding,List.foldl_append]
    rfl
  have empty : (s.tbl i).parents = [] := by
    rw [self]
    rfl
  have live : s.live (arrayKey array) i := by
    rw [DriverData.live,self]
    exact ⟨rfl,rfl⟩
  have stays : ∀ key x, world.shared.live key x → x ≠ i := by
    rintro key x here rfl
    simp [here.1] at free
  have later : ∀ key x, s.live key x → world.shared.live key x ∨ key = arrayKey array ∧ x = i := by
    intro key x here
    by_cases xi : x = i
    · rw [xi] at here
      exact .inr ⟨here.2.symm.trans live.2,xi⟩
    · rw [DriverData.live,other x xi] at here
      exact .inl here
  have unlisted : ∀ x, (world.shared.tbl x).valid = true → i.val ∉ (world.shared.tbl x).parents := by
    intro x used mem
    simp [ledger.orderly.named x used i mem] at free
  have orderly : Orderly s := by
    have stored : s.tbl = Function.update world.shared.tbl i (s.tbl i) := by
      rw [self]
      rfl
    refine orderlyReserve ledger.orderly free unused live.1 live.2 empty stored ?_
    rw [self]
    exact Nat.zero_le _
  have move : (linking calls).move t world events s := by
    refine ⟨orderly,fun x h => .inr ?_,fun x h => ?_,fun key x here => .inl ?_,fun key x here => ?_,
      fun key x here _ => ?_,fun key x here _ _ => ?_,fun key x here _ h _ => ?_⟩
    · rw [Fin.ext (Option.some.inj (taken.symm.trans h)).symm]
      exact free
    · rw [Fin.ext (Option.some.inj (taken.symm.trans h)).symm]
      exact live.1
    · rw [DriverData.live,other x (stays key x here)]
      exact here
    · rcases later key x here with before | ⟨own,rfl⟩
      · exact .inl before
      · exact .inr ⟨own,empty⟩
    · rw [other x (stays key x here)]
    · rw [other x (stays key x here)]
    · rw [other x (stays key x here)]
  refine ⟨move,ledger.moved move,by rw [World.ownActSelf,taken],live,?_,fun key x here => ?_⟩
  · rw [World.actShared,self]
    rfl
  · rw [World.actShared] at here ⊢
    rcases later key x here with before | ⟨rfl,rfl⟩
    · rw [other x (stays key x before),List.count_eq_zero.mpr (unlisted x before.1)]
      exact none key x before
    · have flag : (s.tbl x).signaled = false := by
        rw [self]
        exact JoinAccounting.unsignaledFlags rfl
      rw [flag,empty]
      exact fresh

theorem Holds.frees (holds : Holds calls t join left listed world)
    (unlisted : ∀ key x, world.shared.live key x → join.val ∉ (world.shared.tbl x).parents) :
    let events : List Event := [.lock join.val,.unreserve join.val,.unlock join.val]
    let s := world.shared.onSlot join unreserveHwFence
    (linking calls).move t world events s ∧ Idle t (world.act t events s) := by
  intro events s
  obtain ⟨ledger,held,live,-,-⟩ := holds
  have self : s.tbl join = unreserveHwFence (world.shared.tbl join) := DriverData.onSlotSame ..
  have other : ∀ x ≠ join, s.tbl x = world.shared.tbl x := fun x ne => DriverData.onSlotOther _ _ ne
  have freed : holding (world.own t ++ events) = none := by
    rw [holding,List.foldl_append]
    rfl
  have stays : ∀ x, (s.tbl x).valid = true → x ≠ join := by
    rintro x used rfl
    rw [self] at used
    cases used
  have before : ∀ key x, s.live key x → world.shared.live key x ∧ x ≠ join := by
    intro key x here
    have ne := stays x here.1
    rw [DriverData.live,other x ne] at here
    exact ⟨here,ne⟩
  have orderly : Orderly s := by
    refine ⟨ledger.orderly.tidy.unreserve rfl,fun x used => ?_,fun x used p listed => ?_⟩
    · have ne := stays x used
      rw [other x ne] at used ⊢
      exact ledger.orderly.small x used
    · have ne := stays x used
      rw [other x ne] at used listed
      have pj : p ≠ join := by
        rintro rfl
        exact unlisted _ x ⟨used,rfl⟩ listed
      rw [other p pj]
      exact ledger.orderly.named x used p listed
  have move : (linking calls).move t world events s := by
    have nothing : ∀ x : Fin m, holding (world.own t ++ events) ≠ some x.val := by simp [freed]
    refine ⟨orderly,fun x h => absurd h (nothing x),fun x h => absurd h (nothing x),
      fun key x here => ?_,fun key x here => .inl (before key x here).1,fun key x _ here => ?_,
      fun key x _ here _ => ?_,fun key x _ here h _ => ?_⟩
    · by_cases xj : x = join
      · subst xj
        exact .inr ⟨here.2.symm.trans live.2,held⟩
      · rw [DriverData.live,other x xj]
        exact .inl here
    · rw [other x (before key x here).2]
    · rw [other x (before key x here).2]
    · rw [other x (before key x here).2]
  exact ⟨move,ledger.moved move,by rw [World.ownActSelf,freed]⟩

end Acts
end MmDrivers.LinkLedger

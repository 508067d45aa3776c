import MmDrivers.Parties

/-! Registration of a wait while the other parties move. The lookup has released
the lock of the slot when the registration takes it again, and the slot is not
looked at a second time: between the two it may be freed and taken by another fence. -/
namespace MmDrivers.WaitRace
open Sections Sections.Prog Interleaving Interleaving.Rules Runs FenceTypes FenceLookup FenceTable
open FenceSignal DriverRuns Parties

section Registration
variable {m : Nat} {ι : Type}

def pendingSlot (events : List Event) : Option Nat :=
  events.foldl (fun slot e => match e with
    | .found i => some i
    | .waitBit .. => none
    | _ => slot) none

variable [DecidableEq ι]

/-- The wait bit of the next section of `t`, if it sets one, lands on a slot in use with that key. -/
def Lands (key : Key) (c : Config ι Event (DriverData m) Status) (t : ι) : Prop :=
  ∀ i id, .waitBit i id ∈ c.offers t → ∃ j : Fin m, j.val = i ∧ c.world.shared.live key j

def LandsOnFence (w : ι) (client : HwFenceClient) (key : Key)
    (c : Config ι Event (DriverData m) Status) (schedule : List ι) : Prop :=
  (after Config.turn c schedule).result w = some (.ok ()) →
    (∃ i, .waitBit i client.clientId ∈ (after Config.turn c schedule).world.own w) ∧
      Along Config.turn (fun c t => t = w → Lands key c w) c schedule

def Undisturbed (w t : ι) (world : World ι Event (DriverData m)) (events : List Event) : Prop :=
  (t = w → ∀ i : Fin m, .found i.val ∈ events → (world.shared.tbl i).valid = true) ∧
    (t ≠ w → ∀ i ∈ pendingSlot (world.own w), .unreserve i ∉ events)

instance (w t : ι) (world : World ι Event (DriverData m)) (events : List Event) :
    Decidable (Undisturbed w t world events) := inferInstanceAs (Decidable (_ ∧ _))

def landing (w : ι) (key : Key) : Rules ι Event (DriverData m) where
  allow := Undisturbed w
  move t world events s :=
    (t = w → ∀ i id, .waitBit i id ∈ events → ∃ j : Fin m, j.val = i ∧ world.shared.live key j) ∧
      (t ≠ w → ∀ i : Fin m, pendingSlot (world.own w) = some i.val → world.shared.live key i →
        s.live key i)

variable {w t : ι} {key : Key}

theorem othersMove (ne : t ≠ w) (party : Party m) :
    (landing w key).Triple t (fun _ => True) party.prog fun _ _ => True := by
  refine tripleEach (fun _ _ _ _ _ _ _ => trivial) (eachMono (fun upd ev keeps world _ allowed => ?_)
    (keepsProg party))
  refine ⟨⟨fun same => absurd same ne,fun _ i pending held => ?_⟩,trivial⟩
  have kept := keeps world.shared i held.1 (allowed.2 ne i pending)
  rwa [held.2] at kept

def Found (w : ι) (key : Key) (slot : Option (Fin m)) (world : World ι Event (DriverData m)) : Prop :=
  ∀ i, slot = some i → pendingSlot (world.own w) = some i.val ∧ world.shared.live key i

def Registered (w : ι) (clientId : Nat) (world : World ι Event (DriverData m)) : Prop :=
  ∃ i, .waitBit i clientId ∈ world.own w

theorem foundStable (slot : Option (Fin m)) : (landing w key).Stable w (Found w key slot) := by
  intro world u events s ne move found i here
  obtain ⟨pending,held⟩ := found i here
  rw [World.ownActOther world ne]
  exact ⟨pending,move.2 ne i pending held⟩

theorem registeredStable (clientId : Nat) :
    (landing (m := m) w key).Stable w (Registered w clientId) := by
  intro world u events s ne move ⟨i,set⟩
  exact ⟨i,by rwa [World.ownActOther world ne]⟩

theorem moveAside {world : World ι Event (DriverData m)} {events : List Event} {s : DriverData m}
    (aside : ∀ i id, .waitBit i id ∉ events) : (landing w key).move w world events s :=
  ⟨fun _ i id set => absurd set (aside i id),fun ne => absurd rfl ne⟩

theorem findTriple (client : Option HwFenceClient) :
    (landing (m := m) w key).Triple w (fun _ => True) (msmHwFenceFind client key.1 key.2)
      fun r => Found w key r.1 := by
  refine lookupTriple (fun _ _ _ _ _ _ _ => trivial) (fun r => foundStable r.1)
    (fun i world _ hit allowed => ?_) (fun i world _ => ⟨moveAside (by simp),trivial⟩)
    (fun hash world _ i none => by cases none)
  have carries : (world.shared.tbl i).key = key := (matchesProcessed rfl).mp hit
  refine ⟨moveAside (by simp [LookupOp.event]),fun j here => ?_⟩
  cases Option.some.inj here
  refine ⟨?_,?_⟩
  · rw [World.ownActSelf,pendingSlot,List.foldl_append]
    rfl
  · rw [World.actShared,DriverData.live,DriverData.onSlotSame]
    exact ⟨allowed.1 rfl i (by simp [LookupOp.event]),carries⟩

theorem registerTriple (fence : Option DmaFence) (client : HwFenceClient) (clientData : U64) :
    (landing (m := m) w key).Triple w (fun _ => True)
      (Prod.fst <$> hwFenceRegisterWaitClient fence client key.1 key.2 clientData)
      fun status world => status = .ok () → Registered w client.clientId world := by
  have always : (landing (m := m) w key).Stable w fun _ => True := fun _ _ _ _ _ _ _ => trivial
  rw [mapBind]
  unfold hwFenceRegisterWaitClient
  refine tripleBind (Q := fun r world => r.1 = .ok () → Registered w client.clientId world)
    (tripleIte (fun _ => triplePure always (by simp)) fun _ => ?_) fun r => triplePure ?_ fun _ => id
  · refine tripleBind (findTriple (some client)) fun (slot,hash) => ?_
    cases slot with
    | none => exact triplePure (foundStable none) (by simp)
    | some i =>
      refine tripleBind (Q := fun _ => Registered w client.clientId) (tripleAtomic (foundStable _)
        (fun _ => registeredStable _) fun world found _ => ?_) fun _ => ?_
      · obtain ⟨-,held⟩ := found i rfl
        refine ⟨⟨fun _ k id set => ?_,fun ne => absurd rfl ne⟩,i.val,?_⟩
        · simp only [List.mem_cons,List.not_mem_nil,reduceCtorEq,or_false,false_or,
            Event.waitBit.injEq] at set
          exact ⟨i,set.1.symm,held⟩
        · simp [World.ownActSelf]
      · -- what is left sets no bit
        refine tripleMono (fun _ => id) (fun _ _ set _ => set) (tripleEach (registeredStable _)
          (eachMono (fun upd ev aside world registered _ => ?_) (asideSignals.signaled fence client clientData i hash)))
        refine ⟨moveAside fun k id set => ?_,?_⟩
        · exact absurd ((aside world.shared).2 _ set) (by simp [Event.onTable])
        · obtain ⟨k,set⟩ := registered
          exact ⟨k,by rw [World.ownActSelf]; exact List.mem_append_left _ set⟩
  · intro world u events s ne move registered done
    exact registeredStable _ world u events s ne move (registered done)

theorem registrationLands (w : ι) (fence : Option DmaFence) (client : HwFenceClient) (key : Key)
    (clientData : U64) (parties : ι → Party m)
    (registers : parties w = .call (.registerWait fence client key.1 key.2 clientData))
    (d : DriverData m) (schedule : List ι)
    (undisturbed : Along Config.turn (fun c t => Undisturbed w t c.world (c.offers t))
      (pool parties d) schedule) :
    LandsOnFence w client key (pool parties d) schedule := by
  have sound : (landing w key).Sound
      (fun t status world => t = w → status = .ok () → Registered w client.clientId world)
      (pool parties d) := by
    intro t
    by_cases same : t = w
    · subst same
      have own := @registerTriple m ι _ t key fence client clientData
        (pool parties d).world trivial
      simp only [pool,registers,Party.prog,DriverOp.call]
      exact meetsMono (fun _ _ set _ => set) own
    · exact meetsMono (fun _ _ _ here => absurd here same)
        (othersMove same (parties t) (pool parties d).world trivial)
  obtain ⟨moved,sound⟩ := soundRun sound undisturbed
  refine fun done => ⟨soundResult sound done rfl rfl,alongMono (fun c t moved here i id set => ?_) moved⟩
  subst here
  rcases moved with ended | move
  · obtain ⟨a,ended⟩ := Option.isSome_iff_exists.mp ended
    rw [Config.offers,Config.resultRet ended] at set
    cases set
  · exact move.1 rfl i id set

end Registration

section Race

def creator : HwFenceClient := .plain 1 oneKnown
def waiter : HwFenceClient := .plain 2 twoKnown

def created : DriverData 2 :=
  after DriverCall.step (zeroTable (.unused 2 twoEntries)) [⟨.create creator 1 1,0⟩]

def parties : Fin 3 → Party 2
  | 0 => .call (.registerWait none waiter 1 1 0)
  | 1 => .call (.destroy creator 1 1)
  | 2 => .call (.create creator 1 3)

theorem waitAloneLands : LandsOnFence 0 waiter (1,1) (pool parties created) [0,0,0,1,2] :=
  registrationLands 0 none waiter (1,1) 0 parties rfl created [0,0,0,1,2] (by decide +kernel)

theorem waitLandsElsewhere : parties 0 = .call (.registerWait none waiter 1 1 0) ∧
    ¬ LandsOnFence 0 waiter (1,1) (pool parties created) [0,1,2,0,0] := by
  refine ⟨rfl,fun lands => ?_⟩
  obtain ⟨-,along⟩ := lands (by decide +kernel)
  obtain ⟨j,-,held⟩ := alongSplit.mp along [0,1,2] 0 [0] rfl rfl 0 2 (by decide +kernel)
  exact absurd held (by decide +kernel +revert)

end Race
end MmDrivers.WaitRace

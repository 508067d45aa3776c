import MmDrivers.LinkLedger
import MmDrivers.ArrayOutcome

/-! Fence-array calls that share children. A link is appended behind the last one, and a rollback
blanks its entries where they are and lowers the count: as long as the entries it takes out are the
last, no call loses a link to the rollback of another. -/
namespace MmDrivers.LinkRace
open Sections Sections.Prog Interleaving Interleaving.Rules Runs FenceTypes FenceLookup FenceTable Probe
open FenceSignal JoinFence JoinRun DriverRuns JoinAccounting JoinWaits Parties ArrayOutcome ArrayAccepts
open LinkLedger

section Links
variable {join h : Nat} {f : HwFence} {done : List DmaFence} {child : DmaFence} {signaled links : Nat}
  {key : Key} {flag : Bool}

theorem unlinkCount (join : Nat) (f : HwFence) :
    (unlinkParent join f).parentsCnt.toNat ≤ f.parentsCnt.toNat := by
  have entry : ∀ j f, (unlinkEntry join j f).parentsCnt.toNat ≤ f.parentsCnt.toNat := by
    intro j f
    unfold unlinkEntry
    split
    · dsimp only
      split
      · rename_i some
        have one : (1 : U32).toNat = 1 := rfl
        have positive : f.parentsCnt.toNat ≠ 0 := fun zero => some (BitVec.eq_of_toNat_eq zero)
        rw [BitVec.toNat_sub_of_le (by rw [BitVec.le_def,one]; omega)]
        omega
      · exact Nat.le_refl _
    · exact Nat.le_refl _
  have entries : ∀ j f, (unlinkFrom join j f).parentsCnt.toNat ≤ f.parentsCnt.toNat := by
    intro j
    induction j with
    | zero => exact fun f => Nat.le_refl _
    | succ j ih => exact fun f => (ih _).trans (entry j f)
  exact entries _ f

theorem unlinkFiltered (last : Last join f.parents) (small : f.parentsCnt.toNat ≤ msmHwFenceMaxJoinParents) :
    (unlinkParent join f).parents = f.parents.filter (fun p => p ≠ join) :=
  unlinkLast last (by simp) small

theorem filteredCount (ne : h ≠ join) (parents : List Nat) :
    (parents.filter (fun p => p ≠ join)).count h = parents.count h :=
  List.count_filter (by simpa using ne)

def Linked (done : List DmaFence) (signaled : Nat) (key : Key) (flag : Bool) (links : Nat) : Prop :=
  links = (if flag then 0 else (done.map waitsFor).count key) ∧
    (signaled = done.length → key ∈ done.map waitsFor → flag = true)

def Listing (keys : List Key) (key : Key) (_flag : Bool) (links : Nat) : Prop := 0 < links → key ∈ keys

theorem Linked.counted (linked : Linked done signaled key flag links)
    (own : key = waitsFor child → flag = true) :
    Linked (done ++ [child]) (signaled+1) key flag links := by
  obtain ⟨count,closed⟩ := linked
  rw [Linked,List.map_append,List.length_append]
  refine ⟨?_,fun all mem => ?_⟩
  · rw [count]
    by_cases here : key = waitsFor child
    · simp [own here]
    · simp [List.count_append,List.count_cons_of_ne (Ne.symm here)]
  · rcases List.mem_append.mp mem with before | last
    · exact closed (by simpa using all) before
    · exact own (by simpa using last)

theorem Linked.other (linked : Linked done signaled key flag links) (ne : key ≠ waitsFor child)
    (few : signaled ≤ done.length) : Linked (done ++ [child]) signaled key flag links := by
  rw [Linked,List.map_append,List.length_append]
  refine ⟨?_,fun all _ => ?_⟩
  · rw [linked.1]
    simp [List.count_append,List.count_cons_of_ne (Ne.symm ne)]
  · simp only [List.length_singleton] at all
    omega

theorem Linked.more (linked : Linked done signaled (waitsFor child) false links)
    (few : signaled ≤ done.length) :
    Linked (done ++ [child]) signaled (waitsFor child) false (links+1) := by
  rw [Linked,List.map_append,List.length_append]
  refine ⟨?_,fun all _ => ?_⟩
  · rw [linked.1]
    simp [List.count_append]
  · simp only [List.length_singleton] at all
    omega

theorem Linked.listing (linked : Linked done signaled key flag links) :
    Listing (done.map waitsFor) key flag links := by
  intro some
  rw [linked.1] at some
  cases flag with
  | true => exact absurd some (Nat.lt_irrefl 0)
  | false => exact List.count_pos_iff.mp some

end Links

section Sections
variable {m : Nat} {ι : Type} [DecidableEq ι] {calls : ι → ArrayCall} {t : ι}
  {P : World ι Event (DriverData m) → Prop}

structure FencesApart (calls : ι → ArrayCall) : Prop where
  contexts : ∀ t, (calls t).array.context ≠ 0
  plain : ∀ t, ∀ child ∈ (calls t).array.children, child.isArray = false → Plain calls (waitsFor child)

def Ends (calls : ι → ArrayCall) (key : Key) (slot : Option (Fin m)) (world : World ι Event (DriverData m)) :
    Prop :=
  Plain calls key → match slot with
    | some c => world.shared.live key c
    | none => ∀ x, ¬ world.shared.live key x

theorem endsStable (key : Key) (slot : Option (Fin m)) :
    (linking calls).Stable t (Ends calls key slot) := by
  intro world u events s ne move ends plain
  cases slot with
  | some c => exact liveStable plain c world u events s ne move (ends plain)
  | none => exact fun x => goneStable plain x world u events s ne move (ends plain x)

theorem findTriple (stage : Stage calls t P) (client : Option HwFenceClient) (key : Key) :
    (linking (m := m) calls).Triple t P (msmHwFenceFind client key.1 key.2)
      fun r world => P world ∧ Ends calls key r.1 world := by
  -- the slots that hold the key are still to be met
  have ahead : ∀ slots : List (Fin m), (linking calls).Stable t
      fun world => Plain calls key → ∀ x, world.shared.live key x → x ∈ slots := by
    intro slots world u events s ne move ahead plain x live
    by_contra met
    exact goneStable plain x world u events s ne move (fun before => met (ahead plain x before)) live
  refine tripleMono (fun world holds => ⟨holds,fun _ x _ => memOrder _ x⟩) (fun _ _ => id)
    (scanTriple (L := fun slots world => P world ∧ (Plain calls key → ∀ x, world.shared.live key x → x ∈ slots))
      (fun slots => stage.stable.and (ahead slots)) (fun r => stage.stable.and (endsStable key r.1))
      (fun i rest world holds hit _ => ?_) (fun i rest world holds => ?_) (fun hash world holds => ?_))
  · have carries : (world.shared.tbl i).key = key := (matchesProcessed rfl).mp hit
    have same : world.shared.onSlot i (LookupOp.findFence.processFnc world.shared.qtime
        (client.elim 0xff HwFenceClient.clientId) key.1 key.2 0) = world.shared := by
      simp [LookupOp.processFnc]
    rw [same]
    obtain ⟨move,kept⟩ := stage.move [.lock i.val,.found i.val,.unlock i.val] holds.1
      (fun _ => rfl) (by simp [onHold])
    exact ⟨move,kept,fun plain => (stage.ledger world holds.1).orderly.tidy.carried plain.1 carries⟩
  · obtain ⟨move,kept⟩ := stage.move [.lock i.val,.unlock i.val] holds.1
      (fun _ => rfl) (by simp [onHold])
    refine ⟨move,fun missed => ⟨kept,fun plain x live => ?_⟩,fun duplicate => ?_⟩
    · rcases List.mem_cons.mp (holds.2 plain x live) with rfl | later
      · exact absurd live.2 ((matchesMissed rfl).mp missed)
      · exact later
    · by_cases carries : (world.shared.tbl i).key = key
      · have hit : probed .findFence key.1 key.2 (world.shared.tbl i) = .processed :=
          (matchesProcessed rfl).mpr carries
        rw [duplicate] at hit
        cases hit
      · have miss : probed .findFence key.1 key.2 (world.shared.tbl i) = .missed :=
          (matchesMissed rfl).mpr carries
        rw [duplicate] at miss
        cases miss
  · exact ⟨holds.1,fun plain x live => absurd (holds.2 plain x live) List.not_mem_nil⟩

variable {join : Fin m} {done : List DmaFence} {flag : Bool}

def Looped (calls : ι → ArrayCall) (t : ι) (join : Fin m) (done : List DmaFence) (flag : Bool)
    (world : World ι Event (DriverData m)) : Prop :=
  ∃ signaled, (signaled ≤ done.length ∧ (flag = true → signaled = (calls t).array.numFences.toNat)) ∧
    Holds calls t join ((calls t).array.numFences.toNat-signaled) (Linked done signaled) world

def Undoing (calls : ι → ArrayCall) (t : ι) (join : Fin m) (keys : List Key)
    (world : World ι Event (DriverData m)) : Prop :=
  ∃ left, Holds calls t join left (Listing keys) world

theorem loopedStage (plain : ∀ child ∈ done, Plain calls (waitsFor child)) :
    Stage calls t (Looped calls t join done flag) := by
  refine Stage.exist fun signaled => Stage.fact _ (holdsStage fun u flag => ?_)
  have none : arrayKey (calls u).array ∉ done.map waitsFor := by
    intro mem
    obtain ⟨child,mem,same⟩ := List.mem_map.mp mem
    exact (plain child mem).2 u same
  refine ⟨?_,fun _ mem => absurd mem none⟩
  rw [List.count_eq_zero.mpr none]
  cases flag <;> rfl

theorem undoingStage (keys : List Key) : Stage calls t (Undoing calls t join keys) :=
  Stage.exist fun _ => holdsStage fun _ _ none => absurd none (Nat.lt_irrefl 0)

theorem Looped.undoing {world : World ι Event (DriverData m)} (looped : Looped calls t join done flag world) :
    Undoing calls t join (done.map waitsFor) world := by
  obtain ⟨signaled,-,holds⟩ := looped
  exact ⟨_,holds.relist fun _ _ _ linked => linked.listing⟩

theorem createTriple (t : ι) :
    (linking (m := m) calls).Triple t (Idle t) (hwFenceProcessJoinFence (calls t).array 0 true)
      fun r world => match r.1 with
        | none => Idle t world
        | some join => r.2 = join.val ∧ Looped calls t join [] false world := by
  refine lookupTriple idleStable (fun r => ?_) (fun i world idle hit allowed => ?_)
    (fun i world idle => idleStage.move _ idle (fun _ => rfl) (by simp [onHold])) (fun hash world idle => idle)
  · obtain ⟨slot,hash⟩ := r
    cases slot with
    | none => exact idleStable
    | some join => exact (Stage.fact _ (loopedStage (by simp))).stable
  · have free := (createsProcessed rfl).mp hit
    have unused : ∀ x, ¬ world.shared.live (arrayKey (calls t).array) x :=
      allowed (.reserve i.val (calls t).array.context (calls t).array.seqno) (by simp [LookupOp.event])
    obtain ⟨move,holds⟩ := idle.reserves (Linked [] 0) free unused ⟨rfl,by simp⟩
      fun key x _ => ⟨by simp,by simp⟩
    exact ⟨move,rfl,0,⟨Nat.le_refl _,by simp⟩,holds⟩

section Turn
variable {world : World ι Event (DriverData m)} {child : DmaFence} {c : Fin m} {signaled : Nat}
  (holds : Holds calls t join ((calls t).array.numFences.toNat-signaled) (Linked done signaled) world)
  (few : signaled ≤ done.length) (last : flag = true → signaled = (calls t).array.numFences.toNat)
  (single : ∀ x, world.shared.live (waitsFor child) x → x = c)
include holds few last single

theorem countsChild {zero : Bool} (room : done.length < (calls t).array.numFences.toNat)
    (set : (world.shared.tbl c).signaled = true)
    (drained : zero = true → (world.shared.tbl join).pendingChildCnt-1 = 0) :
    let events : List Event := [.lock c.val,.lock join.val,.unlock join.val,.unlock c.val]
    let s := world.shared.onSlot join fun f =>
      {f with pendingChildCnt := (world.shared.tbl join).pendingChildCnt-1}
    (linking calls).move t world events s ∧
      Looped calls t join (done ++ [child]) (flag || zero) (world.act t events s) := by
  have orderly := holds.ledger.orderly
  have pending := holds.pending
  have one : (1 : U32).toNat = 1 := rfl
  have fewer : ((world.shared.tbl join).pendingChildCnt-1).toNat =
      (calls t).array.numFences.toNat-(signaled+1) := by
    rw [BitVec.toNat_sub_of_le (by rw [BitVec.le_def,one]; omega),one]
    omega
  have counted : ∀ key x, world.shared.live key x →
      Linked done signaled key (world.shared.tbl x).signaled ((world.shared.tbl x).parents.count join.val) →
      Linked (done ++ [child]) (signaled+1) key (world.shared.tbl x).signaled
        ((world.shared.tbl x).parents.count join.val) := by
    intro key x live linked
    refine linked.counted fun own => ?_
    rw [single x (own ▸ live)]
    exact set
  obtain ⟨move,later⟩ := holds.slot (c := join)
    (g := fun f => {f with pendingChildCnt := (world.shared.tbl join).pendingChildCnt-1})
    [.lock c.val,.lock join.val,.unlock join.val,.unlock c.val]
    ((calls t).array.numFences.toNat-(signaled+1)) (Linked (done ++ [child]) (signaled+1)) rfl
    (fun ne => absurd rfl ne) (fun _ _ _ => rfl) (fun used => orderly.small join used)
    (by rw [DriverData.onSlotSame]; exact fewer) (fun key x _ live => counted key x live)
    (fun key live => counted key join live) (by simp [onHold])
  refine ⟨move,signaled+1,⟨?_,fun up => ?_⟩,later⟩
  · rw [List.length_append,List.length_singleton]
    omega
  · rcases (Bool.or_eq_true _ _).mp up with old | new
    · have all := last old
      omega
    · rw [drained new] at fewer
      have none : (0 : U32).toNat = 0 := rfl
      omega

theorem linksChild (here : world.shared.live (waitsFor child) c)
    (unset : (world.shared.tbl c).signaled = false) (fits : parentsExceeded (world.shared.tbl c) = false) :
    let events : List Event := [.lock c.val,.link c.val join.val,.unlock c.val]
    let s := world.shared.onSlot c (linkParent join.val)
    (linking calls).move t world events s ∧ Looped calls t join (done ++ [child]) flag (world.act t events s) := by
  have small := exceededIff.mp fits
  have parents : (linkParent join.val (world.shared.tbl c)).parents = _ := linkParents fits
  have counts : (world.shared.tbl c).valid = true → ∀ h ≠ join.val,
      (linkParent join.val (world.shared.tbl c)).parents.count h = (world.shared.tbl c).parents.count h := by
    intro _ h ne
    rw [parents,List.count_append,List.count_singleton]
    simp [Ne.symm ne]
  have count : (linkParent join.val (world.shared.tbl c)).parentsCnt.toNat ≤ msmHwFenceMaxJoinParents := by
    rw [linkCount join.val fits]
    exact small.le
  have pending : ((world.shared.onSlot c (linkParent join.val)).tbl join).pendingChildCnt.toNat =
      (calls t).array.numFences.toNat-signaled := by
    rw [← holds.pending]
    by_cases jc : join = c
    · rw [jc,DriverData.onSlotSame]
      exact rfl
    · rw [DriverData.onSlotOther _ _ jc]
  have own : ∀ key, world.shared.live key c →
      Linked done signaled key (world.shared.tbl c).signaled ((world.shared.tbl c).parents.count join.val) →
      Linked (done ++ [child]) signaled key (world.shared.tbl c).signaled
        ((linkParent join.val (world.shared.tbl c)).parents.count join.val) := by
    intro key live linked
    have own : key = waitsFor child := live.2.symm.trans here.2
    rw [own,unset] at linked ⊢
    rw [parents,List.count_append,List.count_singleton_self]
    exact linked.more few
  obtain ⟨move,later⟩ := holds.slot (c := c) (g := linkParent join.val)
    [.lock c.val,.link c.val join.val,.unlock c.val] ((calls t).array.numFences.toNat-signaled)
    (Linked (done ++ [child]) signaled) (linkRelinked ..) (fun _ => rfl) counts (fun _ => count) pending
    (fun key x ne live linked => linked.other (fun own => ne (single x (own ▸ live))) few) own
    (by simp [onHold])
  refine ⟨move,signaled,⟨?_,last⟩,later⟩
  rw [List.length_append]
  omega

end Turn

theorem childTriple {child : DmaFence} (before : ∀ child ∈ done, Plain calls (waitsFor child))
    (plain : Plain calls (waitsFor child)) (room : done.length < (calls t).array.numFences.toNat) (c : Fin m) :
    (linking calls).Triple t
      (fun world => Looped calls t join done flag world ∧ world.shared.live (waitsFor child) c)
      (processChild join c join.val) fun step world => match step with
        | .exceeded => Looped calls t join done flag world
        | .signaled last => Looped calls t join (done ++ [child]) (flag || last) world
        | .linked => Looped calls t join (done ++ [child]) flag world := by
  have plains : ∀ fence ∈ done ++ [child], Plain calls (waitsFor fence) := by
    intro fence mem
    rcases List.mem_append.mp mem with earlier | last
    · exact before fence earlier
    · rwa [List.mem_singleton.mp last]
  refine tripleAtomic ((loopedStage before).stable.and (liveStable plain c)) (fun step => ?_)
    fun world holds _ => ?_
  · cases step with
    | exceeded => exact (loopedStage before).stable
    | signaled last => exact (loopedStage plains).stable
    | linked => exact (loopedStage plains).stable
  obtain ⟨looped,here⟩ := holds
  obtain ⟨signaled,⟨few,last⟩,holds⟩ := id looped
  have single : ∀ x, world.shared.live (waitsFor child) x → x = c :=
    fun x live => holds.ledger.orderly.tidy.distinct _ x c live here
  by_cases set : (world.shared.tbl c).signaled = true
  · simp only [set,if_true]
    exact countsChild holds few last single room set (fun new => by simpa using new)
  · have unset : (world.shared.tbl c).signaled = false := by simpa using set
    simp only [unset,Bool.false_eq_true,if_false]
    by_cases exceeded : parentsExceeded (world.shared.tbl c) = true
    · simp only [exceeded,if_true]
      exact (loopedStage before).move _ looped (fun _ => rfl) (by simp [onHold])
    · have fits : parentsExceeded (world.shared.tbl c) = false := by simpa using exceeded
      simp only [fits,Bool.false_eq_true,if_false]
      exact linksChild holds few last single here unset fits

theorem childrenTriple (fences : FencesApart calls) {rest : List DmaFence}
    (split : (calls t).array.children = done ++ rest)
    (before : ∀ child ∈ done, Plain calls (waitsFor child)) :
    (linking (m := m) calls).Triple t (Looped calls t join done flag)
      (processChildren (calls t).client join join.val rest done.length flag) fun ended world => match ended with
        | .ok flag => (∀ child ∈ (calls t).array.children, Plain calls (waitsFor child)) ∧
            Looped calls t join (calls t).array.children flag world
        | .error i => ∃ keys, (∀ k ∈ keys, Plain calls k) ∧
            keys = ((calls t).array.children.take i).map waitsFor ∧ Undoing calls t join keys world := by
  induction rest generalizing done flag with
  | nil =>
    rw [List.append_nil] at split
    exact (loopedStage before).ended fun world looped => by rw [split]; exact ⟨before,looped⟩
  | cons child rest ih =>
    have stage := @loopedStage m ι _ calls t join done flag before
    have length : done.length < (calls t).array.numFences.toNat := by
      rw [← (calls t).array.childrenLength,split,List.length_append,List.length_cons]
      omega
    have failed : ∀ world, Looped calls t join done flag world → ∃ keys, (∀ k ∈ keys, Plain calls k) ∧
        keys = ((calls t).array.children.take done.length).map waitsFor ∧
        Undoing calls t join keys world := by
      intro world looped
      refine ⟨done.map waitsFor,fun k listed => ?_,?_,looped.undoing⟩
      · obtain ⟨fence,mem,rfl⟩ := List.mem_map.mp listed
        exact before fence mem
      · rw [split,List.take_left]
    have next : ∀ flag, Plain calls (waitsFor child) → _ := fun flag plain =>
      @ih (done ++ [child]) flag (by rw [split,List.append_assoc]; rfl) (by
        intro fence mem
        rcases List.mem_append.mp mem with earlier | last
        · exact before fence earlier
        · rwa [List.mem_singleton.mp last])
    unfold processChildren
    refine tripleBind (stage.each (quietAside (eachAtomic fun d => ⟨rfl,by simp [Event.onTable]⟩)))
      fun _ => tripleIte (fun _ => stage.ended failed) fun fit => ?_
    have mem : child ∈ (calls t).array.children := by
      rw [split]
      exact List.mem_append_right _ (List.mem_cons_self ..)
    have plain := fences.plain t child mem (by simpa using fun isArray => fit (.inl isArray))
    refine tripleBind (findTriple stage (some (calls t).client) (waitsFor child)) fun found => ?_
    obtain ⟨slot,hash⟩ := found
    cases slot with
    | none => exact tripleMono (fun world h => h.1) (fun _ _ => id) (stage.ended failed)
    | some c =>
      have section_ := @childTriple m ι _ calls t join done flag child before plain length c
      refine tripleBind (tripleMono (fun world h => ⟨h.1,h.2 plain⟩) (fun _ _ => id) section_) fun step => ?_
      have longer : (done ++ [child]).length = done.length+1 := by simp
      cases step with
      | exceeded => exact stage.ended failed
      | signaled last =>
        have later := next (flag || last) plain
        rwa [longer] at later
      | linked =>
        have later := next flag plain
        rwa [longer] at later

theorem cleanupTriple (client : HwFenceClient) (child : Option DmaFence) {keys left : List Key}
    (plain : ∀ key ∈ keys, Plain calls key)
    (rest : ∀ key ∈ keys, child.map waitsFor = some key ∨ key ∈ left) :
    (linking (m := m) calls).Triple t (Undoing calls t join keys) (cleanupChild client join.val child)
      fun _ => Undoing calls t join left := by
  have stage := @undoingStage m ι _ calls t join keys
  have stage' := @undoingStage m ι _ calls t join left
  cases child with
  | none =>
    refine stage.ended fun world undoing => ?_
    obtain ⟨count,holds⟩ := undoing
    refine ⟨count,holds.relist fun key x _ listing some => ?_⟩
    rcases rest key (listing some) with same | later
    · cases same
    · exact later
  | some child =>
    refine tripleBind (findTriple stage (some client) (waitsFor child)) fun found => ?_
    obtain ⟨slot,hash⟩ := found
    cases slot with
    | none =>
      refine triplePure (stage.stable.and (endsStable _ _)) fun world holds => ?_
      obtain ⟨⟨count,holds⟩,gone⟩ := holds
      refine ⟨count,holds.relist fun key x live listing some => ?_⟩
      rcases rest key (listing some) with same | later
      · cases Option.some.inj same
        exact absurd live (gone (plain _ (listing some)) x)
      · exact later
    | some c =>
      refine tripleAtomic (stage.stable.and (endsStable _ _)) (fun _ => stage'.stable)
        fun world holds careful => ?_
      obtain ⟨⟨count,holds⟩,here⟩ := holds
      have orderly := holds.ledger.orderly
      have last : Last join.val (world.shared.tbl c).parents :=
        careful (.unlink c.val join.val) (by simp) c rfl
      have parents : (world.shared.tbl c).valid = true →
          (unlinkParent join.val (world.shared.tbl c)).parents =
            (world.shared.tbl c).parents.filter (fun p => p ≠ join.val) :=
        fun used => unlinkFiltered last (orderly.small c used)
      have relinked := unlinkRelinked join.val (world.shared.tbl c)
      have pending : ((world.shared.onSlot c (unlinkParent join.val)).tbl join).pendingChildCnt.toNat = count := by
        rw [← holds.pending]
        by_cases jc : join = c
        · rw [jc,DriverData.onSlotSame,← jc,(unlinkRelinked ..).2]
        · rw [DriverData.onSlotOther _ _ jc]
      have others : ∀ key x, x ≠ c → world.shared.live key x →
          Listing keys key (world.shared.tbl x).signaled ((world.shared.tbl x).parents.count join.val) →
          Listing left key (world.shared.tbl x).signaled ((world.shared.tbl x).parents.count join.val) := by
        intro key x ne live listing some
        rcases rest key (listing some) with same | later
        · cases Option.some.inj same
          exact absurd (orderly.tidy.distinct _ x c live (here (plain _ (listing some)))) ne
        · exact later
      obtain ⟨move,later⟩ := holds.slot (c := c) (g := unlinkParent join.val)
        [.lock c.val,.unlink c.val join.val,.unlock c.val] count (Listing left) relinked.1 (fun _ => relinked.2)
        (fun used h ne => by rw [parents used]; exact filteredCount ne _)
        (fun used => (unlinkCount ..).trans (orderly.small c used)) pending others
        (fun key live _ some => by rw [parents live.1] at some; simp at some) (by simp [onHold])
      exact ⟨move,count,later⟩

theorem rollbackTriple (client : HwFenceClient) {i : Nat}
    (plain : ∀ key ∈ ((calls t).array.children.take i).map waitsFor, Plain calls key) :
    (linking (m := m) calls).Triple t
      (Undoing calls t join (((calls t).array.children.take i).map waitsFor))
      (cleanupChildren client (calls t).array join.val i) fun _ => Undoing calls t join [] := by
  induction i with
  | zero => exact (undoingStage _).ended fun world undoing => undoing
  | succ i ih =>
    have reads : (emit (m := m) fun _ => [.fencesAt i]).Each Quietly :=
      quietAside (eachAtomic fun d => ⟨rfl,by simp [Event.onTable]⟩)
    refine tripleBind ((undoingStage _).each reads) fun _ => ?_
    by_cases inside : i < (calls t).array.children.length
    · have child := (calls t).array.childrenAt (i := i) (by rw [← (calls t).array.childrenLength]; omega)
      rw [List.getElem?_eq_getElem inside] at child
      rw [List.take_succ_eq_append_getElem inside,List.map_append] at plain ⊢
      refine tripleBind (cleanupTriple client _ plain fun key mem => ?_) fun _ =>
        ih fun key mem => plain key (List.mem_append_left _ mem)
      rcases List.mem_append.mp mem with before | last
      · exact .inr before
      · rw [← child]
        refine .inl (congrArg some ?_)
        simpa using (List.mem_singleton.mp last).symm
    · have all : (calls t).array.children.take (i+1) = (calls t).array.children.take i := by
        rw [List.take_of_length_le (by omega),List.take_of_length_le (by omega)]
      rw [all] at plain ⊢
      exact tripleBind (cleanupTriple client _ plain fun key mem => .inr mem) fun _ => ih plain

theorem destroyTriple (fences : FencesApart calls) {keys : List Key} (plain : ∀ key ∈ keys, Plain calls key)
    (hash : Nat) : (linking (m := m) calls).Triple t
      (fun world => Undoing calls t join [] world ∧ Signaled keys world)
      (hwFenceProcessJoinFence (calls t).array hash false) fun _ => Signaled keys := by
  have stage := Stage.signaled (@undoingStage m ι _ calls t join []) plain
  have signaled := @signaledStable m ι _ calls t keys plain
  unfold hwFenceProcessJoinFence hwFenceCleanup
  simp only [Bool.false_eq_true,if_false]
  refine tripleBind (Q := fun _ => Signaled keys) (tripleBind (Q := fun _ => Signaled keys)
    (lookupTriple stage.stable (fun _ => signaled) (fun i world holds hit _ => ?_)
      (fun i world holds => stage.move _ holds (fun _ => rfl) (by simp [onHold]))
      (fun hash world holds => holds.2)) fun r => ?_) fun _ => triplePure signaled fun _ h => h
  · obtain ⟨⟨count,holds⟩,set⟩ := holds
    have carries : (world.shared.tbl i).key = arrayKey (calls t).array := (matchesProcessed rfl).mp hit
    have live := holds.ledger.orderly.tidy.carried (fences.contexts t) carries
    have same := holds.ledger.orderly.tidy.distinct _ i join live holds.live
    subst same
    obtain ⟨move,-⟩ := holds.frees fun key x live mem =>
      absurd (holds.slots key x live (List.count_pos_iff.mpr mem)) List.not_mem_nil
    exact ⟨move,set.moved plain move⟩
  · obtain ⟨fence,hash⟩ := r
    cases fence <;> exact triplePure signaled fun _ h => h

theorem cleanupJoinTriple (fences : FencesApart calls) (client : HwFenceClient) {i : Nat}
    (plain : ∀ key ∈ ((calls t).array.children.take i).map waitsFor, Plain calls key) :
    (linking (m := m) calls).Triple t
      (Undoing calls t join (((calls t).array.children.take i).map waitsFor))
      (cleanupJoinAndChildFences client i (calls t).array join.val) fun _ _ => True := by
  have always : (linking (m := m) calls).Stable t fun _ => True := fun _ _ _ _ _ _ _ => trivial
  have reads : (emit (m := m) fun _ => [.fencesAt i]).Each Quietly :=
    quietAside (eachAtomic fun d => ⟨rfl,by simp [Event.onTable]⟩)
  refine tripleBind (Q := fun _ => Undoing calls t join []) (tripleIte (fun _ => ?_) fun none => ?_)
    fun _ => tripleBind (Q := fun _ _ => True) ?_ fun _ => triplePure always fun _ h => h
  · refine tripleBind ((undoingStage _).each reads) fun _ => tripleBind ?_ fun _ => rollbackTriple client plain
    exact cleanupTriple client _ plain fun key mem => .inr mem
  · have empty : (calls t).array.children = [] := by
      refine List.eq_nil_of_length_eq_zero ?_
      rw [(calls t).array.childrenLength]
      by_contra some
      obtain ⟨mem,fences,-⟩ := (calls t).array.filled 0 (by omega)
      simp [fences] at none
    rw [empty,List.take_nil]
    exact (undoingStage _).ended fun world undoing => undoing
  · refine tripleMono (fun world undoing => ⟨undoing,fun key mem => absurd mem List.not_mem_nil⟩)
      (fun _ _ _ => trivial) (destroyTriple fences (fun key mem => absurd mem List.not_mem_nil) join.val)

def Ended (calls : ι → ArrayCall) (t : ι) (r : Status × Option Nat) (world : World ι Event (DriverData m)) :
    Prop :=
  match r.1 with
  | .error _ => True
  | .ok _ => (∀ child ∈ (calls t).array.children, Plain calls (waitsFor child)) ∧
      (Signaled ((calls t).array.children.map waitsFor) world ∨
        ∃ join : Fin m, r.2 = some join.val ∧ Looped calls t join (calls t).array.children false world)

theorem endedStable (r : Status × Option Nat) : (linking (m := m) calls).Stable t (Ended calls t r) := by
  obtain ⟨status,hash⟩ := r
  cases status with
  | error e => exact fun _ _ _ _ _ _ _ => trivial
  | ok _ =>
    intro world u events s ne move ended
    obtain ⟨plain,set | ⟨join,same,looped⟩⟩ := ended
    · refine ⟨plain,.inl (set.moved (fun key listed => ?_) move)⟩
      obtain ⟨child,mem,rfl⟩ := List.mem_map.mp listed
      exact plain child mem
    · exact ⟨plain,.inr ⟨join,same,(loopedStage plain).stable world u events s ne move looped⟩⟩

theorem Looped.closed {world : World ι Event (DriverData m)}
    (looped : Looped calls t join (calls t).array.children true world) :
    Undoing calls t join [] world ∧ Signaled ((calls t).array.children.map waitsFor) world := by
  obtain ⟨signaled,⟨-,all⟩,holds⟩ := looped
  have all := all rfl
  rw [← (calls t).array.childrenLength] at all
  refine ⟨⟨_,holds.relist fun key x _ linked some => ?_⟩,fun key mem x live => (holds.slots key x live).2 all mem⟩
  have listed := linked.listing some
  rw [linked.1,linked.2 all listed] at some
  exact absurd some (Nat.lt_irrefl 0)

theorem finishTriple (fences : FencesApart calls) (ended : Except Nat Bool) :
    (linking (m := m) calls).Triple t (fun world => match ended with
        | .ok flag => (∀ child ∈ (calls t).array.children, Plain calls (waitsFor child)) ∧
            Looped calls t join (calls t).array.children flag world
        | .error i => ∃ keys, (∀ k ∈ keys, Plain calls k) ∧
            keys = ((calls t).array.children.take i).map waitsFor ∧ Undoing calls t join keys world)
      (finishArray (calls t).client (calls t).array join join.val (calls t).clientData ended)
      fun status world => Ended calls t (status,some join.val) world := by
  have failed : (linking (m := m) calls).Triple t (fun _ => True) (pure (.error .einval))
      fun status world => Ended calls t (status,some join.val) world :=
    triplePure (fun _ _ _ _ _ _ _ => trivial) fun _ _ => trivial
  cases ended with
  | error i =>
    intro world h
    obtain ⟨keys,plain,rfl,undoing⟩ := h
    exact tripleBind (cleanupJoinTriple fences _ plain) (fun _ => failed) world undoing
  | ok flag =>
    intro world h
    obtain ⟨plain,looped⟩ := h
    have plains : ∀ key ∈ (calls t).array.children.map waitsFor, Plain calls key := by
      intro key listed
      obtain ⟨child,mem,rfl⟩ := List.mem_map.mp listed
      exact plain child mem
    have stage := @loopedStage m ι _ calls t join (calls t).array.children flag plain
    have store : (whenever ((calls t).clientData ≠ 0) (atomic
        (fun d => d.onSlot join (setClientData (calls t).client.clientId (calls t).clientData))
        (fun _ => []) (fun _ => ())) : Driver m Unit).Each Quietly :=
      eachWhenever fun _ => quietSlot (fun _ => rfl) (by simp)
    refine tripleBind (stage.each store) (fun _ => ?_) world looped
    cases flag with
    | true =>
      have closed := Stage.signaled (@undoingStage m ι _ calls t join []) plains
      refine tripleMono (fun _ => Looped.closed) (fun _ _ => id) ?_
      refine tripleBind (closed.each (quietAside (asideSignals.signal ..))) fun _ => tripleBind
        (closed.each (quietAside (eachAtomic fun d => ⟨rfl,by simp [Event.onTable]⟩))) fun _ => ?_
      exact tripleBind (destroyTriple fences plains join.val) fun _ =>
        triplePure (signaledStable plains) fun _ set => ⟨plain,.inl set⟩
    | false =>
      simp only [Bool.false_eq_true,if_false]
      refine tripleIte (fun none => ?_) fun _ => stage.ended fun _ looped => ⟨plain,.inr ⟨join,rfl,looped⟩⟩
      have empty : ((calls t).array.children.take 0).map waitsFor = [] := rfl
      refine tripleMono (fun world looped => ?_) (fun _ _ => id)
        (tripleBind (cleanupJoinTriple fences (i := 0) _ (by simp)) fun _ => failed)
      have undoing := Looped.undoing looped
      rwa [emptyChildren none] at undoing

theorem arrayTriple (fences : FencesApart calls) (t : ι) :
    (linking (m := m) calls).Triple t (Idle t)
      (hwFenceProcessFenceArray (calls t).client (calls t).array (calls t).clientData) (Ended calls t) := by
  unfold hwFenceProcessFenceArray
  refine tripleIte (fun _ => idleStage.ended fun _ _ => trivial) fun _ =>
    tripleBind (createTriple t) fun found => ?_
  obtain ⟨slot,hash⟩ := found
  cases slot with
  | none => exact idleStage.ended fun _ _ => trivial
  | some join =>
    intro world h
    obtain ⟨same,looped⟩ := h
    have same : hash = join.val := same
    subst same
    have start := @loopedStage m ι _ calls t join [] false (by simp)
    have wait : (atomic (fun d => d.onSlot join (waitOnJoin (calls t).client.clientId))
        (fun _ => [.lock join,.waitBit join (calls t).client.clientId,.unlock join]) (fun _ => ()) :
        Driver m Unit).Each Quietly := quietSlot (fun _ => rfl) (by simp [onHold])
    refine tripleBind (start.each wait) (fun _ => ?_) world looped
    refine tripleBind (childrenTriple fences rfl (by simp)) fun ended =>
      tripleBind (finishTriple fences ended) fun status => triplePure (endedStable _) fun _ h => h

end Sections

section Runs
variable {m : Nat} {ι : Type}

def callPool (calls : ι → ArrayCall) (d : DriverData m) :
    Config ι Event (DriverData m) (Status × Option Nat) :=
  ⟨⟨d,[]⟩,fun t => hwFenceProcessFenceArray (calls t).client (calls t).array (calls t).clientData⟩

/-- Every child that is not signalled lists the join fence of each call on it that has succeeded, as
often as the array names the child. -/
def LinksListed (calls : ι → ArrayCall) (c : Config ι Event (DriverData m) (Status × Option Nat)) : Prop :=
  ∀ t hash, c.result t = some (.ok (),hash) → ∀ child ∈ (calls t).array.children,
    ∀ x, c.world.shared.live (waitsFor child) x → (c.world.shared.tbl x).signaled = false →
      ∃ join, hash = some join ∧
        (c.world.shared.tbl x).parents.count join = occurrences (calls t).array (waitsFor child)

variable [DecidableEq ι]

/-- From the end of a call on, none of its links is lost. -/
def NoLinkLost (calls : ι → ArrayCall) (d : DriverData m) (schedule : List ι) : Prop :=
  Along Config.turn (fun c _ => LinksListed calls c) (callPool calls d) schedule ∧
    LinksListed calls (after Config.turn (callPool calls d) schedule)

theorem linksListed {calls : ι → ArrayCall} {c : Config ι Event (DriverData m) (Status × Option Nat)}
    (sound : (linking calls).Sound (Ended calls) c) : LinksListed calls c := by
  intro t hash done child mem x live unsignaled
  obtain ⟨plain,set | ⟨join,same,signaled,-,holds⟩⟩ := soundResult sound done
  · have up := set _ (List.mem_map.mpr ⟨child,mem,rfl⟩) x live
    rw [unsignaled] at up
    cases up
  · have linked := holds.slots _ x live
    rw [unsignaled] at linked
    exact ⟨join.val,same,linked.1⟩

theorem noLinkLost (calls : ι → ArrayCall) (fences : FencesApart calls) {d : DriverData m}
    (orderly : Orderly d) (schedule : List ι)
    (careful : Along Config.turn (fun c t => ∀ e ∈ c.offers t, Careful c.world.shared e)
      (callPool calls d) schedule) : NoLinkLost calls d schedule := by
  have sound : (linking calls).Sound (Ended calls) (callPool calls d) := by
    intro t
    refine arrayTriple fences t _ ⟨⟨orderly,fun u x held => ?_,fun u v x held => ?_⟩,rfl⟩
    · cases held
    · cases held
  obtain ⟨-,last⟩ := soundRun sound careful
  exact ⟨alongMono (fun c t h => linksListed h.1) (soundAlong sound careful),linksListed last⟩

end Runs

section Race

theorem threeEntries : 3 < 2^32 := by decide

def created : DriverData 3 :=
  after DriverCall.step (zeroTable (.unused 3 threeEntries)) [⟨.create creator 1 1,0⟩]

def otherArray : DmaFenceArray := {oneChild with context := 3}

def sharing : Fin 2 → ArrayCall
  | 0 => ⟨waiter,nestedArray,0⟩
  | 1 => ⟨waiter,otherArray,0⟩

theorem sharingApart : FencesApart sharing := by
  have plain : Plain sharing (1,1) := by
    refine ⟨by decide,fun u => ?_⟩
    fin_cases u <;> decide
  refine ⟨fun t => ?_,fun t child mem notArray => ?_⟩
  · fin_cases t <;> decide
  · have key : waitsFor child = (1,1) := by
      fin_cases t
      · have each : ∀ child ∈ nestedArray.children, waitsFor child = (1,1) := by decide
        exact each child mem
      · have each : ∀ child ∈ otherArray.children, waitsFor child = (1,1) := by decide
        exact each child mem
    rwa [key]

theorem createdOrderly : Orderly created := by
  have allowed : Allowed (zeroTable (.unused 3 threeEntries)) ⟨.create creator 1 1,0⟩ := by
    refine ⟨contextsOf (by decide),fun key creates i held => ?_⟩
    cases held.1
  exact ⟨(settledStep (zeroSettled _) allowed).tidy,by decide +kernel,by decide +kernel⟩

theorem inTurnKeeps :
    NoLinkLost sharing created (List.replicate 20 0 ++ List.replicate 10 1) :=
  noLinkLost sharing sharingApart createdOrderly _ (by decide +kernel)

theorem overlapLoses : FencesApart sharing ∧ Orderly created ∧
    let ended := after Config.turn (callPool sharing created)
      (List.replicate 6 0 ++ List.replicate 10 1 ++ List.replicate 20 0)
    (∀ t, (ended.result t).isSome = true) ∧ ¬ LinksListed sharing ended := by
  refine ⟨sharingApart,createdOrderly,by decide +kernel,fun listed => ?_⟩
  obtain ⟨join,same,count⟩ := listed 1 (some 1) (by decide +kernel) ⟨1,1,false,true⟩ (by decide) 2
    (by decide +kernel) (by decide +kernel)
  cases Option.some.inj same
  exact absurd count (by decide +kernel)

end Race
end MmDrivers.LinkRace

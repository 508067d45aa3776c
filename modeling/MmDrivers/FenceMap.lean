import MmDrivers.FenceTable

/-! The fence table as a finite map from keys to the handles its creates gave
out. The map is kept next to the run and never read by it. -/
namespace MmDrivers.FenceMap
open Sections Sections.Prog FenceTypes FenceLookup FenceTable Probe Runs

abbrev Handles := Key → Option Nat

section Map
variable {m : Nat}

structure Agrees (d : DriverData m) (handles : Handles) : Prop where
  tidy : Tidy d
  named : ∀ key hash, handles key = some hash ↔ ∃ i, d.live key i ∧ i.val = hash

variable {d d' : DriverData m} {handles : Handles} {key : Key} {i : Fin m}

theorem Agrees.dead (agrees : Agrees d handles) :
    handles key = none ↔ ∀ i, ¬ d.live key i := by
  constructor
  · intro none i held
    have named := (agrees.named key i).mpr ⟨i,held,rfl⟩
    simp [none] at named
  · intro dead
    cases h : handles key with
    | none => rfl
    | some hash =>
      obtain ⟨i,held,-⟩ := (agrees.named key hash).mp h
      exact absurd held (dead i)

theorem Agrees.sameTable (agrees : Agrees d handles) (same : d'.tbl = d.tbl) :
    Agrees d' handles := by
  refine ⟨agrees.tidy.sameTable same,?_⟩
  simpa [DriverData.live,same] using agrees.named

theorem Agrees.reserve {f : HwFence} (agrees : Agrees d handles)
    (wasFree : (d.tbl i).valid = false) (fresh : ∀ j, ¬ d.live f.key j) (valid : f.valid = true)
    (same : d'.tbl = Function.update d.tbl i f) :
    Agrees d' (Function.update handles f.key (some i.val)) := by
  have own : ∀ k j, j ≠ i → (d'.live k j ↔ d.live k j) := by
    intro k j ne
    simp [DriverData.live,same,ne]
  have new : ∀ k, d'.live k i ↔ k = f.key := by
    intro k
    simp [DriverData.live,same,valid,eq_comm]
  refine ⟨agrees.tidy.reserve wasFree fresh valid same,?_⟩
  intro k hash
  by_cases kf : k = f.key
  · subst kf
    simp only [Function.update_self,Option.some.injEq]
    constructor
    · intro handle
      exact ⟨i,(new _).mpr rfl,handle⟩
    · rintro ⟨j,held,handle⟩
      by_cases ji : j = i
      · rw [← handle,ji]
      · exact absurd ((own _ j ji).mp held) (fresh j)
  · rw [Function.update_of_ne kf,agrees.named]
    refine exists_congr fun j => and_congr_left fun _ => ?_
    by_cases ji : j = i
    · subst ji
      refine ⟨fun held => ?_,fun held => absurd ((new k).mp held) kf⟩
      exact absurd (wasFree.symm.trans held.1) (by decide)
    · exact (own k j ji).symm

theorem Agrees.unreserve (agrees : Agrees d handles) (held : d.live key i)
    (same : d'.tbl = Function.update d.tbl i (unreserveHwFence (d.tbl i))) :
    Agrees d' (Function.update handles key none) := by
  have own : ∀ k j, j ≠ i → (d'.live k j ↔ d.live k j) := by
    intro k j ne
    simp [DriverData.live,same,ne]
  have gone : ∀ k, ¬ d'.live k i := by
    intro k live
    simp [DriverData.live,same,unreserveHwFence] at live
  refine ⟨agrees.tidy.unreserve same,?_⟩
  intro k hash
  by_cases kk : k = key
  · subst kk
    simp only [Function.update_self,reduceCtorEq,false_iff]
    rintro ⟨j,live,-⟩
    have ne : j ≠ i := fun ji => gone k (ji ▸ live)
    exact ne (agrees.tidy.distinct k j i ((own k j ne).mp live) held)
  · rw [Function.update_of_ne kk,agrees.named]
    refine exists_congr fun j => and_congr_left fun _ => ?_
    by_cases ji : j = i
    · subst ji
      exact ⟨fun live => absurd (live.2.symm.trans held.2) kk,fun live => absurd live (gone k)⟩
    · exact (own k j ji).symm

end Map

section Calls
variable {m : Nat}

def opKey : TableOp → Option Key
  | .create _ context seqno | .destroy _ context seqno | .find _ context seqno =>
    some (context,seqno)
  | .createJoin array | .destroyJoin array => some (array.context,array.seqno)
  | .destroyWithHash _ _ => none

def destroysKey : TableOp → Option Key
  | .destroy _ context seqno => some (context,seqno)
  | .destroyJoin array => some (array.context,array.seqno)
  | _ => none

def note (handles : Handles) : TableOp → Outcome m → Handles
  | .create _ context seqno,.created hash => Function.update handles (context,seqno) (some hash)
  | .createJoin array,.created hash =>
    Function.update handles (array.context,array.seqno) (some hash)
  | .destroy _ context seqno,.destroyed => Function.update handles (context,seqno) none
  | .destroyJoin array,_ => Function.update handles (array.context,array.seqno) none
  | _,_ => handles

def mapStep (s : DriverData m × Handles) (c : TableCall) : DriverData m × Handles :=
  (c.step s.1,note s.2 c.op (c.exec s.1).1)

/-- Keys have a context, are named directly and are created only while no slot holds them. -/
structure Allowed (d : DriverData m) (c : TableCall) : Prop where
  context : ∃ key ∈ opKey c.op, key.1 ≠ 0
  fresh : ∀ key ∈ c.op.createsKey, ∀ i, ¬ d.live key i

def validSlots (d : DriverData m) : Finset (Fin m) := Finset.univ.filter fun i => (d.tbl i).valid

def OnlySlot (d d' : DriverData m) (i : Fin m) : Prop := ∀ j ≠ i, d'.tbl j = d.tbl j

structure ActsAsMap (d : DriverData m) (handles : Handles) (c : TableCall) : Prop where
  creates : ∀ key ∈ c.op.createsKey,
    ((∃ hash, (c.exec d).1 = .created hash) ↔ (validSlots d).card < m)
  createdAt : ∀ key ∈ c.op.createsKey, ∀ hash, (c.exec d).1 = .created hash →
    ∃ i : Fin m, i.val = hash ∧ (d.tbl i).valid = false ∧ (c.step d).live key i ∧
      OnlySlot d (c.step d) i
  finds : ∀ client context seqno, c.op = .find client context seqno →
    ((∃ slot hash, (c.exec d).1 = .found slot hash) ↔ ∃ i, d.live (context,seqno) i) ∧
    (∀ slot hash, (c.exec d).1 = .found slot hash → d.live (context,seqno) slot ∧
      slot.val = hash ∧ handles (context,seqno) = some hash) ∧
    (c.step d).tbl = d.tbl
  destroys : ∀ client context seqno, c.op = .destroy client context seqno →
    ((c.exec d).1 = .destroyed ↔ ∃ i, d.live (context,seqno) i)
  removes : ∀ key ∈ destroysKey c.op, ∀ i, d.live key i →
    ((c.step d).tbl i).valid = false ∧ OnlySlot d (c.step d) i
  absent : ∀ key ∈ destroysKey c.op, (∀ i, ¬ d.live key i) → (c.step d).tbl = d.tbl
  failed : (c.exec d).1 = .failed → (c.step d).tbl = d.tbl

variable {d : DriverData m} {handles : Handles} {c : TableCall} {key : Key}

theorem createActs (creates : key ∈ c.op.createsKey) (fresh : ∀ i, ¬ d.live key i) :
    (∃ i f, (d.tbl i).valid = false ∧ f.valid = true ∧ f.key = key ∧
      (c.exec d).1 = .created i.val ∧ (c.step d).tbl = Function.update d.tbl i f) ∨
    ((∀ i, (d.tbl i).valid = true) ∧ (c.exec d).1 = .failed ∧ (c.step d).tbl = d.tbl) := by
  obtain ⟨lookup,clientId,pending,creating,ran⟩ := execCreates (d := d) creates
  have outcomes := createFresh (d := {d with qtime := c.qtime}) clientId pending creating fresh
  rcases outcomes with ⟨i,free,hr⟩ | ⟨used,hash,hr⟩
  · have stored := createsStores creating key.1 key.2 (d.tbl i) c.qtime clientId pending
    refine .inl ⟨i,_,free.free,stored.1,stored.2,?_,?_⟩
    · rw [ran _ hr]; rfl
    · rw [TableCall.step,ran _ hr]; rfl
  · refine .inr ⟨used,?_,?_⟩
    · rw [ran _ hr]; rfl
    · rw [TableCall.step,ran _ hr]

theorem fullCard (used : ∀ i, (d.tbl i).valid = true) : (validSlots d).card = m := by
  simp [validSlots,used]

theorem freeCard {i : Fin m} (free : (d.tbl i).valid = false) : (validSlots d).card < m := by
  have lt : (validSlots d).card < (Finset.univ : Finset (Fin m)).card :=
    Finset.card_lt_card ⟨Finset.subset_univ _,fun all => by
      simpa [validSlots,free] using all (Finset.mem_univ i)⟩
  simpa using lt

theorem noteCreated {hash : Nat} (creates : key ∈ c.op.createsKey)
    (outcome : (c.exec d).1 = .created hash) :
    note handles c.op (c.exec d).1 = Function.update handles key (some hash) := by
  rw [outcome]
  cases h : c.op <;> simp_all [TableOp.createsKey,note]

theorem noteFailed (creates : key ∈ c.op.createsKey) (outcome : (c.exec d).1 = .failed) :
    note handles c.op (c.exec d).1 = handles := by
  rw [outcome]
  cases h : c.op <;> simp_all [TableOp.createsKey,note]

theorem createRefines (agrees : Agrees d handles) (creates : key ∈ c.op.createsKey)
    (fresh : ∀ i, ¬ d.live key i) :
    ActsAsMap d handles c ∧ Agrees (c.step d) (note handles c.op (c.exec d).1) := by
  have only : ∀ k ∈ c.op.createsKey, k = key := fun k mem => Option.mem_unique mem creates
  have noFind : ∀ client context seqno, c.op ≠ .find client context seqno := by
    intro client context seqno eq
    simp [eq,TableOp.createsKey] at creates
  have noDestroy : ∀ k, k ∉ destroysKey c.op := by
    intro k mem
    cases h : c.op <;> simp_all [TableOp.createsKey,destroysKey]
  have destroys : ∀ client context seqno, c.op ≠ .destroy client context seqno := by
    intro client context seqno eq
    simp [eq,TableOp.createsKey] at creates
  rcases createActs creates fresh with ⟨i,f,free,valid,own,outcome,same⟩ | ⟨used,outcome,same⟩
  · refine ⟨⟨?_,?_,?_,?_,?_,?_,?_⟩,?_⟩
    · exact fun _ _ => ⟨fun _ => freeCard free,fun _ => ⟨_,outcome⟩⟩
    · intro k mem hash created
      cases outcome.symm.trans created
      refine ⟨i,rfl,free,⟨by simp [same,valid],by simp [same,own,only k mem]⟩,?_⟩
      exact fun j ne => by simp [same,ne]
    · exact fun client context seqno eq => absurd eq (noFind client context seqno)
    · exact fun client context seqno eq => absurd eq (destroys client context seqno)
    · exact fun k mem => absurd mem (noDestroy k)
    · exact fun k mem => absurd mem (noDestroy k)
    · exact fun failed => absurd (outcome.symm.trans failed) (by simp)
    · rw [noteCreated creates outcome,← own]
      exact agrees.reserve free (by rw [own]; exact fresh) valid same
  · refine ⟨⟨?_,?_,?_,?_,?_,?_,?_⟩,?_⟩
    · intro _ _
      simp [outcome,fullCard used]
    · exact fun _ _ hash created => absurd (outcome.symm.trans created) (by simp)
    · exact fun client context seqno eq => absurd eq (noFind client context seqno)
    · exact fun client context seqno eq => absurd eq (destroys client context seqno)
    · exact fun k mem => absurd mem (noDestroy k)
    · exact fun k mem => absurd mem (noDestroy k)
    · exact fun _ => same
    · rw [noteFailed creates outcome]
      exact agrees.sameTable same

theorem destroyActs (agrees : Agrees d handles) (destroys : key ∈ destroysKey c.op)
    (context : key.1 ≠ 0) :
    (∃ i, d.live key i ∧ (c.step d).tbl = Function.update d.tbl i (unreserveHwFence (d.tbl i)) ∧
      (c.exec d).1 ≠ .failed ∧
      note handles c.op (c.exec d).1 = Function.update handles key none) ∨
    ((∀ i, ¬ d.live key i) ∧ (c.step d).tbl = d.tbl ∧ (c.exec d).1 ≠ .destroyed ∧
      note handles c.op (c.exec d).1 = handles) := by
  obtain ⟨op,qtime⟩ := c
  have timed : Agrees {d with qtime := qtime} handles := agrees.sameTable rfl
  by_cases held : ∃ i, d.live key i
  · obtain ⟨i,held⟩ := held
    have ran := fun clientId => cleanupLive clientId timed.tidy context held
    refine .inl ⟨i,held,?_⟩
    cases op with
    | destroy client context seqno =>
      cases Option.some.inj destroys
      simp [TableCall.step,TableCall.exec,TableOp.call,hwFenceDestroy,ran,note]
    | destroyJoin array =>
      cases Option.some.inj destroys
      simp [TableCall.step,TableCall.exec,TableOp.call,hwFenceProcessJoinFence,ran,note]
    | create client context seqno => cases destroys
    | createJoin array => cases destroys
    | destroyWithHash client hash => cases destroys
    | find client context seqno => cases destroys
  · have dead : ∀ i, ¬ d.live key i := fun i live => held ⟨i,live⟩
    have ran := fun clientId => cleanupDead clientId timed.tidy context dead
    have absent := agrees.dead.mpr dead
    refine .inr ⟨dead,?_⟩
    cases op with
    | destroy client context seqno =>
      cases Option.some.inj destroys
      simp [TableCall.step,TableCall.exec,TableOp.call,hwFenceDestroy,ran,note]
    | destroyJoin array =>
      cases Option.some.inj destroys
      simp [TableCall.step,TableCall.exec,TableOp.call,hwFenceProcessJoinFence,ran,note,← absent]
    | create client context seqno => cases destroys
    | createJoin array => cases destroys
    | destroyWithHash client hash => cases destroys
    | find client context seqno => cases destroys

theorem destroyRefines (agrees : Agrees d handles) (destroys : key ∈ destroysKey c.op)
    (context : key.1 ≠ 0) :
    ActsAsMap d handles c ∧ Agrees (c.step d) (note handles c.op (c.exec d).1) := by
  have only : ∀ k ∈ destroysKey c.op, k = key := fun k mem => Option.mem_unique mem destroys
  have noCreate : ∀ k, k ∉ c.op.createsKey := by
    intro k mem
    cases h : c.op <;> simp_all [TableOp.createsKey,destroysKey]
  have noFind : ∀ client context seqno, c.op ≠ .find client context seqno := by
    intro client context seqno eq
    simp [eq,destroysKey] at destroys
  have named : ∀ client context seqno, c.op = .destroy client context seqno →
      (context,seqno) = key := fun client context seqno eq => only _ (by simp [eq,destroysKey])
  have reports : ∀ client context seqno, c.op = .destroy client context seqno →
      (c.exec d).1 = .destroyed ∨ (c.exec d).1 = .failed := by
    intro client context seqno eq
    simp only [TableCall.exec,eq,TableOp.call,runBind]
    split <;> simp
  rcases destroyActs agrees destroys context with
    ⟨i,held,same,worked,noted⟩ | ⟨dead,same,failed,noted⟩
  · refine ⟨⟨?_,?_,?_,?_,?_,?_,?_⟩,?_⟩
    · exact fun k mem => absurd mem (noCreate k)
    · exact fun k mem => absurd mem (noCreate k)
    · exact fun client context seqno eq => absurd eq (noFind client context seqno)
    · intro client context seqno eq
      rw [named client context seqno eq]
      exact ⟨fun _ => ⟨i,held⟩,fun _ => (reports client context seqno eq).resolve_right worked⟩
    · intro k mem j live
      have ji := agrees.tidy.distinct key j i (only k mem ▸ live) held
      subst ji
      exact ⟨by simp [same,unreserveHwFence],fun l ne => by simp [same,ne]⟩
    · exact fun k mem none => absurd held (only k mem ▸ none i)
    · exact fun failed => absurd failed worked
    · rw [noted]
      exact agrees.unreserve held same
  · refine ⟨⟨?_,?_,?_,?_,?_,?_,?_⟩,?_⟩
    · exact fun k mem => absurd mem (noCreate k)
    · exact fun k mem => absurd mem (noCreate k)
    · exact fun client context seqno eq => absurd eq (noFind client context seqno)
    · intro client context seqno eq
      rw [named client context seqno eq]
      refine ⟨fun destroyed => absurd destroyed failed,fun held => ?_⟩
      obtain ⟨i,live⟩ := held
      exact absurd live (dead i)
    · exact fun k mem i live => absurd (only k mem ▸ live) (dead i)
    · exact fun _ _ _ => same
    · exact fun _ => same
    · rw [noted]
      exact agrees.sameTable same

theorem findActs {client context seqno} (agrees : Agrees d handles)
    (find : c.op = .find client context seqno) (hasContext : context ≠ 0) :
    (c.step d).tbl = d.tbl ∧
    ((∃ i, d.live (context,seqno) i ∧ (c.exec d).1 = .found i i.val) ∨
      ((∀ i, ¬ d.live (context,seqno) i) ∧ (c.exec d).1 = .failed)) := by
  have timed : Agrees {d with qtime := c.qtime} handles := agrees.sameTable rfl
  have keyContext : (context,seqno).1 ≠ 0 := hasContext
  refine ⟨by simp [TableCall.step,TableCall.exec,find,TableOp.call,findKeeps],?_⟩
  by_cases held : ∃ i, d.live (context,seqno) i
  · obtain ⟨i,held⟩ := held
    have ran := findLive client timed.tidy keyContext held
    refine .inl ⟨i,held,?_⟩
    simp only [TableCall.exec,find,TableOp.call,runBind,ran,pureRet,runRet]
  · have dead : ∀ i, ¬ d.live (context,seqno) i := fun i live => held ⟨i,live⟩
    refine .inr ⟨dead,?_⟩
    obtain ⟨hash,ran⟩ := findDead client timed.tidy keyContext dead
    simp only [TableCall.exec,find,TableOp.call,runBind,ran,pureRet,runRet]

theorem findRefines {client context seqno} (agrees : Agrees d handles)
    (find : c.op = .find client context seqno) (hasContext : context ≠ 0) :
    ActsAsMap d handles c ∧ Agrees (c.step d) (note handles c.op (c.exec d).1) := by
  have noted : note handles c.op (c.exec d).1 = handles := by simp [find,note]
  obtain ⟨same,acts⟩ := findActs agrees find hasContext
  have noCreate : ∀ k, k ∉ c.op.createsKey := by simp [find,TableOp.createsKey]
  have noDestroy : ∀ k, k ∉ destroysKey c.op := by simp [find,destroysKey]
  refine ⟨⟨?_,?_,?_,?_,?_,?_,fun _ => same⟩,by rw [noted]; exact agrees.sameTable same⟩
  · exact fun k mem => absurd mem (noCreate k)
  · exact fun k mem => absurd mem (noCreate k)
  · intro client' context' seqno' eq
    obtain ⟨rfl,rfl,rfl⟩ := TableOp.find.inj (find.symm.trans eq)
    rcases acts with ⟨i,held,outcome⟩ | ⟨dead,outcome⟩
    · refine ⟨⟨fun _ => ⟨i,held⟩,fun _ => ⟨i,_,outcome⟩⟩,?_,same⟩
      intro slot hash found
      cases outcome.symm.trans found
      exact ⟨held,rfl,(agrees.named _ _).mpr ⟨i,held,rfl⟩⟩
    · refine ⟨⟨fun ⟨slot,hash,found⟩ => ?_,fun ⟨i,live⟩ => absurd live (dead i)⟩,?_,same⟩
      · exact absurd (outcome.symm.trans found) (by simp)
      · exact fun slot hash found => absurd (outcome.symm.trans found) (by simp)
  · intro client' context' seqno' eq
    exact absurd (find.symm.trans eq) (by simp)
  · exact fun k mem => absurd mem (noDestroy k)
  · exact fun k mem => absurd mem (noDestroy k)

theorem callRefines (agrees : Agrees d handles) (allowed : Allowed d c) :
    ActsAsMap d handles c ∧ Agrees (c.step d) (note handles c.op (c.exec d).1) := by
  obtain ⟨⟨key,named,context⟩,fresh⟩ := allowed
  cases h : c.op with
  | create client ctx seqno =>
    rw [← h]
    have creates : (ctx,seqno) ∈ c.op.createsKey := by simp [h,TableOp.createsKey]
    exact createRefines agrees creates (fresh _ creates)
  | createJoin array =>
    rw [← h]
    have creates : (array.context,array.seqno) ∈ c.op.createsKey := by simp [h,TableOp.createsKey]
    exact createRefines agrees creates (fresh _ creates)
  | destroy client ctx seqno =>
    rw [← h]
    have destroys : key ∈ destroysKey c.op := by simpa [h,opKey,destroysKey] using named
    exact destroyRefines agrees destroys context
  | destroyJoin array =>
    rw [← h]
    have destroys : key ∈ destroysKey c.op := by simpa [h,opKey,destroysKey] using named
    exact destroyRefines agrees destroys context
  | destroyWithHash client hash => simp [h,opKey] at named
  | find client ctx seqno =>
    rw [← h]
    cases Option.some.inj (by simpa [h,opKey] using named : some (ctx,seqno) = some key)
    exact findRefines agrees h context

theorem fenceTableRefinesMap (d : DriverData m) (calls : List TableCall)
    (allowed : Along mapStep (fun s c => Allowed s.1 c) (zeroTable d,fun _ => none) calls) :
    Along mapStep (fun s c => ActsAsMap s.1 s.2 c) (zeroTable d,fun _ => none) calls := by
  have start : Agrees (zeroTable d) (fun _ => none) := by
    refine ⟨zeroTidy d,?_⟩
    simp [DriverData.live,zeroTable,HwFence.zeroed]
  have keep : ∀ (s : DriverData m × Handles) c, Agrees s.1 s.2 → Allowed s.1 c →
      Agrees (mapStep s c).1 (mapStep s c).2 := fun s c agrees ok => (callRefines agrees ok).2
  have along := alongInvariant keep start allowed
  exact alongMono (fun s c h => (callRefines h.1 h.2).1) along

def mapRun : List TableCall :=
  let client := HwFenceClient.plain 1 oneKnown
  [⟨.create client 1 1,0⟩,⟨.create client 1 3,0⟩,⟨.destroy client 1 1,0⟩,⟨.find client 1 3,0⟩]

theorem mapRunRefines :
    Along mapStep (fun s c => ActsAsMap s.1 s.2 c)
      (zeroTable (.unused 2 twoEntries),fun _ => none) mapRun := by
  refine fenceTableRefinesMap (.unused 2 twoEntries) mapRun ⟨?_,?_,?_,?_,trivial⟩
  · refine ⟨⟨(1,1),rfl,by decide⟩,fun key creates => ?_⟩
    cases Option.some.inj creates
    decide +kernel
  · refine ⟨⟨(1,3),rfl,by decide⟩,fun key creates => ?_⟩
    cases Option.some.inj creates
    decide +kernel
  · exact ⟨⟨(1,1),rfl,by decide⟩,fun key creates => by cases creates⟩
  · exact ⟨⟨(1,3),rfl,by decide⟩,fun key creates => by cases creates⟩

end Calls

end MmDrivers.FenceMap

import MmDrivers.ArrayRefs

/-! Which handles `create_fence_array` gives to the driver: a put that drops the last reference of a
fence destroys its hw-fence. -/
namespace MmDrivers.ArrayReleases
open Sections Sections.Prog FenceTypes SyncIoctl ArrayRefs

section Puts
variable {m : Nat} {destroyed : Nat → DriverCall m} {handle : Handle} {s : SyncState m} {base : Nat}

def LastPut (refs : FenceRefs) (bases : List Nat) (base : Nat) : Prop :=
  0 < refs.fence base ∧ refs.fence base ≤ bases.count base

/-- The release of the fence gives that handle to the driver. -/
def Gives (s : SyncState m) (base : Nat) (handle : Handle) : Prop :=
  ∃ b ∈ base::s.below base, 0 < s.refs.fence b ∧ s.kept b = some handle

theorem releasesIff : handle ∈ s.releases base ↔ s.refs.fence base = 1 ∧ Gives s base handle := by
  unfold SyncState.releases Gives
  by_cases last : s.refs.fence base = 1
  · rw [if_pos last]
    simp only [last,true_and,List.mem_filterMap,List.mem_filter,decide_eq_true_eq,and_assoc]
  · simp [last]

theorem putFence (other : Nat) : (s.put base).refs.fence other =
    if other = base then s.refs.fence base-1 else s.refs.fence other := by
  unfold SyncState.put FenceRefs.put
  by_cases same : other = base
  · simp [same]
  · simp [same]

theorem lastPutCons {rest : List Nat} {other : Nat} : LastPut s.refs (base::rest) other ↔
    other = base ∧ s.refs.fence base = 1 ∨ LastPut (s.put base).refs rest other := by
  unfold LastPut
  rw [putFence]
  by_cases same : other = base
  · rw [same,List.count_cons_self,if_pos rfl]
    omega
  · rw [List.count_cons_of_ne (Ne.symm same),if_neg same]
    simp [same]

theorem putGives {other : Nat} : Gives (s.put base) other handle ↔
    ∃ b ∈ other::s.below other, (0 < s.refs.fence b ∧ s.kept b = some handle) ∧
      ¬ (s.refs.fence base = 1 ∧ b ∈ base::s.below base) := by
  refine exists_congr fun b => and_congr_right fun _ => ?_
  rw [putFence,List.mem_cons]
  unfold SyncState.put
  by_cases last : s.refs.fence base = 1
  · by_cases goes : b = base ∨ b ∈ s.below base
    · simp [last,goes]
    · have other : b ≠ base := fun same => goes (.inl same)
      simp only [last,if_true,if_neg other,goes,if_false,and_false,not_false_eq_true,and_true]
  · by_cases same : b = base
    · have alive : 1 < s.refs.fence base ↔ 0 < s.refs.fence base := by omega
      simp [last,same,alive]
    · simp [last,same]

theorem givesDrop {other : Nat} : Gives (s.drop destroyed base) other handle ↔
    Gives (s.put base) other handle := Iff.rfl

theorem putsRelease (bases : List Nat) (s : SyncState m) :
    .released handle ∈ (putFences destroyed bases).events s ↔
      ∃ base, LastPut s.refs bases base ∧ Gives s base handle := by
  induction bases generalizing s with
  | nil =>
    refine iff_of_false List.not_mem_nil ?_
    rintro ⟨base,⟨alive,few⟩,-⟩
    rw [List.count_nil] at few
    exact absurd (lt_of_lt_of_le alive few) (lt_irrefl _)
  | cons base rest ih =>
    have now : SyncEvent.released handle ∈ (s.releases base).map SyncEvent.released ↔
        handle ∈ s.releases base := by simp
    rw [putFences,eventsBind,eventsPutFence,runPutFence,List.mem_append,ih,now]
    simp only [givesDrop,putGives,releasesIff,lastPutCons (s := s)]
    constructor
    · rintro (⟨last,gives⟩ | ⟨other,later,b,inside,gives,-⟩)
      · exact ⟨base,.inl ⟨rfl,last⟩,gives⟩
      · exact ⟨other,.inr later,b,inside,gives⟩
    · rintro ⟨other,puts,b,inside,gives⟩
      by_cases goes : s.refs.fence base = 1 ∧ b ∈ base::s.below base
      · exact .inl ⟨goes.1,b,goes.2,gives⟩
      rcases puts with ⟨rfl,last⟩ | later
      · exact absurd ⟨last,inside⟩ goes
      · exact .inr ⟨other,later,b,inside,gives,goes⟩

theorem putsOnly {e : SyncEvent} (bases : List Nat) (s : SyncState m)
    (mem : e ∈ (putFences destroyed bases).events s) : ∃ handle, e = .released handle := by
  induction bases generalizing s with
  | nil => cases mem
  | cons base rest ih =>
    rw [putFences,eventsBind,eventsPutFence,List.mem_append] at mem
    rcases mem with now | later
    · obtain ⟨handle,-,same⟩ := List.mem_map.mp now
      exact ⟨handle,same.symm⟩
    · exact ih _ later

end Puts

section Gets
variable {m : Nat} {handle : Handle} {s : SyncState m} {base : Nat}

def gets (bases : List Nat) (s : SyncState m) : SyncState m :=
  bases.foldl (fun s base => s.get base) s

theorem getsRefs (bases : List Nat) (s : SyncState m) : (gets bases s).refs = adding s.refs bases := by
  induction bases generalizing s with
  | nil => simp [gets]
  | cons base rest ih =>
    have later : (gets rest (s.get base)).refs = adding (s.refs.get base) rest := ih _
    rw [← addingGet,← later]
    rfl

theorem getFence (other : Nat) : (s.get base).refs.fence other =
    if other = base then s.refs.fence base+1 else s.refs.fence other := by
  unfold SyncState.get FenceRefs.get
  by_cases same : other = base
  · simp [same]
  · simp [same]

theorem getGives {other : Nat} : Gives (s.get base) other handle ↔
    (other = base → 0 < s.refs.fence base) ∧ Gives s other handle := by
  unfold Gives
  simp only [getFence]
  unfold SyncState.get
  by_cases gone : s.refs.fence base ≤ 0
  · simp only [if_pos gone]
    by_cases same : other = base
    · subst same
      simp only [Function.update_self,forall_const,not_lt.mpr gone,false_and,iff_false]
      rintro ⟨b,inside,-,keeps⟩
      rw [List.mem_singleton.mp inside,Function.update_self] at keeps
      cases keeps
    · simp only [Function.update_of_ne same,same,false_implies,true_and]
      refine exists_congr fun b => and_congr_right fun _ => ?_
      by_cases own : b = base
      · simp [own,gone]
      · simp [own]
  · have alive : ∀ b, (0 < if b = base then s.refs.fence base+1 else s.refs.fence b) ↔ 0 < s.refs.fence b := by
      intro b
      split
      · rename_i own
        rw [own]
        omega
      · rfl
    simp only [if_neg gone,alive,not_le.mp gone,implies_true,true_and]

theorem getsGives (bases : List Nat) (s : SyncState m) : Gives (gets bases s) base handle ↔
    (base ∈ bases → 0 < s.refs.fence base) ∧ Gives s base handle := by
  induction bases generalizing s with
  | nil => simp [gets]
  | cons other rest ih =>
    have later : Gives (gets (other::rest) s) base handle ↔
        (base ∈ rest → 0 < (s.get other).refs.fence base) ∧ Gives (s.get other) base handle := ih _
    rw [later,getGives,getFence,List.mem_cons]
    by_cases same : base = other
    · subst same
      simp only [if_true,forall_const,true_or]
      constructor
      · exact fun h => h.2
      · exact fun h => ⟨fun _ => by omega,h⟩
    · simp [same]

end Gets

section Calls
variable {m : Nat} {call : CreateFenceArray m} {s : SyncState m} {handle : Handle} {e : SyncEvent}

/-- The fences taken before a descriptor without one: the last of them is put for each of them, and
that is as often as it has references. -/
structure OverPuts (call : CreateFenceArray m) (s : SyncState m) (base : Nat) : Prop where
  collects : Collects call s
  stops : ∃ fd, missing call.syncFileGetFence (fdsOf call) = some fd ∧ 0 < fd
  last : (present call.syncFileGetFence (fdsOf call)).getLast? = some base
  few : 0 < s.refs.fence base ∧ s.refs.fence base +
    (present call.syncFileGetFence (fdsOf call)).count base ≤ (present call.syncFileGetFence (fdsOf call)).length

theorem takenStay {bases : List Nat} {base : Nat} (last : LastPut (gets bases s).refs bases base) :
    ¬ Gives (gets bases s) base handle := by
  intro gives
  obtain ⟨alive,few⟩ := last
  have before := ((getsGives bases s).mp gives).1
  rw [getsRefs] at alive few
  simp only [adding] at alive few
  have taken : base ∈ bases := List.count_pos_iff.mp (by omega)
  have positive := before taken
  omega

theorem putsSilent {destroyed : Nat → DriverCall m} {bases : List Nat}
    (none : ∀ base handle, LastPut s.refs bases base → ¬ Gives s base handle) :
    (putFences destroyed bases).events s = [] := by
  refine List.eq_nil_iff_forall_not_mem.mpr fun e mem => ?_
  obtain ⟨handle,rfl⟩ := putsOnly bases s mem
  obtain ⟨base,last,gives⟩ := (putsRelease bases s).mp mem
  exact none base handle last gives

theorem lowerFence (r : FenceRefs) : r.lowerArray.fence = r.fence := by
  unfold FenceRefs.lowerArray
  split
  · rfl
  · dsimp only
    split <;> rfl

theorem arraySilent {destroyed : Nat → DriverCall m} {a : SyncIoctl.ArrayRefs} (array : s.refs.array = some a)
    (none : a.refs = 1 → ∀ base handle, LastPut s.refs a.children base → ¬ Gives s base handle) :
    (putArray destroyed).events s = [] := by
  unfold putArray
  rw [eventsBind,eventsObserve,runObserve,eventsBind,eventsOnRefs,runOnRefs,array]
  dsimp only
  unfold whenever
  by_cases last : a.refs = 1
  · rw [if_pos last]
    refine putsSilent fun base handle put gives => none last base handle ?_ ?_
    · unfold LastPut at *
      rwa [lowerFence] at put
    · unfold Gives at *
      rwa [lowerFence] at gives
  · rw [if_neg last]
    rfl

theorem sharedRun {destroyed : Nat → DriverCall m} {a : SyncIoctl.ArrayRefs} (array : s.refs.array = some a)
    (shared : a.refs ≠ 1) : (putArray destroyed).run s = ((),{s with refs := s.refs.lowerArray}) := by
  unfold putArray
  rw [runBind,runObserve,runBind,runOnRefs,array]
  dsimp only
  unfold whenever
  rw [if_neg shared]
  rfl

theorem putsArray (bases : List Nat) (r : FenceRefs) : (r.puts bases).array = r.array := by
  rw [putsCounts]

theorem makeSilent (bases : List Nat) (s : SyncState m) :
    (makeFenceArray call bases).events (gets bases s) = [] := by
  have stay : ∀ base handle, LastPut (gets bases s).refs bases base → ¬ Gives (gets bases s) base handle :=
    fun base handle => takenStay
  generalize gets bases s = t at stay
  have once : (putArray call.destroyed).events {t with refs := t.refs.createArray bases} = [] :=
    arraySilent (a := ⟨bases,1⟩) rfl fun _ => stay
  have two : (2 : Int) ≠ 1 := by decide
  have shared : (putArray call.destroyed).run {t with refs := (t.refs.createArray bases).getArray} =
      ((),{t with refs := t.refs.createArray bases}) := sharedRun (a := ⟨bases,2⟩) rfl two
  have quiet : (putArray call.destroyed).events
      {t with refs := (t.refs.createArray bases).getArray} = [] :=
    arraySilent (a := ⟨bases,2⟩) rfl fun one => absurd one two
  have gone : ((putArray call.destroyed).run {t with refs := t.refs.createArray bases}).2.refs.array =
      some ⟨bases,0⟩ := by
    have last : (t.refs.createArray bases).putArray = ({t.refs with
        array := some ⟨bases,0⟩
        arrayReleases := t.refs.arrayReleases+1} : FenceRefs).puts bases := rfl
    rw [(runPutArray call.destroyed _).1,last,putsArray]
  have none : (0 : Int) ≠ 1 := by decide
  have spent : (putArray call.destroyed).events
      ((putArray call.destroyed).run {t with refs := t.refs.createArray bases}).2 = [] :=
    arraySilent gone fun one => absurd one none
  unfold makeFenceArray
  by_cases memory : call.arrayMem = true
  case neg =>
    rw [if_pos memory,eventsBind,eventsFail,List.append_nil]
    exact putsSilent stay
  rw [if_neg (not_not.mpr memory),eventsBind,eventsOnRefs,runOnRefs,List.nil_append]
  cases call.unusedFd with
  | error e => simp [once]
  | ok fd =>
    by_cases zero : fd = 0
    · simp [zero,once]
    by_cases file : call.syncFile = true
    case neg => simp [zero,file,once]
    by_cases back : call.copyBack = true
    · simp [zero,file,back,shared,quiet]
    · simp [zero,file,back,shared,quiet,once,spent]

theorem collectReleases (call : CreateFenceArray m) (fds : List Int) (fences : List Nat) (s : SyncState m) :
    (missing call.syncFileGetFence fds = none → (getChildFences call fds fences).events s = [] ∧
      (getChildFences call fds fences).run s =
        (.ok (fences ++ present call.syncFileGetFence fds),gets (present call.syncFileGetFence fds) s)) ∧
    ∀ fd, missing call.syncFileGetFence fds = some fd →
      (∃ err, ((getChildFences call fds fences).run s).1 = .error err) ∧
      (getChildFences call fds fences).events s = if fd ≤ 0 then [] else
        (putFences call.destroyed (putChildFences
          ((fences ++ present call.syncFileGetFence fds).length-1)
          (fences ++ present call.syncFileGetFence fds))).events (gets (present call.syncFileGetFence fds) s) := by
  induction fds generalizing fences s with
  | nil => simp [getChildFences,gets]
  | cons fd rest ih =>
    by_cases low : fd ≤ 0
    · have none : fenceOf call.syncFileGetFence fd = none := if_pos low
      rw [missingHere none,presentHere none]
      simp [getChildFences,low]
    · have some : 0 ≤ fd := by omega
      cases file : call.syncFileGetFence fd with
      | none =>
        have none : fenceOf call.syncFileGetFence fd = none := by simp [fenceOf,low,file]
        rw [missingHere none,presentHere none]
        simp [getChildFences,low,some,file,gets]
      | some fence =>
        have found : fenceOf call.syncFileGetFence fd = Option.some fence.base := by
          simp [fenceOf,low,file]
        have next := ih (fences ++ [fence.base]) (s.get fence.base)
        rw [List.append_assoc,List.singleton_append] at next
        rw [missingLater found,presentLater found]
        simpa [getChildFences,low,some,file,gets] using next

theorem idleSilent (idle : ¬ Collects call s) : (hwSyncIoctlCreateFenceArray call).events s = [] := by
  unfold hwSyncIoctlCreateFenceArray
  rw [eventsBind,eventsObserve,runObserve,List.nil_append]
  by_cases valid : isValidClient s.obj = true
  case neg => rw [if_pos valid,eventsFail]
  rw [if_neg (not_not.mpr valid)]
  by_cases handle : s.obj.clientHandle.isErrOrNull = true
  · rw [if_pos handle,eventsFail]
  rw [if_neg handle]
  cases data : call.data with
  | none => rfl
  | some entry =>
    cases entry with | mk numFences fds =>
    by_cases large : (hwFenceArraySize : Int) ≤ numFences
    · simp only [if_pos large,eventsFail]
    by_cases memory : ¬ call.kcalloc = true ∨ numFences < 0
    · simp only [if_neg large,if_pos memory,eventsFail]
    · rw [not_or,not_not,not_lt] at memory
      exact absurd ⟨valid,by simpa using handle,⟨numFences,fds,data,memory.2,by omega⟩,memory.1⟩ idle

theorem lastPutReplicate {r : FenceRefs} {bases : List Nat} {base : Nat} (alive : 0 < r.fence base) :
    LastPut (adding r bases) (putChildFences (bases.length-1) bases) base ↔
      bases.getLast? = some base ∧ r.fence base+bases.count base ≤ bases.length := by
  have length : ((bases.length : Int)-1+1).toNat = bases.length := by omega
  unfold LastPut putChildFences
  rw [length,List.count_replicate]
  simp only [adding]
  have ends : bases.getLast? = some base ↔ 0 < bases.length ∧
      bases.getD ((bases.length-1 : Int)).toNat 0 = base := by
    have index : ((bases.length-1 : Int)).toNat = bases.length-1 := by omega
    rw [index,List.getLast?_eq_getElem?,List.getD_eq_getElem?_getD]
    cases entry : bases[bases.length-1]? with
    | none =>
      have outside := List.getElem?_eq_none_iff.mp entry
      refine iff_of_false (by simp) fun inside => ?_
      omega
    | some last =>
      obtain ⟨inside,-⟩ := List.getElem?_eq_some_iff.mp entry
      have some : 0 < bases.length := by omega
      simp [some]
  rw [ends]
  by_cases last : bases.getD ((bases.length-1 : Int)).toNat 0 = base
  · simp only [last,beq_self_eq_true,if_true,and_true]
    omega
  · simp only [last,and_false,false_and,iff_false]
    rw [if_neg (by simpa using last)]
    omega

theorem positive {r : FenceRefs} {bases : List Nat} {base : Nat}
    (last : LastPut (adding r bases) (putChildFences (bases.length-1) bases) base)
    (alive : base ∈ bases → 0 < r.fence base) : 0 < r.fence base := by
  by_cases taken : base ∈ bases
  · exact alive taken
  · have before := last.1
    simp only [adding,List.count_eq_zero.mpr taken] at before
    simpa using before

theorem collectingEvents (collects : Collects call s) :
    (hwSyncIoctlCreateFenceArray call).events s = (getChildFences call (fdsOf call) []).events s := by
  obtain ⟨none,stops⟩ := collectReleases call (fdsOf call) [] s
  obtain ⟨numFences,data,got,low,small⟩ := collects.data
  have fds : fdsOf call = (List.range numFences.toNat).map fun i => ((data i).setWidth 32).toInt := by
    simp [fdsOf,got]
  unfold hwSyncIoctlCreateFenceArray
  rw [eventsBind,eventsObserve,runObserve]
  simp only [collects.valid,collects.handle,collects.memory,got,not_true_eq_false,if_false,
    Bool.false_eq_true,not_le.mpr small,not_lt.mpr low,or_self,eventsBind,← fds,List.nil_append]
  cases stop : missing call.syncFileGetFence (fdsOf call) with
  | none =>
    rw [(none stop).2]
    dsimp only [List.nil_append]
    rw [makeSilent,List.append_nil]
  | some fd =>
    obtain ⟨err,failed⟩ := (stops fd stop).1
    rw [failed]
    dsimp only
    rw [eventsFail,List.append_nil]

theorem overPutsRelease {destroyed : Nat → DriverCall m} (bases : List Nat) (s : SyncState m) :
    .released handle ∈ (putFences destroyed (putChildFences (bases.length-1) bases)).events (gets bases s) ↔
      ∃ base, (bases.getLast? = some base ∧ 0 < s.refs.fence base ∧
        s.refs.fence base+bases.count base ≤ bases.length) ∧ Gives s base handle := by
  rw [putsRelease]
  refine exists_congr fun base => ?_
  rw [getsGives,getsRefs]
  constructor
  · rintro ⟨last,alive,gives⟩
    have some := positive last alive
    obtain ⟨ends,few⟩ := (lastPutReplicate some).mp last
    exact ⟨⟨ends,some,few⟩,gives⟩
  · rintro ⟨⟨ends,some,few⟩,gives⟩
    exact ⟨(lastPutReplicate some).mpr ⟨ends,few⟩,fun _ => some,gives⟩

theorem arrayReleases (call : CreateFenceArray m) (s : SyncState m) :
    e ∈ (hwSyncIoctlCreateFenceArray call).events s ↔
      ∃ handle base, e = .released handle ∧ OverPuts call s base ∧ Gives s base handle := by
  by_cases collects : Collects call s
  case neg =>
    rw [idleSilent collects]
    refine iff_of_false List.not_mem_nil ?_
    rintro ⟨handle,base,-,often,-⟩
    exact collects often.collects
  obtain ⟨none,stops⟩ := collectReleases call (fdsOf call) [] s
  rw [List.nil_append] at stops
  rw [collectingEvents collects]
  cases stop : missing call.syncFileGetFence (fdsOf call) with
  | none =>
    rw [(none stop).1]
    refine iff_of_false List.not_mem_nil ?_
    rintro ⟨handle,base,-,often,-⟩
    obtain ⟨fd,found,-⟩ := often.stops
    rw [stop] at found
    cases found
  | some fd =>
    rw [(stops fd stop).2]
    by_cases low : fd ≤ 0
    · rw [if_pos low]
      refine iff_of_false List.not_mem_nil ?_
      rintro ⟨handle,base,-,often,-⟩
      obtain ⟨fd',found,high⟩ := often.stops
      rw [stop] at found
      cases found
      omega
    · rw [if_neg low]
      constructor
      · intro mem
        obtain ⟨handle,rfl⟩ := putsOnly _ _ mem
        obtain ⟨base,⟨last,few⟩,gives⟩ := (overPutsRelease _ s).mp mem
        exact ⟨handle,base,rfl,⟨collects,⟨fd,stop,not_le.mp low⟩,last,few⟩,gives⟩
      · rintro ⟨handle,base,rfl,often,gives⟩
        exact (overPutsRelease _ s).mpr ⟨base,⟨often.last,often.few⟩,gives⟩

end Calls

end MmDrivers.ArrayReleases

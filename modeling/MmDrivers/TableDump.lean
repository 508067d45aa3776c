import MmDrivers.DeviceTree

/-! The debugfs dump of the fence table: a read fills a page from where the last one
stopped, and the cursor is kept between the reads. -/
namespace MmDrivers.TableDump
open FenceTypes DeviceTree

section Model

def sz4k : Nat := 4096

structure Entry where
  number : U32
  slot : U32

-- the fence asked for, or the length of the text that there is none
structure SingleEntry where
  hash : Option U64
  missLength : Nat

/-- The table, as far as the memory goes, and the length of an entry's text by its slot and
its number. -/
structure DumpData where
  hwFencesTbl : Option (Nat → HwFence)
  hwFencesTblCnt : U32
  entryLength : HwFence → U32 → U32 → Nat
  entryRd : Option SingleEntry

structure Dumped where
  index : U32
  cnt : U32
  len : Nat
  entries : List Entry
  slots : List Nat

namespace Dumped

def looks (slot : Nat) (p : Dumped) : Dumped := {p with slots := slot::p.slots}

def formats (entry : Entry) (p : Dumped) : Dumped := {p with entries := entry::p.entries}

end Dumped

/-- The text is cut where the buffer ends. -/
def scnprintf (size length : Nat) : Nat := min length (size-1)

def dumpFence (d : DumpData) (hwFence : HwFence) (len maxSize : Nat) (index cnt : U32) : Nat :=
  scnprintf (maxSize-len) (d.entryLength hwFence index cnt)

def dumpSingleEntry (d : DumpData) (tbl : Nat → HwFence) (single : SingleEntry) (cnt : U32) (maxSize : Nat) :
    Dumped :=
  match single.hash with
  | none => ⟨d.hwFencesTblCnt,cnt,scnprintf maxSize single.missLength,[],[]⟩
  | some hash =>
    let slot := hash.setWidth 32
    ⟨d.hwFencesTblCnt,cnt,dumpFence d (tbl hash.toNat) 0 maxSize slot 0,[⟨0,slot⟩],[hash.toNat]⟩

-- the index is raised by the test, whatever the test says
def dumpFullTable (d : DumpData) (tbl : Nat → HwFence) (index cnt : U32) (len maxSize entrySize : Nat) : Dumped :=
  if index < d.hwFencesTblCnt then
    let index' := index+1
    if len < maxSize-entrySize then
      let hwFence := tbl index'.toNat
      if ¬ hwFence.valid then (dumpFullTable d tbl index' cnt len maxSize entrySize).looks index'.toNat
      else
        let ret := dumpFence d hwFence len maxSize index' cnt
        ((dumpFullTable d tbl index' (cnt+1) (len+ret) maxSize entrySize).formats ⟨cnt,index'⟩).looks index'.toNat
    else ⟨index',cnt,len,[],[]⟩
  else ⟨index+1,cnt,len,[],[]⟩
termination_by d.hwFencesTblCnt.toNat-index.toNat
decreasing_by all_goals bv_omega

structure ReadCall where
  userBufSize : Nat
  kzalloc : Bool
  copied : Bool

structure Dump where
  index : U32
  cnt : U32
  printed : List Entry
  slots : List Nat

def Dump.initial : Dump := ⟨0,0,[],[]⟩

def hwFenceDbgDumpTableRd (privateData : Option DumpData) (call : ReadCall) (s : Dump) :
    Except Errno Nat × Dump :=
  match privateData with
  | none => (.error .einval,s)
  | some d =>
    match d.hwFencesTbl with
    | none => (.error .einval,s)
    | some tbl =>
      if d.hwFencesTblCnt ≤ s.index then (.ok 0,{s with index := 0,cnt := 0})
      else if call.userBufSize < sizeofHwFence then (.error .einval,s)
      else if ¬ call.kzalloc then (.error .enomem,s)
      else
        let page := d.entryRd.elim (dumpFullTable d tbl s.index s.cnt 0 sz4k sizeofHwFence)
          fun single => dumpSingleEntry d tbl single s.cnt sz4k
        let left := {s with index := page.index,cnt := page.cnt,slots := s.slots ++ page.slots}
        if page.len = 0 ∨ call.userBufSize < page.len then (.ok 0,left)
        else if ¬ call.copied then (.error .efault,left)
        else (.ok page.len,{left with printed := s.printed ++ page.entries})

def reads (d : DumpData) (calls : Nat → ReadCall) : Nat → Dump
  | 0 => .initial
  | n+1 => (hwFenceDbgDumpTableRd (some d) (calls n) (reads d calls n)).2

end Model

section Table
variable (d : DumpData) (tbl : Nat → HwFence) {a b i j k : Nat}

def validSlots (a b : Nat) : List Nat := (List.Ico a b).filter fun slot => (tbl slot).valid

def textLength (slot : Nat) : Nat :=
  if (tbl slot).valid then
    d.entryLength (tbl slot) (BitVec.ofNat 32 slot) (BitVec.ofNat 32 (validSlots tbl 0 slot).length)
  else 0

def pageLength (a b : Nat) : Nat := ((List.Ico a b).map (textLength d tbl)).sum

def room : Nat := sz4k-sizeofHwFence

structure Fills (i j : Nat) : Prop where
  later : i < j
  full : room ≤ pageLength d tbl (i+1) j
  before : ∀ k, i < k → k < j → pageLength d tbl (i+1) k < room

/-- From slot `i` the table is cut into full pages, each after a slot that is not valid. -/
inductive FullPages : Nat → Prop
  | done : FullPages d.hwFencesTblCnt.toNat
  | page {i j : Nat} (skipped : (tbl i).valid = false) (fills : Fills d tbl i j)
      (inside : j ≤ d.hwFencesTblCnt.toNat) (rest : FullPages j) : FullPages i

def TextsFit : Prop := ∀ hwFence index cnt, d.entryLength hwFence index cnt ≤ sizeofHwFence

variable {d tbl}

@[simp] theorem validSlotsSelf : validSlots tbl a a = [] := by simp [validSlots]

@[simp] theorem pageLengthSelf : pageLength d tbl a a = 0 := by simp [pageLength]

theorem validSlotsCons (less : a < b) :
    validSlots tbl a b = if (tbl a).valid then a::validSlots tbl (a+1) b else validSlots tbl (a+1) b := by
  rw [validSlots,List.Ico.eq_cons less,List.filter_cons]
  rfl

theorem validSlotsTop (le : a ≤ b) :
    validSlots tbl a (b+1) = validSlots tbl a b ++ if (tbl b).valid then [b] else [] := by
  rw [validSlots,List.Ico.succ_top le,List.filter_append,List.filter_singleton,Bool.cond_eq_ite]
  rfl

theorem validSlotsSkip (skipped : (tbl i).valid = false) : validSlots tbl 0 (i+1) = validSlots tbl 0 i := by
  rw [validSlotsTop (Nat.zero_le i),skipped,if_neg Bool.false_ne_true,List.append_nil]

theorem validSlotsJoin (first : a ≤ b) (second : b ≤ k) :
    validSlots tbl a b ++ validSlots tbl b k = validSlots tbl a k := by
  rw [validSlots,validSlots,← List.filter_append,List.Ico.append_consecutive first second]
  rfl

theorem pageLengthTop (le : a ≤ b) : pageLength d tbl a (b+1) = pageLength d tbl a b+textLength d tbl b := by
  rw [pageLength,List.Ico.succ_top le,List.map_append,List.sum_append]
  simp [pageLength]

theorem cursorNext (inside : k < d.hwFencesTblCnt.toNat) :
    BitVec.ofNat 32 k < d.hwFencesTblCnt ∧ BitVec.ofNat 32 k+1 = BitVec.ofNat 32 (k+1) ∧
      (BitVec.ofNat 32 (k+1)).toNat = k+1 := by
  have small : k+1 < 2^32 := by omega
  refine ⟨?_,?_,?_⟩
  · rw [BitVec.lt_def,BitVec.toNat_ofNat,Nat.mod_eq_of_lt (by omega)]
    exact inside
  · apply BitVec.eq_of_toNat_eq
    simp
  · rw [BitVec.toNat_ofNat,Nat.mod_eq_of_lt small]

theorem dumpFits (fits : TextsFit d) {hwFence : HwFence} {len : Nat} {index cnt : U32} (left : len < room) :
    dumpFence d hwFence len sz4k index cnt = d.entryLength hwFence index cnt := by
  have short := fits hwFence index cnt
  unfold dumpFence scnprintf
  unfold room sizeofHwFence sz4k at *
  omega

structure StopsAt (d : DumpData) (tbl : Nat → HwFence) (i k j : Nat) (p : Dumped) : Prop where
  index : p.index = BitVec.ofNat 32 j
  cnt : p.cnt = BitVec.ofNat 32 (validSlots tbl 0 j).length
  len : p.len = pageLength d tbl (i+1) j
  entries : p.entries.map (fun entry => entry.slot.toNat) = validSlots tbl (k+1) j
  slots : p.slots = List.Ico (k+1) j

def dumpAt (d : DumpData) (tbl : Nat → HwFence) (i k : Nat) : Dumped :=
  dumpFullTable d tbl (BitVec.ofNat 32 k) (BitVec.ofNat 32 (validSlots tbl 0 (k+1)).length)
    (pageLength d tbl (i+1) (k+1)) sz4k sizeofHwFence

theorem dumpStep (fits : TextsFit d) (inside : k < d.hwFencesTblCnt.toNat) (since : i ≤ k)
    (left : pageLength d tbl (i+1) (k+1) < room) :
    dumpAt d tbl i k = ((if (tbl (k+1)).valid then (dumpAt d tbl i (k+1)).formats
      ⟨BitVec.ofNat 32 (validSlots tbl 0 (k+1)).length,BitVec.ofNat 32 (k+1)⟩
      else dumpAt d tbl i (k+1))).looks (k+1) := by
  obtain ⟨less,next,slot⟩ := cursorNext inside
  conv_lhs => unfold dumpAt dumpFullTable
  simp only [if_pos less]
  rw [if_pos (show _ < sz4k-sizeofHwFence from left),next,slot]
  by_cases valid : (tbl (k+1)).valid = true
  · rw [if_neg (not_not.mpr valid),if_pos valid,dumpFits fits left]
    have more : pageLength d tbl (i+1) (k+1+1) = pageLength d tbl (i+1) (k+1)+
        d.entryLength (tbl (k+1)) (BitVec.ofNat 32 (k+1)) (BitVec.ofNat 32 (validSlots tbl 0 (k+1)).length) := by
      rw [pageLengthTop (by omega),textLength,if_pos valid]
    have numbered : (BitVec.ofNat 32 (validSlots tbl 0 (k+1)).length)+1 =
        BitVec.ofNat 32 (validSlots tbl 0 (k+1+1)).length := by
      rw [validSlotsTop (b := k+1) (Nat.zero_le _),if_pos valid]
      apply BitVec.eq_of_toNat_eq
      simp
    rw [numbered,← more]
    rfl
  · have more : pageLength d tbl (i+1) (k+1+1) = pageLength d tbl (i+1) (k+1) := by
      rw [pageLengthTop (by omega),textLength,if_neg valid,Nat.add_zero]
    have numbered := validSlotsSkip (i := k+1) (by simpa using valid)
    rw [if_pos valid,if_neg valid,dumpAt,numbered,more]

theorem dumpStops (inside : k < d.hwFencesTblCnt.toNat) (full : room ≤ pageLength d tbl (i+1) (k+1)) :
    StopsAt d tbl i k (k+1) (dumpAt d tbl i k) := by
  obtain ⟨less,next,-⟩ := cursorNext inside
  have stopped : dumpAt d tbl i k = ⟨BitVec.ofNat 32 (k+1),
      BitVec.ofNat 32 (validSlots tbl 0 (k+1)).length,pageLength d tbl (i+1) (k+1),[],[]⟩ := by
    unfold dumpAt dumpFullTable
    simp only [if_pos less]
    rw [if_neg (not_lt.mpr (show sz4k-sizeofHwFence ≤ _ from full)),next]
  rw [stopped]
  exact ⟨rfl,rfl,rfl,by simp,by simp⟩

theorem dumpFills (fits : TextsFit d) (fills : Fills d tbl i j) (since : i ≤ k) (later : k < j)
    (inside : j ≤ d.hwFencesTblCnt.toNat) : StopsAt d tbl i k j (dumpAt d tbl i k) := by
  induction left : j-k generalizing k with
  | zero => omega
  | succ left ih =>
    by_cases last : k+1 = j
    · subst last
      exact dumpStops (by omega) fills.full
    · have more : k+1 < j := by omega
      have rest := ih (k := k+1) (by omega) more (by omega)
      rw [dumpStep fits (by omega) since (fills.before (k+1) (by omega) more)]
      obtain ⟨-,-,slot⟩ := cursorNext (show k < d.hwFencesTblCnt.toNat by omega)
      by_cases valid : (tbl (k+1)).valid = true
      · rw [if_pos valid]
        refine ⟨rest.index,rest.cnt,rest.len,?_,?_⟩
        · rw [validSlotsCons more,if_pos valid,← rest.entries]
          simp [Dumped.looks,Dumped.formats,slot]
        · rw [List.Ico.eq_cons more,← rest.slots]
          rfl
      · rw [if_neg valid]
        refine ⟨rest.index,rest.cnt,rest.len,?_,?_⟩
        · rw [validSlotsCons more,if_neg valid]
          exact rest.entries
        · rw [List.Ico.eq_cons more,← rest.slots]
          rfl

theorem dumpPast (fits : TextsFit d) (since : i ≤ k) (inside : k < d.hwFencesTblCnt.toNat)
    (unfilled : ∀ j, k < j → j ≤ d.hwFencesTblCnt.toNat → pageLength d tbl (i+1) j < room) :
    d.hwFencesTblCnt.toNat ∈ (dumpAt d tbl i k).slots := by
  induction left : d.hwFencesTblCnt.toNat-k generalizing k with
  | zero => omega
  | succ left ih =>
    rw [dumpStep fits inside since (unfilled (k+1) (by omega) (by omega))]
    by_cases last : k+1 = d.hwFencesTblCnt.toNat
    · rw [← last]
      exact List.mem_cons_self
    · have rest := ih (k := k+1) (by omega) (by omega)
        (fun j later le => unfilled j (by omega) le) (by omega)
      by_cases valid : (tbl (k+1)).valid = true
      · rw [if_pos valid]
        exact List.mem_cons_of_mem _ rest
      · rw [if_neg valid]
        exact List.mem_cons_of_mem _ rest

theorem fillsOrOpen (d : DumpData) (tbl : Nat → HwFence) (i : Nat) :
    (∃ j, Fills d tbl i j ∧ j ≤ d.hwFencesTblCnt.toNat) ∨
    ∀ j, i < j → j ≤ d.hwFencesTblCnt.toNat → pageLength d tbl (i+1) j < room := by
  by_cases full : ∃ j, i < j ∧ room ≤ pageLength d tbl (i+1) j
  case neg =>
    refine .inr fun j later _ => ?_
    by_contra reached
    exact full ⟨j,later,not_lt.mp reached⟩
  have first := Nat.find_spec full
  by_cases inside : Nat.find full ≤ d.hwFencesTblCnt.toNat
  · refine .inl ⟨Nat.find full,⟨first.1,first.2,fun k later less => ?_⟩,inside⟩
    by_contra reached
    exact Nat.find_min full less ⟨later,not_lt.mp reached⟩
  · refine .inr fun j later le => ?_
    by_contra reached
    exact Nat.find_min full (by omega) ⟨later,not_lt.mp reached⟩

theorem laterLooks {index : U32} {p q : Dumped} (less : index < d.hwFencesTblCnt)
    (looks : q.slots = (index+1).toNat::p.slots) (same : q.index = p.index)
    (rest : index+1 < d.hwFencesTblCnt → d.hwFencesTblCnt.toNat ∈ p.slots ∨
      index+1 < p.index ∧ p.index ≤ d.hwFencesTblCnt) :
    d.hwFencesTblCnt.toNat ∈ q.slots ∨ index < q.index ∧ q.index ≤ d.hwFencesTblCnt := by
  rw [looks,same]
  by_cases more : index+1 < d.hwFencesTblCnt
  · rcases rest more with past | ⟨later,inside⟩
    · exact .inl (List.mem_cons_of_mem _ past)
    · exact .inr ⟨by bv_omega,inside⟩
  · have last : (index+1).toNat = d.hwFencesTblCnt.toNat := by bv_omega
    rw [last]
    exact .inl List.mem_cons_self

theorem dumpLater (d : DumpData) (tbl : Nat → HwFence) (index cnt : U32) (len maxSize entrySize : Nat) :
    (∀ entry ∈ (dumpFullTable d tbl index cnt len maxSize entrySize).entries, index < entry.slot) ∧
    (index < d.hwFencesTblCnt →
      d.hwFencesTblCnt.toNat ∈ (dumpFullTable d tbl index cnt len maxSize entrySize).slots ∨
      index < (dumpFullTable d tbl index cnt len maxSize entrySize).index ∧
        (dumpFullTable d tbl index cnt len maxSize entrySize).index ≤ d.hwFencesTblCnt) := by
  fun_induction dumpFullTable d tbl index cnt len maxSize entrySize with
  | case1 index cnt len less index' left hwFence valid ih =>
    have next : index < index+1 := by bv_omega
    refine ⟨fun entry mem => BitVec.lt_trans next (ih.1 entry mem),fun _ => ?_⟩
    exact laterLooks less rfl rfl ih.2
  | case2 index cnt len less index' left hwFence valid ret ih =>
    have next : index < index+1 := by bv_omega
    refine ⟨fun entry mem => ?_,fun _ => laterLooks less rfl rfl ih.2⟩
    rcases List.mem_cons.mp mem with rfl | later
    · exact next
    · exact BitVec.lt_trans next (ih.1 entry later)
  | case3 index cnt len less index' full =>
    refine ⟨fun entry mem => absurd mem List.not_mem_nil,fun _ => .inr ⟨?_,?_⟩⟩
    · show index < index+1
      bv_omega
    · show index+1 ≤ d.hwFencesTblCnt
      bv_omega
  | case4 index cnt len past =>
    exact ⟨fun entry mem => absurd mem List.not_mem_nil,fun less => absurd less past⟩

end Table

section Reads
variable {d : DumpData} {tbl : Nat → HwFence} {calls : Nat → ReadCall} {call : ReadCall} {s : Dump} {i j m n : Nat}

structure Served (d : DumpData) (tbl : Nat → HwFence) (calls : Nat → ReadCall) : Prop where
  table : d.hwFencesTbl = some tbl
  whole : d.entryRd = none
  fits : TextsFit d
  buffer : ∀ n, sz4k ≤ (calls n).userBufSize ∧ (calls n).copied = true
  memory : ∀ n, ∃ k, n ≤ k ∧ (calls k).kzalloc = true

structure CompleteAt (d : DumpData) (tbl : Nat → HwFence) (calls : Nat → ReadCall) (n : Nat) : Prop where
  passed : d.hwFencesTblCnt ≤ (reads d calls n).index
  first : ∀ k < n, (reads d calls k).index < d.hwFencesTblCnt
  printed : (reads d calls n).printed.map (fun entry => entry.slot.toNat) =
    validSlots tbl 0 d.hwFencesTblCnt.toNat
  inside : ∀ slot ∈ (reads d calls n).slots, slot < d.hwFencesTblCnt.toNat

def Complete (d : DumpData) (tbl : Nat → HwFence) (calls : Nat → ReadCall) : Prop :=
  ∃ n, CompleteAt d tbl calls n

theorem Served.large (served : Served d tbl calls) (n : Nat) : ¬ (calls n).userBufSize < sizeofHwFence := by
  have page := (served.buffer n).1
  unfold sz4k at page
  unfold sizeofHwFence
  omega

theorem readRefused (served : Served d tbl calls) (more : s.index < d.hwFencesTblCnt)
    (none : (calls n).kzalloc = false) : (hwFenceDbgDumpTableRd (some d) (calls n) s).2 = s := by
  have large := served.large n
  simp [hwFenceDbgDumpTableRd,served.table,BitVec.not_le.mpr more,large,none]

theorem readDumps (served : Served d tbl calls) (more : s.index < d.hwFencesTblCnt)
    (memory : (calls n).kzalloc = true) :
    let page := dumpFullTable d tbl s.index s.cnt 0 sz4k sizeofHwFence
    ∃ got, (hwFenceDbgDumpTableRd (some d) (calls n) s).2 =
        ⟨page.index,page.cnt,s.printed ++ got,s.slots ++ page.slots⟩ ∧
      (got = [] ∨ got = page.entries) ∧ (0 < page.len → page.len ≤ sz4k → got = page.entries) := by
  have large := served.large n
  intro page
  by_cases lost : page.len = 0 ∨ (calls n).userBufSize < page.len
  · refine ⟨[],?_,.inl rfl,fun some fits => ?_⟩
    · simp [hwFenceDbgDumpTableRd,served.table,served.whole,BitVec.not_le.mpr more,large,memory,page,lost]
    · have page := (served.buffer n).1
      omega
  · refine ⟨page.entries,?_,.inr rfl,fun _ _ => rfl⟩
    simp [hwFenceDbgDumpTableRd,served.table,served.whole,BitVec.not_le.mpr more,large,memory,page,lost,
      (served.buffer n).2]

structure DumpedTo (d : DumpData) (tbl : Nat → HwFence) (i : Nat) (s : Dump) : Prop where
  index : s.index = BitVec.ofNat 32 i
  cnt : s.cnt = BitVec.ofNat 32 (validSlots tbl 0 i).length
  printed : s.printed.map (fun entry => entry.slot.toNat) = validSlots tbl 0 i
  inside : ∀ slot ∈ s.slots, slot < d.hwFencesTblCnt.toNat

theorem dumpedIndex (dumped : DumpedTo d tbl i s) (inside : i ≤ d.hwFencesTblCnt.toNat) : s.index.toNat = i := by
  rw [dumped.index,BitVec.toNat_ofNat,Nat.mod_eq_of_lt (by omega)]

theorem dumpedMore (dumped : DumpedTo d tbl i s) (inside : i < d.hwFencesTblCnt.toNat) :
    s.index < d.hwFencesTblCnt := by
  rw [BitVec.lt_def,dumpedIndex dumped (by omega)]
  exact inside

theorem dumpedPage (dumped : DumpedTo d tbl i s) (skipped : (tbl i).valid = false) :
    dumpFullTable d tbl s.index s.cnt 0 sz4k sizeofHwFence = dumpAt d tbl i i := by
  rw [dumpAt,validSlotsSkip skipped,pageLengthSelf,dumped.index,dumped.cnt]

theorem pageFits (fits : TextsFit d) (fills : Fills d tbl i j) :
    0 < pageLength d tbl (i+1) j ∧ pageLength d tbl (i+1) j ≤ sz4k := by
  have full := fills.full
  have later := fills.later
  obtain ⟨k,rfl⟩ : ∃ k, j = k+1 := ⟨j-1,by omega⟩
  unfold room sz4k sizeofHwFence at full
  refine ⟨by omega,?_⟩
  by_cases one : i = k
  · subst one
    rw [pageLengthSelf]
    exact Nat.zero_le _
  · have before := fills.before k (by omega) (by omega)
    have last : textLength d tbl k ≤ sizeofHwFence := by
      unfold textLength
      by_cases valid : (tbl k).valid = true
      · rw [if_pos valid]
        exact fits _ _ _
      · rw [if_neg valid]
        exact Nat.zero_le _
    rw [pageLengthTop (by omega)]
    unfold room sz4k sizeofHwFence at *
    omega

theorem readFills (served : Served d tbl calls) (dumped : DumpedTo d tbl i s) (skipped : (tbl i).valid = false)
    (fills : Fills d tbl i j) (inside : j ≤ d.hwFencesTblCnt.toNat) (memory : (calls n).kzalloc = true) :
    DumpedTo d tbl j (hwFenceDbgDumpTableRd (some d) (calls n) s).2 := by
  have later := fills.later
  obtain ⟨got,left,-,all⟩ := readDumps served (dumpedMore dumped (by omega)) memory
  have stops := dumpFills served.fits fills (le_refl i) later inside
  rw [← dumpedPage dumped skipped] at stops
  obtain ⟨some,fits⟩ := pageFits served.fits fills
  rw [all (by rw [stops.len]; exact some) (by rw [stops.len]; exact fits)] at left
  rw [left]
  refine ⟨stops.index,stops.cnt,?_,?_⟩
  · rw [List.map_append,dumped.printed,stops.entries,← validSlotsSkip skipped]
    exact validSlotsJoin (Nat.zero_le _) later
  · intro slot mem
    rcases List.mem_append.mp mem with old | new
    · exact dumped.inside slot old
    · rw [stops.slots,List.Ico.mem] at new
      omega

theorem memoryComes (served : Served d tbl calls) (m : Nat) (more : (reads d calls m).index < d.hwFencesTblCnt) :
    ∃ k, m ≤ k ∧ (calls k).kzalloc = true ∧ ∀ l, m ≤ l → l ≤ k → reads d calls l = reads d calls m := by
  have comes := served.memory m
  obtain ⟨later,memory⟩ := Nat.find_spec comes
  refine ⟨Nat.find comes,later,memory,fun l since upto => ?_⟩
  induction l, since using Nat.le_induction with
  | base => rfl
  | succ l since ih =>
    have same := ih (by omega)
    have refused : (calls l).kzalloc = false := by
      have early := Nat.find_min comes (show l < Nat.find comes by omega)
      simpa [since] using early
    rw [reads,same]
    exact readRefused served more refused

theorem fullCompletes (served : Served d tbl calls) (full : FullPages d tbl i)
    (dumped : DumpedTo d tbl i (reads d calls m)) (inside : i ≤ d.hwFencesTblCnt.toNat)
    (first : ∀ k < m, (reads d calls k).index < d.hwFencesTblCnt) : Complete d tbl calls := by
  induction full generalizing m with
  | done =>
    refine ⟨m,?_,first,dumped.printed,dumped.inside⟩
    rw [BitVec.le_def,dumpedIndex dumped (le_refl _)]
  | @page i j skipped fills within rest ih =>
    have later := fills.later
    have more := dumpedMore dumped (by omega)
    obtain ⟨k,after,memory,same⟩ := memoryComes served m more
    have here : DumpedTo d tbl i (reads d calls k) := by
      rw [same k after (le_refl k)]
      exact dumped
    refine ih (m := k+1) (readFills served here skipped fills within memory) within fun l before => ?_
    by_cases early : l < m
    · exact first l early
    · rw [same l (by omega) (by omega)]
      exact more

theorem readSlots (served : Served d tbl calls) {k : Nat} (more : (reads d calls k).index < d.hwFencesTblCnt) :
    (reads d calls k).slots ⊆ (reads d calls (k+1)).slots := by
  rw [reads]
  by_cases memory : (calls k).kzalloc = true
  · obtain ⟨got,left,-,-⟩ := readDumps served more memory
    rw [left]
    exact List.subset_append_left _ _
  · rw [readRefused served more (by simpa using memory)]
    exact List.Subset.refl _

theorem slotsKept (served : Served d tbl calls) {k : Nat} (le : k ≤ n)
    (first : ∀ l < n, (reads d calls l).index < d.hwFencesTblCnt) :
    (reads d calls k).slots ⊆ (reads d calls n).slots := by
  induction n, le using Nat.le_induction with
  | base => exact List.Subset.refl _
  | succ l le ih =>
    have kept := ih fun r less => first r (by omega)
    exact List.Subset.trans kept (readSlots served (first l (by omega)))

theorem printedLater (served : Served d tbl calls) (complete : CompleteAt d tbl calls n) {l : Nat}
    (since : m ≤ l) (upto : l ≤ n) :
    (reads d calls m).index ≤ (reads d calls l).index ∧
    ∃ got, (reads d calls l).printed = (reads d calls m).printed ++ got ∧
      ∀ entry ∈ got, (reads d calls m).index < entry.slot := by
  induction l, since using Nat.le_induction with
  | base => exact ⟨BitVec.le_refl _,[],by simp,by simp⟩
  | succ l since ih =>
    obtain ⟨le,got,printed,later⟩ := ih (by omega)
    have more := complete.first l (by omega)
    by_cases memory : (calls l).kzalloc = true
    case neg =>
      have same : reads d calls (l+1) = reads d calls l := readRefused served more (by simpa using memory)
      rw [same]
      exact ⟨le,got,printed,later⟩
    obtain ⟨new,left,own,-⟩ := readDumps served more memory
    have after : reads d calls (l+1) = _ := left
    obtain ⟨past,stops⟩ := dumpLater d tbl (reads d calls l).index (reads d calls l).cnt 0 sz4k sizeofHwFence
    rw [after]
    refine ⟨?_,got ++ new,by rw [printed,List.append_assoc],fun entry mem => ?_⟩
    · rcases stops more with outside | ⟨next,-⟩
      · have looked : d.hwFencesTblCnt.toNat ∈ (reads d calls (l+1)).slots := by
          rw [after]
          exact List.mem_append_right _ outside
        have inside := complete.inside _ (slotsKept served upto complete.first looked)
        exact absurd inside (lt_irrefl _)
      · show _ ≤ (dumpFullTable d tbl _ _ 0 sz4k sizeofHwFence).index
        bv_omega
    · rcases List.mem_append.mp mem with old | fresh
      · exact later entry old
      · have formatted : entry ∈
            (dumpFullTable d tbl (reads d calls l).index (reads d calls l).cnt 0 sz4k sizeofHwFence).entries := by
          rcases own with rfl | rfl
          · cases fresh
          · exact fresh
        have less := past entry formatted
        bv_omega

theorem slotSkipped (served : Served d tbl calls) (complete : CompleteAt d tbl calls n) (le : m ≤ n)
    (dumped : DumpedTo d tbl i (reads d calls m)) (inside : i < d.hwFencesTblCnt.toNat) :
    (tbl i).valid = false := by
  by_contra valid
  replace valid : (tbl i).valid = true := by simpa using valid
  obtain ⟨-,got,printed,later⟩ := printedLater served complete le (le_refl n)
  have mem : i ∈ validSlots tbl 0 d.hwFencesTblCnt.toNat := by simp [validSlots,inside,valid]
  rw [← complete.printed,printed,List.map_append,dumped.printed] at mem
  rcases List.mem_append.mp mem with below | after
  · simp [validSlots] at below
  · obtain ⟨entry,formatted,slot⟩ := List.mem_map.mp after
    have less := later entry formatted
    rw [BitVec.lt_def,slot,dumpedIndex dumped (by omega)] at less
    omega

theorem completesFull (served : Served d tbl calls) (complete : CompleteAt d tbl calls n) (le : m ≤ n)
    (dumped : DumpedTo d tbl i (reads d calls m)) (inside : i ≤ d.hwFencesTblCnt.toNat) :
    FullPages d tbl i := by
  induction left : n-m generalizing m i with
  | zero =>
    have same : m = n := by omega
    subst same
    have passed := complete.passed
    rw [BitVec.le_def,dumpedIndex dumped inside] at passed
    rw [le_antisymm inside passed]
    exact .done
  | succ left ih =>
    have more := complete.first m (by omega)
    have within : i < d.hwFencesTblCnt.toNat := by
      rw [BitVec.lt_def,dumpedIndex dumped inside] at more
      exact more
    by_cases memory : (calls m).kzalloc = true
    case neg =>
      have same : reads d calls (m+1) = reads d calls m := readRefused served more (by simpa using memory)
      exact ih (m := m+1) (by omega) (by rw [same]; exact dumped) inside (by omega)
    have skipped := slotSkipped served complete le dumped within
    rcases fillsOrOpen d tbl i with ⟨j,fills,upto⟩ | unfilled
    · have next : DumpedTo d tbl j (reads d calls (m+1)) := readFills served dumped skipped fills upto memory
      exact .page skipped fills upto (ih (by omega) next upto (by omega))
    · have past := dumpPast served.fits (le_refl i) within unfilled
      rw [← dumpedPage dumped skipped] at past
      obtain ⟨got,dumps,-,-⟩ := readDumps served more memory
      have after : reads d calls (m+1) = _ := dumps
      have looked : d.hwFencesTblCnt.toNat ∈ (reads d calls (m+1)).slots := by
        rw [after]
        exact List.mem_append_right _ past
      have early : m+1 ≤ n := by omega
      exact absurd (complete.inside _ (slotsKept served early complete.first looked)) (lt_irrefl _)

theorem initialDumped (d : DumpData) (tbl : Nat → HwFence) : DumpedTo d tbl 0 Dump.initial :=
  ⟨rfl,by simp [Dump.initial],by simp [Dump.initial],fun slot mem => absurd mem List.not_mem_nil⟩

theorem completeIff (served : Served d tbl calls) : Complete d tbl calls ↔ FullPages d tbl 0 := by
  constructor
  · rintro ⟨n,complete⟩
    exact completesFull served complete (Nat.zero_le n) (initialDumped d tbl) (Nat.zero_le _)
  · intro full
    exact fullCompletes (m := 0) served full (initialDumped d tbl) (Nat.zero_le _) fun k less =>
      absurd less (Nat.not_lt_zero k)

def longDump (tbl : Nat → HwFence) (cnt : U32) : DumpData := ⟨some tbl,cnt,fun _ _ _ => 160,none⟩

def pageCalls : Nat → ReadCall := fun _ => ⟨4096,true,true⟩

theorem longServed (tbl : Nat → HwFence) (cnt : U32) : Served (longDump tbl cnt) tbl pageCalls :=
  ⟨rfl,rfl,fun _ _ _ => le_refl _,fun _ => ⟨le_refl _,rfl⟩,fun n => ⟨n,le_refl n,rfl⟩⟩

def laterValid (slot : Nat) : HwFence := {HwFence.zeroed with valid := slot ≠ 0}

theorem pageOfLater : Fills (longDump laterValid 26) laterValid 0 26 := by
  have before : ∀ k < 26, 0 < k → pageLength (longDump laterValid 26) laterValid 1 k < room := by decide
  exact ⟨by decide,by decide,fun k later less => before k less later⟩

theorem laterComplete : Complete (longDump laterValid 26) laterValid pageCalls :=
  (completeIff (longServed laterValid 26)).mpr (.page rfl pageOfLater (by decide) .done)

def oneValid (_ : Nat) : HwFence := {HwFence.zeroed with valid := true}

theorem onlySlotMissed : Served (longDump oneValid 1) oneValid pageCalls ∧
    ¬ Complete (longDump oneValid 1) oneValid pageCalls := by
  refine ⟨longServed oneValid 1,?_⟩
  rintro ⟨n,complete⟩
  have slots : (reads (longDump oneValid 1) pageCalls 1).slots = [1] := by
    simp [reads,hwFenceDbgDumpTableRd,longDump,pageCalls,Dump.initial,dumpFullTable,oneValid,dumpFence,
      scnprintf,sz4k,sizeofHwFence,Dumped.looks,Dumped.formats]
  have some : 1 ≤ n := by
    by_contra none
    have start : n = 0 := by omega
    subst start
    exact absurd complete.passed (by decide)
  have past := slotsKept (longServed oneValid 1) some complete.first (a := 1) (by rw [slots]; exact List.mem_cons_self)
  exact absurd (complete.inside 1 past) (by decide)

end Reads
end MmDrivers.TableDump

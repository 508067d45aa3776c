import MmDrivers.FenceTypes
import MmDrivers.Lib.Exclusives
import MmDrivers.Lib.Runs

/-! The lock that the driver shares with the other virtual machine. The callers of
`global_atomic_store` wait for a word of zeros and set bit 0 in it, one load and one
store exclusive at a time. The other machine is not part of the driver: it may write the
word whenever it likes, and all that is asked of it is that it leaves bit 0 alone. -/
namespace MmDrivers.VmLock
open FenceTypes Exclusives Runs

def pvmBit (lock : U64) : Bool := lock &&& 0x1#64 ≠ 0#64
def svmBit (lock : U64) : Bool := lock &&& 0x2#64 ≠ 0#64

/-- What a load of a W register sees of the word, and what a store of one leaves of it. -/
def wLoad (lock : U64) : U32 := lock.setWidth 32
def wStore (lock : U64) (w : U32) : U64 := (lock &&& 0xFFFFFFFF00000000#64) ||| w.setWidth 64

section Words
variable {lock : U64} {w : U32}

theorem pvmLsb (lock : U64) : pvmBit lock = lock.getLsbD 0 := by
  unfold pvmBit
  rw [show 0x1#64 = BitVec.twoPow 64 0 from rfl,BitVec.and_twoPow]
  cases lock.getLsbD 0 <;> decide

theorem svmLsb (lock : U64) : svmBit lock = lock.getLsbD 1 := by
  unfold svmBit
  rw [show 0x2#64 = BitVec.twoPow 64 1 from rfl,BitVec.and_twoPow]
  cases lock.getLsbD 1 <;> decide

theorem wLoadLsb {k : Nat} (low : k < 32) : (wLoad lock).getLsbD k = lock.getLsbD k := by
  simp [wLoad,low]

theorem wStoreLsb {k : Nat} (low : k < 2) : (wStore lock w).getLsbD k = w.getLsbD k := by
  have high : (0xFFFFFFFF00000000#64).getLsbD k = false := by
    interval_cases k <;> decide
  rw [wStore,BitVec.getLsbD_or,BitVec.getLsbD_and,high,BitVec.getLsbD_setWidth]
  simp [show k < 64 by omega]

theorem freeBits (free : wLoad lock = 0) : pvmBit lock = false ∧ svmBit lock = false := by
  rw [pvmLsb,svmLsb,← wLoadLsb (k := 0) (by decide),← wLoadLsb (k := 1) (by decide),free]
  exact ⟨by decide,by decide⟩

theorem takenBits : pvmBit (wStore lock 1) = true ∧ svmBit (wStore lock 1) = false := by
  rw [pvmLsb,svmLsb,wStoreLsb (by decide),wStoreLsb (by decide)]
  exact ⟨by decide,by decide⟩

theorem clearedBits (loaded : wLoad lock = w) :
    pvmBit (wStore lock (w &&& 0xFFFFFFFE#32)) = false ∧
      svmBit (wStore lock (w &&& 0xFFFFFFFE#32)) = svmBit lock := by
  rw [pvmLsb,svmLsb,svmLsb,wStoreLsb (by decide),wStoreLsb (by decide),BitVec.getLsbD_and,
    BitVec.getLsbD_and,show (0xFFFFFFFE#32).getLsbD 0 = false from rfl,
    show (0xFFFFFFFE#32).getLsbD 1 = true from rfl,Bool.and_false,Bool.and_true,← loaded,
    wLoadLsb (by decide)]
  exact ⟨rfl,rfl⟩

end Words

/-- Where a caller is: each place but `outside` and `holds` is before an access to the word. -/
inductive Pc where
  | outside
  | lockLoad
  | lockStore
  | holds
  | unlockLoad
  | unlockStore (w5 : U32)
  | readBack
  | testBack (lockVal : U64)
  deriving DecidableEq, Repr

structure LockState (ι : Type) where
  lock : Cell ι U64
  pc : ι → Pc
  lockWakeCnt : U64
  signals : Nat

/-- `lets`: whether a store exclusive with its reservation standing goes through. -/
inductive Move (ι : Type) where
  | lock (t : ι)
  | unlock (t : ι)
  | access (t : ι) (lets : Bool)
  | otherVm (word : U64)

section Model
variable {ι : Type} [DecidableEq ι]

def jump (t : ι) (pc : Pc) (s : LockState ι) : LockState ι := {s with pc := Function.update s.pc t pc}

def ipccTriggerSignal (s : LockState ι) : LockState ι :=
  {s with lockWakeCnt := s.lockWakeCnt+1, signals := s.signals+1}

def access (s : LockState ι) (t : ι) (lets : Bool) : LockState ι :=
  match s.pc t with
  | .outside | .holds => s
  | .lockLoad =>
    jump t (if wLoad s.lock.word ≠ 0 then .lockLoad else .lockStore)
      {s with lock := s.lock.loadExclusive t}
  | .lockStore =>
    let (through,lock) := s.lock.storeExclusive t (wStore s.lock.word 1) lets
    jump t (if through then .holds else .lockLoad) {s with lock}
  | .unlockLoad =>
    jump t (.unlockStore (wLoad s.lock.word)) {s with lock := s.lock.loadExclusive t}
  | .unlockStore w5 =>
    let (through,lock) := s.lock.storeExclusive t (wStore s.lock.word (w5 &&& 0xFFFFFFFE#32)) lets
    jump t (if through then .readBack else .unlockLoad) {s with lock}
  | .readBack => jump t (.testBack s.lock.word) s
  | .testBack lockVal => jump t .outside (if svmBit lockVal then ipccTriggerSignal s else s)

def step (s : LockState ι) : Move ι → LockState ι
  | .lock t => if s.pc t = .outside then jump t .lockLoad s else s
  | .unlock t => if s.pc t = .holds then jump t .unlockLoad s else s
  | .access t lets => access s t lets
  | .otherVm word => {s with lock := s.lock.write word}

def unlocked (ι : Type) : LockState ι := ⟨⟨0,fun _ => false⟩,fun _ => .outside,0,0⟩

def LeavesPvmBit (s : LockState ι) : Move ι → Prop
  | .otherVm word => pvmBit word = pvmBit s.lock.word
  | _ => True

def Pc.owns : Pc → Bool
  | .holds | .unlockLoad | .unlockStore _ => true
  | _ => false

def Pc.checks : Pc → Bool
  | .readBack => true
  | .testBack lockVal => svmBit lockVal
  | _ => false

def Pc.saw : Pc → Option U32
  | .lockStore => some 0
  | .unlockStore w5 => some w5
  | _ => none

end Model

section Moves
variable {ι : Type} [DecidableEq ι] {s : LockState ι}

inductive Stepped (s : LockState ι) : Move ι → LockState ι → Prop where
  | stays (move : Move ι) : Stepped s move s
  | begins {t : ι} (was : s.pc t = .outside) : Stepped s (.lock t) (jump t .lockLoad s)
  | leaves {t : ι} (was : s.pc t = .holds) : Stepped s (.unlock t) (jump t .unlockLoad s)
  | loads {t : ι} {pc pc' : Pc} (lets : Bool) (was : s.pc t = pc) (same : pc'.owns = pc.owns)
      (idle : pc.checks = false) (saw : ∀ w, pc'.saw = some w → wLoad s.lock.word = w) :
      Stepped s (.access t lets) (jump t pc' {s with lock := s.lock.loadExclusive t})
  | fails {t : ι} {pc pc' : Pc} (lets : Bool) (was : s.pc t = pc) (same : pc'.owns = pc.owns)
      (idle : pc.checks = false) :
      Stepped s (.access t lets)
        (jump t pc' {s with lock := {s.lock with reserved := Function.update s.lock.reserved t false}})
  | takes {t : ι} (lets : Bool) (was : s.pc t = .lockStore) (reserved : s.lock.reserved t = true) :
      Stepped s (.access t lets) (jump t .holds {s with lock := s.lock.write (wStore s.lock.word 1)})
  | clears {t : ι} {w5 : U32} (lets : Bool) (was : s.pc t = .unlockStore w5)
      (reserved : s.lock.reserved t = true) :
      Stepped s (.access t lets)
        (jump t .readBack {s with lock := s.lock.write (wStore s.lock.word (w5 &&& 0xFFFFFFFE#32))})
  | reads {t : ι} (lets : Bool) (was : s.pc t = .readBack) :
      Stepped s (.access t lets) (jump t (.testBack s.lock.word) s)
  | tests {t : ι} {lockVal : U64} (lets : Bool) (was : s.pc t = .testBack lockVal) :
      Stepped s (.access t lets)
        (jump t .outside (if svmBit lockVal then ipccTriggerSignal s else s))
  | other (word : U64) : Stepped s (.otherVm word) {s with lock := s.lock.write word}

theorem stepped (s : LockState ι) (move : Move ι) : Stepped s move (step s move) := by
  cases move with
  | lock t =>
    dsimp only [step]
    split
    · exact .begins (by assumption)
    · exact .stays _
  | unlock t =>
    dsimp only [step]
    split
    · exact .leaves (by assumption)
    · exact .stays _
  | otherVm word => exact .other word
  | access t lets =>
    dsimp only [step]
    unfold access
    cases was : s.pc t with
    | outside => exact .stays _
    | holds => exact .stays _
    | lockLoad =>
      refine .loads lets was ?_ rfl ?_
      · split <;> rfl
      · intro w sees
        split at sees
        · cases sees
        · rename_i free
          exact (not_not.mp free).trans (Option.some.inj sees)
    | lockStore =>
      dsimp only
      rcases s.lock.storeCases t (wStore s.lock.word 1) lets with ⟨reserved,through⟩ | failed
      · rw [through]
        exact .takes lets was reserved
      · rw [failed]
        exact .fails lets was rfl rfl
    | unlockLoad => exact .loads lets was rfl rfl fun w sees => Option.some.inj sees
    | unlockStore w5 =>
      dsimp only
      rcases s.lock.storeCases t (wStore s.lock.word (w5 &&& 0xFFFFFFFE#32)) lets with
        ⟨reserved,through⟩ | failed
      · rw [through]
        exact .clears lets was reserved
      · rw [failed]
        exact .fails lets was rfl rfl
    | readBack => exact .reads lets was
    | testBack lockVal => exact .tests lets was

theorem jumpSaw (s : LockState ι) (t : ι) (pc : Pc) : (fun u => ((jump t pc s).pc u).saw) =
    Function.update (fun u => (s.pc u).saw) t pc.saw := by
  funext u
  by_cases ut : u = t
  · subst ut
    simp [jump]
  · simp [jump,ut]

theorem jumpOwns {t : ι} {pc : Pc} (same : pc.owns = (s.pc t).owns) (u : ι) :
    ((jump t pc s).pc u).owns = (s.pc u).owns := by
  by_cases ut : u = t
  · subst ut
    simp [jump,same]
  · simp [jump,ut]

end Moves

section Exclusion
variable {ι : Type} {s s' : LockState ι}

structure Exclusive (s : LockState ι) : Prop where
  unique : ∀ t u, (s.pc t).owns = true → (s.pc u).owns = true → t = u
  owned : pvmBit s.lock.word = true ↔ ∃ t, (s.pc t).owns = true

structure Inv (s : LockState ι) : Prop extends Exclusive s where
  coherent : Coherent wLoad (fun t => (s.pc t).saw) s.lock

theorem Exclusive.keep (h : Exclusive s) (owns : ∀ u, (s'.pc u).owns = (s.pc u).owns)
    (bit : pvmBit s'.lock.word = pvmBit s.lock.word) : Exclusive s' := by
  refine ⟨fun t u => ?_,?_⟩
  · rw [owns t,owns u]
    exact h.unique t u
  · simpa only [bit,owns] using h.owned

theorem Inv.takes (h : Inv s) {t : ι} (was : s.pc t = .lockStore)
    (reserved : s.lock.reserved t = true) : wLoad s.lock.word = 0 :=
  h.coherent t 0 reserved (by simp [was,Pc.saw])

theorem Inv.clears (h : Inv s) {t : ι} {w5 : U32} (was : s.pc t = .unlockStore w5)
    (reserved : s.lock.reserved t = true) : wLoad s.lock.word = w5 :=
  h.coherent t w5 reserved (by simp [was,Pc.saw])

theorem unlockedInv : Inv (unlocked ι) := by
  refine ⟨⟨fun t u owns => ?_,?_⟩,.write (unlocked ι).lock 0⟩
  · cases owns
  · refine iff_of_false (by simp [unlocked,pvmBit]) ?_
    rintro ⟨t,owns⟩
    cases owns

variable [DecidableEq ι]

theorem exclusiveStep (h : Inv s) {move : Move ι} (leaves : LeavesPvmBit s move)
    (does : Stepped s move s') : Exclusive s' := by
  cases does with
  | stays => exact h.toExclusive
  | begins was => exact h.keep (jumpOwns (by rw [was]; rfl)) rfl
  | leaves was => exact h.keep (jumpOwns (by rw [was]; rfl)) rfl
  | loads lets was same => exact h.keep (jumpOwns (was ▸ same)) rfl
  | fails lets was same => exact h.keep (jumpOwns (was ▸ same)) rfl
  | reads lets was => exact h.keep (jumpOwns (by rw [was]; rfl)) rfl
  | @tests t lockVal lets was =>
    split
    · exact h.keep (jumpOwns (by show _ = (s.pc t).owns; rw [was]; rfl)) rfl
    · exact h.keep (jumpOwns (by rw [was]; rfl)) rfl
  | other word => exact h.keep (fun _ => rfl) leaves
  | @takes t lets was reserved =>
    -- nobody owns a word of zeros
    have free : ∀ u, (s.pc u).owns = false := by
      intro u
      by_contra owns
      have set := h.owned.mpr ⟨u,by simpa using owns⟩
      rw [(freeBits (h.takes was reserved)).1] at set
      cases set
    refine ⟨fun u v => ?_,iff_of_true takenBits.1 ⟨t,by simp [jump,Pc.owns]⟩⟩
    by_cases ut : u = t <;> by_cases vt : v = t <;> simp [jump,ut,vt,free]
  | @clears t w5 lets was reserved =>
    have own : (s.pc t).owns = true := by rw [was]; rfl
    have others : ∀ u, u ≠ t → (s.pc u).owns = false := by
      intro u ut
      by_contra owns
      exact ut (h.unique u t (by simpa using owns) own)
    have none : ∀ u, ((jump t .readBack
        {s with lock := s.lock.write (wStore s.lock.word (w5 &&& 0xFFFFFFFE#32))}).pc u).owns = false := by
      intro u
      by_cases ut : u = t
      · simp [jump,ut,Pc.owns]
      · simpa [jump,ut] using others u ut
    have clear : ¬ pvmBit (wStore s.lock.word (w5 &&& 0xFFFFFFFE#32)) = true := by
      rw [(clearedBits (h.clears was reserved)).1]
      exact Bool.false_ne_true
    refine ⟨fun u v => by simp [none],iff_of_false clear ?_⟩
    simp [none]

theorem coherentStep (h : Inv s) {move : Move ι} (does : Stepped s move s') :
    Coherent wLoad (fun t => (s'.pc t).saw) s'.lock := by
  have jumped : ∀ {t : ι} {pc : Pc} (u : LockState ι), u.pc = s.pc → u.lock = s.lock → pc.saw = none →
      Coherent wLoad (fun v => ((jump t pc u).pc v).saw) (jump t pc u).lock := by
    intro t pc u pcs lock sees
    rw [jumpSaw,pcs,sees]
    exact (lock ▸ h.coherent).forget
  cases does with
  | stays => exact h.coherent
  | begins was => exact jumped s rfl rfl rfl
  | leaves was => exact jumped s rfl rfl rfl
  | reads lets was => exact jumped s rfl rfl rfl
  | tests lets was =>
    split
    · exact jumped (ipccTriggerSignal s) rfl rfl rfl
    · exact jumped s rfl rfl rfl
  | loads lets was same idle saw =>
    rw [jumpSaw]
    exact h.coherent.load saw
  | fails lets was same =>
    rw [jumpSaw]
    exact h.coherent.fail _
  | takes => exact .write s.lock _
  | clears => exact .write s.lock _
  | other word => exact .write s.lock word

theorem invStep (h : Inv s) {move : Move ι} (leaves : LeavesPvmBit s move) : Inv (step s move) :=
  ⟨exclusiveStep h leaves (stepped s move),coherentStep h (stepped s move)⟩

end Exclusion

section OtherVm
variable {ι : Type} {s s' : LockState ι}

def SvmWaits (s : LockState ι) : Prop := svmBit s.lock.word = true

def SvmHas (s : LockState ι) : Prop := SvmWaits s ∧ pvmBit s.lock.word = false

def SvmStays (s : LockState ι) : Move ι → Prop
  | .otherVm word => svmBit word = true ∧ pvmBit word = pvmBit s.lock.word
  | _ => True

theorem SvmStays.leaves {move : Move ι} (stays : SvmStays s move) : LeavesPvmBit s move := by
  cases move <;> first | exact stays.2 | trivial

variable [DecidableEq ι]

theorem waitsStep (h : Inv s) {move : Move ι} (stays : SvmStays s move) (waits : SvmWaits s) :
    SvmWaits (step s move) := by
  have does := stepped s move
  generalize step s move = s' at does
  cases does with
  | takes lets was reserved =>
    have zero := (freeBits (h.takes was reserved)).2
    exact absurd (waits.symm.trans zero) (by decide)
  | clears lets was reserved => exact (clearedBits (h.clears was reserved)).2.trans waits
  | other word => exact stays.1
  | tests lets was => split <;> exact waits
  | stays => exact waits
  | begins => exact waits
  | leaves => exact waits
  | loads => exact waits
  | fails => exact waits
  | reads => exact waits

theorem svmHasStep (h : Inv s) {move : Move ι} (stays : SvmStays s move) (has : SvmHas s) :
    SvmHas (step s move) := by
  refine ⟨waitsStep h stays has.1,?_⟩
  have does := stepped s move
  generalize step s move = s' at does
  have clear := has.2
  cases does with
  | takes lets was reserved =>
    have zero := (freeBits (h.takes was reserved)).2
    exact absurd (has.1.symm.trans zero) (by decide)
  | clears lets was reserved => exact (clearedBits (h.clears was reserved)).1
  | other word => exact stays.2.trans clear
  | tests lets was => split <;> exact clear
  | stays => exact clear
  | begins => exact clear
  | leaves => exact clear
  | loads => exact clear
  | fails => exact clear
  | reads => exact clear

def Checks (s : LockState ι) : Prop := ∃ t, (s.pc t).checks = true

structure Owed (signals : Nat) (s : LockState ι) : Prop where
  counted : signals ≤ s.signals
  owed : pvmBit s.lock.word = true ∨ Checks s ∨ signals < s.signals

theorem checksJump {t : ι} {pc : Pc} {u : LockState ι} (pcs : u.pc = s.pc)
    (idle : (s.pc t).checks = false) (checks : Checks s) : Checks (jump t pc u) := by
  obtain ⟨v,own⟩ := checks
  have vt : v ≠ t := by
    rintro rfl
    exact absurd (own.symm.trans idle) (by decide)
  exact ⟨v,by simpa [jump,vt,pcs] using own⟩

theorem Owed.jump {signals : Nat} {t : ι} {pc : Pc} {u : LockState ι} (h : Owed signals s)
    (pcs : u.pc = s.pc) (bit : pvmBit u.lock.word = pvmBit s.lock.word) (count : u.signals = s.signals)
    (idle : (s.pc t).checks = false) : Owed signals (VmLock.jump t pc u) := by
  refine ⟨count ▸ h.counted,?_⟩
  rcases h.owed with set | checks | woken
  · exact .inl (bit.trans set)
  · exact .inr (.inl (checksJump pcs idle checks))
  · exact .inr (.inr (count ▸ woken))

theorem owedStep {signals : Nat} {move : Move ι} (stays : SvmStays s move) (waits : SvmWaits s)
    (h : Owed signals s) : Owed signals (step s move) := by
  have does := stepped s move
  generalize step s move = s' at does
  cases does with
  | stays => exact h
  | begins was => exact h.jump rfl rfl rfl (by rw [was]; rfl)
  | leaves was => exact h.jump rfl rfl rfl (by rw [was]; rfl)
  | loads lets was same idle => exact h.jump rfl rfl rfl (was ▸ idle)
  | fails lets was same idle => exact h.jump rfl rfl rfl (was ▸ idle)
  | @takes t lets was reserved =>
    exact ⟨h.counted,.inl takenBits.1⟩
  | @clears t w5 lets was reserved =>
    exact ⟨h.counted,.inr (.inl ⟨t,by simp [jump,Pc.checks]⟩)⟩
  | @reads t lets was =>
    exact ⟨h.counted,.inr (.inl ⟨t,by simpa [jump,Pc.checks,SvmWaits] using waits⟩)⟩
  | @tests t lockVal lets was =>
    split
    · exact ⟨Nat.le_succ_of_le h.counted,.inr (.inr (Nat.lt_succ_of_le h.counted))⟩
    · rename_i unseen
      exact h.jump rfl rfl rfl (by rw [was]; simpa [Pc.checks] using unseen)
  | other word =>
    exact ⟨h.counted,h.owed.imp (fun set => stays.2.trans set) id⟩

theorem runInv {moves : List (Move ι)} (leaves : Along step LeavesPvmBit (unlocked ι) moves) :
    Inv (after step (unlocked ι) moves) := by
  have keep : ∀ (s : LockState ι) move, Inv s → LeavesPvmBit s move → Inv (step s move) :=
    fun _ _ h => invStep h
  exact (invariant keep unlockedInv leaves).2

theorem staysRun {I : LockState ι → Prop} {post : List (Move ι)} (h : Inv s) (start : I s)
    (keep : ∀ s move, Inv s → I s → SvmStays s move → I (step s move))
    (stays : Along step SvmStays s post) : I (after step s post) := by
  have both : ∀ s move, Inv s ∧ I s → SvmStays s move → Inv (step s move) ∧ I (step s move) :=
    fun s move h stays => ⟨invStep h.1 stays.leaves,keep s move h.1 h.2 stays⟩
  exact (invariant both ⟨h,start⟩ stays).2.2

theorem lockExcludes (pre post : List (Move ι))
    (leaves : Along step LeavesPvmBit (unlocked ι) (pre ++ post)) :
    let found := after step (unlocked ι) pre
    let left := after step (unlocked ι) (pre ++ post)
    Exclusive left ∧ (Along step SvmStays found post → (SvmWaits found → SvmWaits left) ∧
      (SvmHas found → SvmHas left ∧ ∀ t, (left.pc t).owns = false)) := by
  intro found left
  have final : Inv left := runInv leaves
  have first : Inv found := runInv ((alongAppend pre post).mp leaves).1
  refine ⟨final.toExclusive,fun stays => ⟨fun waits => ?_,fun has => ?_⟩⟩
  · have run := staysRun first waits (fun s move h waits stays => waitsStep h stays waits) stays
    rwa [← afterAppend] at run
  · have kept : SvmHas left := by
      have run := staysRun first has (fun s move h has stays => svmHasStep h stays has) stays
      rwa [← afterAppend] at run
    refine ⟨kept,fun t => ?_⟩
    by_contra owns
    have set := final.owned.mpr ⟨t,by simpa using owns⟩
    exact absurd (set.symm.trans kept.2) (by decide)

theorem wakeupNotLost (pre post : List (Move ι))
    (leaves : Along step LeavesPvmBit (unlocked ι) pre) :
    let found := after step (unlocked ι) pre
    let left := after step (unlocked ι) (pre ++ post)
    pvmBit found.lock.word = true → SvmWaits found → Along step SvmStays found post →
      SvmWaits left ∧ (pvmBit left.lock.word = true ∨ Checks left ∨ found.signals < left.signals) := by
  intro found left held waits stays
  have start : SvmWaits found ∧ Owed found.signals found := ⟨waits,le_refl _,.inl held⟩
  have run := staysRun (I := fun s => SvmWaits s ∧ Owed found.signals s) (runInv leaves) start
    (fun s move h both stays => ⟨waitsStep h stays both.1,owedStep stays both.1 both.2⟩) stays
  rw [← afterAppend] at run
  exact ⟨run.1,run.2.owed⟩

instance (s : LockState ι) (move : Move ι) : Decidable (LeavesPvmBit s move) :=
  match move with
  | .otherVm word => inferInstanceAs (Decidable (pvmBit word = pvmBit s.lock.word))
  | .lock _ | .unlock _ | .access _ _ => isTrue trivial

instance (s : LockState ι) (move : Move ι) : Decidable (SvmStays s move) :=
  match move with
  | .otherVm word => inferInstanceAs (Decidable (svmBit word = true ∧ pvmBit word = pvmBit s.lock.word))
  | .lock _ | .unlock _ | .access _ _ => isTrue trivial

def contended : List (Move Bool) :=
  [.lock false,.lock true,.access false true,.access true true,.access false true,.access true true,.otherVm 3]

def givenBack : List (Move Bool) := [.unlock false,.access false true,.access false true]

def keptOut : List (Move Bool) := [.access false true,.access true true,.access false true,.access true true]

theorem keptOutRun : let left := after step (unlocked Bool) (contended ++ givenBack ++ keptOut)
    SvmWaits (after step (unlocked Bool) (contended ++ givenBack)) ∧ SvmHas left ∧
      ∀ t, (left.pc t).owns = false :=
  ⟨((lockExcludes contended givenBack (by decide)).2 (by decide)).1 (show svmBit _ = true by decide),
    ((lockExcludes (contended ++ givenBack) keptOut (by decide)).2 (by decide)).2
      ⟨show svmBit _ = true by decide,by decide⟩⟩

theorem keptOutWoken :
    let left := after step (unlocked Bool) (contended ++ (givenBack ++ keptOut))
    SvmWaits left ∧ (pvmBit left.lock.word = true ∨ Checks left ∨ 0 < left.signals) :=
  wakeupNotLost contended (givenBack ++ keptOut) (by decide) (by decide)
    (show svmBit _ = true by decide) (by decide)

end OtherVm
end MmDrivers.VmLock

import FsccDriver.Lib.Threads
import FsccDriver.Ownership

/-!
# OwnershipInterleaved — opens, closes and clock settings one access at a time

FCR is one register for both ports, but each port has a lock of its own, and `FsccFileClose` counts
without one.  A thread takes one step for each access to FCR, to a counter or to a lock.
-/

namespace FsccDriver

/-! ## Threads -/

/-- Where a thread is.  What it has read so far stands with it. -/
inductive Pc where
  | createLock
  | createTest
  | createLoad
  | createStore (counter : BitVec 32)
  | createCheck
  | createRead
  | createWrite (origFcr : BitVec 32)
  | createRelease (opened : Bool)
  | closeLoad
  | closeStore (counter : BitVec 32)
  | closeCheck
  | closeLock
  | closeRead
  | closeWrite (origFcr : BitVec 32)
  | closeRelease
  | clockLock (clockBits : List Byte)
  | clockRead (clockBits : List Byte)
  | clockWrite (origFcr : BitVec 32) (words : List (BitVec 32))
  | clockRelease
  | done
  deriving DecidableEq

structure Shared where
  fcr : BitVec 32
  openCounter : Fin 2 → BitVec 32
  locked : Fin 2 → Bool
  handles : Fin 2 → Nat

def Shared.setLocked (s : Shared) (c : Fin 2) (locked : Bool) : Shared :=
  { s with locked := Function.update s.locked c locked }

def Shared.setCounter (s : Shared) (c : Fin 2) (counter : BitVec 32) : Shared :=
  { s with openCounter := Function.update s.openCounter c counter }

-- One step of a thread on port `c`.  A thread whose lock is taken stays where it is.
def threadStep (c : Fin 2) (s : Shared) : Pc → Pc × Shared
  | .createLock => if s.locked c then (.createLock, s) else (.createTest, s.setLocked c true)
  | .createTest =>
      if s.fcr &&& asyncBit c ≠ 0 then (.createRelease false, s) else (.createLoad, s)
  | .createLoad => (.createStore (s.openCounter c), s)
  | .createStore counter => (.createCheck, s.setCounter c (counter + 1))
  | .createCheck => (if s.openCounter c = 1 then .createRead else .createRelease true, s)
  | .createRead => (.createWrite s.fcr, s)
  | .createWrite origFcr => (.createRelease true, { s with fcr := origFcr ||| openBit c })
  | .createRelease opened =>
      let s := s.setLocked c false
      (.done, if opened then { s with handles := Function.update s.handles c (s.handles c + 1) }
        else s)
  | .closeLoad => (.closeStore (s.openCounter c), s)
  | .closeStore counter => (.closeCheck, s.setCounter c (counter - 1))
  | .closeCheck => (if s.openCounter c = 0 then .closeLock else .done, s)
  | .closeLock => if s.locked c then (.closeLock, s) else (.closeRead, s.setLocked c true)
  | .closeRead => (.closeWrite s.fcr, s)
  | .closeWrite origFcr => (.closeRelease, { s with fcr := origFcr &&& ~~~openBit c })
  | .closeRelease => (.done, s.setLocked c false)
  | .clockLock clockBits =>
      if s.locked c then (.clockLock clockBits, s) else (.clockRead clockBits, s.setLocked c true)
  | .clockRead clockBits => (.clockWrite s.fcr (clockWords c s.fcr clockBits), s)
  | .clockWrite origFcr (word :: words) => (.clockWrite origFcr words, { s with fcr := word })
  | .clockWrite _ [] => (.clockRelease, s)
  | .clockRelease => (.done, s.setLocked c false)
  | .done => (.done, s)

structure Interleaved where
  shared : Shared
  threads : List (Fin 2 × Pc)

inductive InterleavedAction where
  | create (c : Fin 2)
  | close (c : Fin 2)
  | setClockBits (c : Fin 2) (clockBits : List Byte)
  | step (i : Nat)

-- An open handle can be closed once.
def interleavedStep (s : Interleaved) : InterleavedAction → Interleaved
  | .create c => { s with threads := s.threads ++ [(c, .createLock)] }
  | .close c =>
      if 0 < s.shared.handles c then
        { shared := { s.shared with
            handles := Function.update s.shared.handles c (s.shared.handles c - 1) }
          threads := s.threads ++ [(c, .closeLoad)] }
      else s
  | .setClockBits c clockBits => { s with threads := s.threads ++ [(c, .clockLock clockBits)] }
  | .step i =>
      match s.threads[i]? with
      | some (c, pc) =>
          let (pc, shared) := threadStep c s.shared pc
          { shared, threads := s.threads.set i (c, pc) }
      | none => s

/-! ## Phases of a thread -/

-- Its handle is still counted.
def Pc.closing : Pc → Bool
  | .closeLoad | .closeStore _ => true
  | _ => false

-- Its handle is counted already.
def Pc.opened : Pc → Bool
  | .createCheck | .createRead | .createWrite _ | .createRelease true => true
  | _ => false

def Pc.holds : Pc → Bool
  | .createTest | .createLoad | .createStore _ | .createCheck | .createRead | .createWrite _
  | .createRelease _ | .closeRead | .closeWrite _ | .closeRelease | .clockRead _ | .clockWrite _ _
  | .clockRelease => true
  | _ => false

-- It may be about to set the bit.
def Pc.setting : Pc → Bool
  | .createCheck | .createRead | .createWrite _ => true
  | _ => false

-- It may be about to clear the bit.
def Pc.clearing : Pc → Bool
  | .closeCheck | .closeLock | .closeRead | .closeWrite _ => true
  | _ => false

def Interleaved.count (s : Interleaved) (c : Fin 2) (phase : Pc → Bool) : Nat :=
  s.threads.countP fun t ↦ decide (t.1 = c) && phase t.2

/-- The two bits that say which ports are open. -/
def ownerMask : BitVec 32 := 0xC0000000

/-- Nothing has changed since the thread read it: its counter when it stores, the ownership bits of
FCR when it writes, and for a close that its port has not been opened again. -/
def Unchanged (c : Fin 2) (s : Shared) : Pc → Prop
  | .createStore counter => s.openCounter c = counter ∧ counter.toNat + 1 < 4294967296
  | .closeStore counter => s.openCounter c = counter
  | .createWrite origFcr => s.fcr &&& ownerMask = origFcr &&& ownerMask
  | .closeWrite origFcr => s.fcr &&& ownerMask = origFcr &&& ownerMask ∧ s.openCounter c = 0
  | .clockWrite origFcr (_ :: _) => s.fcr &&& ownerMask = origFcr &&& ownerMask
  | _ => True

instance (c : Fin 2) (s : Shared) : (pc : Pc) → Decidable (Unchanged c s pc)
  | .createStore counter =>
      inferInstanceAs (Decidable (s.openCounter c = counter ∧ counter.toNat + 1 < 4294967296))
  | .closeStore counter => inferInstanceAs (Decidable (s.openCounter c = counter))
  | .createWrite origFcr =>
      inferInstanceAs (Decidable (s.fcr &&& ownerMask = origFcr &&& ownerMask))
  | .closeWrite origFcr =>
      inferInstanceAs
        (Decidable (s.fcr &&& ownerMask = origFcr &&& ownerMask ∧ s.openCounter c = 0))
  | .clockWrite origFcr (_ :: _) =>
      inferInstanceAs (Decidable (s.fcr &&& ownerMask = origFcr &&& ownerMask))
  | .clockWrite _ [] | .createLock | .createTest | .createLoad | .createCheck | .createRead
  | .createRelease _ | .closeLoad | .closeCheck | .closeLock | .closeRead | .closeRelease
  | .clockLock _ | .clockRead _ | .clockRelease | .done => inferInstanceAs (Decidable True)

def InterleavedAllowed (s : Interleaved) : InterleavedAction → Prop
  | .step i =>
      match s.threads[i]? with
      | some (c, pc) => Unchanged c s.shared pc
      | none => True
  | _ => True

instance (s : Interleaved) : (action : InterleavedAction) → Decidable (InterleavedAllowed s action)
  | .step i =>
      match h : s.threads[i]? with
      | some (c, pc) => decidable_of_iff (Unchanged c s.shared pc) (by rw [InterleavedAllowed, h])
      | none => .isTrue (by rw [InterleavedAllowed, h]; trivial)
  | .create _ | .close _ | .setClockBits _ _ => inferInstanceAs (Decidable True)

/-! ## The invariant -/

structure PortInvariant (c : Fin 2) (s : Interleaved) : Prop where
  counter : (s.shared.openCounter c).toNat =
    s.shared.handles c + s.count c Pc.closing + s.count c Pc.opened
  lock : s.count c Pc.holds = if s.shared.locked c then 1 else 0
  owesSet : 0 < (s.shared.openCounter c).toNat → ¬ s.shared.fcr &&& openBit c ≠ 0 →
    (s.shared.openCounter c).toNat = 1 ∧ 0 < s.count c Pc.setting
  owesClear : (s.shared.openCounter c).toNat = 0 → s.shared.fcr &&& openBit c ≠ 0 →
    0 < s.count c Pc.clearing

-- The words a thread still has to write agree with what it read.
def WordsKeep : Fin 2 × Pc → Prop
  | (_, .clockWrite origFcr words) => ∀ word ∈ words, word &&& ownerMask = origFcr &&& ownerMask
  | _ => True

section

variable {s : Interleaved} {c d : Fin 2} {pc pc' : Pc} {i : Nat}

theorem ownerMask_openBit (x y : BitVec 32) (h : x &&& ownerMask = y &&& ownerMask) (d : Fin 2) :
    x &&& openBit d = y &&& openBit d := by
  have hinside : ownerMask &&& openBit d = openBit d := by revert d; decide
  rw [← hinside, ← BitVec.and_assoc, ← BitVec.and_assoc, h]

theorem clockMask_ownerMask {x y : BitVec 32} (h : x &&& clockMask = y &&& clockMask) :
    x &&& ownerMask = y &&& ownerMask := by
  have hinside : clockMask &&& ownerMask = ownerMask := by decide
  rw [← hinside, ← BitVec.and_assoc, ← BitVec.and_assoc, h]

-- What a move of one thread does to the count of one phase.
theorem count_set (phase : Pc → Bool) (hi : s.threads[i]? = some (c, pc)) (pc' : Pc) (shared : Shared) :
    Interleaved.count ⟨shared, s.threads.set i (c, pc')⟩ c phase + (if phase pc then 1 else 0) =
      s.count c phase + (if phase pc' then 1 else 0) := by
  have h := Threads.countP_set (fun t : Fin 2 × Pc ↦ decide (t.1 = c) && phase t.2) hi (c, pc')
  simp only [decide_true, Bool.true_and] at h
  exact h

theorem count_set_other (phase : Pc → Bool) (hi : s.threads[i]? = some (c, pc)) (pc' : Pc)
    (shared : Shared) (hd : d ≠ c) :
    Interleaved.count ⟨shared, s.threads.set i (c, pc')⟩ d phase = s.count d phase := by
  have h := Threads.countP_set (fun t : Fin 2 × Pc ↦ decide (t.1 = d) && phase t.2) hi (c, pc')
  simp only [decide_eq_false (Ne.symm hd), Bool.false_and, Bool.false_eq_true, if_false,
    Nat.add_zero] at h
  exact h

theorem count_setting_le (s : Interleaved) (c : Fin 2) :
    s.count c Pc.setting ≤ s.count c Pc.holds ∧ s.count c Pc.setting ≤ s.count c Pc.opened := by
  have hholds : ∀ pc : Pc, pc.setting = true → pc.holds = true := by
    intro pc hsetting
    cases pc <;> first | rfl | cases hsetting
  have hopened : ∀ pc : Pc, pc.setting = true → pc.opened = true := by
    intro pc hsetting
    cases pc <;> first | rfl | cases hsetting
  constructor <;>
  · apply List.countP_mono_left
    intro t _ ht
    rw [Bool.and_eq_true] at ht ⊢
    first | exact ⟨ht.1, hholds _ ht.2⟩ | exact ⟨ht.1, hopened _ ht.2⟩

-- A step on one port leaves the other port's counter, lock and handles alone.
theorem threadStep_other (s : Shared) (pc : Pc) (hd : d ≠ c) :
    (threadStep c s pc).2.openCounter d = s.openCounter d ∧
      (threadStep c s pc).2.locked d = s.locked d ∧ (threadStep c s pc).2.handles d = s.handles d := by
  fun_cases threadStep c s pc
  case case10 opened next =>
    cases opened <;> simp [next, Shared.setLocked, hd]
  all_goals simp [Shared.setLocked, Shared.setCounter, hd]

-- A write that follows an unchanged read keeps the other port's bit.
theorem threadStep_bit_other {s : Shared} (hd : d ≠ c) (hsame : Unchanged c s pc)
    (hwords : WordsKeep (c, pc)) :
    (threadStep c s pc).2.fcr &&& openBit d ≠ 0 ↔ s.fcr &&& openBit d ≠ 0 := by
  cases pc with
  | createWrite origFcr =>
    show (origFcr ||| openBit c) &&& openBit d ≠ 0 ↔ _
    rw [or_openBit_set, ownerMask_openBit _ _ hsame d]
    exact or_iff_left fun heq ↦ hd heq.symm
  | closeWrite origFcr =>
    show origFcr &&& ~~~openBit c &&& openBit d ≠ 0 ↔ _
    rw [and_not_openBit_set, ownerMask_openBit _ _ hsame.1 d]
    exact and_iff_left fun heq ↦ hd heq.symm
  | clockWrite origFcr words =>
    cases words with
    | nil => exact Iff.rfl
    | cons word words =>
      show word &&& openBit d ≠ 0 ↔ _
      rw [ownerMask_openBit _ _ (hwords word List.mem_cons_self) d, ownerMask_openBit _ _ hsame d]
  | _ => simp only [threadStep] <;> (try split) <;> exact Iff.rfl

theorem PortInvariant.step_other (h : PortInvariant d s) (hi : s.threads[i]? = some (c, pc))
    (hd : d ≠ c) (hsame : Unchanged c s.shared pc) (hwords : WordsKeep (c, pc)) :
    PortInvariant d ⟨(threadStep c s.shared pc).2,
      s.threads.set i (c, (threadStep c s.shared pc).1)⟩ := by
  obtain ⟨hcounter, hlocked, hhandles⟩ := threadStep_other s.shared pc hd
  have hbit := threadStep_bit_other hd hsame hwords
  have hcount := fun phase ↦ count_set_other phase hi (threadStep c s.shared pc).1
    (threadStep c s.shared pc).2 hd
  constructor
  · rw [hcount, hcount]
    show ((threadStep c s.shared pc).2.openCounter d).toNat = _
    rw [hcounter, h.counter, hhandles]
  · rw [hcount]
    show _ = if (threadStep c s.shared pc).2.locked d then 1 else 0
    rw [hlocked]
    exact h.lock
  · rw [hcount]
    show 0 < ((threadStep c s.shared pc).2.openCounter d).toNat → _
    rw [hcounter, hbit]
    exact h.owesSet
  · rw [hcount]
    show ((threadStep c s.shared pc).2.openCounter d).toNat = 0 → _
    rw [hcounter, hbit]
    exact h.owesClear

/-- The counts of the five phases before and after a thread of the port has moved. -/
structure Moved (c : Fin 2) (pc pc' : Pc) (s next : Interleaved) : Prop where
  closing : next.count c Pc.closing + (if pc.closing then 1 else 0) =
    s.count c Pc.closing + (if pc'.closing then 1 else 0)
  opened : next.count c Pc.opened + (if pc.opened then 1 else 0) =
    s.count c Pc.opened + (if pc'.opened then 1 else 0)
  holds : next.count c Pc.holds + (if pc.holds then 1 else 0) =
    s.count c Pc.holds + (if pc'.holds then 1 else 0)
  setting : next.count c Pc.setting + (if pc.setting then 1 else 0) =
    s.count c Pc.setting + (if pc'.setting then 1 else 0)
  clearing : next.count c Pc.clearing + (if pc.clearing then 1 else 0) =
    s.count c Pc.clearing + (if pc'.clearing then 1 else 0)

theorem moved_set (hi : s.threads[i]? = some (c, pc)) (pc' : Pc) (shared : Shared) :
    Moved c pc pc' s ⟨shared, s.threads.set i (c, pc')⟩ :=
  ⟨count_set _ hi _ _, count_set _ hi _ _, count_set _ hi _ _, count_set _ hi _ _,
    count_set _ hi _ _⟩

-- Nothing that the invariant speaks about has changed.
theorem PortInvariant.congr {next : Interleaved} (h : PortInvariant c s)
    (hcount : ∀ phase ∈ [Pc.closing, Pc.opened, Pc.holds, Pc.setting, Pc.clearing],
      next.count c phase = s.count c phase)
    (hcounter : next.shared.openCounter c = s.shared.openCounter c)
    (hlocked : next.shared.locked c = s.shared.locked c)
    (hhandles : next.shared.handles c = s.shared.handles c)
    (hbit : next.shared.fcr &&& openBit c ≠ 0 ↔ s.shared.fcr &&& openBit c ≠ 0) :
    PortInvariant c next := by
  simp only [List.forall_mem_cons] at hcount
  obtain ⟨hclosing, hopened, hholds, hsetting, hclearing, -⟩ := hcount
  constructor
  · rw [hcounter, hhandles, hclosing, hopened]
    exact h.counter
  · rw [hholds, hlocked]
    exact h.lock
  · rw [hcounter, hbit, hsetting]
    exact h.owesSet
  · rw [hcounter, hbit, hclearing]
    exact h.owesClear

-- A thread has taken the lock, which was free.
theorem PortInvariant.acquire {next : Interleaved} (h : PortInvariant c s) (hm : Moved c pc pc' s next)
    (hfree : s.shared.locked c = false) (hshared : next.shared = s.shared.setLocked c true)
    (hholds : pc.holds = false ∧ pc'.holds = true) (hclosing : pc'.closing = pc.closing)
    (hopened : pc'.opened = pc.opened) (hsetting : pc'.setting = pc.setting)
    (hclearing : pc'.clearing = pc.clearing) : PortInvariant c next := by
  obtain ⟨hmClosing, hmOpened, hmHolds, hmSetting, hmClearing⟩ := hm
  rw [hclosing] at hmClosing
  rw [hopened] at hmOpened
  rw [hsetting] at hmSetting
  rw [hclearing] at hmClearing
  rw [hholds.1, hholds.2] at hmHolds
  have hlock := h.lock
  rw [hfree] at hlock
  constructor
  · have hcounter := h.counter
    rw [hshared]
    show (s.shared.openCounter c).toNat = s.shared.handles c + _ + _
    omega
  · have hlocked : next.shared.locked c = true := by
      rw [hshared]
      exact Function.update_self _ _ _
    rw [hlocked]
    simp at hmHolds hlock ⊢
    omega
  · rw [hshared]
    intro hpos hclear
    have howed := h.owesSet hpos hclear
    exact ⟨howed.1, by omega⟩
  · rw [hshared]
    intro hzero hset
    have howed := h.owesClear hzero hset
    omega

theorem count_pos {phase : Pc → Bool} (hi : s.threads[i]? = some (c, pc)) (hphase : phase pc = true) :
    0 < s.count c phase := by
  obtain ⟨hlt, ht⟩ := List.getElem?_eq_some_iff.mp hi
  refine List.countP_pos_iff.mpr ⟨(c, pc), ht ▸ List.getElem_mem hlt, ?_⟩
  rw [hphase, decide_eq_true rfl]
  rfl

theorem PortInvariant.holds_le (h : PortInvariant c s) : s.count c Pc.holds ≤ 1 := by
  rw [h.lock]
  split <;> omega

-- A thread has given the lock back; a new handle is open now if it was one that opened its port.
theorem PortInvariant.release {next : Interleaved} (opened : Bool) (h : PortInvariant c s)
    (hm : Moved c pc pc' s next) (hfcr : next.shared.fcr = s.shared.fcr)
    (hcounter : next.shared.openCounter = s.shared.openCounter)
    (hlocked : next.shared.locked c = false)
    (hhandles : next.shared.handles c = s.shared.handles c + if opened then 1 else 0)
    (hholds : pc.holds = true ∧ pc'.holds = false) (hclosing : pc'.closing = pc.closing)
    (hopened : pc.opened = opened ∧ pc'.opened = false) (hsetting : pc'.setting = pc.setting)
    (hclearing : pc'.clearing = pc.clearing) : PortInvariant c next := by
  obtain ⟨hmClosing, hmOpened, hmHolds, hmSetting, hmClearing⟩ := hm
  rw [hclosing] at hmClosing
  rw [hopened.1, hopened.2, if_neg Bool.false_ne_true] at hmOpened
  rw [hsetting] at hmSetting
  rw [hclearing] at hmClearing
  rw [hholds.1, hholds.2, if_pos rfl, if_neg Bool.false_ne_true] at hmHolds
  have hbound := h.holds_le
  constructor
  · have hcount := h.counter
    rw [hcounter, hhandles]
    omega
  · rw [hlocked, if_neg Bool.false_ne_true]
    omega
  · rw [hcounter, hfcr]
    intro hpos hclear
    have howed := h.owesSet hpos hclear
    exact ⟨howed.1, by omega⟩
  · rw [hcounter, hfcr]
    intro hzero hset
    have howed := h.owesClear hzero hset
    omega

-- The counter goes up by one.  No other thread can be about to set the bit, for want of the lock.
theorem PortInvariant.countUp {next : Interleaved} {counter : BitVec 32} (h : PortInvariant c s)
    (hm : Moved c (.createStore counter) .createCheck s next)
    (hsame : Unchanged c s.shared (.createStore counter))
    (hshared : next.shared = s.shared.setCounter c (counter + 1)) : PortInvariant c next := by
  have hclosing : next.count c Pc.closing + 0 = s.count c Pc.closing + 0 := hm.closing
  have hopened : next.count c Pc.opened + 0 = s.count c Pc.opened + 1 := hm.opened
  have hholds : next.count c Pc.holds + 1 = s.count c Pc.holds + 1 := hm.holds
  have hsetting : next.count c Pc.setting + 0 = s.count c Pc.setting + 1 := hm.setting
  obtain ⟨hloaded, hfits⟩ := hsame
  have hcounter : (next.shared.openCounter c).toNat = (s.shared.openCounter c).toNat + 1 := by
    rw [hshared, hloaded]
    show (Function.update s.shared.openCounter c (counter + 1) c).toNat = _
    rw [Function.update_self, BitVec.toNat_add]
    exact Nat.mod_eq_of_lt hfits
  have hcount := h.counter
  have hbound := h.holds_le
  obtain ⟨hnextHolds, -⟩ := count_setting_le next c
  have hhandles : next.shared.handles = s.shared.handles := by rw [hshared]; rfl
  have hlocked : next.shared.locked = s.shared.locked := by rw [hshared]; rfl
  have hfcr : next.shared.fcr = s.shared.fcr := by rw [hshared]; rfl
  constructor
  · rw [hcounter, hhandles]
    omega
  · rw [hlocked, ← h.lock]
    omega
  · rw [hcounter, hfcr]
    intro _ hclear
    have hfirst : (s.shared.openCounter c).toNat = 0 := by
      by_contra hpos
      have howed := h.owesSet (Nat.pos_of_ne_zero hpos) hclear
      omega
    exact ⟨by omega, by omega⟩
  · intro hzero
    omega

-- The counter goes down by one.  Whoever brings it to 0 looks at it next.
theorem PortInvariant.countDown {next : Interleaved} {counter : BitVec 32} (h : PortInvariant c s)
    (hm : Moved c (.closeStore counter) .closeCheck s next) (hpos : 0 < s.count c Pc.closing)
    (hsame : Unchanged c s.shared (.closeStore counter))
    (hshared : next.shared = s.shared.setCounter c (counter - 1)) : PortInvariant c next := by
  have hclosing : next.count c Pc.closing + 1 = s.count c Pc.closing + 0 := hm.closing
  have hopened : next.count c Pc.opened + 0 = s.count c Pc.opened + 0 := hm.opened
  have hholds : next.count c Pc.holds + 0 = s.count c Pc.holds + 0 := hm.holds
  have hclearing : next.count c Pc.clearing + 0 = s.count c Pc.clearing + 1 := hm.clearing
  have hcount := h.counter
  have hcounter : (next.shared.openCounter c).toNat = (s.shared.openCounter c).toNat - 1 := by
    have hloaded : s.shared.openCounter c = counter := hsame
    rw [hshared, hloaded]
    show (Function.update s.shared.openCounter c (counter - 1) c).toNat = _
    rw [Function.update_self, BitVec.toNat_sub_of_le (by
      rw [← hloaded]
      show 1 ≤ (s.shared.openCounter c).toNat
      omega)]
    rfl
  have hhandles : next.shared.handles = s.shared.handles := by rw [hshared]; rfl
  have hlocked : next.shared.locked = s.shared.locked := by rw [hshared]; rfl
  have hfcr : next.shared.fcr = s.shared.fcr := by rw [hshared]; rfl
  constructor
  · rw [hcounter, hhandles]
    omega
  · rw [hlocked, ← h.lock]
    omega
  · rw [hcounter, hfcr]
    intro hmore hclear
    have howed := h.owesSet (by omega) hclear
    omega
  · intro _ _
    omega

-- A thread leaves without touching FCR, having found nothing to do.
theorem PortInvariant.leave {next : Interleaved} (h : PortInvariant c s) (hm : Moved c pc pc' s next)
    (hshared : next.shared = s.shared) (hclosing : pc'.closing = pc.closing)
    (hopened : pc'.opened = pc.opened) (hholds : pc'.holds = pc.holds)
    (hset : pc'.setting = pc.setting ∨ (s.shared.openCounter c).toNat ≠ 1)
    (hclear : pc'.clearing = pc.clearing ∨ (s.shared.openCounter c).toNat ≠ 0) :
    PortInvariant c next := by
  obtain ⟨hmClosing, hmOpened, hmHolds, hmSetting, hmClearing⟩ := hm
  rw [hclosing] at hmClosing
  rw [hopened] at hmOpened
  rw [hholds] at hmHolds
  have hcount := h.counter
  constructor
  · rw [hshared]
    omega
  · rw [hshared, ← h.lock]
    omega
  · rw [hshared]
    intro hpos hbit
    have howed := h.owesSet hpos hbit
    rcases hset with hset | hset
    · rw [hset] at hmSetting
      exact ⟨howed.1, by omega⟩
    · exact absurd howed.1 hset
  · rw [hshared]
    intro hzero hbit
    have howed := h.owesClear hzero hbit
    rcases hclear with hclear | hclear
    · rw [hclear] at hmClearing
      omega
    · exact absurd hzero hclear

theorem PortInvariant.setBit {next : Interleaved} {origFcr : BitVec 32} (h : PortInvariant c s)
    (hm : Moved c (.createWrite origFcr) (.createRelease true) s next)
    (hpos : 0 < s.count c Pc.opened)
    (hshared : next.shared = { s.shared with fcr := origFcr ||| openBit c }) :
    PortInvariant c next := by
  have hclosing : next.count c Pc.closing + 0 = s.count c Pc.closing + 0 := hm.closing
  have hopened : next.count c Pc.opened + 1 = s.count c Pc.opened + 1 := hm.opened
  have hholds : next.count c Pc.holds + 1 = s.count c Pc.holds + 1 := hm.holds
  have hcount := h.counter
  have hbit : (origFcr ||| openBit c) &&& openBit c ≠ 0 := (or_openBit_set origFcr c c).mpr (Or.inr rfl)
  constructor
  · rw [hshared]
    show (s.shared.openCounter c).toNat = s.shared.handles c + _ + _
    omega
  · rw [hshared]
    show _ = if s.shared.locked c then 1 else 0
    rw [← h.lock]
    omega
  · rw [hshared]
    exact fun _ hclear ↦ absurd hbit hclear
  · rw [hshared]
    intro hzero
    change (s.shared.openCounter c).toNat = 0 at hzero
    omega

theorem PortInvariant.clearBit {next : Interleaved} {origFcr : BitVec 32} (h : PortInvariant c s)
    (hm : Moved c (.closeWrite origFcr) .closeRelease s next)
    (hsame : Unchanged c s.shared (.closeWrite origFcr))
    (hshared : next.shared = { s.shared with fcr := origFcr &&& ~~~openBit c }) :
    PortInvariant c next := by
  have hclosing : next.count c Pc.closing + 0 = s.count c Pc.closing + 0 := hm.closing
  have hopened : next.count c Pc.opened + 0 = s.count c Pc.opened + 0 := hm.opened
  have hholds : next.count c Pc.holds + 1 = s.count c Pc.holds + 1 := hm.holds
  have hcount := h.counter
  have hzero : (s.shared.openCounter c).toNat = 0 := by rw [hsame.2]; rfl
  have hbit : ¬ origFcr &&& ~~~openBit c &&& openBit c ≠ 0 := by
    rw [and_not_openBit_set]
    exact fun hset ↦ hset.2 rfl
  constructor
  · rw [hshared]
    show (s.shared.openCounter c).toNat = s.shared.handles c + _ + _
    omega
  · rw [hshared]
    show _ = if s.shared.locked c then 1 else 0
    rw [← h.lock]
    omega
  · rw [hshared]
    intro hpos
    change 0 < (s.shared.openCounter c).toNat at hpos
    omega
  · rw [hshared]
    exact fun _ hset ↦ absurd hset hbit

theorem PortInvariant.write {next : Interleaved} {origFcr word : BitVec 32}
    {words : List (BitVec 32)} (h : PortInvariant c s)
    (hm : Moved c (.clockWrite origFcr (word :: words)) (.clockWrite origFcr words) s next)
    (hsame : Unchanged c s.shared (.clockWrite origFcr (word :: words)))
    (hwords : WordsKeep (c, .clockWrite origFcr (word :: words)))
    (hshared : next.shared = { s.shared with fcr := word }) : PortInvariant c next := by
  refine h.congr ?_ (by rw [hshared]) (by rw [hshared]) (by rw [hshared]) ?_
  · simp only [List.forall_mem_cons]
    exact ⟨Nat.add_right_cancel hm.closing, Nat.add_right_cancel hm.opened,
      Nat.add_right_cancel hm.holds, Nat.add_right_cancel hm.setting,
      Nat.add_right_cancel hm.clearing, fun _ hphase ↦ absurd hphase List.not_mem_nil⟩
  · rw [hshared]
    show word &&& openBit c ≠ 0 ↔ _
    rw [ownerMask_openBit _ _ (hwords word List.mem_cons_self) c, ownerMask_openBit _ _ hsame c]

-- One try for the spin lock: it stays where it is, or gets the lock.
theorem PortInvariant.tryLock (h : PortInvariant c s) (hi : s.threads[i]? = some (c, pc))
    (hstep : threadStep c s.shared pc =
      if s.shared.locked c then (pc, s.shared) else (pc', s.shared.setLocked c true))
    (hholds : pc.holds = false ∧ pc'.holds = true) (hclosing : pc'.closing = pc.closing)
    (hopened : pc'.opened = pc.opened) (hsetting : pc'.setting = pc.setting)
    (hclearing : pc'.clearing = pc.clearing) :
    PortInvariant c ⟨(threadStep c s.shared pc).2,
      s.threads.set i (c, (threadStep c s.shared pc).1)⟩ := by
  rw [hstep]
  by_cases hlocked : s.shared.locked c = true
  · rw [if_pos hlocked]
    exact h.leave (moved_set hi pc s.shared) rfl rfl rfl rfl (.inl rfl) (.inl rfl)
  · rw [if_neg hlocked]
    exact h.acquire (moved_set hi pc' (s.shared.setLocked c true))
      (Bool.eq_false_of_not_eq_true hlocked) rfl hholds hclosing hopened hsetting hclearing

theorem PortInvariant.step_same (h : PortInvariant c s) (hi : s.threads[i]? = some (c, pc))
    (hsame : Unchanged c s.shared pc) (hwords : WordsKeep (c, pc)) :
    PortInvariant c ⟨(threadStep c s.shared pc).2,
      s.threads.set i (c, (threadStep c s.shared pc).1)⟩ := by
  have hm := moved_set hi (threadStep c s.shared pc).1 (threadStep c s.shared pc).2
  have hone : ∀ {x : BitVec 32}, x ≠ 1 → x.toNat ≠ 1 := fun hne heq ↦ hne (BitVec.eq_of_toNat_eq heq)
  have hzero : ∀ {x : BitVec 32}, x ≠ 0 → x.toNat ≠ 0 := fun hne heq ↦ hne (BitVec.eq_of_toNat_eq heq)
  cases pc with
  | createLock => exact h.tryLock hi rfl ⟨rfl, rfl⟩ rfl rfl rfl rfl
  | createTest =>
    rw [threadStep] at hm ⊢
    split at hm
    next hasync =>
      rw [if_pos hasync]
      exact h.leave hm rfl rfl rfl rfl (.inl rfl) (.inl rfl)
    next hsync =>
      rw [if_neg hsync]
      exact h.leave hm rfl rfl rfl rfl (.inl rfl) (.inl rfl)
  | createLoad => exact h.leave hm rfl rfl rfl rfl (.inl rfl) (.inl rfl)
  | createStore counter => exact h.countUp hm hsame rfl
  | createCheck =>
    rw [threadStep] at hm ⊢
    dsimp only at hm ⊢
    by_cases hfirst : s.shared.openCounter c = 1
    · rw [if_pos hfirst] at hm ⊢
      exact h.leave hm rfl rfl rfl rfl (.inl rfl) (.inl rfl)
    · rw [if_neg hfirst] at hm ⊢
      exact h.leave hm rfl rfl rfl rfl (.inr (hone hfirst)) (.inl rfl)
  | createRead => exact h.leave hm rfl rfl rfl rfl (.inl rfl) (.inl rfl)
  | createWrite origFcr => exact h.setBit hm (count_pos hi rfl) rfl
  | createRelease opened =>
    cases opened with
    | false =>
      exact h.release false hm rfl rfl (Function.update_self _ _ _) rfl ⟨rfl, rfl⟩ rfl ⟨rfl, rfl⟩ rfl rfl
    | true =>
      exact h.release true hm rfl rfl (Function.update_self _ _ _) (Function.update_self _ _ _)
        ⟨rfl, rfl⟩ rfl ⟨rfl, rfl⟩ rfl rfl
  | closeLoad => exact h.leave hm rfl rfl rfl rfl (.inl rfl) (.inl rfl)
  | closeStore counter => exact h.countDown hm (count_pos hi rfl) hsame rfl
  | closeCheck =>
    rw [threadStep] at hm ⊢
    dsimp only at hm ⊢
    by_cases hlast : s.shared.openCounter c = 0
    · rw [if_pos hlast] at hm ⊢
      exact h.leave hm rfl rfl rfl rfl (.inl rfl) (.inl rfl)
    · rw [if_neg hlast] at hm ⊢
      exact h.leave hm rfl rfl rfl rfl (.inl rfl) (.inr (hzero hlast))
  | closeLock => exact h.tryLock hi rfl ⟨rfl, rfl⟩ rfl rfl rfl rfl
  | closeRead => exact h.leave hm rfl rfl rfl rfl (.inl rfl) (.inl rfl)
  | closeWrite origFcr => exact h.clearBit hm hsame rfl
  | closeRelease =>
    exact h.release false hm rfl rfl (Function.update_self _ _ _) rfl ⟨rfl, rfl⟩ rfl ⟨rfl, rfl⟩ rfl rfl
  | clockLock clockBits => exact h.tryLock hi rfl ⟨rfl, rfl⟩ rfl rfl rfl rfl
  | clockRead clockBits => exact h.leave hm rfl rfl rfl rfl (.inl rfl) (.inl rfl)
  | clockWrite origFcr words =>
    cases words with
    | nil => exact h.leave hm rfl rfl rfl rfl (.inl rfl) (.inl rfl)
    | cons word words => exact h.write hm hsame hwords rfl
  | clockRelease =>
    exact h.release false hm rfl rfl (Function.update_self _ _ _) rfl ⟨rfl, rfl⟩ rfl ⟨rfl, rfl⟩ rfl rfl
  | done => exact h.leave hm rfl rfl rfl rfl (.inl rfl) (.inl rfl)

/-! ## Runs -/

structure InterleavedInvariant (s : Interleaved) : Prop where
  ports : ∀ c, PortInvariant c s
  words : ∀ t ∈ s.threads, WordsKeep t

-- A thread that starts is in no phase yet, but for a close, whose handle it takes along.
theorem count_start (s : Interleaved) (c d : Fin 2) (pc : Pc) (shared : Shared) (phase : Pc → Bool) :
    Interleaved.count ⟨shared, s.threads ++ [(c, pc)]⟩ d phase =
      s.count d phase + if decide (c = d) && phase pc then 1 else 0 :=
  Threads.countP_append_one _ _ _

theorem PortInvariant.start (h : PortInvariant d s) (c : Fin 2) (hclosing : pc.closing = false)
    (hopened : pc.opened = false) (hholds : pc.holds = false) (hsetting : pc.setting = false)
    (hclearing : pc.clearing = false) :
    PortInvariant d { s with threads := s.threads ++ [(c, pc)] } := by
  refine h.congr ?_ rfl rfl rfl Iff.rfl
  have hnone : ∀ phase : Pc → Bool, phase pc = false →
      Interleaved.count { s with threads := s.threads ++ [(c, pc)] } d phase = s.count d phase := by
    intro phase hphase
    rw [count_start, hphase, Bool.and_false, if_neg Bool.false_ne_true, Nat.add_zero]
  simp only [List.forall_mem_cons]
  exact ⟨hnone _ hclosing, hnone _ hopened, hnone _ hholds, hnone _ hsetting, hnone _ hclearing,
    fun _ hphase ↦ absurd hphase List.not_mem_nil⟩

theorem PortInvariant.startClose (h : PortInvariant d s) (c : Fin 2)
    (hopen : 0 < s.shared.handles c) :
    PortInvariant d (interleavedStep s (.close c)) := by
  rw [interleavedStep, if_pos hopen]
  have hcount := fun phase ↦ count_start s c d .closeLoad { s.shared with
    handles := Function.update s.shared.handles c (s.shared.handles c - 1) } phase
  have hnone : ∀ phase : Pc → Bool, phase .closeLoad = false → Interleaved.count ⟨{ s.shared with
      handles := Function.update s.shared.handles c (s.shared.handles c - 1) },
      s.threads ++ [(c, .closeLoad)]⟩ d phase = s.count d phase := by
    intro phase hphase
    rw [hcount, hphase, Bool.and_false, if_neg Bool.false_ne_true, Nat.add_zero]
  constructor
  · have hcounter := h.counter
    rw [hcount, hnone Pc.opened rfl]
    show (s.shared.openCounter d).toNat =
      Function.update s.shared.handles c (s.shared.handles c - 1) d + _ + _
    by_cases hd : c = d
    · subst hd
      rw [Function.update_self, decide_eq_true rfl]
      show _ = _ + (_ + 1) + _
      omega
    · rw [Function.update_of_ne (Ne.symm hd), decide_eq_false hd]
      exact hcounter
  · rw [hnone Pc.holds rfl]
    exact h.lock
  · rw [hnone Pc.setting rfl]
    exact h.owesSet
  · rw [hnone Pc.clearing rfl]
    exact h.owesClear

theorem threadStep_words (hwords : WordsKeep (c, pc)) (shared : Shared) :
    WordsKeep (c, (threadStep c shared pc).1) := by
  cases pc with
  | clockRead clockBits =>
    intro word hword
    exact clockMask_ownerMask (clockWords_mask c shared.fcr clockBits word hword)
  | clockWrite origFcr words =>
    cases words with
    | nil => trivial
    | cons word words => exact fun later hlater ↦ hwords later (List.mem_cons_of_mem word hlater)
  | createLock | createTest | closeLock | clockLock =>
    rw [threadStep]
    split <;> trivial
  | createCheck | closeCheck =>
    rw [threadStep]
    dsimp only
    split <;> trivial
  | _ => trivial

theorem InterleavedInvariant.step (h : InterleavedInvariant s) (action : InterleavedAction)
    (hallowed : InterleavedAllowed s action) : InterleavedInvariant (interleavedStep s action) := by
  cases action with
  | create c =>
    exact ⟨fun d ↦ (h.ports d).start c rfl rfl rfl rfl rfl, Threads.forall_append_one h.words trivial⟩
  | close c =>
    by_cases hopen : 0 < s.shared.handles c
    · refine ⟨fun d ↦ (h.ports d).startClose c hopen, ?_⟩
      rw [interleavedStep, if_pos hopen]
      exact Threads.forall_append_one h.words trivial
    · rw [interleavedStep, if_neg hopen]
      exact h
  | setClockBits c clockBits =>
    exact ⟨fun d ↦ (h.ports d).start c rfl rfl rfl rfl rfl, Threads.forall_append_one h.words trivial⟩
  | step i =>
    rw [interleavedStep]
    split
    next c pc hi =>
      have hsame : Unchanged c s.shared pc := by
        rwa [InterleavedAllowed, hi] at hallowed
      have hwords : WordsKeep (c, pc) := h.words _ (List.mem_of_getElem? hi)
      refine ⟨fun d ↦ ?_, Threads.forall_set h.words (threadStep_words hwords s.shared)⟩
      by_cases hd : d = c
      · subst hd
        exact (h.ports d).step_same hi hsame hwords
      · exact (h.ports d).step_other hi hd hsame hwords
    next => exact h

/-- Nothing is going on: no thread runs, no lock is taken, and FCR tells what the counters count. -/
structure Settled (s : Interleaved) : Prop where
  threads : ∀ t ∈ s.threads, t.2 = .done
  locked : ∀ c, s.shared.locked c = false
  counter : ∀ c, (s.shared.openCounter c).toNat = s.shared.handles c
  told : ∀ c : Fin 2, s.shared.fcr &&& openBit c ≠ 0 ↔ 0 < (s.shared.openCounter c).toNat

theorem count_done (hdone : ∀ t ∈ s.threads, t.2 = .done) (c : Fin 2) (phase : Pc → Bool)
    (hphase : phase .done = false) : s.count c phase = 0 := by
  rw [Interleaved.count, List.countP_eq_zero]
  intro t ht
  rw [hdone t ht, hphase, Bool.and_false]
  exact Bool.false_ne_true

theorem Settled.invariant (h : Settled s) : InterleavedInvariant s := by
  refine ⟨fun c ↦ ⟨?_, ?_, ?_, ?_⟩, fun t ht ↦ ?_⟩
  · rw [count_done h.threads c _ rfl, count_done h.threads c _ rfl]
    exact h.counter c
  · rw [count_done h.threads c _ rfl, h.locked c]
    rfl
  · exact fun hpos hclear ↦ absurd ((h.told c).mpr hpos) hclear
  · intro hzero hset
    have hpos := (h.told c).mp hset
    omega
  · obtain ⟨c, pc⟩ := t
    have hdone : pc = .done := h.threads _ ht
    rw [hdone]
    trivial

end

/-- When every thread has finished, FCR tells which ports are open, provided that each write was made
while what its thread had read still stood. -/
theorem fscc_fcr_survives_interleaving (start : Interleaved) (hstart : Settled start)
    (actions : List InterleavedAction)
    (hallowed : Runs.Along InterleavedAllowed interleavedStep start actions) :
    let s := actions.foldl interleavedStep start
    (∀ t ∈ s.threads, t.2 = .done) →
      ∀ c : Fin 2, s.shared.fcr &&& openBit c ≠ 0 ↔ 0 < (s.shared.openCounter c).toNat := by
  intro s hdone c
  have h : InterleavedInvariant s :=
    hallowed.invariant (fun s action hallowed h ↦ h.step action hallowed) hstart.invariant
  constructor
  · intro hset
    by_contra hzero
    have howed := (h.ports c).owesClear (Nat.eq_zero_of_not_pos hzero) hset
    rw [count_done hdone c _ rfl] at howed
    exact Nat.lt_irrefl 0 howed
  · intro hpos
    by_contra hclear
    have howed := ((h.ports c).owesSet hpos (not_not.mpr hclear)).2
    rw [count_done hdone c _ rfl] at howed
    exact Nat.lt_irrefl 0 howed

/-- A card nobody has open and nobody works on. -/
def idleCard : Interleaved := ⟨⟨0, fun _ ↦ 0, fun _ ↦ false, fun _ ↦ 0⟩, []⟩

theorem idleCard_settled : Settled idleCard :=
  ⟨fun _ ht ↦ absurd ht List.not_mem_nil, fun _ ↦ rfl, fun _ ↦ rfl, by decide⟩

/-- Both ports are opened at once and one of them is closed while the other thread is still in its call;
each thread writes FCR right behind its read. -/
def openOpenClose : List InterleavedAction :=
  [.create 0, .create 1, .step 0, .step 0, .step 0, .step 0, .step 0, .step 1, .step 1, .step 1, .step 1,
    .step 1, .step 0, .step 0, .step 1, .step 1, .step 0, .close 0, .step 2, .step 2, .step 2, .step 2,
    .step 1, .step 2, .step 2, .step 2]

theorem fscc_fcr_survives_interleaving_overlapping :
    let s := openOpenClose.foldl interleavedStep idleCard
    ∀ c : Fin 2, s.shared.fcr &&& openBit c ≠ 0 ↔ 0 < (s.shared.openCounter c).toNat :=
  fscc_fcr_survives_interleaving idleCard idleCard_settled openOpenClose (by decide) (by decide)

/-- Both ports are opened at once, and both threads read FCR before either of them writes it. -/
def bothOpen : List InterleavedAction :=
  [.create 0, .create 1, .step 0, .step 0, .step 0, .step 0, .step 0, .step 0,
    .step 1, .step 1, .step 1, .step 1, .step 1, .step 1, .step 0, .step 1, .step 0, .step 1]

-- The bit that the first one sets is lost.
theorem fscc_fcr_update_lost :
    let s := bothOpen.foldl interleavedStep idleCard
    (∀ t ∈ s.threads, t.2 = .done) ∧
      ¬ (s.shared.fcr &&& openBit 0 ≠ 0 ↔ 0 < (s.shared.openCounter 0).toNat) := by
  decide

end FsccDriver

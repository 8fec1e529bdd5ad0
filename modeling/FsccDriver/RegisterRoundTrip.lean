import FsccDriver.RegisterCopy

/-!
# RegisterRoundTrip — `fscc_port_get_registers` behind `fscc_port_set_registers`

Of the hardware this needs only that some registers, whichever they are, hold what is written to
them.
-/

namespace FsccDriver

open Mirror (Device)

variable {H : Type}

/-! ## Fields and registers -/

/-- The register behind a field. -/
def fieldRegister (channel k : Nat) : Option (Nat × Nat) :=
  if k * 4 ≤ maxOffset then some (0, k * 4)
  else if k = 23 then some (2, fcrOffset)
  else if k = 24 then some (2, portOffset channel 2 dmaccrOffset)
  else if k = 29 then some (2, dstarOffset)
  else none

/-- What `fscc_port_set_registers` writes last to the register behind a field, if anything. -/
def writtenValue (regs : FsccRegisters) (port : RegPort) (k : Nat) : Option (BitVec 32) :=
  if k * 4 ≤ maxOffset then if isReadOnlyRegister (k * 4) then none else fieldValue (regs.get k)
  else if k = 23 then
    if regs.fcr.toInt > 0 then some ((regs.fcr &&& 0x3fffffff).setWidth 32) else none
  else if k = 24 then
    if regs.dmaccr.toInt > 0 then
      some (forcedValue port 2 dmaccrOffset (regs.dmaccr.setWidth 32 &&& 0xfffeffff))
    else if port.channel = 0 ∧ regs.dmaccr &&& 0x10000 ≠ 0 then some 0x10000
    else none
  else none

section RoundTrip

variable {hw : Hardware H} {held : Nat × Nat → Prop} {content : Nat × Nat → H → BitVec 32}
  {register : Nat × Nat}

/-! ## Reading -/

theorem fsccPortGetRegister_content (hheld : hw.device.Holds held content) (hk : held register)
    (channel bar offset : Nat) (h : H) :
    content register (fsccPortGetRegister hw channel bar offset h).2 = content register h :=
  hheld.read_keeps register (bar, portOffset channel bar offset) h hk

theorem getRegistersLoop_content (hheld : hw.device.Holds held content) (hk : held register)
    (channel n i : Nat) (regs : FsccRegisters) (h : H) :
    content register (getRegistersLoop hw channel n i regs h).2 = content register h := by
  induction n generalizing i regs h with
  | zero => rfl
  | succ n ih =>
    rw [getRegistersLoop]
    split
    · exact ih (i + 1) regs h
    split
    · rfl
    · exact (ih (i + 1) _ _).trans (fsccPortGetRegister_content hheld hk channel 0 (i * 4) h)

-- The loop leaves the fields behind the one it is at alone.
theorem getRegistersLoop_before {channel n i k : Nat} (hk : k < i) (regs : FsccRegisters) (h : H) :
    (getRegistersLoop hw channel n i regs h).1.get k = regs.get k := by
  induction n generalizing i regs h with
  | zero => rfl
  | succ n ih =>
    rw [getRegistersLoop]
    split
    · exact ih (by omega) regs h
    split
    · rfl
    · refine (ih (by omega) _ _).trans ?_
      rw [FsccRegisters.get_set, if_neg (by omega)]

-- It leaves those that are not asked for or have no register in BAR 0.
theorem getRegistersLoop_unasked {channel n i k : Nat} {regs : FsccRegisters}
    (hk : regs.get k ≠ fsccUpdateValue ∨ k * 4 > maxOffset) (h : H) :
    (getRegistersLoop hw channel n i regs h).1.get k = regs.get k := by
  induction n generalizing i regs h with
  | zero => rfl
  | succ n ih =>
    rw [getRegistersLoop]
    split
    · exact ih hk h
    split
    · rfl
    next hasked hmax =>
      have hother : ∀ value, (regs.set i value).get k = regs.get k := fun value ↦ by
        rw [FsccRegisters.get_set, if_neg]
        rintro ⟨rfl, -⟩
        exact hk.elim (fun h ↦ hasked h) fun h ↦ hmax h
      refine (ih ?_ _).trans (hother _)
      rw [hother]
      exact hk

-- Induction over the rounds: field `k` is settled in round `k`.
theorem getRegistersLoop_get (hheld : hw.device.Holds held content) {channel n i k : Nat}
    (hmax : k * 4 ≤ maxOffset) (hk : held (0, k * 4)) (hi : i ≤ k) (hn : k < i + n)
    (regs : FsccRegisters) (h : H) :
    (getRegistersLoop hw channel n i regs h).1.get k =
      if regs.get k = fsccUpdateValue then (content (0, k * 4) h).setWidth 64 else regs.get k := by
  have hlt : k < 30 := by
    have : maxOffset = 88 := rfl
    omega
  induction n generalizing i regs h with
  | zero => omega
  | succ n ih =>
    rw [getRegistersLoop, if_neg (Nat.not_lt.mpr (Nat.le_trans (Nat.mul_le_mul_right 4 hi) hmax))]
    by_cases hhere : i = k
    · subst hhere
      by_cases hasked : regs.get i = fsccUpdateValue
      · have hvalue : (fsccPortGetRegister hw channel 0 (i * 4) h).1 = content (0, i * 4) h :=
          hheld.read_value (0, i * 4) h hk
        rw [if_neg (not_not.mpr hasked), if_pos hasked, ← hvalue]
        refine (getRegistersLoop_before (Nat.lt_succ_self i) _ _).trans ?_
        rw [FsccRegisters.get_set, if_pos ⟨rfl, hlt⟩]
        rfl
      · rw [if_pos hasked, if_neg hasked]
        exact getRegistersLoop_before (Nat.lt_succ_self i) regs h
    · by_cases hasked : regs.get i = fsccUpdateValue
      · have hother : ∀ value, (regs.set i value).get k = regs.get k := fun value ↦ by
          rw [FsccRegisters.get_set, if_neg fun h ↦ hhere h.1]
        have hkeeps := fsccPortGetRegister_content hheld hk channel 0 (i * 4) h
        rw [if_neg (not_not.mpr hasked)]
        generalize fsccPortGetRegister hw channel 0 (i * 4) h = reading at hkeeps ⊢
        obtain ⟨value, h'⟩ := reading
        dsimp only at hkeeps ⊢
        rw [ih (by omega) (by omega), hother, hkeeps]
      · rw [if_pos hasked]
        exact ih (by omega) (by omega) regs h

theorem getBar2Register_content (hheld : hw.device.Holds held content) (hk : held register)
    (channel i offset : Nat) (regs : FsccRegisters) (h : H) :
    content register (getBar2Register hw channel i offset regs h).2 = content register h := by
  rw [getBar2Register]
  split
  · exact fsccPortGetRegister_content hheld hk channel 2 offset h
  · rfl

theorem getBar2Register_other {channel i offset k : Nat} (hk : i ≠ k) (regs : FsccRegisters)
    (h : H) : (getBar2Register hw channel i offset regs h).1.get k = regs.get k := by
  rw [getBar2Register]
  split
  · show (regs.set i _).get k = regs.get k
    rw [FsccRegisters.get_set, if_neg fun h ↦ hk h.1]
  · rfl

theorem getBar2Register_get (hheld : hw.device.Holds held content) {channel k : Nat} (offset : Nat)
    (hk : held (2, portOffset channel 2 offset)) (hlt : k < 30) (regs : FsccRegisters) (h : H) :
    (getBar2Register hw channel k offset regs h).1.get k =
      if regs.get k = fsccUpdateValue then
        (content (2, portOffset channel 2 offset) h).setWidth 64
      else regs.get k := by
  have hvalue : (fsccPortGetRegister hw channel 2 offset h).1 =
      content (2, portOffset channel 2 offset) h :=
    hheld.read_value (2, portOffset channel 2 offset) h hk
  rw [getBar2Register]
  split
  · show (regs.set k _).get k = _
    rw [FsccRegisters.get_set, if_pos ⟨rfl, hlt⟩, hvalue]
  · rfl

/-! ## Writing -/

theorem fsccPortSetRegister_keeps (hw : Hardware H) (port : RegPort) (bar offset : Nat)
    (value : BitVec 32) (h : H) :
    RegKeeps port (fsccPortSetRegister hw port bar offset value h).2.1 := by
  rw [fsccPortSetRegister]
  split
  split
  · exact RegKeeps.refl port
  · exact storedPort_keeps port bar offset _

theorem timedOutLoop_content (hheld : hw.device.Holds held content) (hk : held register)
    (port : RegPort) (n : Nat) (h : H) :
    content register (timedOutLoop hw port n h).2 = content register h := by
  induction n generalizing h with
  | zero => rfl
  | succ n ih =>
    have hread := fsccPortGetRegister_content hheld hk port.channel 0 starOffset h
    simp only [timedOutLoop]
    split
    · exact hread
    · exact (ih _).trans hread

/-- A write that is not stalled changes its register and no other that holds. -/
theorem fsccPortSetRegister_content (hheld : hw.device.Holds held content) (hk : held register)
    (port : RegPort) (bar offset : Nat) (value : BitVec 32) (h : H)
    (hcommand : offset = cmdrOffset → register ≠ (bar, portOffset port.channel bar offset)) :
    content register (fsccPortSetRegister hw port bar offset value h).2.2 =
      if register = (bar, portOffset port.channel bar offset) then forcedValue port bar offset value
      else content register h := by
  have hwrite : ∀ h' value, content register h' = content register h →
      content register (fsccCardSetRegister hw bar (portOffset port.channel bar offset) value h') =
        if register = (bar, portOffset port.channel bar offset) then value
        else content register h := by
    intro h' value hsame
    split
    next heq =>
      subst heq
      exact hheld.write_self (bar, portOffset port.channel bar offset) value h' hk
    next hne =>
      exact (hheld.write_other register (bar, portOffset port.channel bar offset) value h' hk
        (Ne.symm hne)).trans hsame
  have htimedOut := timedOutLoop_content hheld hk port 20 h
  rw [fsccPortSetRegister]
  split
  next stalled h' hclock =>
    by_cases hchecked : offset = cmdrOffset ∧ port.ignoreTimeout = false
    · rw [if_pos hchecked, fsccPortTimedOut] at hclock
      rw [hclock] at htimedOut
      split
      · rw [if_neg (hcommand hchecked.1)]
        exact htimedOut
      · exact hwrite h' _ htimedOut
    · rw [if_neg hchecked] at hclock
      cases hclock
      exact hwrite h _ rfl

-- The loop leaves the registers of the fields behind it and those of BAR 2 alone.
theorem setRegistersLoop_other (hheld : hw.device.Holds held content) (hk : held register)
    (fields : List (BitVec 64)) (i : Nat) (hother : register.1 = 0 → register.2 < i * 4)
    (stalled : Bool) (port : RegPort) (h : H) :
    content register (setRegistersLoop hw fields i stalled port h).2.2 = content register h := by
  induction fields generalizing i stalled port h with
  | nil => rfl
  | cons field fields ih =>
    have hlater : register.1 = 0 → register.2 < (i + 1) * 4 := fun hbar ↦ by
      have := hother hbar
      omega
    have hne : register ≠ (0, portOffset port.channel 0 (i * 4)) := fun heq ↦ by
      rw [heq, portOffset_bar0] at hother
      exact Nat.lt_irrefl _ (hother rfl)
    rw [setRegistersLoop]
    split
    · exact ih (i + 1) hlater stalled port h
    split
    · rfl
    · refine (ih (i + 1) hlater _ _ _).trans ?_
      exact (fsccPortSetRegister_content hheld hk port 0 (i * 4) _ h fun _ ↦ hne).trans (if_neg hne)

-- Induction over the fields: register `k` is written in the round of field `k`.
theorem setRegistersLoop_content (hheld : hw.device.Holds held content) {k : Nat}
    (hk : held (0, k * 4)) (hcmdr : k * 4 ≠ cmdrOffset) (hmax : k * 4 ≤ maxOffset)
    (fields : List (BitVec 64)) (i : Nat) (hi : i ≤ k) (stalled : Bool) (port : RegPort) (h : H) :
    content (0, k * 4) (setRegistersLoop hw fields i stalled port h).2.2 =
      (if isReadOnlyRegister (k * 4) then none
        else fieldValue (fields.getD (k - i) (-1))).getD (content (0, k * 4) h) := by
  induction fields generalizing i stalled port h with
  | nil =>
    rw [List.getD_nil]
    split <;> rfl
  | cons field fields ih =>
    have hset := fsccPortSetRegister_content hheld hk port 0 (i * 4) (field.setWidth 32) h
      fun hcommand heq ↦ hcmdr ((Prod.mk.inj heq).2.trans hcommand)
    rw [setRegistersLoop, if_neg (Nat.not_lt.mpr (Nat.le_trans (Nat.mul_le_mul_right 4 hi) hmax))]
    by_cases hhere : i = k
    · subst hhere
      have hlater : (0, i * 4).1 = 0 → (0, i * 4).2 < (i + 1) * 4 := fun _ ↦ by
        dsimp only
        omega
      rw [Nat.sub_self, List.getD_cons_zero]
      by_cases hskip : isReadOnlyRegister (i * 4) = true ∨ field.toInt < 0
      · rw [if_pos hskip]
        refine (setRegistersLoop_other hheld hk fields (i + 1) hlater stalled port h).trans ?_
        rcases hskip with hreadOnly | hneg
        · rw [if_pos hreadOnly]
          rfl
        · rw [fieldValue, if_neg (Int.not_le.mpr hneg), ite_self]
          rfl
      · rw [not_or, Int.not_lt] at hskip
        rw [if_neg (by rw [not_or, Int.not_lt]; exact hskip), if_neg hskip.1, fieldValue,
          if_pos hskip.2, Option.getD_some]
        rw [portOffset_bar0, if_pos rfl, forcedValue_bar0] at hset
        generalize fsccPortSetRegister hw port 0 (i * 4) (field.setWidth 32) h = result at hset
        obtain ⟨status, port', h'⟩ := result
        exact (setRegistersLoop_other hheld hk fields (i + 1) hlater _ port' h').trans hset
    · -- The round of another field.
      have hne : (0, k * 4) ≠ (0, portOffset port.channel 0 (i * 4)) := fun heq ↦ by
        have := (Prod.mk.inj heq).2
        rw [portOffset_bar0] at this
        omega
      obtain ⟨d, hd⟩ : ∃ d, k - i = d + 1 := ⟨k - (i + 1), by omega⟩
      have hd' : k - (i + 1) = d := by omega
      rw [hd, List.getD_cons_succ, ← hd']
      split
      · exact ih (i + 1) (by omega) stalled port h
      · rw [if_neg hne] at hset
        generalize fsccPortSetRegister hw port 0 (i * 4) (field.setWidth 32) h = result at hset
        obtain ⟨status, port', h'⟩ := result
        rw [← hset]
        exact ih (i + 1) (by omega) _ port' h'

theorem setRegistersLoop_keeps (hw : Hardware H) (fields : List (BitVec 64)) (i : Nat)
    (stalled : Bool) (port : RegPort) (h : H) :
    RegKeeps port (setRegistersLoop hw fields i stalled port h).2.1 := by
  induction fields generalizing i stalled port h with
  | nil => exact RegKeeps.refl port
  | cons field fields ih =>
    rw [setRegistersLoop]
    split
    · exact ih (i + 1) stalled port h
    split
    · exact RegKeeps.refl port
    · exact (fsccPortSetRegister_keeps hw port 0 (i * 4) _ h).trans (ih (i + 1) _ _ _)

-- A register of BAR 2 is written under a condition on its field.
theorem setBar2Register_content (hheld : hw.device.Holds held content) (hk : held register)
    (condition : Prop) [Decidable condition] (port : RegPort) {offset : Nat}
    (hoffset : offset ≠ cmdrOffset) (value : BitVec 32) (h : H) :
    content register
        (if condition then (fsccPortSetRegister hw port 2 offset value h).2 else (port, h)).2 =
      if register = (2, portOffset port.channel 2 offset) ∧ condition then
        forcedValue port 2 offset value
      else content register h := by
  by_cases hcondition : condition
  · rw [if_pos hcondition, fsccPortSetRegister_content hheld hk port 2 offset value h
      fun hcommand ↦ absurd hcommand hoffset]
    simp only [hcondition, and_true]
  · rw [if_neg hcondition, if_neg fun h ↦ hcondition h.2]

theorem setBar2Register_keeps (hw : Hardware H) (condition : Prop) [Decidable condition] (port : RegPort)
    (offset : Nat) (value : BitVec 32) (h : H) : RegKeeps port
      (if condition then (fsccPortSetRegister hw port 2 offset value h).2 else (port, h)).1 := by
  split
  · exact fsccPortSetRegister_keeps hw port 2 offset value h
  · exact RegKeeps.refl port

/-- Of the writes to BAR 2 the last one to a register counts. -/
theorem setBar2Registers_content (hheld : hw.device.Holds held content) (hk : held register)
    (regs : FsccRegisters) (port : RegPort) (h : H) :
    content register (setBar2Registers hw regs port h).2 =
      if register = (2, portOffset port.channel 2 dmaccrOffset) ∧ regs.dmaccr.toInt > 0 then
        forcedValue port 2 dmaccrOffset (regs.dmaccr.setWidth 32 &&& 0xfffeffff)
      else if register = (2, dmaccrOffset) ∧ regs.dmaccr &&& 0x10000 ≠ 0 then 0x10000
      else if register = (2, fcrOffset) ∧ regs.fcr.toInt > 0 then
        (regs.fcr &&& 0x3fffffff).setWidth 32
      else content register h := by
  have hfcr := setBar2Register_content hheld hk (regs.fcr.toInt > 0) port
    (fun h ↦ absurd h (by decide) : fcrOffset ≠ cmdrOffset) ((regs.fcr &&& 0x3fffffff).setWidth 32) h
  have hkeeps := setBar2Register_keeps hw (regs.fcr.toInt > 0) port fcrOffset
    ((regs.fcr &&& 0x3fffffff).setWidth 32) h
  rw [setBar2Registers]
  generalize (if regs.fcr.toInt > 0 then (fsccPortSetRegister hw port 2 fcrOffset
    ((regs.fcr &&& 0x3fffffff).setWidth 32) h).2 else (port, h)) = first at hfcr hkeeps ⊢
  obtain ⟨port₁, h₁⟩ := first
  have hreset : content register (if regs.dmaccr &&& 0x10000 ≠ 0 then
      fsccCardSetRegister hw 2 dmaccrOffset 0x10000 h₁ else h₁) =
      if register = (2, dmaccrOffset) ∧ regs.dmaccr &&& 0x10000 ≠ 0 then 0x10000
      else content register h₁ := by
    by_cases hbit : regs.dmaccr &&& 0x10000 ≠ 0
    · rw [if_pos hbit]
      by_cases heq : register = (2, dmaccrOffset)
      · subst heq
        rw [if_pos ⟨rfl, hbit⟩]
        exact hheld.write_self (2, dmaccrOffset) 0x10000 h₁ hk
      · rw [if_neg fun h ↦ heq h.1]
        exact hheld.write_other register (2, dmaccrOffset) 0x10000 h₁ hk (Ne.symm heq)
    · rw [if_neg hbit, if_neg fun h ↦ hbit h.2]
  dsimp only
  rw [setBar2Register_content hheld hk (regs.dmaccr.toInt > 0) port₁ (by decide), hreset, hfcr,
    hkeeps.channel]
  have hforced : ∀ value, forcedValue port₁ 2 dmaccrOffset value = forcedValue port 2 dmaccrOffset value :=
    fun value ↦ by simp only [forcedValue, hkeeps.usesDma]
  rw [hforced]
  rfl

/-! ## Field by field -/

theorem fieldRegister_cases {channel k : Nat} (hregister : fieldRegister channel k = some register) :
    (k * 4 ≤ maxOffset ∧ register = (0, k * 4)) ∨ (k = 23 ∧ register = (2, fcrOffset)) ∨
      (k = 24 ∧ register = (2, portOffset channel 2 dmaccrOffset)) ∨
      (k = 29 ∧ register = (2, dstarOffset)) := by
  rw [fieldRegister] at hregister
  split at hregister
  · exact Or.inl ⟨‹_›, (Option.some_inj.mp hregister).symm⟩
  split at hregister
  · exact Or.inr (Or.inl ⟨‹_›, (Option.some_inj.mp hregister).symm⟩)
  split at hregister
  · exact Or.inr (Or.inr (Or.inl ⟨‹_›, (Option.some_inj.mp hregister).symm⟩))
  split at hregister
  · exact Or.inr (Or.inr (Or.inr ⟨‹_›, (Option.some_inj.mp hregister).symm⟩))
  · cases hregister

-- Only the first port has its DMACCR where the master reset bit is.
theorem portOffset_dmaccr (channel : Nat) :
    (portOffset channel 2 dmaccrOffset = dmaccrOffset ↔ channel = 0) ∧
      portOffset channel 2 dmaccrOffset ≠ fcrOffset ∧
      portOffset channel 2 dmaccrOffset ≠ dstarOffset := by
  show ((if channel = 0 then dmaccrOffset else dmaccrOffset + 4) = dmaccrOffset ↔ channel = 0) ∧
    (if channel = 0 then dmaccrOffset else dmaccrOffset + 4) ≠ fcrOffset ∧
    (if channel = 0 then dmaccrOffset else dmaccrOffset + 4) ≠ dstarOffset
  split
  next hfirst => exact ⟨⟨fun _ ↦ hfirst, fun _ ↦ rfl⟩, by decide, by decide⟩
  next hsecond => exact ⟨⟨fun h ↦ absurd h (by decide), fun h ↦ absurd h hsecond⟩, by decide, by decide⟩

theorem fsccPortSetRegisters_content (hheld : hw.device.Holds held content)
    (hcmdr : ¬ held (0, cmdrOffset)) {port : RegPort} {k : Nat}
    (hregister : fieldRegister port.channel k = some register) (hk : held register)
    (regs : FsccRegisters) (h : H) :
    content register (fsccPortSetRegisters hw regs port h).2.2 =
      (writtenValue regs port k).getD (content register h) := by
  have hloop := setRegistersLoop_keeps hw regs.fields 0 false port h
  have hbar2 : content register (fsccPortSetRegisters hw regs port h).2.2 = _ :=
    setBar2Registers_content hheld hk regs (setRegistersLoop hw regs.fields 0 false port h).2.1
      (setRegistersLoop hw regs.fields 0 false port h).2.2
  have hforced : ∀ value, forcedValue (setRegistersLoop hw regs.fields 0 false port h).2.1 2
      dmaccrOffset value = forcedValue port 2 dmaccrOffset value :=
    fun value ↦ by simp only [forcedValue, hloop.usesDma]
  have hother := setRegistersLoop_other hheld hk regs.fields 0
  obtain ⟨hfirst, hfcr, hdstar⟩ := portOffset_dmaccr port.channel
  rw [hbar2, hloop.channel, hforced]
  rcases fieldRegister_cases hregister with
    ⟨hmax, rfl⟩ | ⟨rfl, rfl⟩ | ⟨rfl, rfl⟩ | ⟨rfl, rfl⟩
  · have hlt : k < regs.fields.length := by
      have : maxOffset = 88 := rfl
      rw [regs.length_fields]
      omega
    have hfield : regs.fields.getD k (-1) = regs.get k := by
      rw [FsccRegisters.get, List.getD_eq_getElem _ _ hlt, List.getD_eq_getElem _ _ hlt]
    simp only [Prod.mk.injEq, OfNat.zero_ne_ofNat, false_and, if_false]
    rw [setRegistersLoop_content hheld hk (fun h ↦ hcmdr (h ▸ hk)) hmax regs.fields 0 (Nat.zero_le k),
      Nat.sub_zero, hfield, writtenValue, if_pos hmax]
  · rw [hother fun h ↦ absurd h (by decide)]
    show _ = (if regs.fcr.toInt > 0 then some _ else none).getD _
    simp only [Prod.mk.injEq, true_and, hfcr.symm, false_and, if_false]
    rw [if_neg fun h ↦ absurd h.1 (by decide)]
    split <;> rfl
  · rw [hother fun h ↦ absurd h (by decide : ¬ (2 : Nat) = 0)]
    show _ = (if regs.dmaccr.toInt > 0 then some _ else
      if port.channel = 0 ∧ regs.dmaccr &&& 0x10000 ≠ 0 then some _ else none).getD _
    simp only [Prod.mk.injEq, true_and, hfirst, hfcr, false_and, if_false]
    split
    · rfl
    · split <;> rfl
  · rw [hother fun h ↦ absurd h (by decide)]
    show _ = Option.getD none _
    simp only [Prod.mk.injEq, true_and, hdstar.symm, false_and, if_false]
    rw [if_neg fun h ↦ absurd h.1 (by decide), if_neg fun h ↦ absurd h.1 (by decide)]
    rfl

theorem fsccPortGetRegisters_content (hheld : hw.device.Holds held content) (hk : held register)
    (asked : FsccRegisters) (channel : Nat) (h : H) :
    content register (fsccPortGetRegisters hw asked channel h).2 = content register h :=
  ((getBar2Register_content hheld hk channel 29 dstarOffset _ _).trans
    (getBar2Register_content hheld hk channel 24 dmaccrOffset _ _)).trans
    ((getBar2Register_content hheld hk channel 23 fcrOffset _ _).trans
      (getRegistersLoop_content hheld hk channel 30 0 asked h))

theorem fieldRegister_none {channel k : Nat} (hk : fieldRegister channel k = none) :
    k * 4 > maxOffset ∧ k ≠ 23 ∧ k ≠ 24 ∧ k ≠ 29 := by
  rw [fieldRegister] at hk
  split at hk
  · cases hk
  split at hk
  · cases hk
  split at hk
  · cases hk
  split at hk
  · cases hk
  · exact ⟨Nat.not_le.mp ‹_›, ‹_›, ‹_›, ‹_›⟩

-- A field that is not asked for stays as it is, and so does one without a register.
theorem fsccPortGetRegisters_unasked {asked : FsccRegisters} {channel k : Nat}
    (hk : asked.get k ≠ fsccUpdateValue ∨ fieldRegister channel k = none) (h : H) :
    (fsccPortGetRegisters hw asked channel h).1.get k = asked.get k := by
  have hloop : (getRegistersLoop hw channel 30 0 asked h).1.get k = asked.get k := by
    apply getRegistersLoop_unasked
    exact hk.imp_right fun hnone ↦ (fieldRegister_none hnone).1
  have hbar2 : ∀ {i} (offset : Nat) (regs : FsccRegisters) (h : H), i = 23 ∨ i = 24 ∨ i = 29 →
      regs.get k = asked.get k →
        (getBar2Register hw channel i offset regs h).1.get k = asked.get k := by
    intro i offset regs h hi hsame
    by_cases heq : i = k
    · subst heq
      rcases hk with hasked | hnone
      · rw [getBar2Register, if_neg (hsame ▸ hasked)]
        exact hsame
      · obtain ⟨-, h₁, h₂, h₃⟩ := fieldRegister_none hnone
        omega
    · rw [getBar2Register_other heq, hsame]
  rw [fsccPortGetRegisters]
  exact hbar2 _ _ _ (by decide) (hbar2 _ _ _ (by decide) (hbar2 _ _ _ (by decide) hloop))

theorem fsccPortGetRegisters_asked (hheld : hw.device.Holds held content) {asked : FsccRegisters}
    {channel k : Nat} (hregister : fieldRegister channel k = some register) (hk : held register)
    (hasked : asked.get k = fsccUpdateValue) (h : H) :
    (fsccPortGetRegisters hw asked channel h).1.get k = (content register h).setWidth 64 := by
  have hloop := getRegistersLoop_content hheld hk channel 30 0 asked h
  have hbar2 := fun i offset ↦ getBar2Register_content hheld hk channel i offset
  have hpast : k * 4 > maxOffset → (getRegistersLoop hw channel 30 0 asked h).1.get k = asked.get k :=
    fun hpast ↦ getRegistersLoop_unasked (Or.inr hpast) h
  rw [fsccPortGetRegisters]
  dsimp only
  rcases fieldRegister_cases hregister with
    ⟨hmax, rfl⟩ | ⟨rfl, rfl⟩ | ⟨rfl, rfl⟩ | ⟨rfl, rfl⟩
  · have hk23 : k < 23 := by
      have : maxOffset = 88 := rfl
      omega
    rw [getBar2Register_other (by omega), getBar2Register_other (by omega),
      getBar2Register_other (by omega), getRegistersLoop_get hheld hmax hk (Nat.zero_le k) (by omega),
      if_pos hasked]
  · rw [getBar2Register_other (by decide), getBar2Register_other (by decide),
      getBar2Register_get hheld fcrOffset hk (by decide), hpast (by decide), if_pos hasked, ← hloop]
    rfl
  · rw [getBar2Register_other (by decide), getBar2Register_get hheld dmaccrOffset hk (by decide),
      getBar2Register_other (by decide), hpast (by decide), if_pos hasked, hbar2, hloop]
  · rw [getBar2Register_get hheld dstarOffset hk (by decide), getBar2Register_other (by decide),
      getBar2Register_other (by decide), hpast (by decide), if_pos hasked, ← hloop]
    exact congrArg _ ((hbar2 24 dmaccrOffset _ _).trans (hbar2 23 fcrOffset _ _))

/-- What `fscc_port_get_registers` returns behind `fscc_port_set_registers`: for a register that
holds what is written, what `fscc_port_set_registers` wrote there last, masks and forced bits
included, or else what it held before; the fields that are not asked for stay as they are, and
reading changes nothing. -/
theorem fscc_get_registers_after_set (hheld : hw.device.Holds held content)
    (hcmdr : ¬ held (0, cmdrOffset)) (asked regs : FsccRegisters) (port : RegPort) (h : H) :
    let h' := (fsccPortSetRegisters hw regs port h).2.2
    let result := fsccPortGetRegisters hw asked port.channel h'
    (∀ k register, fieldRegister port.channel k = some register → held register →
      asked.get k = fsccUpdateValue →
        result.1.get k = ((writtenValue regs port k).getD (content register h)).setWidth 64) ∧
      (∀ k, asked.get k ≠ fsccUpdateValue ∨ fieldRegister port.channel k = none →
        result.1.get k = asked.get k) ∧
      ∀ register, held register → content register result.2 = content register h' := by
  intro h' result
  refine ⟨fun k register hregister hk hasked ↦ ?_, fun k hk ↦ ?_, fun register hk ↦ ?_⟩
  · rw [← fsccPortSetRegisters_content hheld hcmdr hregister hk]
    exact fsccPortGetRegisters_asked hheld hregister hk hasked h'
  · exact fsccPortGetRegisters_unasked hk h'
  · exact fsccPortGetRegisters_content hheld hk asked port.channel h'

end RoundTrip

/-! ## A card whose registers are memory -/

def memoryCard : Hardware (Nat × Nat → BitVec 32) where
  ioRead bar offset h := (h (bar, offset), h)
  ioWrite bar offset value h := Function.update h (bar, offset) value
  keQuerySystemTime h := (0, h)

-- Its command register only takes commands.
theorem memoryCard_holds (held : Nat × Nat → Prop) :
    memoryCard.device.Holds held fun register h ↦ h register where
  read_value _ _ _ := rfl
  read_keeps _ _ _ _ := rfl
  tick_keeps _ _ _ := rfl
  write_self _ _ _ _ := Function.update_self _ _ _
  write_other _ _ _ _ _ hother := Function.update_of_ne (Ne.symm hother) _ _

/-- CCR0 and DMACCR are written and every field is asked for. -/
def ccr0Dmaccr : FsccRegisters := (FsccRegisters.init.set 7 0x11201c).set 24 0x10001

theorem fscc_get_registers_after_set_ccr0 :
    let h' := (fsccPortSetRegisters memoryCard ccr0Dmaccr ⟨1, false, false, true, .init⟩ fun _ ↦ 5).2.2
    let result := fsccPortGetRegisters memoryCard ⟨List.replicate 30 (-2), rfl⟩ 1 h'
    result.1.get 7 = 0x11201c ∧ result.1.get 8 = 5 ∧ result.1.get 24 = 0x3000001 ∧
      result.1.get 25 = -2 := by
  have hafter := fscc_get_registers_after_set (memoryCard_holds (· ≠ (0, cmdrOffset)))
    (fun h ↦ h rfl) ⟨List.replicate 30 (-2), rfl⟩ ccr0Dmaccr ⟨1, false, false, true, .init⟩ fun _ ↦ 5
  exact ⟨hafter.1 7 (0, 28) rfl (by decide) rfl, hafter.1 8 (0, 32) rfl (by decide) rfl,
    hafter.1 24 (2, 8) rfl (by decide) rfl, hafter.2.1 25 (Or.inr rfl)⟩

end FsccDriver

import FsccDriver.ClockBits
import FsccDriver.Lib.Runs
import FsccDriver.Registers

/-!
# Ownership — who has a port open

FCR is shared by the two ports of a card, and by two drivers.  Bit `0x40000000 << channel` says that
a port is open here; the bits at `0x03000000` belong to the asynchronous driver.
-/

namespace FsccDriver

variable {H : Type}

structure OpenPort extends RegPort where
  openCounter : BitVec 32

def openBit (channel : Nat) : BitVec 32 := 0x40000000 <<< channel

def asyncBit (channel : Nat) : BitVec 32 :=
  if channel = 0 then 0x01000000 else if channel = 1 then 0x02000000 else 0

def asyncBits : BitVec 32 := 0x03000000

def OpenPort.setRegister (hw : Hardware H) (port : OpenPort) (bar offset : Nat) (value : BitVec 32)
    (h : H) : OpenPort × H :=
  let (_, registers, h) := fsccPortSetRegister hw port.toRegPort bar offset value h
  ({ port with toRegPort := registers }, h)

-- FCR is read anew because the other driver may have changed it.
def fsccPortUsingAsync (hw : Hardware H) (port : OpenPort) (h : H) : Bool × OpenPort × H :=
  let (fcr, h) := fsccPortGetRegister hw port.channel 2 fcrOffset h
  (decide (fcr &&& asyncBit port.channel ≠ 0),
    { port with registerStorage := port.registerStorage.set 23 (fcr.setWidth 64) }, h)

def fsccDeviceFileCreate (hw : Hardware H) (port : OpenPort) (h : H) : NtStatus × OpenPort × H :=
  let (usingAsync, port, h) := fsccPortUsingAsync hw port h
  if usingAsync then (.notSupported, port, h)
  else
    let port : OpenPort := { port with openCounter := port.openCounter + 1 }
    if port.openCounter = 1 then
      let (origFcr, h) := fsccPortGetRegister hw port.channel 2 fcrOffset h
      let (port, h) := port.setRegister hw 2 fcrOffset (origFcr ||| openBit port.channel) h
      (.success, port, h)
    else (.success, port, h)

def fsccFileClose (hw : Hardware H) (port : OpenPort) (h : H) : OpenPort × H :=
  let port : OpenPort := { port with openCounter := port.openCounter - 1 }
  if port.openCounter = 0 then
    let (origFcr, h) := fsccPortGetRegister hw port.channel 2 fcrOffset h
    port.setRegister hw 2 fcrOffset (origFcr &&& ~~~openBit port.channel) h
  else (port, h)

/-! ## A card with an FCR -/

structure FcrCard where
  fcr : BitVec 32
  reads : Nat

/-- FCR holds what was written to it last; any other register may read as anything. -/
def fcrCard (answers : (bar offset reads : Nat) → BitVec 32) : Hardware FcrCard where
  ioRead bar offset card :=
    (if bar = 2 ∧ offset = fcrOffset then card.fcr else answers bar offset card.reads,
      { card with reads := card.reads + 1 })
  ioWrite bar offset value card :=
    if bar = 2 ∧ offset = fcrOffset then { card with fcr := value } else card
  keQuerySystemTime card := (0, card)

section Card

variable {answers : (bar offset reads : Nat) → BitVec 32} {card : FcrCard} {port : RegPort}

theorem fcrCard_read_fcr (channel : Nat) : fsccPortGetRegister (fcrCard answers) channel 2 fcrOffset
    card = (card.fcr, { card with reads := card.reads + 1 }) := rfl

theorem timedOutLoop_fcr (n : Nat) :
    (timedOutLoop (fcrCard answers) port n card).2.fcr = card.fcr := by
  induction n generalizing card with
  | zero => rfl
  | succ n ih =>
    change (if answers 0 starOffset card.reads &&& ceBit = 0 then _ else _ : Bool × FcrCard).2.fcr = _
    split
    · rfl
    · exact ih

variable (answers card port) in
-- Writing any register but FCR leaves FCR alone.
theorem fsccPortSetRegister_other {bar offset : Nat} (value : BitVec 32)
    (hother : ¬ (bar = 2 ∧ portOffset port.channel bar offset = fcrOffset)) :
    (fsccPortSetRegister (fcrCard answers) port bar offset value card).2.2.fcr = card.fcr ∧
      RegKeeps port (fsccPortSetRegister (fcrCard answers) port bar offset value card).2.1 := by
  rw [fsccPortSetRegister]
  generalize hcheck : (if offset = cmdrOffset ∧ port.ignoreTimeout = false then
    fsccPortTimedOut (fcrCard answers) port card else (false, card)) = checked
  have hsame : checked.2.fcr = card.fcr := by
    rw [← hcheck]
    split
    · exact timedOutLoop_fcr 20
    · rfl
  dsimp only
  split
  · exact ⟨hsame, RegKeeps.refl port⟩
  · refine ⟨?_, storedPort_keeps _ _ _ _⟩
    show (if _ then _ else _ : FcrCard).fcr = _
    rw [if_neg hother]
    exact hsame

variable (answers card port) in
theorem setRegistersLoop_fcr (fields : List (BitVec 64)) (i : Nat) (stalled : Bool) :
    (setRegistersLoop (fcrCard answers) fields i stalled port card).2.2.fcr = card.fcr ∧
      RegKeeps port (setRegistersLoop (fcrCard answers) fields i stalled port card).2.1 := by
  induction fields generalizing i stalled port card with
  | nil => exact ⟨rfl, RegKeeps.refl port⟩
  | cons field fields ih =>
    rw [setRegistersLoop]
    split
    · exact ih card port (i + 1) stalled
    split
    · exact ⟨rfl, RegKeeps.refl port⟩
    have hone := fsccPortSetRegister_other answers card port (field.setWidth 32)
      (fun h ↦ absurd h.1 (by decide) : ¬ (0 = 2 ∧ portOffset port.channel 0 (i * 4) = fcrOffset))
    generalize fsccPortSetRegister (fcrCard answers) port 0 (i * 4) (field.setWidth 32) card = written
      at hone ⊢
    obtain ⟨hfcr, hkeeps⟩ := ih written.2.2 written.2.1 (i + 1)
      (if written.1 = .ioTimeout then true else stalled)
    exact ⟨hfcr.trans hone.1, hone.2.trans hkeeps⟩

/-- What `fscc_port_set_registers` leaves in FCR. -/
def settledFcr (regs : FsccRegisters) (fcr : BitVec 32) : BitVec 32 :=
  if regs.fcr.toInt > 0 then (regs.fcr &&& 0x3fffffff).setWidth 32 else fcr

variable (answers card port) in
theorem setBar2Registers_fcr (regs : FsccRegisters) :
    (setBar2Registers (fcrCard answers) regs port card).2.fcr = settledFcr regs card.fcr ∧
      RegKeeps port (setBar2Registers (fcrCard answers) regs port card).1 := by
  obtain ⟨port₁, card₁, hrun, hfcr, hkeeps⟩ : ∃ port₁ card₁, (if regs.fcr.toInt > 0 then
      (fsccPortSetRegister (fcrCard answers) port 2 fcrOffset
        ((regs.fcr &&& 0x3fffffff).setWidth 32) card).2 else (port, card)) = (port₁, card₁) ∧
      card₁.fcr = settledFcr regs card.fcr ∧ RegKeeps port port₁ := by
    rw [settledFcr]
    split
    · exact ⟨_, _, rfl, rfl, storedPort_keeps _ _ _ _⟩
    · exact ⟨_, _, rfl, rfl, RegKeeps.refl port⟩
  obtain ⟨card₂, hreset, hfcr₂⟩ : ∃ card₂, (if regs.dmaccr &&& 0x10000 ≠ 0 then
      fsccCardSetRegister (fcrCard answers) 2 dmaccrOffset 0x10000 card₁ else card₁) = card₂ ∧
      card₂.fcr = card₁.fcr := by
    refine ⟨_, rfl, ?_⟩
    split <;> rfl
  have hdmaccr : ¬ (2 = 2 ∧ portOffset port₁.channel 2 dmaccrOffset = fcrOffset) := by
    intro h
    have hoffset : (if port₁.channel = 0 then 4 else 8) = 0 := h.2
    split at hoffset <;> omega
  have hother := fsccPortSetRegister_other answers card₂ port₁
    (regs.dmaccr.setWidth 32 &&& 0xfffeffff) hdmaccr
  rw [setBar2Registers, hrun]
  dsimp only
  rw [hreset]
  split
  · exact ⟨hother.1.trans (hfcr₂.trans hfcr), hkeeps.trans hother.2⟩
  · exact ⟨hfcr₂.trans hfcr, hkeeps⟩

variable (answers card port) in
theorem fsccPortSetRegisters_fcr (regs : FsccRegisters) :
    (fsccPortSetRegisters (fcrCard answers) regs port card).2.2.fcr = settledFcr regs card.fcr ∧
      RegKeeps port (fsccPortSetRegisters (fcrCard answers) regs port card).2.1 := by
  obtain ⟨hfcr, hkeeps⟩ := setRegistersLoop_fcr answers card port regs.fields 0 false
  generalize hrun : setRegistersLoop (fcrCard answers) regs.fields 0 false port card = looped
    at hfcr hkeeps
  obtain ⟨hbar2, hkeeps'⟩ := setBar2Registers_fcr answers looped.2.2 looped.2.1 regs
  rw [fsccPortSetRegisters, hrun]
  exact ⟨hbar2.trans (congrArg (settledFcr regs) hfcr), hkeeps.trans hkeeps'⟩

theorem ioWrites_fcr (words : List (BitVec 32)) (last : BitVec 32) (card : FcrCard) :
    ((words ++ [last]).foldl (fun card value ↦
      (fcrCard answers).ioWrite 2 fcrOffset value card) card).fcr = last := by
  rw [List.foldl_append]
  rfl

variable (answers card) in
-- The reads of VSTR leave FCR alone.
theorem xtalDisabled_fcr (channel : Nat) :
    (xtalDisabled (fcrCard answers) channel card).2.fcr = card.fcr := by
  unfold xtalDisabled
  dsimp only
  split <;> split <;> rfl

variable (answers card) in
/-- Programming the clock puts the original value back. -/
theorem fsccPortSetClockBits_fcr (allocated : Bool) (channel : Nat) (clockBits : List Byte) :
    (fsccPortSetClockBits (fcrCard answers) allocated channel clockBits card).fcr = card.fcr := by
  have hxtal := xtalDisabled_fcr answers card channel
  rw [fsccPortSetClockBits]
  generalize xtalDisabled (fcrCard answers) channel card = checked at hxtal ⊢
  dsimp only
  split
  · obtain ⟨words, hwords⟩ := clockWords_last channel checked.2.fcr (adjustXtal checked.1 clockBits)
    have hread : fsccCardGetRegister (fcrCard answers) 2 fcrOffset checked.2 =
        (checked.2.fcr, { checked.2 with reads := checked.2.reads + 1 }) := rfl
    have hsome : 0 < (words ++ [checked.2.fcr]).length * 4 := by
      rw [List.length_append, List.length_singleton]
      omega
    rw [hread]
    dsimp only
    rw [hwords, fsccPortSetRegisterRep, if_pos hsome, fsccCardSetRegisterRep,
      setRegisterRepWords_ofWords, ← hxtal]
    exact ioWrites_fcr words checked.2.fcr _
  · exact hxtal

variable (answers) in
theorem fsccDeviceFileCreate_card (port : OpenPort) (card : FcrCard) :
    ∃ status port' card', fsccDeviceFileCreate (fcrCard answers) port card = (status, port', card') ∧
      port'.channel = port.channel ∧
      ((status ≠ .success ∧ port'.openCounter = port.openCounter ∧ card'.fcr = card.fcr) ∨
        (status = .success ∧ port'.openCounter = port.openCounter + 1 ∧
          card'.fcr = if port.openCounter + 1 = 1 then card.fcr ||| openBit port.channel
            else card.fcr)) := by
  rw [fsccDeviceFileCreate, fsccPortUsingAsync, fcrCard_read_fcr]
  dsimp only
  split
  · exact ⟨_, _, _, rfl, rfl, Or.inl ⟨by decide, rfl, rfl⟩⟩
  · split
    · exact ⟨_, _, _, rfl, rfl, Or.inr ⟨rfl, rfl, rfl⟩⟩
    · exact ⟨_, _, _, rfl, rfl, Or.inr ⟨rfl, rfl, rfl⟩⟩

variable (answers) in
theorem fsccFileClose_card (port : OpenPort) (card : FcrCard) :
    ∃ port' card', fsccFileClose (fcrCard answers) port card = (port', card') ∧
      port'.channel = port.channel ∧ port'.openCounter = port.openCounter - 1 ∧
      card'.fcr = if port.openCounter - 1 = 0 then card.fcr &&& ~~~openBit port.channel
        else card.fcr := by
  rw [fsccFileClose]
  dsimp only
  split
  · exact ⟨_, _, rfl, rfl, rfl, rfl⟩
  · exact ⟨_, _, rfl, rfl, rfl, rfl⟩

end Card

/-! ## The ownership bits -/

theorem openBit_eq : ∀ c : Fin 2, openBit c = BitVec.twoPow 32 (30 + c) := by decide

theorem openBit_ne_zero : ∀ c : Fin 2, BitVec.twoPow 32 (30 + c) ≠ 0 := by decide

theorem openBit_set (fcr : BitVec 32) (c : Fin 2) :
    fcr &&& openBit c ≠ 0 ↔ fcr.getLsbD (30 + c) = true := by
  rw [openBit_eq, BitVec.and_twoPow]
  split
  next hset => exact ⟨fun _ ↦ hset, fun _ ↦ openBit_ne_zero c⟩
  next hclear => exact ⟨fun hne ↦ absurd rfl hne, fun hset ↦ absurd hset hclear⟩

-- Each ownership bit says nothing about the other one.
theorem openBit_getLsbD (c d : Fin 2) : (openBit c).getLsbD (30 + d) = decide (c = d) := by
  revert c d
  decide

theorem or_openBit_set (fcr : BitVec 32) (c d : Fin 2) :
    (fcr ||| openBit c) &&& openBit d ≠ 0 ↔ fcr &&& openBit d ≠ 0 ∨ c = d := by
  rw [openBit_set, openBit_set, BitVec.getLsbD_or, openBit_getLsbD, Bool.or_eq_true,
    decide_eq_true_eq]

theorem and_not_openBit_set (fcr : BitVec 32) (c d : Fin 2) :
    fcr &&& ~~~openBit c &&& openBit d ≠ 0 ↔ fcr &&& openBit d ≠ 0 ∧ c ≠ d := by
  have hlt : 30 + d.val < 32 := by omega
  rw [openBit_set, openBit_set, BitVec.getLsbD_and, BitVec.getLsbD_not, openBit_getLsbD,
    Bool.and_eq_true, decide_eq_true hlt, Bool.true_and, Bool.not_eq_true', decide_eq_false_iff_not]

theorem or_openBit_async (fcr : BitVec 32) (c : Fin 2) :
    (fcr ||| openBit c) &&& asyncBits = fcr &&& asyncBits := by
  have hnone : openBit c &&& asyncBits = 0#32 := by revert c; decide
  rw [BitVec.and_or_distrib_right, hnone, BitVec.or_zero]

theorem and_not_openBit_async (fcr : BitVec 32) (c : Fin 2) :
    fcr &&& ~~~openBit c &&& asyncBits = fcr &&& asyncBits := by
  have hall : ~~~openBit c &&& asyncBits = asyncBits := by revert c; decide
  rw [BitVec.and_assoc, hall]

/-! ## Runs -/

structure OwnerState where
  ports : Fin 2 → OpenPort
  card : FcrCard
  -- How many handles of each port are open.
  handles : Fin 2 → Nat

inductive OwnerAction where
  | create (c : Fin 2)
  | close (c : Fin 2)
  | setRegisters (c : Fin 2) (regs : FsccRegisters)
  | setClockBits (c : Fin 2) (allocated : Bool) (clockBits : List Byte)

def ownerStep (answers : (bar offset reads : Nat) → BitVec 32) (s : OwnerState) :
    OwnerAction → OwnerState
  | .create c =>
      let (status, port, card) := fsccDeviceFileCreate (fcrCard answers) (s.ports c) s.card
      { ports := Function.update s.ports c port, card
        handles := if status = .success then Function.update s.handles c (s.handles c + 1)
          else s.handles }
  | .close c =>
      if 0 < s.handles c then
        let (port, card) := fsccFileClose (fcrCard answers) (s.ports c) s.card
        { ports := Function.update s.ports c port, card
          handles := Function.update s.handles c (s.handles c - 1) }
      else s
  | .setRegisters c regs =>
      let (_, registers, card) :=
        fsccPortSetRegisters (fcrCard answers) regs (s.ports c).toRegPort s.card
      { s with
        ports := Function.update s.ports c { s.ports c with toRegPort := registers }
        card := card }
  | .setClockBits c allocated clockBits =>
      let channel := (s.ports c).channel
      { s with card := fsccPortSetClockBits (fcrCard answers) allocated channel clockBits s.card }

/-- A new handle is still counted, and FCR is set by a user only while no port is open and to the
owner bits it has. -/
def OwnerAllowed (s : OwnerState) : OwnerAction → Prop
  | .create c => s.handles c + 1 < 4294967296
  | .setRegisters _ regs => regs.fcr.toInt > 0 →
      (∀ c, s.handles c = 0) ∧ regs.fcr.setWidth 32 &&& asyncBits = s.card.fcr &&& asyncBits
  | _ => True

/-- Nothing is open yet. -/
structure OwnerStart (s : OwnerState) : Prop where
  channel : ∀ c, (s.ports c).channel = c
  counter : ∀ c, (s.ports c).openCounter = 0
  handles : ∀ c, s.handles c = 0
  clear : ∀ c : Fin 2, s.card.fcr &&& openBit c = 0

structure OwnerInvariant (async : BitVec 32) (s : OwnerState) : Prop where
  channel : ∀ c, (s.ports c).channel = c
  counter : ∀ c, (s.ports c).openCounter.toNat = s.handles c
  owned : ∀ c : Fin 2, s.card.fcr &&& openBit c ≠ 0 ↔ 0 < s.handles c
  async : s.card.fcr &&& asyncBits = async

section Run

variable {answers : (bar offset reads : Nat) → BitVec 32} {async : BitVec 32} {s : OwnerState}

theorem OwnerStart.invariant (h : OwnerStart s) :
    OwnerInvariant (s.card.fcr &&& asyncBits) s := by
  refine ⟨h.channel, fun c ↦ ?_, fun c ↦ ?_, rfl⟩
  · rw [h.counter c, h.handles c]
    rfl
  · rw [h.handles c]
    exact ⟨fun hset ↦ absurd (h.clear c) hset, fun hpos ↦ absurd hpos (Nat.lt_irrefl 0)⟩

-- One port changes its counter and its bit, the other one keeps both.
theorem OwnerInvariant.update (h : OwnerInvariant async s) (c : Fin 2) {port : OpenPort}
    {card : FcrCard} {n : Nat} (hchannel : port.channel = c) (hcounter : port.openCounter.toNat = n)
    (howned : card.fcr &&& openBit c ≠ 0 ↔ 0 < n)
    (hother : ∀ d : Fin 2, d ≠ c → (card.fcr &&& openBit d ≠ 0 ↔ s.card.fcr &&& openBit d ≠ 0))
    (hasync : card.fcr &&& asyncBits = s.card.fcr &&& asyncBits) :
    OwnerInvariant async
      ⟨Function.update s.ports c port, card, Function.update s.handles c n⟩ := by
  refine ⟨fun d ↦ ?_, fun d ↦ ?_, fun d ↦ ?_, hasync.trans h.async⟩ <;> dsimp only <;>
    by_cases hd : d = c
  · subst hd
    rw [Function.update_self]
    exact hchannel
  · rw [Function.update_of_ne hd]
    exact h.channel d
  · subst hd
    rw [Function.update_self, Function.update_self]
    exact hcounter
  · rw [Function.update_of_ne hd, Function.update_of_ne hd]
    exact h.counter d
  · subst hd
    rw [Function.update_self]
    exact howned
  · rw [Function.update_of_ne hd, hother d hd]
    exact h.owned d

theorem OwnerInvariant.create (h : OwnerInvariant async s) (c : Fin 2)
    (hlt : s.handles c + 1 < 4294967296) :
    OwnerInvariant async (ownerStep answers s (.create c)) := by
  obtain ⟨status, port', card', hrun, hchannel, hcases⟩ :=
    fsccDeviceFileCreate_card answers (s.ports c) s.card
  rw [ownerStep, hrun]
  dsimp only
  rcases hcases with ⟨hstatus, hcounter, hfcr⟩ | ⟨hstatus, hcounter, hfcr⟩
  · have hsame : s.handles = Function.update s.handles c (s.handles c) :=
      (Function.update_eq_self c s.handles).symm
    rw [if_neg hstatus, hsame]
    exact h.update c (hchannel.trans (h.channel c)) (by rw [hcounter]; exact h.counter c)
      (by rw [hfcr]; exact h.owned c) (fun d _ ↦ by rw [hfcr]) (by rw [hfcr])
  · have hcount : port'.openCounter.toNat = s.handles c + 1 := by
      rw [hcounter, BitVec.toNat_add, h.counter c]
      exact Nat.mod_eq_of_lt hlt
    have hfirst : (s.ports c).openCounter + 1 = 1 ↔ s.handles c = 0 := by
      rw [← hcounter, ← BitVec.toNat_inj, hcount]
      show s.handles c + 1 = 1 ↔ _
      omega
    rw [if_pos hstatus]
    rw [h.channel c] at hchannel hfcr
    by_cases hnone : s.handles c = 0
    · rw [if_pos (hfirst.mpr hnone)] at hfcr
      refine h.update c hchannel hcount ?_ (fun d hd ↦ ?_) ?_
      · rw [hfcr, or_openBit_set]
        exact ⟨fun _ ↦ Nat.succ_pos _, fun _ ↦ Or.inr rfl⟩
      · rw [hfcr, or_openBit_set]
        exact or_iff_left fun heq ↦ hd heq.symm
      · rw [hfcr, or_openBit_async]
    · rw [if_neg fun hone ↦ hnone (hfirst.mp hone)] at hfcr
      refine h.update c hchannel hcount ?_ (fun d _ ↦ by rw [hfcr]) (by rw [hfcr])
      rw [hfcr, h.owned c]
      omega

theorem OwnerInvariant.close (h : OwnerInvariant async s) (c : Fin 2) :
    OwnerInvariant async (ownerStep answers s (.close c)) := by
  rw [ownerStep]
  split
  next hopen =>
    obtain ⟨port', card', hrun, hchannel, hcounter, hfcr⟩ :=
      fsccFileClose_card answers (s.ports c) s.card
    rw [hrun]
    dsimp only
    have hcount : port'.openCounter.toNat = s.handles c - 1 := by
      have hbefore := h.counter c
      rw [hcounter, BitVec.toNat_sub_of_le (by
        show 1 ≤ (s.ports c).openCounter.toNat
        omega), hbefore]
      rfl
    have hlast : (s.ports c).openCounter - 1 = 0 ↔ s.handles c - 1 = 0 := by
      rw [← hcounter, ← BitVec.toNat_inj, hcount]
      rfl
    rw [h.channel c] at hchannel hfcr
    by_cases hnone : s.handles c - 1 = 0
    · rw [if_pos (hlast.mpr hnone)] at hfcr
      refine h.update c hchannel hcount ?_ (fun d hd ↦ ?_) ?_
      · rw [hfcr, and_not_openBit_set, hnone]
        exact ⟨fun hset ↦ absurd rfl hset.2, fun hpos ↦ absurd hpos (Nat.lt_irrefl 0)⟩
      · rw [hfcr, and_not_openBit_set]
        exact and_iff_left fun heq ↦ hd heq.symm
      · rw [hfcr, and_not_openBit_async]
    · rw [if_neg fun hzero ↦ hnone (hlast.mp hzero)] at hfcr
      refine h.update c hchannel hcount ?_ (fun d _ ↦ by rw [hfcr]) (by rw [hfcr])
      rw [hfcr, h.owned c]
      omega
  next => exact h

theorem OwnerInvariant.setRegisters (h : OwnerInvariant async s) (c : Fin 2)
    {regs : FsccRegisters} (hallowed : OwnerAllowed s (.setRegisters c regs)) :
    OwnerInvariant async (ownerStep answers s (.setRegisters c regs)) := by
  obtain ⟨hfcr, hkeeps⟩ := fsccPortSetRegisters_fcr answers s.card (s.ports c).toRegPort regs
  rw [ownerStep]
  generalize fsccPortSetRegisters (fcrCard answers) regs (s.ports c).toRegPort s.card = written
    at hfcr hkeeps ⊢
  have hhandles : s.handles = Function.update s.handles c (s.handles c) :=
    (Function.update_eq_self c s.handles).symm
  rw [settledFcr] at hfcr
  show OwnerInvariant async ⟨_, written.2.2, s.handles⟩
  rw [hhandles]
  by_cases hset : regs.fcr.toInt > 0
  · -- The field goes to FCR without its ownership bits.
    obtain ⟨hnone, hasync⟩ := hallowed hset
    rw [if_pos hset] at hfcr
    have hclear : ∀ d : Fin 2, written.2.2.fcr &&& openBit d = 0 := by
      intro d
      have hmask : (0x3fffffff : BitVec 64).setWidth 32 &&& openBit d = 0#32 := by revert d; decide
      rw [hfcr, BitVec.setWidth_and, BitVec.and_assoc, hmask, BitVec.and_zero]
      rfl
    have hclosed : ∀ d : Fin 2, s.card.fcr &&& openBit d = 0 := by
      intro d
      have howned := h.owned d
      by_contra hne
      have hpos := howned.mp hne
      rw [hnone d] at hpos
      exact Nat.lt_irrefl 0 hpos
    refine h.update c (hkeeps.channel.trans (h.channel c)) (h.counter c) ?_ (fun d _ ↦ ?_) ?_
    · rw [hclear c, hnone c]
      exact ⟨fun hne ↦ absurd rfl hne, fun hpos ↦ absurd hpos (Nat.lt_irrefl 0)⟩
    · rw [hclear d, hclosed d]
    · have hmask : (0x3fffffff : BitVec 64).setWidth 32 &&& asyncBits = asyncBits := by decide
      rw [hfcr, BitVec.setWidth_and, BitVec.and_assoc, hmask, hasync]
  · rw [if_neg hset] at hfcr
    exact h.update c (hkeeps.channel.trans (h.channel c)) (h.counter c)
      (by rw [hfcr]; exact h.owned c) (fun d _ ↦ by rw [hfcr]) (by rw [hfcr])

theorem OwnerInvariant.step (h : OwnerInvariant async s) (action : OwnerAction)
    (hallowed : OwnerAllowed s action) : OwnerInvariant async (ownerStep answers s action) := by
  cases action with
  | create c => exact h.create c hallowed
  | close c => exact h.close c
  | setRegisters c regs => exact h.setRegisters c hallowed
  | setClockBits c allocated clockBits =>
    have hfcr := fsccPortSetClockBits_fcr answers s.card allocated (s.ports c).channel clockBits
    exact ⟨h.channel, h.counter, fun d ↦ by rw [ownerStep, hfcr]; exact h.owned d,
      by rw [ownerStep, hfcr]; exact h.async⟩

end Run

/-- As long as users write FCR only while nothing is open, and to the owner bits it has, FCR says
which ports are open, and the bits of the asynchronous driver stay as they are. -/
theorem fscc_fcr_tells_who_is_open (answers : (bar offset reads : Nat) → BitVec 32)
    (start : OwnerState) (hstart : OwnerStart start) (actions : List OwnerAction)
    (hallowed : Runs.Along OwnerAllowed (ownerStep answers) start actions) :
    let s := actions.foldl (ownerStep answers) start
    (∀ c : Fin 2, s.card.fcr &&& openBit c ≠ 0 ↔ 0 < (s.ports c).openCounter.toNat) ∧
      s.card.fcr &&& asyncBits = start.card.fcr &&& asyncBits := by
  intro s
  have h : OwnerInvariant (start.card.fcr &&& asyncBits) s :=
    hallowed.invariant (fun s action hallowed h ↦ h.step action hallowed) hstart.invariant
  refine ⟨fun c ↦ ?_, h.async⟩
  rw [h.counter c]
  exact h.owned c

/-- A card nobody has open, with FCR 0. -/
def closedCard : OwnerState where
  ports c := ⟨⟨c, false, false, true, .init⟩, 0⟩
  card := ⟨0, 0⟩
  handles _ := 0

theorem closedCard_start : OwnerStart closedCard :=
  ⟨fun _ ↦ rfl, fun _ ↦ rfl, fun _ ↦ rfl, by decide⟩

-- Both ports are opened, registers that leave FCR alone are set, and one handle is closed.
theorem fscc_fcr_tells_who_is_open_both_ports :
    let s := [OwnerAction.create 0, .create 1, .setRegisters 0 .init, .close 0].foldl
      (ownerStep fun _ _ _ ↦ 0) closedCard
    (∀ c : Fin 2, s.card.fcr &&& openBit c ≠ 0 ↔ 0 < (s.ports c).openCounter.toNat) ∧
      s.card.fcr &&& asyncBits = closedCard.card.fcr &&& asyncBits :=
  fscc_fcr_tells_who_is_open (fun _ _ _ ↦ 0) closedCard closedCard_start
    [.create 0, .create 1, .setRegisters 0 .init, .close 0]
    ⟨Nat.le_of_ble_eq_true rfl, Nat.le_of_ble_eq_true rfl, fun hpos ↦ absurd hpos (by decide), trivial, trivial⟩

-- A user who sets FCR while a port is open clears the bit that says so.
theorem fscc_fcr_forgets_who_is_open :
    let s := [OwnerAction.create 0, .setRegisters 0 (FsccRegisters.init.set 23 1)].foldl
      (ownerStep fun _ _ _ ↦ 0) closedCard
    ¬ (s.card.fcr &&& openBit 0 ≠ 0 ↔ 0 < (s.ports 0).openCounter.toNat) := by
  decide

end FsccDriver

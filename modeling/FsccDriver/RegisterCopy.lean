import FsccDriver.Lib.Mirror
import FsccDriver.PortWorkers

/-!
# RegisterCopy — `register_storage` and the card

`fscc_port_set_register` stores what it writes to BAR 0, and `fscc_io_is_streaming` relies on what is
stored.  Every function of the driver is a sequence of accesses as `Mirror` has them, with the
registers of the configuration as those that hold.
-/

namespace FsccDriver

open Mirror (Accesses)
open Words

variable {H : Type}

/-! ## The registers of the configuration -/

-- `userOffsets` without the command register.
def configOffsets : List Nat :=
  [fifotOffset, ccr0Offset, ccr1Offset, ccr2Offset, bgrOffset, ssrOffset, smrOffset, tsrOffset,
    tmrOffset, rarOffset, ramrOffset, pprOffset, tcrOffset, imrOffset, dpllrOffset]

/-- A register as BAR and offset. -/
def ConfigRegister (register : Nat × Nat) : Prop := register.1 = 0 ∧ register.2 ∈ configOffsets

instance (register : Nat × Nat) : Decidable (ConfigRegister register) :=
  inferInstanceAs (Decidable (_ ∧ _))

def Hardware.device (hw : Hardware H) : Mirror.Device (Nat × Nat) (BitVec 32) H where
  read register h := hw.ioRead register.1 register.2 h
  write register value h := hw.ioWrite register.1 register.2 value h
  tick h := (hw.keQuerySystemTime h).2

/-- What a field says about its register: a negative one says nothing. -/
def fieldValue (field : BitVec 64) : Option (BitVec 32) :=
  if 0 ≤ field.toInt then some (field.setWidth 32) else none

def registerCopy : Mirror.Copy (Nat × Nat) (BitVec 32) RegPort where
  placed register := register.1 = 0 ∧ register.2 % 4 = 0
  stored port register := fieldValue (port.registerStorage.get (register.2 / 4))
  store register value port := storedPort port register.1 register.2 value

theorem FsccRegisters.get_set (regs : FsccRegisters) (i k : Nat) (value : BitVec 64) :
    (regs.set i value).get k = if i = k ∧ k < 30 then value else regs.get k := by
  rw [FsccRegisters.get, FsccRegisters.set, List.getD_eq_getElem?_getD, List.getElem?_set,
    regs.length_fields, FsccRegisters.get, List.getD_eq_getElem?_getD]
  by_cases hik : i = k
  · subst hik
    rw [if_pos rfl]
    by_cases hi : i < 30
    · rw [if_pos hi, if_pos ⟨rfl, hi⟩, Option.getD_some]
    · rw [if_neg hi, if_neg fun h ↦ hi h.2, Option.getD_none, List.getElem?_eq_none,
        Option.getD_none]
      rw [regs.length_fields]
      omega
  · rw [if_neg hik, if_neg fun h ↦ hik h.1]

theorem fieldValue_setWidth (value : BitVec 32) : fieldValue (value.setWidth 64) = some value := by
  have hlt := value.isLt
  have hnonneg : 0 ≤ (value.setWidth 64).toInt := by
    rw [BitVec.toInt_eq_toNat_of_lt]
    · exact Int.natCast_nonneg _
    · rw [BitVec.toNat_setWidth]
      omega
  rw [fieldValue, if_pos hnonneg, BitVec.setWidth_setWidth_of_le value (by decide),
    BitVec.setWidth_eq]

theorem configOffsets_index : ∀ offset ∈ configOffsets, offset % 4 = 0 ∧ offset / 4 < 23 := by
  decide

theorem registerCopy_lawful : registerCopy.Lawful ConfigRegister := by
  constructor
  · rintro ⟨bar, offset⟩ value port ⟨hbar, hoffset⟩
    obtain ⟨-, hindex⟩ := configOffsets_index offset hoffset
    dsimp only [registerCopy] at hbar hindex ⊢
    rw [storedPort, if_pos hbar, FsccRegisters.get_set, if_pos ⟨rfl, by omega⟩, fieldValue_setWidth]
  · rintro ⟨bar, offset⟩ ⟨bar', offset'⟩ value port ⟨hbar, hoffset⟩ ⟨hbar', haligned⟩ hother
    obtain ⟨haligned', -⟩ := configOffsets_index offset hoffset
    dsimp only [registerCopy] at hbar hbar' haligned haligned' ⊢
    subst hbar hbar'
    have hne : offset' ≠ offset := fun h ↦ hother (by rw [h])
    rw [storedPort, if_pos rfl, FsccRegisters.get_set, if_neg (by omega)]

/-! ## What a port may write -/

def dmaOffsets : List Nat := [dmaccrOffset, dmaRxBaseOffset, dmaTxBaseOffset]

-- The registers that the driver passes to `fscc_port_set_register`.
def PortRegister (bar offset : Nat) : Prop :=
  (bar = 0 ∧ offset % 4 = 0) ∨ bar = 2 ∧ (offset = fcrOffset ∨ offset ∈ dmaOffsets)

instance (bar offset : Nat) : Decidable (PortRegister bar offset) :=
  inferInstanceAs (Decidable (_ ∨ _))

/-- BAR 0 is that of the port.  In BAR 2 it has FCR in common with the other port of the card, and its
own DMA registers; the master reset, where it is asked for, only exists on the first port. -/
def MayWrite (reset : Prop) (port : RegPort) (register : Nat × Nat) (value : BitVec 32) : Prop :=
  register.1 = 0 ∨ register = (2, fcrOffset) ∨
    (∃ offset ∈ dmaOffsets, register = (2, portOffset port.channel 2 offset)) ∨
    reset ∧ register = (2, dmaccrOffset) ∧ value = 0x10000

theorem PortRegister.mayWrite {bar offset : Nat} (h : PortRegister bar offset)
    (reset : Prop) (port : RegPort) (value : BitVec 32) :
    MayWrite reset port (bar, portOffset port.channel bar offset) value := by
  rcases h with ⟨rfl, -⟩ | ⟨rfl, rfl | hdma⟩
  · exact Or.inl rfl
  · exact Or.inr (Or.inl rfl)
  · exact Or.inr (Or.inr (Or.inl ⟨offset, hdma, rfl⟩))

theorem mayWrite_channel {reset : Prop} {port port' : RegPort} (h : port'.channel = port.channel) :
    MayWrite reset port' = MayWrite reset port := by
  funext register value
  rw [MayWrite, MayWrite, h]

theorem storedPort_channel (port : RegPort) (bar offset : Nat) (value : BitVec 32) :
    (storedPort port bar offset value).channel = port.channel := by
  rw [storedPort]
  split
  · rfl
  · split <;> rfl

/-! ## Register accesses -/

-- `reset` says whether the master reset is among them.
abbrev PortAccesses (hw : Hardware H) (reset : Prop) : RegPort × H → RegPort × H → Prop :=
  Accesses hw.device registerCopy ConfigRegister (MayWrite reset)

section Accesses

variable (hw : Hardware H) (reset : Prop) (port : RegPort)

theorem accesses_read (bar offset : Nat) (h : H) :
    PortAccesses hw reset (port, h) (port, (hw.ioRead bar offset h).2) :=
  .single (.read (bar, offset) port h)

theorem accesses_time (h : H) : PortAccesses hw reset (port, h) (port, (hw.keQuerySystemTime h).2) :=
  .single (.tick port h)

theorem accesses_bypass {bar offset : Nat} (hfree : ¬ ConfigRegister (bar, offset))
    {value : BitVec 32} (hmay : MayWrite reset port (bar, offset) value) (h : H) :
    PortAccesses hw reset (port, h) (port, hw.ioWrite bar offset value h) :=
  .single (.bypass (bar, offset) value port h hfree hmay)

theorem accesses_beside (port' : RegPort) (hsame : port'.registerStorage = port.registerStorage)
    (hchannel : port'.channel = port.channel) (h : H) : PortAccesses hw reset (port, h) (port', h) :=
  .single (.beside port port' h (fun register _ ↦ by dsimp only [registerCopy]; rw [hsame])
    (mayWrite_channel hchannel))

-- A branch, where the port has no part in it.
theorem accesses_ite {β : Type} (card : β → H) {c : Prop} [Decidable c] {a b : β} {h : H}
    (ha : c → PortAccesses hw reset (port, h) (port, card a))
    (hb : ¬ c → PortAccesses hw reset (port, h) (port, card b)) :
    PortAccesses hw reset (port, h) (port, card (if c then a else b)) := by
  split
  · exact ha ‹c›
  · exact hb ‹¬ c›

theorem ioReadChunks_accesses (bar offset chunks : Nat) (h : H) :
    PortAccesses hw reset (port, h) (port, (ioReadChunks hw bar offset chunks h).2) := by
  induction chunks generalizing h with
  | zero => exact .refl
  | succ chunks ih => exact (accesses_read hw reset port bar offset h).trans (ih _)

theorem fsccPortGetRegisterRep_accesses (channel bar offset byteCount : Nat) (h : H) :
    PortAccesses hw reset (port, h) (port, (fsccPortGetRegisterRep hw channel bar offset byteCount h).2) := by
  have hchunks := ioReadChunks_accesses hw reset port bar (portOffset channel bar offset)
    ((byteCount - byteCount % 4) / 4) h
  rw [fsccPortGetRegisterRep]
  split
  · simp only [fsccCardGetRegisterRep]
    split
    · exact hchunks.trans (accesses_read hw reset port _ _ _)
    · exact hchunks
  · exact .refl

theorem fsccPortSetRegisterRep_accesses {channel bar offset : Nat}
    (hfree : ¬ ConfigRegister (bar, portOffset channel bar offset))
    (hmay : ∀ value, MayWrite reset port (bar, portOffset channel bar offset) value) (data : List Byte)
    (byteCount : Nat) (h : H) :
    PortAccesses hw reset (port, h) (port, fsccPortSetRegisterRep hw channel bar offset data byteCount h) := by
  rw [fsccPortSetRegisterRep]
  split
  · rw [fsccCardSetRegisterRep]
    induction setRegisterRepWords data byteCount generalizing h with
    | nil => exact .refl
    | cons value values ih => exact (accesses_bypass hw reset port hfree (hmay value) h).trans (ih _)
  · exact .refl

theorem timedOutLoop_accesses (n : Nat) (h : H) :
    PortAccesses hw reset (port, h) (port, (timedOutLoop hw port n h).2) := by
  induction n generalizing h with
  | zero => exact .refl
  | succ n ih =>
    have hread := accesses_read hw reset port 0 starOffset h
    simp only [timedOutLoop]
    split
    · exact hread
    · exact hread.trans (ih _)

-- Past BAR 0 only FCR is stored, behind the fields of the configuration.
theorem storedPort_beside {bar : Nat} (hbar : bar ≠ 0) (offset : Nat) (value : BitVec 32) (h : H) :
    PortAccesses hw reset (port, h) (storedPort port bar offset value, h) := by
  refine .single (.beside _ _ h ?_ (mayWrite_channel (storedPort_channel port bar offset value)))
  rintro ⟨bar', offset'⟩ ⟨-, hoffset'⟩
  obtain ⟨-, hindex⟩ := configOffsets_index offset' hoffset'
  dsimp only [registerCopy] at hindex ⊢
  rw [storedPort, if_neg hbar]
  split
  · rw [FsccRegisters.get_set, if_neg (by omega)]
  · rfl

theorem fsccPortSetRegister_accesses (bar offset : Nat) (hregister : PortRegister bar offset)
    (value : BitVec 32) (h : H) :
    PortAccesses hw reset (port, h) (fsccPortSetRegister hw port bar offset value h).2 := by
  have hwrite : ∀ h, PortAccesses hw reset (port, h)
      (storedPort port bar offset (forcedValue port bar offset value),
        fsccCardSetRegister hw bar (portOffset port.channel bar offset)
          (forcedValue port bar offset value) h) := by
    intro h
    have hmay := hregister.mayWrite reset port (forcedValue port bar offset value)
    by_cases hbar : bar = 0
    · subst hbar
      have haligned : offset % 4 = 0 := hregister.elim And.right fun h ↦ by cases h.1
      exact .single (.write (0, offset) _ port h ⟨rfl, haligned⟩ hmay
        (mayWrite_channel (storedPort_channel port 0 offset _)))
    · exact (accesses_bypass hw reset port (fun hconfig ↦ hbar hconfig.1) hmay h).trans
        (storedPort_beside hw reset port hbar offset _ _)
  have htimedOut := timedOutLoop_accesses hw reset port 20 h
  rw [fsccPortSetRegister]
  split
  next stalled h' hclock =>
    have hclocked : PortAccesses hw reset (port, h) (port, h') := by
      split at hclock
      · rw [fsccPortTimedOut] at hclock
        rw [hclock] at htimedOut
        exact htimedOut
      · cases hclock
        exact .refl
    split
    · exact hclocked
    · exact hclocked.trans (hwrite h')

theorem setRegistersLoop_accesses (fields : List (BitVec 64)) (i : Nat) (stalled : Bool) (h : H) :
    PortAccesses hw reset (port, h) (setRegistersLoop hw fields i stalled port h).2 := by
  induction fields generalizing i stalled port h with
  | nil => exact .refl
  | cons field fields ih =>
    rw [setRegistersLoop]
    split
    · exact ih port (i + 1) stalled h
    · split
      · exact .refl
      · exact (fsccPortSetRegister_accesses hw reset port 0 (i * 4) (Or.inl ⟨rfl, Nat.mul_mod_left i 4⟩) _ h).trans
          (ih _ (i + 1) _ _)

theorem setBar2Registers_accesses (regs : FsccRegisters)
    (hreset : regs.dmaccr &&& 0x10000 ≠ 0 → reset) (h : H) :
    PortAccesses hw reset (port, h) (setBar2Registers hw regs port h) := by
  have hset : ∀ (condition : Prop) [Decidable condition] (offset : Nat) (value : BitVec 32)
      (port : RegPort) (h : H), PortRegister 2 offset → PortAccesses hw reset (port, h)
        (if condition then (fsccPortSetRegister hw port 2 offset value h).2 else (port, h)) := by
    intro condition _ offset value port h hregister
    split
    · exact fsccPortSetRegister_accesses hw reset port 2 offset hregister value h
    · exact .refl
  have hmaster : ∀ (port : RegPort) (h : H), PortAccesses hw reset (port, h) (port,
      if regs.dmaccr &&& 0x10000 ≠ 0 then fsccCardSetRegister hw 2 dmaccrOffset 0x10000 h else h) := by
    intro port h
    split
    next hbit =>
      exact accesses_bypass hw reset port (by decide) (Or.inr (Or.inr (Or.inr ⟨hreset hbit, rfl, rfl⟩))) h
    · exact .refl
  rw [setBar2Registers]
  exact ((hset _ fcrOffset _ port h (by decide)).trans (hmaster _ _)).trans
    (hset _ dmaccrOffset _ _ _ (by decide))

theorem fsccPortSetRegisters_accesses (regs : FsccRegisters)
    (hreset : regs.dmaccr &&& 0x10000 ≠ 0 → reset) (h : H) :
    PortAccesses hw reset (port, h) (fsccPortSetRegisters hw regs port h).2 :=
  (setRegistersLoop_accesses hw reset port regs.fields 0 false h).trans
    (setBar2Registers_accesses hw reset _ regs hreset _)

theorem fsccPortSetClockBits_accesses (allocated : Bool) (channel : Nat) (clockBits : List Byte)
    (h : H) :
    PortAccesses hw reset (port, h) (port, fsccPortSetClockBits hw allocated channel clockBits h) := by
  have hread := fun h ↦ accesses_read hw reset port 0 (portOffset channel 0 vstrOffset) h
  have hxtal : PortAccesses hw reset (port, h) (port, (xtalDisabled hw channel h).2) := by
    have hgreen : ∀ green : Bool × H, PortAccesses hw reset (port, h) (port, green.2) →
        PortAccesses hw reset (port, h) (port, (if green.1 then (true, green.2)
          else (decide ((fsccPortGetPDEV hw channel green.2).1 = 0x16),
            (fsccPortGetPDEV hw channel green.2).2)).2) := by
      intro green hbefore
      exact accesses_ite hw reset port Prod.snd (fun _ ↦ hbefore) fun _ ↦ hbefore.trans (hread _)
    exact hgreen _ (accesses_ite hw reset port Prod.snd (fun _ ↦ (hread h).trans (hread _)) fun _ ↦ hread h)
  have hfree : ¬ ConfigRegister (2, portOffset channel 2 fcrOffset) := fun hconfig ↦ by
    cases hconfig.1
  rw [fsccPortSetClockBits]
  split
  next disabled h' hrun =>
    rw [hrun] at hxtal
    split
    · exact (hxtal.trans (accesses_read hw reset port 2 fcrOffset h')).trans
        (fsccPortSetRegisterRep_accesses hw reset port hfree (fun _ ↦ Or.inr (Or.inl rfl)) _ _ _)
    · exact hxtal

end Accesses

/-! ## Receiving only reads -/

section Receive

variable (hw : Hardware H) (reset : Prop) (port : RegPort)

theorem receiveLength_accesses (rx : RxPort) (h : H) :
    PortAccesses hw reset (port, h) (port, (receiveLength hw rx h).2.2) := by
  have hread := fun offset h ↦ accesses_read hw reset port 0 (portOffset rx.channel 0 offset) h
  have hrfcnt := hread fifoFcOffset h
  have hfirst : ∀ first : RxPort × H, PortAccesses hw reset (port, h) (port, first.2) →
      PortAccesses hw reset (port, h) (port,
        (if first.1.rxFrameSize ≠ 0 then
          if first.1.rxFrameSize > first.1.rxBytesInFrame then
            (u32 (first.1.rxFrameSize - first.1.rxBytesInFrame), first.1, first.2)
          else (0, first.1, first.2)
        else
          ((fsccIoGetRXCNT hw first.1 first.2).1 - (fsccIoGetRXCNT hw first.1 first.2).1 % 4, first.1,
            (fsccIoGetRXCNT hw first.1 first.2).2)).2.2) := by
    intro first hfirst
    split
    · split <;> exact hfirst
    · exact hfirst.trans (accesses_read hw reset port _ _ _)
  refine hfirst _ (accesses_ite hw reset port Prod.snd (fun _ ↦ ?_) fun _ ↦ .refl)
  exact accesses_ite hw reset port Prod.snd (fun _ ↦ hrfcnt.trans (hread bcFifoLOffset _)) fun _ ↦ hrfcnt

theorem fifoFill_accesses (length : Nat) (rx : RxPort) (h : H) :
    PortAccesses hw reset (port, h) (port, (fifoFill hw length rx h).2.2) := by
  have hdata := fsccPortGetRegisterRep_accesses hw reset port rx.channel 0 fifoOffset length h
  have hstamp : ∀ timestamp, PortAccesses hw reset (port, h) (port,
      (if timestamp = 0 then
        hw.keQuerySystemTime (fsccPortGetRegisterRep hw rx.channel 0 fifoOffset length h).2
      else (timestamp, (fsccPortGetRegisterRep hw rx.channel 0 fifoOffset length h).2)).2) := by
    intro timestamp
    exact accesses_ite hw reset port Prod.snd (fun _ ↦ hdata.trans (accesses_time hw reset port _)) fun _ ↦ hdata
  exact accesses_ite hw reset port (fun round : Bool × RxPort × H ↦ round.2.2) (fun _ ↦ hstamp _) fun _ ↦ hdata

theorem fifoReadLoop_accesses (n : Nat) (rx : RxPort) (h : H) :
    PortAccesses hw reset (port, h) (port, (fifoReadLoop hw n rx h).2) := by
  apply fifoReadLoop_invariant (P := fun _ h' ↦ PortAccesses hw reset (port, h) (port, h'))
  · intro rx h' hbefore
    rw [fifoReadStep]
    split
    · exact hbefore
    · exact (hbefore.trans (receiveLength_accesses hw reset port rx h')).trans
        (fifoFill_accesses hw reset port _ _ _)
  · exact .refl

theorem readFrameLoop_accesses (bufLength n : Nat) (st : ReadLoop) (h : H) :
    PortAccesses hw reset (port, h) (port, (readFrameLoop hw bufLength n st h).2) := by
  have hstep : ∀ st h, PortAccesses hw reset (port, h) (port, (readFrameStep hw bufLength st h).2.2) := by
    intro st h
    show PortAccesses hw reset (port, h) (port, (appendTimestamp hw (moveData st) h).2)
    rw [appendTimestamp]
    split
    · dsimp only
      split
      · exact accesses_time hw reset port h
      · exact .refl
    · exact .refl
  induction n generalizing st h with
  | zero => exact .refl
  | succ n ih =>
    have hround := hstep st h
    rw [readFrameLoop]
    generalize readFrameStep hw bufLength st h = round at hround
    obtain ⟨again, st', h'⟩ := round
    cases again with
    | false => exact hround
    | true => exact hround.trans (ih st' h')

theorem fsccUserReadFrame_accesses (bufLength : Nat) (rx : RxPort) (h : H) :
    PortAccesses hw reset (port, h) (port, (fsccUserReadFrame hw bufLength rx h).2.2) := by
  simp only [fsccUserReadFrame]
  split
  · exact .refl
  · split
    · exact .refl
    · exact readFrameLoop_accesses hw reset port bufLength _ _ h

theorem applyTimestampsLoop_accesses (n curDesc : Nat) (rx : RxPort) (h : H) :
    PortAccesses hw reset (port, h) (port, (applyTimestampsLoop hw n curDesc rx h).2) := by
  induction n generalizing curDesc rx h with
  | zero => exact .refl
  | succ n ih =>
    rw [applyTimestampsLoop]
    dsimp only
    split
    · exact .refl
    · split
      · exact (accesses_time hw reset port h).trans (ih _ _ _)
      · exact ih _ _ _

end Receive

/-! ## Transmitting -/

theorem fifo_free : ¬ ConfigRegister (0, fifoOffset) := by decide

section Transmit

variable (hw : Hardware H) (reset : Prop)

theorem setRegister_accesses (tx : TxPort) (bar offset : Nat) (hregister : PortRegister bar offset)
    (value : BitVec 32) (h : H) :
    PortAccesses hw reset (tx.toRegPort, h) ((tx.setRegister hw bar offset value h).1.toRegPort,
      (tx.setRegister hw bar offset value h).2) :=
  fsccPortSetRegister_accesses hw reset tx.toRegPort bar offset hregister value h

theorem fsccIoExecuteTransmit_accesses (tx : TxPort) (dma : Bool) (h : H) :
    PortAccesses hw reset (tx.toRegPort, h) ((fsccIoExecuteTransmit hw tx dma h).1.toRegPort,
      (fsccIoExecuteTransmit hw tx dma h).2) := by
  rw [fsccIoExecuteTransmit]
  split
  · exact setRegister_accesses hw reset tx 2 dmaccrOffset (by decide) _ h
  · exact setRegister_accesses hw reset tx 0 cmdrOffset (by decide) _ h

theorem writeFrameLoop_registers (buf : List Byte) (dataLength n : Nat) (st : WriteFrameLoop) :
    (writeFrameLoop buf dataLength n st).port.toRegPort = st.port.toRegPort := by
  induction n generalizing st with
  | zero => rfl
  | succ n ih =>
    have hround : (writeFrameStep buf dataLength st).2.port.toRegPort = st.port.toRegPort := by
      rw [writeFrameStep]
      split <;> rfl
    rw [writeFrameLoop]
    generalize writeFrameStep buf dataLength st = round at hround
    obtain ⟨again, st'⟩ := round
    cases again with
    | false => exact hround
    | true => exact (ih st').trans hround

theorem fsccUserWriteFrame_accesses (buf : List Byte) (dataLength : Nat) (tx : TxPort) (h : H) :
    PortAccesses hw reset (tx.toRegPort, h) ((fsccUserWriteFrame hw buf dataLength tx h).2.1.toRegPort,
      (fsccUserWriteFrame hw buf dataLength tx h).2.2) := by
  rw [fsccUserWriteFrame, ← writeFrameLoop_registers buf dataLength tx.txNum ⟨tx, 0, 0, 0, .success⟩]
  generalize writeFrameLoop buf dataLength tx.txNum ⟨tx, 0, 0, 0, .success⟩ = st
  have hrunning := accesses_read hw reset st.port.toRegPort 2 (portOffset st.port.channel 2 dstarOffset) h
  dsimp only
  split
  · by_cases hruns : (fsccDmaIsTxRunning hw st.port h).1 = true
    · rw [if_pos hruns]
      exact hrunning
    · rw [if_neg hruns]
      exact (hrunning.trans (setRegister_accesses hw reset st.port 2 dmaTxBaseOffset (by decide) _ _)).trans
        (fsccIoExecuteTransmit_accesses hw reset _ true _)
  · exact .refl

theorem writeDataLoop_accesses (tfcnt n : Nat) (st : WriteDataLoop) (h : H) :
    PortAccesses hw reset (st.port.toRegPort, h) ((writeDataLoop hw tfcnt n st h).1.port.toRegPort,
      (writeDataLoop hw tfcnt n st h).2) := by
  induction n generalizing st h with
  | zero => exact .refl
  | succ n ih =>
    have hround : PortAccesses hw reset (st.port.toRegPort, h)
        ((writeDataStep hw tfcnt st h).2.1.port.toRegPort, (writeDataStep hw tfcnt st h).2.2) := by
      rw [writeDataStep]
      dsimp only
      split
      · exact .refl
      split
      · exact .refl
      split
      · exact .refl
      · exact fsccPortSetRegisterRep_accesses hw reset st.port.toRegPort fifo_free (fun _ ↦ Or.inl rfl) _ _ h
    rw [writeDataLoop]
    generalize writeDataStep hw tfcnt st h = round at hround
    obtain ⟨again, st', h'⟩ := round
    cases again with
    | false => exact hround
    | true => exact hround.trans (ih st' h')

theorem fsccFifoWriteData_accesses (tx : TxPort) (h : H) :
    PortAccesses hw reset (tx.toRegPort, h) ((fsccFifoWriteData hw tx h).2.1.toRegPort,
      (fsccFifoWriteData hw tx h).2.2) := by
  have hread := fun offset h ↦ accesses_read hw reset tx.toRegPort 0 (portOffset tx.channel 0 offset) h
  have htfcnt := hread fifoFcOffset h
  have htxcnt := htfcnt.trans (hread fifoBcOffset _)
  simp only [fsccFifoWriteData]
  split
  · exact htfcnt
  split
  · exact htxcnt
  have hloop := htxcnt.trans (writeDataLoop_accesses hw reset (fsccIoGetTFCNT hw tx h).1 tx.txNum
    ⟨tx, fifoSpace (fsccIoGetTXCNT hw tx (fsccIoGetTFCNT hw tx h).2).1, 0, 0⟩ _)
  split
  · exact hloop.trans (setRegister_accesses hw reset _ 0 bcFifoLOffset (by decide) _ _)
  · exact hloop

theorem fsccIoTransmitFrame_accesses (tx : TxPort) (h : H) :
    PortAccesses hw reset (tx.toRegPort, h) ((fsccIoTransmitFrame hw tx h).2.1.toRegPort,
      (fsccIoTransmitFrame hw tx h).2.2) := by
  have hwrite := fsccFifoWriteData_accesses hw reset tx h
  simp only [fsccIoTransmitFrame]
  split
  · exact hwrite.trans (fsccIoExecuteTransmit_accesses hw reset _ false _)
  · exact hwrite

end Transmit

/-! ## Resets and purges -/

section Purge

variable (hw : Hardware H) (reset : Prop)

theorem resetCommands_accesses {stop command rst : RegPort → H → NtStatus × RegPort × H}
    (hstop : ∀ port h, PortAccesses hw reset (port, h) (stop port h).2)
    (hcommand : ∀ port h, PortAccesses hw reset (port, h) (command port h).2)
    (hrst : ∀ port h, PortAccesses hw reset (port, h) (rst port h).2) (port : RegPort) (h : H) :
    PortAccesses hw reset (port, h) (resetCommands stop command rst port h).2 :=
  ((hstop port h).trans (hcommand _ _)).trans (hrst _ _)

theorem executeDma_accesses (command : BitVec 32) (port : RegPort) (h : H) :
    PortAccesses hw reset (port, h) (executeDma hw command port h).2 := by
  rw [executeDma]
  split
  · exact fsccPortSetRegister_accesses hw reset port 2 dmaccrOffset (by decide) _ h
  · exact .refl

theorem fsccIoResetRx_accesses (side : RxSide) (h : H) :
    PortAccesses hw reset (side.toRegPort, h) ((fsccIoResetRx hw side h).2.1.toRegPort,
      (fsccIoResetRx hw side h).2.2) :=
  resetCommands_accesses hw reset (executeDma_accesses hw reset _)
    (fun port h ↦ fsccPortSetRegister_accesses hw reset port 0 cmdrOffset (by decide) _ h) (executeDma_accesses hw reset _)
    side.toRegPort h

theorem fsccIoResetTx_accesses (tx : TxSide) (h : H) :
    PortAccesses hw reset (tx.toRegPort, h) ((fsccIoResetTx hw tx h).2.1.toRegPort,
      (fsccIoResetTx hw tx h).2.2) :=
  resetCommands_accesses hw reset (executeDma_accesses hw reset _)
    (fun port h ↦ fsccPortSetRegister_accesses hw reset port 0 cmdrOffset (by decide) _ h) (executeDma_accesses hw reset _)
    tx.toRegPort h

theorem purgeRxReset_accesses (side : RxSide) (h : H) :
    PortAccesses hw reset (side.toRegPort, h) ((purgeRxReset hw side h).1.toRegPort,
      (purgeRxReset hw side h).2) := by
  have hrecd := fsccPortSetRegister_accesses hw reset side.toRegPort 0 ccr0Offset (by decide)
    (side.storedCcr0.setWidth 32 ||| recdBit) h
  rw [purgeRxReset]
  dsimp only
  have hreset := hrecd.trans (fsccIoResetRx_accesses hw reset { side with toRegPort := _ } _)
  split
  · exact (hreset.trans (fsccPortSetRegister_accesses hw reset _ 2 dmaRxBaseOffset (by decide) _ _)).trans
      (executeDma_accesses hw reset _ _ _)
  · exact hreset

theorem fsccIoPurgeRx_accesses (side : RxSide) (h : H) :
    PortAccesses hw reset (side.toRegPort, h) ((fsccIoPurgeRx hw side h).2.1.toRegPort,
      (fsccIoPurgeRx hw side h).2.2) :=
  (purgeRxReset_accesses hw reset side h).trans (fsccPortSetRegister_accesses hw reset _ 0 ccr0Offset (by decide) _ _)

theorem fsccIoPurgeTx_accesses (tx : TxSide) (h : H) :
    PortAccesses hw reset (tx.toRegPort, h) ((fsccIoPurgeTx hw tx h).2.1.toRegPort,
      (fsccIoPurgeTx hw tx h).2.2) := by
  have hreset := fsccIoResetTx_accesses hw reset tx h
  rw [fsccIoPurgeTx]
  dsimp only
  split
  · exact hreset.trans (fsccPortSetRegister_accesses hw reset _ 2 dmaTxBaseOffset (by decide) _ _)
  · exact hreset

end Purge

end FsccDriver

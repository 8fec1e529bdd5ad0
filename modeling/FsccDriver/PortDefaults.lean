import FsccDriver.PortNumbers
import FsccDriver.RegisterRuns
import FsccDriver.TransmitStall

/-!
# PortDefaults — `FsccEvtDevicePrepareHardware`

The callback takes the sizes of the rings and the registers from the registry, where it leaves the
defaults for what is missing, and brings the card to the state the runs of a port start from.
-/

namespace FsccDriver

open Words

variable {H : Type}

/-! ## The registry key of a device -/

/-- The values below the key of a device, by name. -/
abbrev DeviceKey := String → Option (BitVec 32)

/-- How the calls that deal with the key turn out. -/
structure KeyOutcome where
  opened : NtStatus
  queried : String → NtStatus
  assigned : String → NtStatus

-- A value that cannot be had is the default, and the status of leaving it there is dropped.
def queryOrAssign (outcome : KeyOutcome) (name : String) (default : BitVec 32) (key : DeviceKey) :
    BitVec 32 × DeviceKey :=
  let (status, value) := registryQueryULong (outcome.queried name) (key name)
  if status ≠ .success then
    (default, if outcome.assigned name = .success then Function.update key name (some default) else key)
  else (value, key)

structure FsccMemory where
  txSize : BitVec 32
  txNum : BitVec 32
  rxSize : BitVec 32
  rxNum : BitVec 32
  deriving DecidableEq

/-- `DEFAULT_BUFFER_TX_NUM` and its like. -/
def defaultMemory : FsccMemory := ⟨256, 200, 256, 200⟩

def fsccPortGetDefaultMemory (outcome : KeyOutcome) (key : DeviceKey) (memory : FsccMemory) :
    NtStatus × FsccMemory × DeviceKey :=
  if outcome.opened ≠ .success then (outcome.opened, memory, key)
  else
    let (txNum, key) := queryOrAssign outcome "TxNum" defaultMemory.txNum key
    let (rxNum, key) := queryOrAssign outcome "RxNum" defaultMemory.rxNum key
    let (txSize, key) := queryOrAssign outcome "TxSize" defaultMemory.txSize key
    let (rxSize, key) := queryOrAssign outcome "RxSize" defaultMemory.rxSize key
    (.success, ⟨txSize, txNum, rxSize, rxNum⟩, key)

/-- A register with a default: its field, its name in the registry and the default. -/
structure RegisterDefault where
  field : Nat
  name : String
  value : BitVec 32

def registerDefaults : List RegisterDefault :=
  [⟨2, "FIFOT", 0x08001000⟩, ⟨7, "CCR0", 0x0011201c⟩, ⟨8, "CCR1", 0x00000018⟩,
    ⟨9, "CCR2", 0x00000000⟩, ⟨10, "BGR", 0x00000000⟩, ⟨11, "SSR", 0x0000007e⟩,
    ⟨12, "SMR", 0x00000000⟩, ⟨13, "TSR", 0x0000007e⟩, ⟨14, "TMR", 0x00000000⟩,
    ⟨15, "RAR", 0x00000000⟩, ⟨16, "RAMR", 0x00000000⟩, ⟨17, "PPR", 0x00000000⟩,
    ⟨18, "TCR", 0x00000000⟩, ⟨21, "IMR", 0x0f000000⟩, ⟨22, "DPLLR", 0x00000004⟩,
    ⟨23, "FCR", 0x00000000⟩]

def getDefaultRegisters (outcome : KeyOutcome) : List RegisterDefault → FsccRegisters → DeviceKey →
    FsccRegisters × DeviceKey
  | [], regs, key => (regs, key)
  | default :: defaults, regs, key =>
      let (value, key) := queryOrAssign outcome default.name default.value key
      getDefaultRegisters outcome defaults (regs.set default.field (value.setWidth 64)) key

def fsccPortGetDefaultRegisters (outcome : KeyOutcome) (key : DeviceKey) (regs : FsccRegisters) :
    NtStatus × FsccRegisters × DeviceKey :=
  if outcome.opened ≠ .success then (outcome.opened, regs, key)
  else
    let (regs, key) := getDefaultRegisters outcome registerDefaults regs key
    (.success, regs, key)

-- The defaults that are stored before the registry is asked.
def storedDefaults : FsccRegisters :=
  registerDefaults.foldl (fun regs default ↦ regs.set default.field (default.value.setWidth 64)) .init

/-! ## `fscc_port_set_registers` on the copy itself -/

-- The call reads the fields of the copy while it stores what it writes there.
def setStoredLoop (hw : Hardware H) :
    Nat → (i : Nat) → (stalled : Bool) → RegPort → H → Bool × RegPort × H
  | 0, _, stalled, port, h => (stalled, port, h)
  | n + 1, i, stalled, port, h =>
      let field := port.registerStorage.get i
      if isReadOnlyRegister (i * 4) ∨ field.toInt < 0 then setStoredLoop hw n (i + 1) stalled port h
      else if i * 4 > maxOffset then (stalled, port, h)
      else
        let (status, port, h) := fsccPortSetRegister hw port 0 (i * 4) (field.setWidth 32) h
        setStoredLoop hw n (i + 1) (if status = .ioTimeout then true else stalled) port h

def setStoredBar2 (hw : Hardware H) (port : RegPort) (h : H) : RegPort × H :=
  let (port, h) :=
    if port.registerStorage.fcr.toInt > 0 then
      (fsccPortSetRegister hw port 2 fcrOffset
        ((port.registerStorage.fcr &&& 0x3fffffff).setWidth 32) h).2
    else (port, h)
  let h :=
    if port.registerStorage.dmaccr &&& 0x10000 ≠ 0 then
      fsccCardSetRegister hw 2 dmaccrOffset 0x10000 h
    else h
  if port.registerStorage.dmaccr.toInt > 0 then
    (fsccPortSetRegister hw port 2 dmaccrOffset
      (port.registerStorage.dmaccr.setWidth 32 &&& 0xfffeffff) h).2
  else (port, h)

def fsccPortSetStoredRegisters (hw : Hardware H) (port : RegPort) (h : H) : NtStatus × RegPort × H :=
  let (stalled, port, h) := setStoredLoop hw 30 0 false port h
  let (port, h) := setStoredBar2 hw port h
  (if stalled then .ioTimeout else .success, port, h)

section Stored

variable (hw : Hardware H)

-- Only the field that is written changes.
theorem fsccPortSetRegister_storage (port : RegPort) {bar offset k : Nat}
    (hk : if bar = 0 then offset / 4 ≠ k else k ≠ 23) (value : BitVec 32) (h : H) :
    (fsccPortSetRegister hw port bar offset value h).2.1.registerStorage.get k =
      port.registerStorage.get k := by
  rw [fsccPortSetRegister]
  split
  split
  · rfl
  show (storedPort port bar offset _).registerStorage.get k = _
  rw [storedPort]
  split
  next hbar =>
    rw [if_pos hbar] at hk
    rw [FsccRegisters.get_set, if_neg fun h ↦ hk h.1]
  next hbar =>
    rw [if_neg hbar] at hk
    split
    · rw [FsccRegisters.get_set, if_neg fun h ↦ hk h.1.symm]
    · rfl

theorem setRegistersLoop_storage (fields : List (BitVec 64)) (i : Nat) (stalled : Bool)
    (port : RegPort) (h : H) {k : Nat} (hk : 23 ≤ k) :
    (setRegistersLoop hw fields i stalled port h).2.1.registerStorage.get k =
      port.registerStorage.get k := by
  induction fields generalizing i stalled port h with
  | nil => rfl
  | cons field fields ih =>
    rw [setRegistersLoop]
    split
    · exact ih (i + 1) stalled port h
    split
    · rfl
    next hmax =>
      have hne : i * 4 / 4 ≠ k := by
        have : maxOffset = 88 := rfl
        omega
      refine (ih (i + 1) _ _ _).trans ?_
      exact fsccPortSetRegister_storage hw _ (by rw [if_pos rfl]; exact hne) _ h

-- Induction over the rounds: what is still to be read has not been written.
theorem setStoredLoop_eq (regs : FsccRegisters) (n i : Nat) (hn : i + n = 30) (stalled : Bool)
    (port : RegPort) (hsame : ∀ k, i ≤ k → port.registerStorage.get k = regs.get k) (h : H) :
    setStoredLoop hw n i stalled port h =
      setRegistersLoop hw (regs.fields.drop i) i stalled port h := by
  induction n generalizing i stalled port h with
  | zero =>
    rw [List.drop_eq_nil_of_le (by rw [regs.length_fields]; omega)]
    rfl
  | succ n ih =>
    have hlt : i < regs.fields.length := by
      rw [regs.length_fields]
      omega
    have hget : regs.fields[i] = regs.get i := by
      rw [FsccRegisters.get, List.getD_eq_getElem _ _ hlt]
    have hset := fun k (hk : i + 1 ≤ k) ↦ fsccPortSetRegister_storage hw port
      (by rw [if_pos rfl]; omega : if 0 = 0 then i * 4 / 4 ≠ k else k ≠ 23)
      ((regs.get i).setWidth 32) h
    rw [List.drop_eq_getElem_cons hlt, setStoredLoop, setRegistersLoop, hget, hsame i (Nat.le_refl i)]
    dsimp only
    split
    · exact ih (i + 1) (by omega) stalled port (fun k hk ↦ hsame k (by omega)) h
    split
    · rfl
    generalize fsccPortSetRegister hw port 0 (i * 4) ((regs.get i).setWidth 32) h = result at hset ⊢
    obtain ⟨status, port', h'⟩ := result
    exact ih (i + 1) (by omega) _ port' (fun k hk ↦ (hset k hk).trans (hsame k (by omega))) h'

theorem setStoredBar2_eq {regs : FsccRegisters} {port : RegPort}
    (hfcr : port.registerStorage.fcr = regs.fcr) (hdmaccr : port.registerStorage.dmaccr = regs.dmaccr)
    (h : H) : setStoredBar2 hw port h = setBar2Registers hw regs port h := by
  let write := fsccPortSetRegister hw port 2 fcrOffset ((regs.fcr &&& 0x3fffffff).setWidth 32) h
  have hsame : (if regs.fcr.toInt > 0 then write.2 else (port, h)).1.registerStorage.dmaccr =
      regs.dmaccr := by
    split
    · exact (fsccPortSetRegister_storage hw port (k := 24) (by decide) _ h).trans hdmaccr
    · exact hdmaccr
  rw [setStoredBar2, setBar2Registers, hfcr]
  generalize (if regs.fcr.toInt > 0 then write.2 else (port, h)) = first at hsame ⊢
  obtain ⟨port', h'⟩ := first
  dsimp only at hsame ⊢
  rw [hsame]

/-- Setting the registers from the copy is setting them from what the copy was before. -/
theorem fsccPortSetStoredRegisters_eq (port : RegPort) (h : H) :
    fsccPortSetStoredRegisters hw port h = fsccPortSetRegisters hw port.registerStorage port h := by
  have hloop := setStoredLoop_eq hw port.registerStorage 30 0 rfl false port (fun k _ ↦ rfl) h
  have hfcr := setRegistersLoop_storage hw port.registerStorage.fields 0 false port h (k := 23)
    (Nat.le_refl 23)
  have hdmaccr := setRegistersLoop_storage hw port.registerStorage.fields 0 false port h (k := 24)
    (by decide)
  rw [List.drop_zero] at hloop
  rw [fsccPortSetStoredRegisters, fsccPortSetRegisters, hloop]
  generalize setRegistersLoop hw port.registerStorage.fields 0 false port h = result at hfcr hdmaccr ⊢
  obtain ⟨stalled, port', h'⟩ := result
  dsimp only
  rw [setStoredBar2_eq hw hfcr hdmaccr]

end Stored

/-! ## The receive ring -/

-- The loop stops early at the first frame it cannot have.
def createRxLoop (pool : TxPool) (sizeOfBuffers : Nat) : Nat → (i : Nat) → RxPort →
    (physicalAddress : Nat → BitVec 32) → RxPort × (Nat → BitVec 32)
  | 0, i, port, physicalAddress => ({ port with rxNum := i }, physicalAddress)
  | n + 1, i, port, physicalAddress =>
      match pool.frame i with
      | none => ({ port with rxNum := i }, physicalAddress)
      | some address =>
          let frame := { fsccIoCreateFrame sizeOfBuffers with
            control := if i % 2 ≠ 0 then descHiBit else 0, dataCount := sizeOfBuffers }
          createRxLoop pool sizeOfBuffers n (i + 1)
            { port with rxDescriptors := Function.update port.rxDescriptors i frame }
            (Function.update physicalAddress i address)

def fsccIoCreateRx (pool : TxPool) (port : RxPort) (physicalAddress : Nat → BitVec 32)
    (numberOfBuffers sizeOfBuffers : BitVec 32) : NtStatus × RxPort × (Nat → BitVec 32) :=
  let number := if numberOfBuffers.toNat < 2 then 2 else numberOfBuffers.toNat
  let size :=
    if sizeOfBuffers.toNat % 4 ≠ 0 then
      u32 ((sizeOfBuffers.toNat : Int) + (4 - sizeOfBuffers.toNat % 4 : Nat))
    else sizeOfBuffers.toNat
  if pool.array then (.success, createRxLoop pool size number 0 port physicalAddress)
  else (.failed, { port with rxNum := 0 }, physicalAddress)

/-! ## `FsccEvtDevicePrepareHardware` -/

namespace Handlers

/-- How the calls of the callback turn out; `rx` and `tx` are the allocations for the rings. -/
structure PrepareOutcome where
  cardInit : NtStatus
  barAddress : BitVec 64
  dmaEnabler : NtStatus
  key : KeyOutcome
  rx : TxPool
  tx : TxPool
  clockBits : Bool
  timer : NtStatus

-- The low byte of the address of BAR 0 tells the ports of a card apart.
def detectedChannel (address : BitVec 64) : Option Nat :=
  if address &&& 0xff = 0x00 then some 0
  else if address &&& 0xff = 0x80 then some 1
  else none

/-- `DEFAULT_CLOCK_BITS`: 18.432 MHz. -/
def defaultClockBits : List Byte :=
  [0x0f, 0x61, 0xe5, 0x00, 0x00, 0x00, 0x00, 0x00, 0x00, 0x00, 0x00, 0x18, 0x16, 0x40, 0x01, 0x04,
    0x00, 0xff, 0xff, 0xff]

-- The options of a port, with their defaults from `config.h`.
def Driver.setDefaults (hw : Hardware H) (channel : Nat) (hasDma : Bool) (d : Driver H) : Driver H :=
  let d := { d with
    rx := { d.rx with channel, appendStatus := false, appendTimestamp := false, rxMultiple := false }
    tx := { d.tx with channel, hasDma, ignoreTimeout := false, txModifiers := 0 }
    waitOnWrite := false, blockingWrite := false }
  (d.setOption hw false .forceFifo).2

-- The registers `fscc_io_destroy_rx` and `fscc_io_destroy_tx` write.
def Driver.stopRx (hw : Hardware H) (d : Driver H) : Driver H :=
  let (_, registers, card) := fsccDmaExecuteStopR hw d.registers d.card
  let (_, registers, card) := fsccDmaExecuteRstR hw registers card
  if fsccPortUsesDma registers then
    let (_, registers, card) := fsccPortSetRegister hw registers 2 dmaRxBaseOffset 0 card
    { d.setRegisters registers with card }
  else { d.setRegisters registers with card }

def Driver.stopTx (hw : Hardware H) (d : Driver H) : Driver H :=
  let (_, registers, card) := fsccDmaExecuteStopT hw d.registers d.card
  let (_, registers, card) := fsccDmaExecuteRstT hw registers card
  if fsccPortUsesDma registers then
    let (_, registers, card) := fsccPortSetRegister hw registers 2 dmaTxBaseOffset 0 card
    { d.setRegisters registers with card }
  else { d.setRegisters registers with card }

def Driver.createRx (outcome : PrepareOutcome) (memory : FsccMemory) (d : Driver H) :
    NtStatus × Driver H :=
  let (status, rx, rxPhysicalAddress) :=
    fsccIoCreateRx outcome.rx d.rx d.rxPhysicalAddress memory.rxNum memory.rxSize
  (status, { d with rx, rxPhysicalAddress })

def Driver.createTx (outcome : PrepareOutcome) (memory : FsccMemory) (d : Driver H) :
    NtStatus × Driver H :=
  let (status, txSize, port) := fsccIoCreateTx outcome.tx d.tx.toTxPort memory.txNum memory.txSize
  (status, { d with tx := { d.tx with toTxPort := port }, txSize })

def Driver.setStored (hw : Hardware H) (storage : FsccRegisters) (d : Driver H) : Driver H :=
  let (_, registers, card) :=
    fsccPortSetStoredRegisters hw { d.registers with registerStorage := storage } d.card
  { d.setRegisters registers with
    rx := { d.rx with rxFrameSize := 0 }, lastIsrValue := 0, card }

def Driver.startClock (hw : Hardware H) (allocated : Bool) (d : Driver H) : Driver H :=
  { d with card := fsccPortSetClockBits hw allocated d.registers.channel defaultClockBits d.card }

-- `fscc_dma_port_enable`, for a port that uses DMA.
def Driver.enableDma (hw : Hardware H) (d : Driver H) : Driver H :=
  if fsccPortUsesDma d.registers then
    let (_, registers, card) := fsccPortSetRegister hw d.registers 2 dmaccrOffset 0x03000000 d.card
    { d.setRegisters registers with card }
  else d

-- Nothing waits in the queues yet.
def Driver.purge (hw : Hardware H) (d : Driver H) : Driver H :=
  let (_, side, card) := FsccDriver.fsccIoPurgeRx hw d.rxSide d.card
  let d := { d.setRxSide side with card }
  let (_, tx, card) := FsccDriver.fsccIoPurgeTx hw d.tx d.card
  { d with tx, card }

/-- The second half of the callback, with the rings there. -/
def Driver.configure (hw : Hardware H) (outcome : PrepareOutcome) (storage : FsccRegisters)
    (d : Driver H) : Driver H :=
  (((d.setStored hw storage).startClock hw outcome.clockBits).enableDma hw).purge hw

def fsccEvtDevicePrepareHardware (hw : Hardware H) (outcome : PrepareOutcome) (key : DeviceKey)
    (d : Driver H) : NtStatus × DeviceKey × Driver H :=
  if outcome.cardInit ≠ .success then (outcome.cardInit, key, d)
  else match detectedChannel outcome.barAddress with
    | none => (.failed, key, d)
    | some channel =>
        let (prev, card) := fsccPortGetPREV hw channel d.card
        let hasDma := decide (prev &&& 0x04 ≠ 0) && decide (outcome.dmaEnabler = .success)
        let d := Driver.setDefaults hw channel hasDma { d with card }
        let (_, memory, key) := fsccPortGetDefaultMemory outcome.key key defaultMemory
        let (status, d) := d.createRx outcome memory
        if status ≠ .success then (status, key, (d.stopRx hw).stopTx hw)
        else
          let (status, d) := d.createTx outcome memory
          if status ≠ .success then (status, key, (d.stopTx hw).stopRx hw)
          else
            let (_, storage, key) := fsccPortGetDefaultRegisters outcome.key key storedDefaults
            (outcome.timer, key, d.configure hw outcome storage)

end Handlers

/-! ## The copy behind it -/

section Prepared

variable {hw : Hardware H} {content : Nat × Nat → H → BitVec 32}

theorem fsccPortSetRegister_agreesAt (hheld : hw.device.Holds ConfigRegister content) {offset : Nat}
    (hconfig : ConfigRegister (0, offset)) (port : RegPort) (value : BitVec 32) (h : H) :
    Mirror.AgreesAt registerCopy content (0, offset)
      (fsccPortSetRegister hw port 0 offset value h).2 := by
  have hcmdr : offset ≠ cmdrOffset := by
    rintro rfl
    exact absurd hconfig (by decide)
  rw [fsccPortSetRegister, if_neg fun h ↦ hcmdr h.1]
  exact Mirror.agreesAt_write hheld registerCopy_lawful hconfig _ port h

theorem configOffsets_writable : ∀ offset ∈ configOffsets, isReadOnlyRegister offset = false ∧
    offset ≤ maxOffset := by
  decide

-- From the round of its field on, a register of the configuration agrees.
theorem setRegistersLoop_agreesAt (hheld : hw.device.Holds ConfigRegister content) {k : Nat}
    (hconfig : ConfigRegister (0, k * 4)) (fields : List (BitVec 64)) (i : Nat) (hi : i ≤ k)
    (hfield : 0 ≤ (fields.getD (k - i) (-1)).toInt) (stalled : Bool) (port : RegPort) (h : H) :
    Mirror.AgreesAt registerCopy content (0, k * 4)
      (setRegistersLoop hw fields i stalled port h).2 := by
  obtain ⟨hwritable, hmax⟩ := configOffsets_writable (k * 4) hconfig.2
  induction fields generalizing i stalled port h with
  | nil =>
    rw [List.getD_nil] at hfield
    exact absurd hfield (by decide)
  | cons field fields ih =>
    rw [setRegistersLoop, if_neg (Nat.not_lt.mpr (Nat.le_trans (Nat.mul_le_mul_right 4 hi) hmax))]
    by_cases hhere : i = k
    · subst hhere
      rw [Nat.sub_self, List.getD_cons_zero] at hfield
      rw [hwritable, if_neg (by rw [not_or, Int.not_lt]; exact ⟨Bool.false_ne_true, hfield⟩)]
      exact (setRegistersLoop_accesses hw True _ fields (i + 1) _ _).agreesAt hheld registerCopy_lawful
        hconfig (fsccPortSetRegister_agreesAt hheld hconfig port _ h)
    · obtain ⟨d, hd⟩ : ∃ d, k - i = d + 1 := ⟨k - (i + 1), by omega⟩
      have hd' : k - (i + 1) = d := by omega
      rw [hd, List.getD_cons_succ, ← hd'] at hfield
      split
      · exact ih (i + 1) (by omega) hfield stalled port h
      · exact ih (i + 1) (by omega) hfield _ _ _

/-- Every register of the configuration has a field that is not negative. -/
def FsccRegisters.Configures (regs : FsccRegisters) : Prop :=
  ∀ offset ∈ configOffsets, 0 ≤ (regs.get (offset / 4)).toInt

instance (regs : FsccRegisters) : Decidable regs.Configures :=
  inferInstanceAs (Decidable (∀ offset ∈ configOffsets, 0 ≤ (regs.get (offset / 4)).toInt))

theorem FsccRegisters.Configures.set {regs : FsccRegisters} (h : regs.Configures) (i : Nat)
    (value : BitVec 32) : (regs.set i (value.setWidth 64)).Configures := by
  intro offset hoffset
  rw [FsccRegisters.get_set]
  split
  · have hvalue := fieldValue_setWidth value
    rw [fieldValue] at hvalue
    split at hvalue
    · assumption
    · cases hvalue
  · exact h offset hoffset

theorem getDefaultRegisters_configures (outcome : KeyOutcome) (defaults : List RegisterDefault)
    {regs : FsccRegisters} (h : regs.Configures) (key : DeviceKey) :
    (getDefaultRegisters outcome defaults regs key).1.Configures := by
  induction defaults generalizing regs key with
  | nil => exact h
  | cons default defaults ih => exact ih (h.set _ _) _

theorem fsccPortGetDefaultRegisters_configures (outcome : KeyOutcome) (key : DeviceKey) :
    (fsccPortGetDefaultRegisters outcome key storedDefaults).2.1.Configures := by
  have hstored : storedDefaults.Configures := by decide
  rw [fsccPortGetDefaultRegisters]
  split
  · exact hstored
  · exact getDefaultRegisters_configures outcome registerDefaults hstored key

/-- Once the registers have been set from the copy, the card has what the copy has. -/
theorem fsccPortSetStoredRegisters_configured (hheld : hw.device.Holds ConfigRegister content)
    (port : RegPort) (hstored : port.registerStorage.Configures) (h : H) :
    Mirror.Agrees registerCopy ConfigRegister content (fsccPortSetStoredRegisters hw port h).2 ∧
      Mirror.Known registerCopy ConfigRegister (fsccPortSetStoredRegisters hw port h).2.1 := by
  have hall := fsccPortSetRegisters_accesses hw True port port.registerStorage (fun _ ↦ trivial) h
  rw [fsccPortSetStoredRegisters_eq]
  refine ⟨?_, hall.known registerCopy_lawful ?_⟩
  · rintro ⟨bar, offset⟩ hconfig
    obtain ⟨haligned, hindex⟩ := configOffsets_index offset hconfig.2
    have hbar : bar = 0 := hconfig.1
    have hoffset : offset / 4 * 4 = offset := by omega
    subst hbar
    rw [← hoffset] at hconfig ⊢
    have hfield : port.registerStorage.fields.getD (offset / 4 - 0) (-1) =
        port.registerStorage.get (offset / 4) := by
      have hlt : offset / 4 < port.registerStorage.fields.length := by
        rw [port.registerStorage.length_fields]
        omega
      rw [Nat.sub_zero, FsccRegisters.get, List.getD_eq_getElem _ _ hlt, List.getD_eq_getElem _ _ hlt]
    have hloop := setRegistersLoop_agreesAt hheld hconfig port.registerStorage.fields 0
      (Nat.zero_le _) (by rw [hfield]; exact hstored offset (hoffset ▸ hconfig.2)) false port h
    exact (setBar2Registers_accesses hw True _ port.registerStorage (fun _ ↦ trivial) _).agreesAt hheld registerCopy_lawful
      hconfig hloop
  · rintro ⟨bar, offset⟩ hconfig
    exact ⟨_, if_pos (hstored offset hconfig.2)⟩

end Prepared

/-! ## Runs of a prepared port -/

namespace Handlers

section Prepared

variable {hw : Hardware H} {reset : Prop} {content : Nat × Nat → H → BitVec 32}

theorem Driver.startClock_accessed (allocated : Bool) (d : Driver H) :
    Accessed hw reset d (d.startClock hw allocated) :=
  fsccPortSetClockBits_accesses hw reset d.registers allocated d.registers.channel defaultClockBits d.card

theorem Driver.enableDma_accessed (d : Driver H) : Accessed hw reset d (d.enableDma hw) := by
  rw [Driver.enableDma]
  split
  · exact fsccPortSetRegister_accesses hw reset d.registers 2 dmaccrOffset (by decide) 0x03000000 d.card
  · exact .refl d

theorem Driver.purge_accessed (d : Driver H) : Accessed hw reset d (d.purge hw) := by
  have hrx := fsccIoPurgeRx_accesses hw reset d.rxSide d.card
  rw [Driver.purge]
  generalize FsccDriver.fsccIoPurgeRx hw d.rxSide d.card = result at hrx ⊢
  obtain ⟨status, side, card⟩ := result
  exact Relation.ReflTransGen.trans hrx (fsccIoPurgeTx_accesses hw reset (d.setRxSide side).tx card)

theorem Driver.setStored_configured (hheld : hw.device.Holds ConfigRegister content)
    {storage : FsccRegisters} (hstorage : storage.Configures) (d : Driver H) :
    Configured content (d.setStored hw storage) := by
  have hset := fsccPortSetStoredRegisters_configured hheld
    { d.registers with registerStorage := storage } hstorage d.card
  rw [Driver.setStored]
  generalize fsccPortSetStoredRegisters hw { d.registers with registerStorage := storage } d.card =
    result at hset ⊢
  obtain ⟨status, registers, card⟩ := result
  exact ⟨hset.1, hset.2⟩

theorem Driver.configure_configured (hheld : hw.device.Holds ConfigRegister content)
    (outcome : PrepareOutcome) {storage : FsccRegisters} (hstorage : storage.Configures)
    (d : Driver H) : Configured content (d.configure hw outcome storage) := by
  have hset := d.setStored_configured hheld hstorage
  have hclock : Accessed hw True _ _ := (d.setStored hw storage).startClock_accessed outcome.clockBits
  have henable := hclock.trans (Driver.enableDma_accessed _)
  exact (henable.trans (Driver.purge_accessed _)).configured hheld hset

-- The callback succeeds only behind its second half, with both rings made.
theorem fsccEvtDevicePrepareHardware_success {outcome : PrepareOutcome} {key : DeviceKey}
    {d : Driver H} (hprepared : (fsccEvtDevicePrepareHardware hw outcome key d).1 = .success) :
    let memory := (fsccPortGetDefaultMemory outcome.key key defaultMemory).2.1
    ∃ (d' : Driver H) (key' : DeviceKey),
      (d'.createRx outcome memory).1 = .success ∧
      ((d'.createRx outcome memory).2.createTx outcome memory).1 = .success ∧
      (fsccEvtDevicePrepareHardware hw outcome key d).2.2 =
        ((d'.createRx outcome memory).2.createTx outcome memory).2.configure hw outcome
          (fsccPortGetDefaultRegisters outcome.key key' storedDefaults).2.1 := by
  rw [fsccEvtDevicePrepareHardware] at hprepared ⊢
  by_cases hcard : outcome.cardInit ≠ .success
  · rw [if_pos hcard] at hprepared
    exact absurd hprepared hcard
  rw [if_neg hcard] at hprepared ⊢
  cases hchannel : detectedChannel outcome.barAddress with
  | none =>
    rw [hchannel] at hprepared
    cases hprepared
  | some channel =>
    rw [hchannel] at hprepared
    dsimp only at hprepared ⊢
    generalize fsccPortGetPREV hw channel d.card = identity at hprepared ⊢
    generalize fsccPortGetDefaultMemory outcome.key key defaultMemory = read at hprepared ⊢
    obtain ⟨prev, card⟩ := identity
    obtain ⟨opened, memory, key'⟩ := read
    dsimp only at hprepared ⊢
    generalize Driver.setDefaults hw channel _ { d with card } = d' at hprepared ⊢
    generalize hrx : d'.createRx outcome memory = received at hprepared ⊢
    obtain ⟨status, received⟩ := received
    dsimp only at hprepared ⊢
    by_cases hfails : status ≠ .success
    · rw [if_pos hfails] at hprepared
      exact absurd hprepared hfails
    rw [if_neg hfails] at hprepared ⊢
    generalize htx : received.createTx outcome memory = sent at hprepared ⊢
    obtain ⟨status', sent⟩ := sent
    dsimp only at hprepared ⊢
    by_cases hfails' : status' ≠ .success
    · rw [if_pos hfails'] at hprepared
      exact absurd hprepared hfails'
    rw [if_neg hfails']
    refine ⟨d', key', ?_⟩
    rw [hrx, htx]
    refine ⟨not_not.mp hfails, not_not.mp hfails', ?_⟩
    generalize fsccPortGetDefaultRegisters outcome.key key' storedDefaults = stored
    obtain ⟨opened', storage, key''⟩ := stored
    dsimp only

/-- From the callback on the card has the configuration that the driver has stored, in every run: the
mode by which reads are served is the mode of the card, and a register that is asked for reads as it
is stored. -/
theorem fscc_prepared_port_configured (hheld : hw.device.Holds ConfigRegister content)
    (outcome : PrepareOutcome) (key : DeviceKey) (d : Driver H)
    (hprepared : (fsccEvtDevicePrepareHardware hw outcome key d).1 = .success)
    (outcomes : Nat → Outcome) (steps : List (PortEvent H × (Nat → Outcome)))
    (hkeeps : Runs.Along (KeepsConfig content) (portStep hw)
      (systemStart (fsccEvtDevicePrepareHardware hw outcome key d).2.2 outcomes) steps) :
    let s := steps.foldl (portStep hw)
      (systemStart (fsccEvtDevicePrepareHardware hw outcome key d).2.2 outcomes)
    let stored := s.driver.registers.registerStorage
    (∀ k, ConfigRegister (0, k * 4) → content (0, k * 4) s.driver.card = (stored.get k).setWidth 32) ∧
      fsccIoIsStreaming s.driver.registers =
        streamingMode (content (0, ccr0Offset) s.driver.card) (content (0, ccr2Offset) s.driver.card) ∧
      ∀ asked k channel, ConfigRegister (0, k * 4) → asked.get k = fsccUpdateValue →
        (fsccPortGetRegisters hw asked channel s.driver.card).1.get k =
          ((stored.get k).setWidth 32).setWidth 64 := by
  intro s stored
  obtain ⟨d', key', -, -, hbehind⟩ := fsccEvtDevicePrepareHardware_success hprepared
  have hstart : Configured content (fsccEvtDevicePrepareHardware hw outcome key d).2.2 := by
    rw [hbehind]
    exact Driver.configure_configured hheld outcome (fsccPortGetDefaultRegisters_configures _ _) _
  have hrun : Configured content s.driver := portRun_configured hheld hkeeps hstart
  exact ⟨fun k hk ↦ hrun.register hk, hrun.streaming,
    fun asked k channel hk hasked ↦ hrun.get hheld hk hasked channel⟩

end Prepared

/-- Every call succeeds, and the BARs are those of the second port of a card. -/
def everyCallSucceeds : PrepareOutcome where
  cardInit := .success
  barAddress := 0xfebf0080
  dmaEnabler := .success
  key := ⟨.success, fun _ ↦ .success, fun _ ↦ .success⟩
  rx := ⟨true, fun i ↦ some (BitVec.ofNat 32 (0x1000 * i))⟩
  tx := ⟨true, fun i ↦ some (BitVec.ofNat 32 (0x1000 * i))⟩
  clockBits := true
  timer := .success

/-- A port of which nothing is set yet, on a card that comes up with ones. -/
def newPort : Driver (Nat × Nat → BitVec 32) where
  tx := ⟨⟨⟨0, false, false, false, .init⟩, 0, 0, fun _ ↦ ⟨0, 0, 0, [], 0⟩, fun _ ↦ 0, 0, 0⟩, 0, 0⟩
  rx := ⟨0, false, false, false, 0, fun _ ↦ ⟨0, 0, 0, [], 0⟩, 0, 0, 0, 0⟩
  rxPhysicalAddress _ := 0
  txSize := 0
  blockingWrite := false
  waitOnWrite := false
  lastIsrValue := 0
  card _ := 0xffffffff

theorem fscc_prepared_port_configured_interrupt :
    let d := (fsccEvtDevicePrepareHardware memoryCard everyCallSucceeds (fun _ ↦ none) newPort).2.2
    let s := [(PortEvent.isr, fun _ ↦ Outcome.mk [] .success), (.dpc .request 0, fun _ ↦ ⟨[], .success⟩)]
      |>.foldl (portStep memoryCard) (systemStart d fun _ ↦ ⟨[], .success⟩)
    s.driver.card (0, 7 * 4) = (s.driver.registers.registerStorage.get 7).setWidth 32 :=
  (fscc_prepared_port_configured (memoryCard_holds ConfigRegister) everyCallSucceeds (fun _ ↦ none)
    newPort rfl (fun _ ↦ ⟨[], .success⟩)
    [(.isr, fun _ ↦ ⟨[], .success⟩), (.dpc .request 0, fun _ ↦ ⟨[], .success⟩)]
    ⟨trivial, trivial, trivial⟩).1 7 (by decide)

end Handlers

end FsccDriver

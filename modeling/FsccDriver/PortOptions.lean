import FsccDriver.RegisterRuns
import FsccDriver.RxShape
import FsccDriver.TxDescs

/-!
# PortOptions — what the options of a port are for

An option has the value it was last set to, whatever else happens to the port: `OptionStore` knows
nothing of rings, registers or requests, and every run of a port is a run of it.
-/

namespace FsccDriver

open Words

variable {H : Type}

/-! ## What the register functions leave alone -/

def RegPort.settings (port : RegPort) : Nat × Bool × Bool × Bool :=
  (port.channel, port.ignoreTimeout, port.forceFifo, port.hasDma)

def RxPort.settings (port : RxPort) : Nat × Bool × Bool × Bool × Nat :=
  (port.channel, port.appendStatus, port.appendTimestamp, port.rxMultiple, port.rxNum)

def TxPort.settings (port : TxPort) : (Nat × Bool × Bool × Bool) × Nat × Nat :=
  (port.toRegPort.settings, port.txModifiers, port.txNum)

theorem TxPort.settings_eq {port port' : TxPort}
    (hregisters : port'.toRegPort.settings = port.toRegPort.settings)
    (hmodifiers : port'.txModifiers = port.txModifiers) (hnum : port'.txNum = port.txNum) :
    port'.settings = port.settings := by
  rw [TxPort.settings, hregisters, hmodifiers, hnum, TxPort.settings]

section Registers

variable (hw : Hardware H)

theorem storedPort_settings (port : RegPort) (bar offset : Nat) (value : BitVec 32) :
    (storedPort port bar offset value).settings = port.settings := by
  rw [storedPort]
  split
  · rfl
  · split <;> rfl

theorem fsccPortSetRegister_settings (port : RegPort) (bar offset : Nat) (value : BitVec 32) (h : H) :
    (fsccPortSetRegister hw port bar offset value h).2.1.settings = port.settings := by
  rw [fsccPortSetRegister]
  split
  split
  · rfl
  · exact storedPort_settings port bar offset _

theorem setRegistersLoop_settings (fields : List (BitVec 64)) (i : Nat) (stalled : Bool)
    (port : RegPort) (h : H) :
    (setRegistersLoop hw fields i stalled port h).2.1.settings = port.settings := by
  induction fields generalizing i stalled port h with
  | nil => rfl
  | cons field fields ih =>
    rw [setRegistersLoop]
    split
    · exact ih (i + 1) stalled port h
    split
    · rfl
    · exact (ih (i + 1) _ _ _).trans (fsccPortSetRegister_settings hw port 0 (i * 4) _ h)

theorem setBar2Registers_settings (regs : FsccRegisters) (port : RegPort) (h : H) :
    (setBar2Registers hw regs port h).1.settings = port.settings := by
  let write := fsccPortSetRegister hw port 2 fcrOffset ((regs.fcr &&& 0x3fffffff).setWidth 32) h
  have hfcr : (if regs.fcr.toInt > 0 then write.2 else (port, h)).1.settings = port.settings := by
    split
    · exact fsccPortSetRegister_settings hw port 2 fcrOffset _ h
    · rfl
  rw [setBar2Registers]
  generalize (if regs.fcr.toInt > 0 then write.2 else (port, h)) = first at hfcr ⊢
  obtain ⟨port', h'⟩ := first
  dsimp only at hfcr ⊢
  by_cases hdmaccr : regs.dmaccr.toInt > 0
  · rw [if_pos hdmaccr]
    exact (fsccPortSetRegister_settings hw port' 2 dmaccrOffset _ _).trans hfcr
  · rw [if_neg hdmaccr]
    exact hfcr

theorem fsccPortSetRegisters_settings (regs : FsccRegisters) (port : RegPort) (h : H) :
    (fsccPortSetRegisters hw regs port h).2.1.settings = port.settings :=
  (setBar2Registers_settings hw regs _ _).trans (setRegistersLoop_settings hw regs.fields 0 false port h)

theorem executeDma_settings (command : BitVec 32) (port : RegPort) (h : H) :
    (executeDma hw command port h).2.1.settings = port.settings := by
  rw [executeDma]
  split
  · exact fsccPortSetRegister_settings hw port 2 dmaccrOffset command h
  · rfl

theorem resetCommands_settings {stop command rst : RegPort → H → NtStatus × RegPort × H}
    (hstop : ∀ port h, (stop port h).2.1.settings = port.settings)
    (hcommand : ∀ port h, (command port h).2.1.settings = port.settings)
    (hrst : ∀ port h, (rst port h).2.1.settings = port.settings) (port : RegPort) (h : H) :
    (resetCommands stop command rst port h).2.1.settings = port.settings :=
  ((hrst _ _).trans (hcommand _ _)).trans (hstop port h)

end Registers

/-! ## What the two rings leave alone -/

section Rings

variable (hw : Hardware H)

theorem fsccFifoReadData_settings (port : RxPort) (h : H) :
    (fsccFifoReadData hw port h).1.settings = port.settings := by
  have hround : ∀ port' h', (fifoReadStep hw port' h').2.1.settings = port'.settings := by
    intro port' h'
    rw [fifoReadStep]
    split
    · rfl
    obtain ⟨size, hlength⟩ := receiveLength_port hw port' h'
    have hfill : ∀ length (port'' : RxPort) h'',
        (fifoFill hw length port'' h'').2.1.settings = port''.settings := by
      intro length port'' h''
      unfold fifoFill
      dsimp only
      split_ifs <;> rfl
    generalize receiveLength hw port' h' = ready at hlength ⊢
    obtain ⟨length, port'', h''⟩ := ready
    dsimp only at hlength ⊢
    rw [hfill, hlength]
    rfl
  exact fifoReadLoop_invariant (P := fun port' _ ↦ port'.settings = port.settings)
    (fun port' h' hsame ↦ (hround port' h').trans hsame) port.rxNum rfl

theorem readFrameLoop_settings (bufLength n : Nat) (st : ReadLoop) (h : H) :
    (readFrameLoop hw bufLength n st h).1.port.settings = st.port.settings := by
  induction n generalizing st h with
  | zero => rfl
  | succ n ih =>
    have hround : (readFrameStep hw bufLength st h).2.1.port.settings = st.port.settings := by
      rw [readFrameStep_port]
      rfl
    rw [readFrameLoop]
    generalize readFrameStep hw bufLength st h = round at hround
    obtain ⟨again, st', h'⟩ := round
    cases again with
    | false => exact hround
    | true => exact (ih st' h').trans hround

theorem fsccUserReadFrame_settings (bufLength : Nat) (port : RxPort) (h : H) :
    (fsccUserReadFrame hw bufLength port h).2.1.settings = port.settings := by
  rw [fsccUserReadFrame]
  dsimp only
  split
  · rfl
  split
  · rfl
  · exact readFrameLoop_settings hw bufLength port.rxNum _ h

theorem fsccUserReadStream_settings (bufLength : Nat) (port : RxPort) :
    (fsccUserReadStream bufLength port).2.settings = port.settings := by
  have hloop : ∀ n (st : StreamLoop),
      (readStreamLoop bufLength n st).port.settings = st.port.settings := by
    intro n
    induction n with
    | zero => exact fun _ ↦ rfl
    | succ n ih =>
      intro st
      have hround : (readStreamStep bufLength st).2.port.settings = st.port.settings := by
        rw [readStreamStep]
        dsimp only
        split
        · rfl
        · split <;> rfl
      rw [readStreamLoop]
      generalize readStreamStep bufLength st = round at hround
      obtain ⟨again, st'⟩ := round
      cases again with
      | false => exact hround
      | true => exact (ih st').trans hround
  exact hloop port.rxNum _

theorem fsccDmaApplyTimestamps_settings (port : RxPort) (h : H) :
    (fsccDmaApplyTimestamps hw port h).1.settings = port.settings := by
  have hloop : ∀ n curDesc (port : RxPort) h,
      (applyTimestampsLoop hw n curDesc port h).1.settings = port.settings := by
    intro n
    induction n with
    | zero => exact fun _ _ _ ↦ rfl
    | succ n ih =>
      intro curDesc port h
      rw [applyTimestampsLoop]
      dsimp only
      split
      · rfl
      · exact ih _ _ _
  exact hloop port.rxNum port.userRxDesc port h

theorem TxPort.setRegister_settings (port : TxPort) (bar offset : Nat) (value : BitVec 32) (h : H) :
    (port.setRegister hw bar offset value h).1.settings = port.settings :=
  TxPort.settings_eq (fsccPortSetRegister_settings hw port.toRegPort bar offset value h) rfl rfl

theorem fsccIoExecuteTransmit_settings (port : TxPort) (dma : Bool) (h : H) :
    (fsccIoExecuteTransmit hw port dma h).1.settings = port.settings := by
  rw [fsccIoExecuteTransmit]
  split
  · exact port.setRegister_settings hw 2 dmaccrOffset _ h
  · exact port.setRegister_settings hw 0 cmdrOffset _ h

theorem fsccUserWriteFrame_settings (buf : List Byte) (dataLength : Nat) (port : TxPort) (h : H) :
    (fsccUserWriteFrame hw buf dataLength port h).2.1.settings = port.settings := by
  have hloop : ∀ n (st : WriteFrameLoop),
      (writeFrameLoop buf dataLength n st).port.settings = st.port.settings := by
    intro n
    induction n with
    | zero => exact fun _ ↦ rfl
    | succ n ih =>
      intro st
      have hround : (writeFrameStep buf dataLength st).2.port.settings = st.port.settings := by
        rcases writeFrameStep_cases buf dataLength st with ⟨-, hstop⟩ | ⟨-, st', hfills, hstep⟩
        · rw [hstop]
        · rw [hstep]
          show st'.port.settings = _
          rw [hfills.port]
          rfl
      rw [writeFrameLoop]
      generalize writeFrameStep buf dataLength st = round at hround
      obtain ⟨again, st'⟩ := round
      cases again with
      | false => exact hround
      | true => exact (ih st').trans hround
  have hfilled := hloop port.txNum ⟨port, 0, 0, 0, .success⟩
  rw [fsccUserWriteFrame]
  generalize writeFrameLoop buf dataLength port.txNum ⟨port, 0, 0, 0, .success⟩ = st at hfilled ⊢
  dsimp only
  split
  · by_cases hrunning : (fsccDmaIsTxRunning hw st.port h).1 = true
    · rw [if_pos hrunning]
      exact hfilled
    · rw [if_neg hrunning]
      exact ((fsccIoExecuteTransmit_settings hw _ true _).trans
        (st.port.setRegister_settings hw 2 dmaTxBaseOffset _ _)).trans hfilled
  · exact hfilled

theorem fsccFifoWriteData_settings (port : TxPort) (h : H) :
    (fsccFifoWriteData hw port h).2.1.settings = port.settings := by
  simp only [fsccFifoWriteData]
  split
  · rfl
  split
  · rfl
  have hloop : ∀ tfcnt space h,
      (writeDataLoop hw tfcnt port.txNum ⟨port, space, 0, 0⟩ h).1.port.settings = port.settings :=
    fun tfcnt space h ↦
      writeDataLoop_invariant (P := fun port' ↦ port'.settings = port.settings)
        (fun _ hsame _ ↦ hsame) port.txNum h rfl
  split
  · exact (TxPort.setRegister_settings hw _ 0 bcFifoLOffset _ _).trans (hloop _ _ _)
  · exact hloop _ _ _

theorem fsccIoTransmitFrame_settings (port : TxPort) (h : H) :
    (fsccIoTransmitFrame hw port h).2.1.settings = port.settings := by
  have hwrite := fsccFifoWriteData_settings hw port h
  simp only [fsccIoTransmitFrame]
  split
  · exact (fsccIoExecuteTransmit_settings hw _ false _).trans hwrite
  · exact hwrite

theorem fsccIoResetRx_settings (side : RxSide) (h : H) :
    (fsccIoResetRx hw side h).2.1.toRegPort.settings = side.toRegPort.settings ∧
      (fsccIoResetRx hw side h).2.1.rx.settings = side.rx.settings :=
  ⟨resetCommands_settings (executeDma_settings hw 0x100)
    (fun port h ↦ fsccPortSetRegister_settings hw port 0 cmdrOffset rresCommand h)
    (executeDma_settings hw 0x10) side.toRegPort h, rfl⟩

theorem purgeRxReset_settings (side : RxSide) (h : H) :
    (purgeRxReset hw side h).1.toRegPort.settings = side.toRegPort.settings ∧
      (purgeRxReset hw side h).1.rx.settings = side.rx.settings := by
  have hrecd := fsccPortSetRegister_settings hw side.toRegPort 0 ccr0Offset
    (side.storedCcr0.setWidth 32 ||| recdBit) h
  rw [purgeRxReset]
  generalize fsccPortSetRegister hw side.toRegPort 0 ccr0Offset
    (side.storedCcr0.setWidth 32 ||| recdBit) h = recd at hrecd ⊢
  obtain ⟨status, registers, h'⟩ := recd
  have hreset := fsccIoResetRx_settings hw { side with toRegPort := registers } h'
  dsimp only
  generalize fsccIoResetRx hw { side with toRegPort := registers } h' = reset at hreset ⊢
  obtain ⟨status', side', h''⟩ := reset
  dsimp only at hrecd hreset ⊢
  split
  · have hbase := fsccPortSetRegister_settings hw side'.toRegPort 2 dmaRxBaseOffset
      (side'.descPhysicalAddress 0) h''
    exact ⟨(executeDma_settings hw 0x1 _ _).trans (hbase.trans (hreset.1.trans hrecd)), hreset.2⟩
  · exact ⟨hreset.1.trans hrecd, hreset.2⟩

theorem fsccIoPurgeTx_settings (side : TxSide) (h : H) :
    (fsccIoPurgeTx hw side h).2.1.toTxPort.settings = side.toTxPort.settings := by
  have hreset : (fsccIoResetTx hw side h).2.1.toTxPort.settings = side.toTxPort.settings :=
    TxPort.settings_eq (resetCommands_settings (executeDma_settings hw 0x200)
      (fun port h ↦ fsccPortSetRegister_settings hw port 0 cmdrOffset tresCommand h)
      (executeDma_settings hw 0x20) side.toRegPort h) rfl rfl
  rw [fsccIoPurgeTx]
  generalize fsccIoResetTx hw side h = reset at hreset ⊢
  obtain ⟨status, side', h'⟩ := reset
  dsimp only at hreset ⊢
  split
  · have hbase := fsccPortSetRegister_settings hw side'.toRegPort 2 dmaTxBaseOffset
      (side'.descPhysicalAddress 0) h'
    exact (TxPort.settings_eq hbase rfl rfl).trans hreset
  · exact hreset

end Rings

/-! ## The options -/

namespace Handlers

open Calls (Program)

variable {hw : Hardware H}

/-- What is set for a port, with the parts of it that are never set again. -/
structure Settings where
  option : PortOption → Bool
  txModifiers : Nat
  channel : Nat
  hasDma : Bool
  rxNum : Nat
  txNum : Nat
  txSize : Nat

def Driver.settings (d : Driver H) : Settings where
  option
    | .appendStatus => d.rx.appendStatus
    | .appendTimestamp => d.rx.appendTimestamp
    | .rxMultiple => d.rx.rxMultiple
    | .ignoreTimeout => d.tx.ignoreTimeout
    | .waitOnWrite => d.waitOnWrite
    | .blockingWrite => d.blockingWrite
    | .forceFifo => d.tx.forceFifo
  txModifiers := d.tx.txModifiers
  channel := d.tx.channel
  hasDma := d.tx.hasDma
  rxNum := d.rx.rxNum
  txNum := d.tx.txNum
  txSize := d.txSize

/-- `fscc_port_get_append_status` and its like. -/
def Driver.getOption (d : Driver H) : PortOption → Bool
  | .appendStatus => !fsccIoIsStreaming d.registers && d.rx.appendStatus
  | .appendTimestamp => !fsccIoIsStreaming d.registers && d.rx.appendTimestamp
  | .rxMultiple => d.rx.rxMultiple
  | .ignoreTimeout => d.tx.ignoreTimeout
  | .waitOnWrite => d.waitOnWrite
  | .blockingWrite => d.blockingWrite
  | .forceFifo => d.tx.forceFifo

/-! ## What they are for -/

namespace Settings

-- A port without DMA stays with its FIFOs, whatever is asked for.
def set (settings : Settings) (option : PortOption) (value : Bool) : Settings :=
  if option = .forceFifo ∧ settings.hasDma = false then settings
  else { settings with option := Function.update settings.option option value }

-- XREP, TXT and TXEXT are the bits 0 to 2, and TXT and TXEXT exclude each other.
def setTxModifiers (settings : Settings) (value : BitVec 32) : Settings :=
  if value.toNat < 6 then { settings with txModifiers := value.toNat } else settings

/-- What a control code does to the options; `status` tells whether there is an input buffer. -/
def control (settings : Settings) (request : Request) (status : NtStatus) : IoControlCode → Settings
  | .enable option => settings.set option true
  | .disable option => settings.set option false
  | .setTxModifiers =>
      if status ≠ .success then settings
      else settings.setTxModifiers (Bytes.wordAt request.buffer 0)
  | _ => settings

-- Frames are what status and timestamp are appended to.
def get (settings : Settings) (streaming : Bool) : PortOption → Bool
  | .appendStatus => !streaming && settings.option .appendStatus
  | .appendTimestamp => !streaming && settings.option .appendTimestamp
  | option => settings.option option

end Settings

structure OptionStore where
  settings : Settings
  delivered : List Request

namespace OptionStore

def deliver (store : OptionStore) (request : Request) (settings : Settings) : OptionStore :=
  if request ∈ store.delivered then store else ⟨settings, store.delivered ++ [request]⟩

def step (store : OptionStore) (step : PortEvent H × (Nat → Outcome)) : OptionStore :=
  match step.1 with
  | .evtIoRead request | .evtIoWrite request => store.deliver request store.settings
  | .evtIoDeviceControl request ioControlCode =>
      store.deliver request (store.settings.control request (step.2 0).status ioControlCode)
  | _ => store

end OptionStore

def System.optionStore (s : System H) : OptionStore := ⟨s.driver.settings, s.delivered⟩

/-! ## What the handlers leave alone -/

theorem Driver.settings_eq {d d' : Driver H} (hrx : d'.rx.settings = d.rx.settings)
    (htx : d'.tx.toTxPort.settings = d.tx.toTxPort.settings)
    (hblocking : d'.blockingWrite = d.blockingWrite) (hwait : d'.waitOnWrite = d.waitOnWrite)
    (hsize : d'.txSize = d.txSize) : d'.settings = d.settings := by
  simp only [RxPort.settings, TxPort.settings, RegPort.settings, Prod.mk.injEq] at hrx htx
  obtain ⟨-, hstatus, htimestamp, hmultiple, hrxNum⟩ := hrx
  obtain ⟨⟨hchannel, hignore, hforce, hdma⟩, hmodifiers, htxNum⟩ := htx
  simp only [Driver.settings, Settings.mk.injEq]
  refine ⟨?_, hmodifiers, hchannel, hdma, hrxNum, htxNum, hsize⟩
  funext option
  cases option with
  | appendStatus => exact hstatus
  | appendTimestamp => exact htimestamp
  | rxMultiple => exact hmultiple
  | ignoreTimeout => exact hignore
  | waitOnWrite => exact hwait
  | blockingWrite => exact hblocking
  | forceFifo => exact hforce

-- Where only the registers and the card are new.
theorem Driver.setRegisters_settings {d : Driver H} {registers : RegPort}
    (h : registers.settings = d.registers.settings) (card : H) :
    ({ d.setRegisters registers with card } : Driver H).settings = d.settings :=
  Driver.settings_eq rfl (TxPort.settings_eq h rfl rfl) rfl rfl rfl

theorem Driver.read_settings (streaming : Bool) (length : Nat) (d : Driver H) :
    (d.read hw streaming length).2.settings = d.settings := by
  rw [Driver.read]
  split
  · exact Driver.settings_eq (fsccUserReadStream_settings length d.rx) rfl rfl rfl rfl
  · exact Driver.settings_eq (fsccUserReadFrame_settings hw length d.rx d.card) rfl rfl rfl rfl

theorem Driver.write_settings (data : List Byte) (length : Nat) (d : Driver H) :
    (d.write hw data length).2.settings = d.settings :=
  Driver.settings_eq rfl (fsccUserWriteFrame_settings hw data length d.tx.toTxPort d.card) rfl rfl rfl

theorem Driver.clockMissing_settings (d : Driver H) : (d.clockMissing hw).2.settings = d.settings := by
  rw [Driver.clockMissing]
  split <;> rfl

theorem settings_handled : Handled hw fun d d' ↦ d'.settings = d.settings where
  refl _ := rfl
  trans _ _ _ h h' := h'.trans h
  read d streaming length := d.read_settings streaming length
  write d data length _ := d.write_settings data length
  clock d := d.clockMissing_settings

theorem Driver.timestampWorker_settings (d : Driver H) :
    (timestampWorker hw d).settings = d.settings := by
  rw [timestampWorker]
  split
  · rfl
  · exact Driver.settings_eq (fsccDmaApplyTimestamps_settings hw d.rx d.card) rfl rfl rfl rfl

theorem Driver.iframeWorker_settings (d : Driver H) :
    (iframeWorker hw d).2.settings = d.settings := by
  rw [iframeWorker]
  split
  · rfl
  · exact Driver.settings_eq (fsccFifoReadData_settings hw d.rx d.card) rfl rfl rfl rfl

theorem Driver.oframeWorker_settings (d : Driver H) :
    (oframeWorker hw d).settings = d.settings := by
  rw [oframeWorker]
  split
  · rfl
  · exact Driver.settings_eq rfl (fsccIoTransmitFrame_settings hw d.tx.toTxPort d.card) rfl rfl rfl

/-! ## What the control codes set -/

variable (hw) in
theorem fsccPortSetForceFifo_settings (port : RegPort) (value : Bool) (h : H) :
    (fsccPortSetForceFifo hw port value h).2.1.settings =
      (port.channel, port.ignoreTimeout, if port.hasDma then value else port.forceFifo,
        port.hasDma) := by
  obtain ⟨channel, ignoreTimeout, forceFifo, hasDma, registerStorage⟩ := port
  cases hasDma with
  | false => cases value <;> cases forceFifo <;> rfl
  | true =>
    rw [fsccPortSetForceFifo, Bool.not_true, Bool.and_false, if_neg Bool.false_ne_true]
    by_cases hsame : forceFifo = value
    · rw [if_neg fun hchanges ↦ hchanges.1 hsame, ← hsame]
      rfl
    · rw [if_pos ⟨hsame, rfl⟩]
      exact fsccPortSetRegister_settings hw _ 2 dmaccrOffset _ h

theorem Settings.ext_option {settings settings' : Settings}
    (hoption : ∀ option, settings.option option = settings'.option option)
    (hrest : settings = { settings' with option := settings.option }) : settings = settings' := by
  rw [hrest, funext hoption]

theorem Driver.setOption_settings (d : Driver H) (value : Bool) (option : PortOption) :
    (d.setOption hw value option).2.settings = d.settings.set option value := by
  cases option with
  | forceFifo =>
    have hforce := fsccPortSetForceFifo_settings hw d.registers value d.card
    rw [Driver.setOption]
    generalize fsccPortSetForceFifo hw d.registers value d.card = result at hforce ⊢
    obtain ⟨status, registers, card⟩ := result
    simp only [RegPort.settings, Prod.mk.injEq] at hforce
    obtain ⟨hchannel, hignore, hvalue, hdma⟩ := hforce
    have hset : d.settings.set .forceFifo value = { d.settings with
        option := Function.update d.settings.option .forceFifo registers.forceFifo } := by
      rw [hvalue, Settings.set]
      cases hhas : d.registers.hasDma with
      | false =>
        rw [if_pos ⟨rfl, hhas⟩]
        exact Settings.ext_option (fun _ ↦ (congrFun (Function.update_eq_self _ _) _).symm) rfl
      | true => rw [if_neg fun h ↦ Bool.false_ne_true (h.2.symm.trans hhas), if_pos rfl]
    rw [hset]
    refine Settings.ext_option (fun option' ↦ ?_) ?_
    · cases option' with
      | ignoreTimeout => exact hignore
      | _ => rfl
    · rw [Settings.mk.injEq]
      exact ⟨rfl, rfl, hchannel, hdma, rfl, rfl, rfl⟩
  | appendStatus | appendTimestamp | rxMultiple | ignoreTimeout | waitOnWrite | blockingWrite =>
    refine Settings.ext_option (fun option' ↦ ?_) rfl
    cases option' <;> rfl

theorem mem_validTxModifiers (value : BitVec 32) : value ∈ validTxModifiers ↔ value.toNat < 6 := by
  simp [validTxModifiers, BitVec.toNat_eq]
  omega

theorem fsccPortSetTxModifiers_settings (d : Driver H) (value : BitVec 32) :
    (fsccPortSetTxModifiers d value).2.settings = d.settings.setTxModifiers value := by
  rw [fsccPortSetTxModifiers, Settings.setTxModifiers]
  by_cases hvalid : value ∈ validTxModifiers
  · rw [if_pos hvalid, if_pos ((mem_validTxModifiers value).mp hvalid)]
    rfl
  · rw [if_neg hvalid, if_neg fun hlt ↦ hvalid ((mem_validTxModifiers value).mpr hlt)]

theorem fsccIoPurgeRx_settings (d : Driver H) :
    (fsccIoPurgeRx hw d).Always fun result ↦ result.2.settings = d.settings := by
  obtain ⟨hregisters, hrx⟩ := purgeRxReset_settings hw d.rxSide d.card
  unfold fsccIoPurgeRx
  generalize purgeRxReset hw d.rxSide d.card = reset at hregisters hrx
  obtain ⟨side, card⟩ := reset
  have hccr0 := fsccPortSetRegister_settings hw side.toRegPort 0 ccr0Offset
    (d.registers.storedCcr0.setWidth 32) card
  exact fun _ ↦ Driver.settings_eq hrx (TxPort.settings_eq (hccr0.trans hregisters) rfl rfl) rfl rfl rfl

theorem Driver.onCard_settings (d : Driver H) (card : H) :
    ({ d with card } : Driver H).settings = d.settings := rfl

/-- A control code that sets no option. -/
def IoControlCode.SetsNothing : IoControlCode → Prop
  | .enable _ | .disable _ | .setTxModifiers => False
  | _ => True

theorem ioControl_settings (d : Driver H) (request : Request) {code : IoControlCode}
    (hcode : code.SetsNothing) :
    (ioControl hw d request code).Always fun result ↦ result.2.2.settings = d.settings := by
  let Keeps : Driver H → Prop := fun d' ↦ d'.settings = d.settings
  have hd : Keeps d := rfl
  cases code with
  | getRegisters => exact withInput_always hd (withOutput_always hd fun _ ↦ d.onCard_settings _)
  | setRegisters =>
    exact withInput_always hd fun buffer ↦ Driver.setRegisters_settings
      (fsccPortSetRegisters_settings hw (registersAt buffer) d.registers d.card) _
  | purgeTx =>
    exact fun _ ↦ Driver.settings_eq rfl (fsccIoPurgeTx_settings hw d.tx d.card) rfl rfl rfl
  | purgeRx => exact (fsccIoPurgeRx_settings d).bind fun _ hpurged ↦ hpurged
  | enable option | disable option => exact absurd hcode id
  | get _ => exact withOutput_always hd fun _ ↦ rfl
  | setClockBits => exact withInput_always hd fun _ _ ↦ rfl
  | setTxModifiers => exact absurd hcode id
  | getTxModifiers => exact withOutput_always hd fun _ ↦ rfl
  | trackInterrupts | unknown => exact rfl

variable (hw) in
theorem fsccEvtIoDeviceControl_settings (d : Driver H) (request : Request) (code : IoControlCode)
    (w : World) :
    (((fsccEvtIoDeviceControl hw d request code).run World.respond w).1.getD d).settings =
      d.settings.control request (w.outcomes 0).status code := by
  by_cases hcode : code.SetsNothing
  · have hsame : d.settings.control request (w.outcomes 0).status code = d.settings := by
      cases code <;> first | rfl | exact absurd hcode id
    have halways : (fsccEvtIoDeviceControl hw d request code).Always
        fun d' ↦ d'.settings = d.settings :=
      evtIoDeviceControl_always (P := fun d' ↦ d'.settings = d.settings) rfl
        (ioControl_settings d request hcode)
    rw [hsame]
    cases hrun : ((fsccEvtIoDeviceControl hw d request code).run World.respond w).1 with
    | none => rfl
    | some d' => exact halways.run hrun
  · cases code with
    | enable option => exact d.setOption_settings true option
    | disable option => exact d.setOption_settings false option
    | setTxModifiers =>
      have hmodifiers := fsccPortSetTxModifiers_settings d (Bytes.wordAt request.buffer 0)
      show Program.Post World.respond (fsccEvtIoDeviceControl hw d request .setTxModifiers)
        (fun result _ ↦ (result.getD d).settings = _) w
      rw [fsccEvtIoDeviceControl, if_neg (by decide), ioControl, withInput, Program.post_bind,
        post_retrieveInputBuffer, Settings.control]
      by_cases hfails : (w.outcomes 0).status ≠ .success
      · rw [if_pos hfails, if_pos hfails]
        rfl
      · rw [if_neg hfails, if_neg hfails]
        exact hmodifiers
    | _ => exact absurd trivial hcode

/-! ## Every run is a run of the store -/

theorem systemStep_delivered (hw : Hardware H) (s : System H) (event : SystemEvent H)
    (outcomes : Nat → Outcome) :
    (systemStep hw s (event, outcomes)).delivered =
      (event.handler hw s.driver).1.elim s.delivered fun request ↦
        if request ∈ s.delivered then s.delivered else s.delivered ++ [request] := by
  have hdelivers : ∀ request (handler : Handler (Driver H)),
      (if request ∈ s.delivered then s
        else ({ s with delivered := s.delivered ++ [request] } : System H).handle outcomes
          handler).delivered =
        if request ∈ s.delivered then s.delivered else s.delivered ++ [request] := by
    intro request handler
    split <;> rfl
  cases event with
  | evtIoRead request => exact hdelivers request _
  | evtIoWrite request => exact hdelivers request _
  | evtIoDeviceControl request code => exact hdelivers request _
  | _ => rfl

theorem OptionStore.deliver_same (store : OptionStore) (request : Request) :
    store.deliver request store.settings = ⟨store.settings,
      if request ∈ store.delivered then store.delivered else store.delivered ++ [request]⟩ := by
  rw [OptionStore.deliver]
  split <;> rfl

theorem portStep_optionStore (hw : Hardware H) (s : System H)
    (step : PortEvent H × (Nat → Outcome)) :
    (portStep hw s step).optionStore = s.optionStore.step step := by
  obtain ⟨event, outcomes⟩ := step
  have hdelivered := systemStep_delivered hw s (event.event hw s.driver) outcomes
  have hsame : ((event.event hw s.driver).handler hw s.driver).2.Always
        (fun d' ↦ d'.settings = s.driver.settings) →
      (portStep hw s (event, outcomes)).optionStore = ⟨s.driver.settings,
        ((event.event hw s.driver).handler hw s.driver).1.elim s.delivered fun request ↦
          if request ∈ s.delivered then s.delivered else s.delivered ++ [request]⟩ := by
    intro halways
    rw [System.optionStore, portStep, hdelivered,
      systemStep_driver (P := fun d ↦ d.settings = s.driver.settings) rfl halways outcomes]
  cases event with
  | evtIoRead request =>
    refine (hsame ((Program.always_true _).bind fun _ _ ↦ rfl)).trans ?_
    exact (OptionStore.deliver_same s.optionStore request).symm
  | evtIoWrite request =>
    refine (hsame (settings_handled.evtIoWrite s.driver request)).trans ?_
    exact (OptionStore.deliver_same s.optionStore request).symm
  | evtIoDeviceControl request code =>
    show System.optionStore (if request ∈ s.delivered then s
      else ({ s with delivered := s.delivered ++ [request] } : System H).handle outcomes
        (fsccEvtIoDeviceControl hw s.driver request code)) =
      if request ∈ s.delivered then s.optionStore
      else ⟨s.driver.settings.control request (outcomes 0).status code, s.delivered ++ [request]⟩
    split
    · rfl
    · rw [← fsccEvtIoDeviceControl_settings hw s.driver request code { s.world with outcomes }]
      rfl
  | isr => exact hsame rfl
  | dpc queued rounds =>
    cases queued with
    | request => exact hsame (settings_handled.requestWorker s.driver)
    | interrupt dpc =>
      cases dpc with
      | timestamp => exact hsame s.driver.timestampWorker_settings
      | processRead => exact hsame (settings_handled.processRead s.driver)
      | iframe => exact hsame s.driver.iframeWorker_settings
      | oframe => exact hsame s.driver.oframeWorker_settings
      | alls => exact hsame ((Program.always_true _).bind fun _ _ ↦ rfl)
      | isrAlert => exact hsame ((Program.always_true _).bind fun _ _ ↦ rfl)
  | cancel requests => rfl
  | hardware rxDescriptors txDescriptors card => exact hsame rfl

/-- Whatever runs on the port, its options are those of the store that has seen the same control
codes, and the rings, the channel and what the card can do stay as they are. -/
theorem fscc_port_options_refine (hw : Hardware H) (s : System H)
    (steps : List (PortEvent H × (Nat → Outcome))) :
    let s' := steps.foldl (portStep hw) s
    let store := steps.foldl OptionStore.step s.optionStore
    s'.optionStore = store ∧ ∀ option,
      s'.driver.getOption option = store.settings.get (fsccIoIsStreaming s'.driver.registers) option := by
  intro s' store
  have hrun : s'.optionStore = store :=
    (List.foldl_hom System.optionStore fun s step ↦ (portStep_optionStore hw s step).symm).symm
  refine ⟨hrun, fun option ↦ ?_⟩
  rw [← hrun]
  cases option <;> rfl

end Handlers

end FsccDriver

import FsccDriver.Registers
import FsccDriver.RxPort
import FsccDriver.TxDescs

/-!
# Purge — `fscc_io_purge_rx` and `fscc_io_purge_tx`

A purge resets the FIFO by a command, and a command needs a clock.  `ReportsPurgeRx` and
`ReportsPurgeTx` are what the returned status promises about it.
-/

namespace FsccDriver

variable {H : Type}

/-! ## The ports -/

-- `struct fscc_port` for a purge; `descPhysicalAddress` is a field of the frames.
structure RxSide extends RegPort where
  rx : RxPort
  descPhysicalAddress : Nat → BitVec 32

structure TxSide extends TxPort where
  txBytesInFrame : Nat
  txFrameSize : Nat

/-! ## Commands -/

-- Only a port that uses DMA has the DMA controller told.
def executeDma (hw : Hardware H) (command : BitVec 32) (port : RegPort) (h : H) :
    NtStatus × RegPort × H :=
  if fsccPortUsesDma port then fsccPortSetRegister hw port 2 dmaccrOffset command h
  else (.success, port, h)

def fsccDmaExecuteStopR (hw : Hardware H) : RegPort → H → NtStatus × RegPort × H :=
  executeDma hw 0x100

def fsccDmaExecuteStopT (hw : Hardware H) : RegPort → H → NtStatus × RegPort × H :=
  executeDma hw 0x200

def fsccDmaExecuteGoR (hw : Hardware H) : RegPort → H → NtStatus × RegPort × H :=
  executeDma hw 0x1

def fsccDmaExecuteRstR (hw : Hardware H) : RegPort → H → NtStatus × RegPort × H :=
  executeDma hw 0x10

def fsccDmaExecuteRstT (hw : Hardware H) : RegPort → H → NtStatus × RegPort × H :=
  executeDma hw 0x20

def rresCommand : BitVec 32 := 0x00020000
def tresCommand : BitVec 32 := 0x08000000

def fsccIoExecuteRres (hw : Hardware H) (port : RegPort) (h : H) : NtStatus × RegPort × H :=
  fsccPortSetRegister hw port 0 cmdrOffset rresCommand h

def fsccIoExecuteTres (hw : Hardware H) (port : RegPort) (h : H) : NtStatus × RegPort × H :=
  fsccPortSetRegister hw port 0 cmdrOffset tresCommand h

/-! ## Resets and purges -/

-- STOP, the command and RST; only the status of the command is kept.
def resetCommands (stop command rst : RegPort → H → NtStatus × RegPort × H) (port : RegPort) (h : H) :
    NtStatus × RegPort × H :=
  let (_, port, h) := stop port h
  let (status, port, h) := command port h
  let (_, port, h) := rst port h
  (status, port, h)

def fsccIoResetRx (hw : Hardware H) (port : RxSide) (h : H) : NtStatus × RxSide × H :=
  let (status, registers, h) := resetCommands (fsccDmaExecuteStopR hw) (fsccIoExecuteRres hw)
    (fsccDmaExecuteRstR hw) port.toRegPort h
  (status, { port with toRegPort := registers, rx := resetRx port.rx }, h)

def fsccIoResetTx (hw : Hardware H) (port : TxSide) (h : H) : NtStatus × TxSide × H :=
  let (status, registers, h) := resetCommands (fsccDmaExecuteStopT hw) (fsccIoExecuteTres hw)
    (fsccDmaExecuteRstT hw) port.toRegPort h
  let tx := { resetTx port.toTxPort with toRegPort := registers }
  (status, { toTxPort := tx, txBytesInFrame := 0, txFrameSize := 0 }, h)

def recdBit : BitVec 32 := 0x02000000

def RegPort.storedCcr0 (port : RegPort) : BitVec 64 := port.registerStorage.get 7

/-- `fscc_io_purge_rx` up to where it purges the queues. -/
def purgeRxReset (hw : Hardware H) (port : RxSide) (h : H) : RxSide × H :=
  -- enable RECD
  let (_, registers, h) := fsccPortSetRegister hw port.toRegPort 0 ccr0Offset
    (port.storedCcr0.setWidth 32 ||| recdBit) h
  let (_, port, h) := fsccIoResetRx hw { port with toRegPort := registers } h
  if fsccPortUsesDma port.toRegPort then
    let (_, registers, h) := fsccPortSetRegister hw port.toRegPort 2 dmaRxBaseOffset
      (port.descPhysicalAddress 0) h
    let (_, registers, h) := fsccDmaExecuteGoR hw registers h
    ({ port with toRegPort := registers }, h)
  else (port, h)

def fsccIoPurgeRx (hw : Hardware H) (port : RxSide) (h : H) : NtStatus × RxSide × H :=
  let origCcr0 : BitVec 32 := port.storedCcr0.setWidth 32
  let (port, h) := purgeRxReset hw port h
  -- disable RECD
  let (_, registers, h) := fsccPortSetRegister hw port.toRegPort 0 ccr0Offset origCcr0 h
  (.success, { port with toRegPort := registers }, h)

def fsccIoPurgeTx (hw : Hardware H) (port : TxSide) (h : H) : NtStatus × TxSide × H :=
  let (_, port, h) := fsccIoResetTx hw port h
  if fsccPortUsesDma port.toRegPort then
    let (_, registers, h) := fsccPortSetRegister hw port.toRegPort 2 dmaTxBaseOffset
      (port.descPhysicalAddress 0) h
    (.success, { port with toRegPort := registers }, h)
  else (.success, port, h)

/-! ## What a purge reports -/

-- A frame can be put in it, and no timestamp is recorded.
def RxFree (desc : DmaFrame) : Prop :=
  desc.control &&& descFeBit = 0 ∧ desc.control &&& descCstopBit = 0 ∧ desc.timestamp = 0

def TxFree (desc : DmaFrame) : Prop :=
  desc.control &&& descCstopBit = descCstopBit ∧ desc.timestamp = 0

/-- What was written between two logs. -/
def RegLog.since (log' log : RegLog) : List RegWrite := log'.writes.drop log.writes.length

/-- CCR0 holds what was written to it last; `reset` is what it held before any write. -/
def RegLog.ccr0 (reset : BitVec 32) (log : RegLog) : BitVec 32 :=
  (writesTo 0 ccr0Offset log.writes).getLastD reset

structure RxPurged (reset : BitVec 32) (port port' : RxSide) (log log' : RegLog) : Prop where
  written : rresCommand ∈ writesTo 0 cmdrOffset (log'.since log)
  free : ∀ i < port'.rx.rxNum, RxFree (port'.rx.rxDescriptors i)
  user : port'.rx.userRxDesc = 0
  fifo : port'.rx.fifoRxDesc = 0
  bytesInFrame : port'.rx.rxBytesInFrame = 0
  frameSize : port'.rx.rxFrameSize = 0
  hardware : log'.ccr0 reset = log.ccr0 reset
  stored : port'.storedCcr0 = port.storedCcr0

structure TxPurged (port' : TxSide) (log log' : RegLog) : Prop where
  written : tresCommand ∈ writesTo 0 cmdrOffset (log'.since log)
  free : ∀ i < port'.txNum, TxFree (port'.txDescriptors i)
  user : port'.userTxDesc = 0
  fifo : port'.fifoTxDesc = 0
  bytesInFrame : port'.txBytesInFrame = 0
  frameSize : port'.txFrameSize = 0

/-- The status of a purge says what has been done: without the command it is a timeout, and success
means that everything is reset. -/
def ReportsPurgeRx (answers : (bar offset : Nat) → RegLog → BitVec 32) (reset : BitVec 32)
    (port : RxSide) (log : RegLog) : Prop :=
  let (status, port', log') := fsccIoPurgeRx (answering answers) port log
  (rresCommand ∉ writesTo 0 cmdrOffset (log'.since log) → status = .ioTimeout) ∧
    (status = .success → RxPurged reset port port' log log')

def ReportsPurgeTx (answers : (bar offset : Nat) → RegLog → BitVec 32) (port : TxSide)
    (log : RegLog) : Prop :=
  let (status, port', log') := fsccIoPurgeTx (answering answers) port log
  (tresCommand ∉ writesTo 0 cmdrOffset (log'.since log) → status = .ioTimeout) ∧
    (status = .success → TxPurged port' log log')

/-! ## The writes of a purge -/

section Writes

variable {answers : (bar offset : Nat) → RegLog → BitVec 32} {port : RegPort} {log : RegLog}

def RegLog.append (log : RegLog) (ws : List RegWrite) : RegLog :=
  { log with writes := log.writes ++ ws }

/-- A command is given a clock: nobody asks for one, or one of the polls of STAR finds CE clear. -/
def ClockSeen (answers : (bar offset : Nat) → RegLog → BitVec 32) (port : RegPort) (log : RegLog) :
    Prop :=
  port.ignoreTimeout = true ∨
    ∃ k < 20, answers 0 starOffset { log with reads := log.reads + k } &&& ceBit = 0

instance : Decidable (ClockSeen answers port log) := inferInstanceAs (Decidable (_ ∨ _))

theorem timedOutLoop_eq_true (n : Nat) : (timedOutLoop (answering answers) port n log).1 = true ↔
    ∀ k < n, answers 0 starOffset { log with reads := log.reads + k } &&& ceBit ≠ 0 := by
  induction n generalizing log with
  | zero => exact ⟨fun _ k hk ↦ absurd hk (Nat.not_lt_zero k), fun _ ↦ rfl⟩
  | succ n ih =>
    change (if answers 0 starOffset log &&& ceBit = 0 then _ else _ : Bool × RegLog).1 = true ↔ _
    split
    next hclear =>
      exact ⟨fun h ↦ absurd h Bool.false_ne_true, fun h ↦ absurd hclear (h 0 (Nat.succ_pos n))⟩
    next hset =>
      refine ih.trans ⟨fun h k hk ↦ ?_, fun h k hk ↦ ?_⟩
      · cases k with
        | zero => exact hset
        | succ k =>
          rw [show log.reads + (k + 1) = log.reads + 1 + k by omega]
          exact h k (Nat.lt_of_succ_lt_succ hk)
      · show answers 0 starOffset { log with reads := log.reads + 1 + k } &&& ceBit ≠ 0
        rw [show log.reads + 1 + k = log.reads + (k + 1) by omega]
        exact h (k + 1) (Nat.succ_lt_succ hk)

theorem commandStalled_iff : CommandStalled (answering answers) port cmdrOffset log ↔
    ¬ ClockSeen answers port log := by
  have htimedOut : (fsccPortTimedOut (answering answers) port log).1 = true ↔ _ :=
    timedOutLoop_eq_true 20
  unfold CommandStalled ClockSeen
  rw [htimedOut]
  simp only [true_and, not_or, Bool.not_eq_true, not_exists, not_and, ne_eq]

theorem fsccPortSetRegister_plain {bar offset : Nat} (hplain : offset ≠ cmdrOffset)
    (value : BitVec 32) :
    fsccPortSetRegister (answering answers) port bar offset value log =
      (.success, storedPort port bar offset (forcedValue port bar offset value),
        log.append [⟨bar, portOffset port.channel bar offset, forcedValue port bar offset value⟩]) := by
  have hcheck : ¬ (offset = cmdrOffset ∧ port.ignoreTimeout = false) := fun h ↦ hplain h.1
  simp only [fsccPortSetRegister, if_neg hcheck, Bool.false_eq_true, if_false]
  rfl

def dmaWrites (port : RegPort) (command : BitVec 32) : List RegWrite :=
  if fsccPortUsesDma port then
    [⟨2, portOffset port.channel 2 dmaccrOffset, forcedValue port 2 dmaccrOffset command⟩]
  else []

variable (answers port log) in
theorem executeDma_run (command : BitVec 32) : executeDma (answering answers) command port log =
    (.success, port, log.append (dmaWrites port command)) := by
  unfold executeDma dmaWrites
  split
  · exact fsccPortSetRegister_plain (by decide) command
  · rw [RegLog.append, List.append_nil]

def commandWrites (answers : (bar offset : Nat) → RegLog → BitVec 32) (port : RegPort) (log : RegLog)
    (command : BitVec 32) : List RegWrite :=
  if ClockSeen answers port log then [⟨0, cmdrOffset, command⟩] else []

variable (answers port log) in
theorem command_run (command : BitVec 32) : ∃ status port' log',
    fsccPortSetRegister (answering answers) port 0 cmdrOffset command log = (status, port', log') ∧
      RegKeeps port port' ∧ log'.writes = log.writes ++ commandWrites answers port log command := by
  unfold commandWrites
  by_cases hseen : ClockSeen answers port log
  · obtain ⟨port', log', hrun, hkeeps, hwrites⟩ := fsccPortSetRegister_writes answers port log 0
      cmdrOffset command (fun h ↦ commandStalled_iff.mp h hseen)
    rw [if_pos hseen]
    exact ⟨_, port', log', hrun, hkeeps, hwrites⟩
  · rw [if_neg hseen, List.append_nil]
    exact ⟨_, _, _, fsccPortSetRegister_stalled (commandStalled_iff.mpr hseen), RegKeeps.refl port,
      timedOutLoop_writes 20⟩

/-- Writes that are no commands. -/
def NoCommands (ws : List RegWrite) : Prop := ∀ write ∈ ws, ¬ (write.bar = 0 ∧ write.offset = cmdrOffset)

theorem noCommands_one {write : RegWrite} (h : write.bar ≠ 0 ∨ write.offset ≠ cmdrOffset) :
    NoCommands [write] := by
  intro write' hmem
  rw [List.mem_singleton.mp hmem]
  exact fun hcommand ↦ h.elim (fun h ↦ h hcommand.1) (fun h ↦ h hcommand.2)

theorem noCommands_ccr0 (value : BitVec 32) : NoCommands [⟨0, ccr0Offset, value⟩] :=
  noCommands_one (Or.inr (show ccr0Offset ≠ cmdrOffset by decide))

theorem noCommands_bar2 (offset : Nat) (value : BitVec 32) : NoCommands [⟨2, offset, value⟩] :=
  noCommands_one (Or.inl (show (2 : Nat) ≠ 0 by decide))

theorem dmaWrites_noCommands (port : RegPort) (command : BitVec 32) :
    NoCommands (dmaWrites port command) := by
  unfold dmaWrites
  split
  · exact noCommands_bar2 _ _
  · exact fun write hmem ↦ absurd hmem List.not_mem_nil

variable (answers) in
theorem bar2_run (port : RegPort) (log : RegLog) {offset : Nat} (hplain : offset ≠ cmdrOffset)
    (value : BitVec 32) : ∃ port' log' ws,
    fsccPortSetRegister (answering answers) port 2 offset value log = (.success, port', log') ∧
      NoCommands ws ∧ log'.writes = log.writes ++ ws :=
  ⟨_, _, _, fsccPortSetRegister_plain hplain value, noCommands_bar2 _ _, rfl⟩

theorem NoCommands.append {ws ws' : List RegWrite} (h : NoCommands ws) (h' : NoCommands ws') :
    NoCommands (ws ++ ws') := by
  intro write hmem
  rcases List.mem_append.mp hmem with hleft | hright
  · exact h write hleft
  · exact h' write hright

/-- The command is among the writes exactly when it found a clock. -/
theorem command_written_iff {pre post : List RegWrite} {log log' : RegLog} {command : BitVec 32}
    (hpre : NoCommands pre) (hpost : NoCommands post) {log₁ : RegLog}
    (hwrites : log'.writes =
      log.writes ++ (pre ++ commandWrites answers port log₁ command ++ post)) :
    command ∈ writesTo 0 cmdrOffset (log'.since log) ↔ ClockSeen answers port log₁ := by
  rw [RegLog.since, hwrites, List.drop_left, writesTo_append, writesTo_append,
    writesTo_eq_nil hpre, writesTo_eq_nil hpost, List.append_nil, List.nil_append, commandWrites]
  split
  next hseen => exact ⟨fun _ ↦ hseen, fun _ ↦ List.mem_singleton.mpr rfl⟩
  next hstalled => exact ⟨fun h ↦ absurd h List.not_mem_nil, fun h ↦ absurd h hstalled⟩

theorem ClockSeen.keeps {port' : RegPort} (h : RegKeeps port port') :
    ClockSeen answers port' log ↔ ClockSeen answers port log := by
  unfold ClockSeen
  rw [h.ignoreTimeout]

variable (answers port log) in
theorem resetCommands_run (stop command rst : BitVec 32) : ∃ status port' log' post,
    resetCommands (executeDma (answering answers) stop)
        (fun port h ↦ fsccPortSetRegister (answering answers) port 0 cmdrOffset command h)
        (executeDma (answering answers) rst) port log = (status, port', log') ∧
      RegKeeps port port' ∧ NoCommands post ∧
      log'.writes = log.writes ++ (dmaWrites port stop ++
        commandWrites answers port (log.append (dmaWrites port stop)) command ++ post) := by
  obtain ⟨status, port', log', hrun, hkeeps, hwrites⟩ :=
    command_run answers port (log.append (dmaWrites port stop)) command
  refine ⟨status, port', log'.append (dmaWrites port' rst), dmaWrites port' rst, ?_, hkeeps,
    dmaWrites_noCommands port' rst, ?_⟩
  · rw [resetCommands, executeDma_run]
    dsimp only
    rw [hrun]
    dsimp only
    rw [executeDma_run]
  · show log'.writes ++ _ = _
    rw [hwrites, RegLog.append, List.append_assoc, List.append_assoc, List.append_assoc]

end Writes

/-! ## The two purges -/

section Purges

variable {answers : (bar offset : Nat) → RegLog → BitVec 32} {log : RegLog}

/-- The log when `fscc_io_purge_rx` polls STAR for its command. -/
def rxPollLog (port : RxSide) (log : RegLog) : RegLog :=
  (log.append [⟨0, ccr0Offset, port.storedCcr0.setWidth 32 ||| recdBit⟩]).append
    (dmaWrites port.toRegPort 0x100)

def txPollLog (port : TxSide) (log : RegLog) : RegLog := log.append (dmaWrites port.toRegPort 0x200)

-- The stored CCR0 is what CCR0 holds.
def Ccr0Mirrored (reset : BitVec 32) (port : RegPort) (log : RegLog) : Prop :=
  port.storedCcr0 = (log.ccr0 reset).setWidth 64

theorem storedPort_ccr0 (port : RegPort) (value : BitVec 32) :
    (storedPort port 0 ccr0Offset value).storedCcr0 = value.setWidth 64 := by
  have hlength : 7 < port.registerStorage.fields.length := by
    rw [port.registerStorage.length_fields]
    decide
  show (port.registerStorage.fields.set 7 (value.setWidth 64)).getD 7 0 = _
  rw [List.getD_eq_getElem _ _ (by rwa [List.length_set]), List.getElem_set_self]

theorem dmaWrites_keeps {port port' : RegPort} (h : RegKeeps port port') (command : BitVec 32) :
    dmaWrites port' command = dmaWrites port command := by
  unfold dmaWrites forcedValue
  rw [h.usesDma, h.channel]

theorem commandWrites_keeps {port port' : RegPort} (h : RegKeeps port port') (log : RegLog)
    (command : BitVec 32) :
    commandWrites answers port' log command = commandWrites answers port log command := by
  unfold commandWrites
  exact if_congr (ClockSeen.keeps h) rfl rfl

variable (answers log) in
theorem fsccIoResetRx_run (port : RxSide) : ∃ status registers log' post,
    fsccIoResetRx (answering answers) port log =
        (status, { port with toRegPort := registers, rx := resetRx port.rx }, log') ∧
      RegKeeps port.toRegPort registers ∧ NoCommands post ∧
      log'.writes = log.writes ++ (dmaWrites port.toRegPort 0x100 ++
        commandWrites answers port.toRegPort (log.append (dmaWrites port.toRegPort 0x100))
          rresCommand ++ post) := by
  obtain ⟨status, registers, log', post, hrun, hafter⟩ :=
    resetCommands_run answers port.toRegPort log 0x100 rresCommand 0x10
  refine ⟨status, registers, log', post, ?_, hafter⟩
  have hcommands : resetCommands (fsccDmaExecuteStopR (answering answers))
      (fsccIoExecuteRres (answering answers)) (fsccDmaExecuteRstR (answering answers))
      port.toRegPort log = (status, registers, log') := hrun
  rw [fsccIoResetRx, hcommands]

variable (answers log) in
theorem purgeRxReset_run (port : RxSide) : ∃ port' log' pre post,
    purgeRxReset (answering answers) port log = (port', log') ∧
      port'.rx = resetRx port.rx ∧ NoCommands pre ∧ NoCommands post ∧
      log'.writes = log.writes ++
        (pre ++ commandWrites answers port.toRegPort (rxPollLog port log) rresCommand ++ post) := by
  have hkeeps := storedPort_keeps port.toRegPort 0 ccr0Offset
    (port.storedCcr0.setWidth 32 ||| recdBit)
  obtain ⟨status, registers, log₂, post, hreset, -, hpost, hwrites⟩ :=
    fsccIoResetRx_run answers (log.append [⟨0, ccr0Offset, port.storedCcr0.setWidth 32 ||| recdBit⟩])
      { port with
        toRegPort :=
          storedPort port.toRegPort 0 ccr0Offset (port.storedCcr0.setWidth 32 ||| recdBit) }
  rw [dmaWrites_keeps hkeeps, commandWrites_keeps hkeeps] at hwrites
  let pre : List RegWrite := ⟨0, ccr0Offset, port.storedCcr0.setWidth 32 ||| recdBit⟩ ::
    dmaWrites port.toRegPort 0x100
  have hpre : NoCommands pre :=
    (noCommands_ccr0 _).append (dmaWrites_noCommands port.toRegPort 0x100)
  have hwrites' : log₂.writes = log.writes ++
      (pre ++ commandWrites answers port.toRegPort (rxPollLog port log) rresCommand ++ post) := by
    rw [hwrites]
    exact List.append_assoc log.writes [_] _
  rw [purgeRxReset, fsccPortSetRegister_plain (by decide), forcedValue_bar0]
  dsimp only
  rw [show portOffset port.channel 0 ccr0Offset = ccr0Offset from rfl, hreset]
  dsimp only
  split
  · obtain ⟨registers', log₃, base, hbase, hbaseNone, hwrites₃⟩ := bar2_run answers registers
      log₂ (by decide : dmaRxBaseOffset ≠ cmdrOffset) (port.descPhysicalAddress 0)
    rw [hbase]
    dsimp only
    rw [fsccDmaExecuteGoR, executeDma_run]
    refine ⟨_, _, pre, post ++ (base ++ dmaWrites registers' 0x1), rfl, rfl, hpre,
      hpost.append (hbaseNone.append (dmaWrites_noCommands registers' 0x1)), ?_⟩
    show log₃.writes ++ _ = _
    rw [hwrites₃, hwrites']
    simp only [List.append_assoc]
  · exact ⟨_, log₂, pre, post, rfl, rfl, hpre, hpost, hwrites'⟩

variable (answers log) in
theorem fsccIoPurgeRx_run (port : RxSide) : ∃ port' log' pre post,
    fsccIoPurgeRx (answering answers) port log = (.success, port', log') ∧
      port'.rx = resetRx port.rx ∧
      port'.storedCcr0 = (port.storedCcr0.setWidth 32).setWidth 64 ∧
      NoCommands pre ∧ NoCommands post ∧
      log'.writes = log.writes ++ (pre ++
        commandWrites answers port.toRegPort (rxPollLog port log) rresCommand ++
          (post ++ [⟨0, ccr0Offset, port.storedCcr0.setWidth 32⟩])) := by
  obtain ⟨port', log', pre, post, hrun, hrx, hpre, hpost, hwrites⟩ := purgeRxReset_run answers log port
  rw [fsccIoPurgeRx, hrun]
  dsimp only
  rw [fsccPortSetRegister_plain (by decide), forcedValue_bar0]
  refine ⟨_, _, pre, post, rfl, hrx, storedPort_ccr0 _ _, hpre, hpost, ?_⟩
  show log'.writes ++ [_] = _
  rw [hwrites]
  simp only [List.append_assoc]
  rfl

variable (answers log) in
theorem fsccIoPurgeTx_run (port : TxSide) : ∃ port' log' post,
    fsccIoPurgeTx (answering answers) port log = (.success, port', log') ∧
      port'.txNum = port.txNum ∧ port'.txDescriptors = (resetTx port.toTxPort).txDescriptors ∧
      port'.userTxDesc = 0 ∧ port'.fifoTxDesc = 0 ∧ port'.txBytesInFrame = 0 ∧
      port'.txFrameSize = 0 ∧ NoCommands post ∧
      log'.writes = log.writes ++ (dmaWrites port.toRegPort 0x200 ++
        commandWrites answers port.toRegPort (txPollLog port log) tresCommand ++ post) := by
  obtain ⟨status, registers, log', post, hrun, -, hpost, hwrites⟩ :=
    resetCommands_run answers port.toRegPort log 0x200 tresCommand 0x20
  have hcommands : resetCommands (fsccDmaExecuteStopT (answering answers))
      (fsccIoExecuteTres (answering answers)) (fsccDmaExecuteRstT (answering answers))
      port.toRegPort log = (status, registers, log') := hrun
  rw [fsccIoPurgeTx, fsccIoResetTx, hcommands]
  dsimp only
  split
  · obtain ⟨registers', log₂, base, hbase, hbaseNone, hwrites₂⟩ := bar2_run answers registers
      log' (by decide : dmaTxBaseOffset ≠ cmdrOffset) (port.descPhysicalAddress 0)
    rw [show (resetTx port.toTxPort).descPhysicalAddress 0 = port.descPhysicalAddress 0 from rfl,
      hbase]
    refine ⟨_, _, post ++ base, rfl, rfl, rfl, rfl, rfl, rfl, rfl, hpost.append hbaseNone, ?_⟩
    show log₂.writes = _
    rw [hwrites₂, hwrites]
    simp only [List.append_assoc]
    rfl
  · exact ⟨_, log', post, rfl, rfl, rfl, rfl, rfl, rfl, rfl, hpost, hwrites⟩

theorem ccr0_append {reset : BitVec 32} {write : RegWrite}
    (h : ¬ (write.bar = 0 ∧ write.offset = ccr0Offset)) :
    (log.append [write]).ccr0 reset = log.ccr0 reset := by
  have hnone : writesTo 0 ccr0Offset [write] = [] := by
    apply writesTo_eq_nil
    intro write' hmem
    rwa [List.mem_singleton.mp hmem]
  rw [RegLog.ccr0, RegLog.append, writesTo_append, hnone, List.append_nil]
  rfl

theorem storedPort_other (port : RegPort) {bar offset : Nat} (value : BitVec 32)
    (haligned : offset % 4 = 0) (h : ¬ (bar = 0 ∧ offset = ccr0Offset)) :
    (storedPort port bar offset value).storedCcr0 = port.storedCcr0 := by
  have hset : ∀ i, i ≠ 7 → (port.registerStorage.set i (value.setWidth 64)).get 7 =
      port.registerStorage.get 7 := by
    intro i hi
    show (port.registerStorage.fields.set i _).getD 7 0 = port.registerStorage.fields.getD 7 0
    rw [List.getD_eq_getElem?_getD, List.getElem?_set_ne hi, ← List.getD_eq_getElem?_getD]
  unfold storedPort
  split
  next hbar =>
    apply hset
    intro hindex
    refine h ⟨hbar, ?_⟩
    show offset = 28
    omega
  · split
    · exact hset 23 (by decide)
    · rfl

theorem ccr0_of_last {reset value : BitVec 32} {ws : List RegWrite}
    (h : log.writes = ws ++ [⟨0, ccr0Offset, value⟩]) : log.ccr0 reset = value := by
  rw [RegLog.ccr0, h, writesTo_append]
  exact List.getLastD_concat

/-- Every register goes through `fscc_port_set_register`, which keeps the stored CCR0 right. -/
theorem Ccr0Mirrored.setRegister {reset : BitVec 32} {port : RegPort}
    (h : Ccr0Mirrored reset port log) (bar : Nat) {offset : Nat} (haligned : offset % 4 = 0)
    (value : BitVec 32) :
    let after := fsccPortSetRegister (answering answers) port bar offset value log
    Ccr0Mirrored reset after.2.1 after.2.2 := by
  obtain ⟨stalled, log₁, hpoll, hsame⟩ : ∃ stalled log₁,
      (if offset = cmdrOffset ∧ port.ignoreTimeout = false then
        fsccPortTimedOut (answering answers) port log else (false, log)) = (stalled, log₁) ∧
      log₁.writes = log.writes := by
    split
    · exact ⟨_, _, rfl, timedOutLoop_writes 20⟩
    · exact ⟨_, _, rfl, rfl⟩
  have h₁ : Ccr0Mirrored reset port log₁ := by
    unfold Ccr0Mirrored RegLog.ccr0
    rw [hsame]
    exact h
  rw [fsccPortSetRegister, hpoll]
  cases stalled with
  | true => exact h₁
  | false =>
    show Ccr0Mirrored reset (storedPort port bar offset _) (log₁.append [_])
    by_cases hccr0 : bar = 0 ∧ offset = ccr0Offset
    · obtain ⟨rfl, rfl⟩ := hccr0
      rw [Ccr0Mirrored, storedPort_ccr0]
      exact congrArg _ (ccr0_of_last rfl).symm
    · rw [Ccr0Mirrored, storedPort_other port _ haligned hccr0, show port.storedCcr0 = _ from h₁]
      refine congrArg _ (ccr0_append ?_).symm
      rintro ⟨hbar, hoffset⟩
      rw [show bar = 0 from hbar] at hoffset
      exact hccr0 ⟨hbar, hoffset⟩

theorem resetRx_free (port : RxPort) {i : Nat} (hi : i < port.rxNum) :
    RxFree ((resetRx port).rxDescriptors i) := by
  rw [show (resetRx port).rxDescriptors i = resetRxDesc (port.rxDescriptors i) from if_pos hi]
  exact ⟨show descHiBit &&& descFeBit = 0 by decide,
    show descHiBit &&& descCstopBit = 0 by decide, rfl⟩

theorem reportsPurgeRx_iff (reset : BitVec 32) (port : RxSide) :
    ReportsPurgeRx answers reset port log ↔
      ClockSeen answers port.toRegPort (rxPollLog port log) ∧
        Ccr0Mirrored reset port.toRegPort log := by
  obtain ⟨port', log', pre, post, hrun, hrx, hstored, hpre, hpost, hwrites⟩ :=
    fsccIoPurgeRx_run answers log port
  have hwritten : rresCommand ∈ writesTo 0 cmdrOffset (log'.since log) ↔ _ :=
    command_written_iff hpre (hpost.append (noCommands_ccr0 _)) hwrites
  have hccr0 : log'.ccr0 reset = port.storedCcr0.setWidth 32 := by
    apply ccr0_of_last
    rw [hwrites, ← List.append_assoc, ← List.append_assoc]
  unfold ReportsPurgeRx
  rw [hrun]
  dsimp only
  constructor
  · rintro ⟨-, hsuccess⟩
    have hpurged := hsuccess rfl
    refine ⟨hwritten.mp hpurged.written, ?_⟩
    have hsame := hpurged.hardware
    rw [hccr0] at hsame
    have hkept := hpurged.stored
    rw [hstored, hsame] at hkept
    exact hkept.symm
  · rintro ⟨hseen, hmirrored⟩
    rw [Ccr0Mirrored] at hmirrored
    have hlow : port.storedCcr0.setWidth 32 = log.ccr0 reset := by
      rw [show port.storedCcr0 = _ from hmirrored]
      exact BitVec.setWidth_setWidth_of_le _ (by decide)
    refine ⟨fun hmissing ↦ absurd (hwritten.mpr hseen) hmissing, fun _ ↦ ?_⟩
    constructor
    case written => exact hwritten.mpr hseen
    case free =>
      rw [hrx]
      exact fun i hi ↦ resetRx_free port.rx hi
    case user => rw [hrx]; rfl
    case fifo => rw [hrx]; rfl
    case bytesInFrame => rw [hrx]; rfl
    case frameSize => rw [hrx]; rfl
    case hardware => rw [hccr0, hlow]
    case stored => rw [hstored, hlow, show port.storedCcr0 = _ from hmirrored]

theorem reportsPurgeTx_iff (port : TxSide) : ReportsPurgeTx answers port log ↔
    ClockSeen answers port.toRegPort (txPollLog port log) := by
  obtain ⟨port', log', post, hrun, hnum, hdescs, huser, hfifo, hbytes, hsize, hpost, hwrites⟩ :=
    fsccIoPurgeTx_run answers log port
  have hwritten : tresCommand ∈ writesTo 0 cmdrOffset (log'.since log) ↔ _ :=
    command_written_iff (dmaWrites_noCommands port.toRegPort 0x200) hpost hwrites
  unfold ReportsPurgeTx
  rw [hrun]
  dsimp only
  constructor
  · rintro ⟨-, hsuccess⟩
    exact hwritten.mp (hsuccess rfl).written
  · intro hseen
    refine ⟨fun hmissing ↦ absurd (hwritten.mpr hseen) hmissing, fun _ ↦ ?_⟩
    refine ⟨hwritten.mpr hseen, fun i hi ↦ ?_, huser, hfifo, hbytes, hsize⟩
    rw [hnum] at hi
    rw [hdescs, show (resetTx port.toTxPort).txDescriptors i =
      resetTxDesc (port.txDescriptors i) from if_pos hi]
    exact ⟨show descCstopBit &&& descCstopBit = descCstopBit by decide, rfl⟩

/-- A purge reports what it did if and only if its command is given a clock; the receive purge also
puts CCR0 back where it was exactly when the stored copy was right. -/
theorem fscc_io_purge_reports_iff (answers : (bar offset : Nat) → RegLog → BitVec 32)
    (reset : BitVec 32) (rx : RxSide) (tx : TxSide) (log : RegLog) :
    (ReportsPurgeRx answers reset rx log ↔
      ClockSeen answers rx.toRegPort (rxPollLog rx log) ∧ Ccr0Mirrored reset rx.toRegPort log) ∧
    (ReportsPurgeTx answers tx log ↔ ClockSeen answers tx.toRegPort (txPollLog tx log)) :=
  ⟨reportsPurgeRx_iff reset rx, reportsPurgeTx_iff tx⟩

end Purges

/-! ### A port without a clock -/

-- Two descriptors, FIFO mode, every stored register 0.
def clocklessPort : RxSide where
  channel := 0
  ignoreTimeout := false
  forceFifo := true
  hasDma := false
  registerStorage := ⟨List.replicate 30 0, rfl⟩
  rx :=
    { channel := 0, appendStatus := false, appendTimestamp := false, rxMultiple := false
      rxNum := 2, rxDescriptors := fun _ ↦ ⟨descFeBit + descCstopBit + 3, 4, 4, [1, 2, 3, 0], 9⟩
      userRxDesc := 0, fifoRxDesc := 0, rxBytesInFrame := 0, rxFrameSize := 0 }
  descPhysicalAddress := fun _ ↦ 0

-- CE is set at every poll: RRES is not written, and the purge reports success.
theorem fscc_io_purge_rx_hides_timeout :
    ¬ ∀ (answers : (bar offset : Nat) → RegLog → BitVec 32) (reset : BitVec 32) (port : RxSide)
      (log : RegLog), ReportsPurgeRx answers reset port log := by
  intro hclaim
  have hreports := (hclaim (fun _ _ _ ↦ ceBit) 0 clocklessPort ⟨[], 0⟩).1
  exact absurd (hreports (by decide)) (by decide)

end FsccDriver

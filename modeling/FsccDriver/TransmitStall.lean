import FsccDriver.RingShapes

/-!
# TransmitStall — when an idle transmitter moves on

`fscc_io_create_tx`, the runs of the transmit ring from there, and what the first round of
`fscc_fifo_write_data` needs while the hardware FIFO is empty.
-/

namespace FsccDriver

open Words

/-! ## `fscc_io_create_tx` -/

-- How the allocations turn out: the array, and for each frame the physical address of its descriptor
-- if there was memory for it.
structure TxPool where
  array : Bool
  frame : Nat → Option (BitVec 32)

/-- A frame of `fscc_io_create_frame`, its memory zeroed. -/
def fsccIoCreateFrame (sizeOfBuffer : Nat) : DmaFrame where
  control := 0
  dataCount := 0
  dataSize := sizeOfBuffer
  buffer := List.replicate sizeOfBuffer 0
  timestamp := 0

-- The loop stops early at the first frame it cannot have.
def createTxLoop (pool : TxPool) (sizeOfBuffers : Nat) : Nat → (i : Nat) → TxPort → TxPort
  | 0, i, port => { port with txNum := i }
  | n + 1, i, port =>
      match pool.frame i with
      | none => { port with txNum := i }
      | some address =>
          let frame := { fsccIoCreateFrame sizeOfBuffers with
            control := if i % 2 ≠ 0 then descHiBit else 0 }
          createTxLoop pool sizeOfBuffers n (i + 1) { port with
            txDescriptors := Function.update port.txDescriptors i frame
            descPhysicalAddress := Function.update port.descPhysicalAddress i address }

/-- The status of `fscc_io_create_tx`, `memory.tx_size` and the port behind the call. -/
def fsccIoCreateTx (pool : TxPool) (port : TxPort) (numberOfBuffers sizeOfBuffers : BitVec 32) :
    NtStatus × Nat × TxPort :=
  let number := if numberOfBuffers.toNat < 2 then 2 else numberOfBuffers.toNat
  let size :=
    if sizeOfBuffers.toNat % 4 ≠ 0 then
      u32 ((sizeOfBuffers.toNat : Int) + (4 - sizeOfBuffers.toNat % 4 : Nat))
    else sizeOfBuffers.toNat
  if pool.array then (.success, size, createTxLoop pool size number 0 port)
  else (.failed, 0, { port with txNum := 0 })

/-! ## Runs -/

-- A purge leaves any trace of writes at all.
inductive StallAction where
  | userWriteFrame (buf : List Byte) (dataLength : BitVec 32)
  | fifoWriteData
  | purgeTx (log : RegLog)

structure StallState where
  port : TxPort
  log : RegLog

def stallStep (answers : (bar offset : Nat) → RegLog → BitVec 32) (s : StallState) :
    StallAction → StallState
  | .userWriteFrame buf dataLength =>
      let (_, port, log) :=
        fsccUserWriteFrame (answering answers) buf dataLength.toNat s.port s.log
      ⟨port, log⟩
  | .fifoWriteData =>
      let (_, port, log) := fsccFifoWriteData (answering answers) s.port s.log
      ⟨port, log⟩
  | .purgeTx log => ⟨resetTx s.port, log⟩

/-- The driver purges a port before it is used. -/
def stallStart (pool : TxPool) (port : TxPort) (number size : BitVec 32) (log : RegLog) :
    StallState :=
  ⟨resetTx (fsccIoCreateTx pool port number size).2.2, log⟩

def StallAction.Short : StallAction → Prop
  | .userWriteFrame _ dataLength => dataLength.toNat < 1073741824
  | .fifoWriteData | .purgeTx _ => True

variable {answers : (bar offset : Nat) → RegLog → BitVec 32} {s : StallState}

variable (answers) in
theorem stallStep_shape {action : StallAction} (hshort : action.Short)
    (h : ∃ waiting, TxShape waiting s.port) :
    ∃ waiting, TxShape waiting (stallStep answers s action).port := by
  cases action with
  | userWriteFrame buf dataLength =>
    have hring : ∃ waiting, TxShape waiting
        (fsccUserWriteFrame (answering answers) buf dataLength.toNat s.port s.log).2.1 :=
      fsccUserWriteFrame_shape h hshort s.log
    exact hring
  | fifoWriteData =>
    have hring : ∃ waiting, TxShape waiting
        (fsccFifoWriteData (answering answers) s.port s.log).2.1 :=
      fsccFifoWriteData_shape h s.log
    exact hring
  | purgeTx log =>
    obtain ⟨waiting, hring⟩ := h
    exact ⟨[], resetTx_shape (Nat.lt_of_le_of_lt (Nat.zero_le _) hring.holds.origin_lt)⟩

-- Without any frame there is nothing to write to and nothing to send.
theorem fsccUserWriteFrame_none {H : Type} (hw : Hardware H) (buf : List Byte) (dataLength : Nat)
    {port : TxPort} (hnone : port.txNum = 0) (card : H) :
    (fsccUserWriteFrame hw buf dataLength port card).2.1.txNum = 0 := by
  rw [fsccUserWriteFrame, hnone, writeFrameLoop]
  dsimp only
  split
  · split
    · exact hnone
    · exact hnone
  · exact hnone

theorem fsccFifoWriteData_none {H : Type} (hw : Hardware H) {port : TxPort} (hnone : port.txNum = 0)
    (card : H) : (fsccFifoWriteData hw port card).2.1.txNum = 0 := by
  rw [fsccFifoWriteData]
  dsimp only
  split
  · exact hnone
  split
  · exact hnone
  rw [hnone, writeDataLoop]
  exact hnone

variable (answers) in
theorem stallStep_none (action : StallAction) (hnone : s.port.txNum = 0) :
    (stallStep answers s action).port.txNum = 0 := by
  cases action with
  | userWriteFrame buf dataLength =>
    exact fsccUserWriteFrame_none (answering answers) buf dataLength.toNat hnone s.log
  | fifoWriteData => exact fsccFifoWriteData_none (answering answers) hnone s.log
  | purgeTx log => exact hnone

theorem stallStart_shape (pool : TxPool) (port : TxPort) (number size : BitVec 32) (log : RegLog) :
    (stallStart pool port number size log).port.txNum = 0 ∨
      ∃ waiting, TxShape waiting (stallStart pool port number size log).port := by
  rcases Nat.eq_zero_or_pos (fsccIoCreateTx pool port number size).2.2.txNum with hnone | hpos
  · exact Or.inl hnone
  · exact Or.inr ⟨[], resetTx_shape hpos⟩

variable (answers) in
theorem stall_run_shape {actions : List StallAction} (hshort : ∀ action ∈ actions, action.Short)
    (h : s.port.txNum = 0 ∨ ∃ waiting, TxShape waiting s.port) :
    (actions.foldl (stallStep answers) s).port.txNum = 0 ∨
      ∃ waiting, TxShape waiting (actions.foldl (stallStep answers) s).port := by
  induction actions generalizing s with
  | nil => exact h
  | cons action actions ih =>
    rw [List.forall_mem_cons] at hshort
    apply ih hshort.2
    exact h.imp (stallStep_none answers action) (stallStep_shape answers hshort.1)

theorem TxShape.head_pending {port : TxPort} {waiting : List DmaFrame} (h : TxShape waiting port)
    {i : Nat} (hi : i < port.txNum)
    (hpending : ¬ (port.txDescriptors i).control &&& descCstopBit = descCstopBit) :
    ¬ port.fifoDesc.control &&& descCstopBit = descCstopBit := by
  cases waiting with
  | nil =>
    rcases h.holds.cases_slot hi with ⟨k, hk, -⟩ | ⟨-, -, hsent⟩ | hsent
    · exact absurd hk (Nat.not_lt_zero k)
    · exact absurd hsent.cstop hpending
    · exact absurd hsent.cstop hpending
  | cons desc rest => exact h.holds.head.not_cstop

/-! ## The first round -/

/-- The words a descriptor makes. -/
def descWords (desc : DmaFrame) : List (BitVec 32) :=
  if 0 < desc.dataCount then setRegisterRepWords desc.buffer desc.dataCount else []

/-- The descriptor at `fifo_tx_desc` is free behind the call, and its words were the first ones
written. -/
structure PushesHead (port : TxPort) (log : RegLog) (port' : TxPort) (log' : RegLog) : Prop where
  pending : ¬ port.fifoDesc.control &&& descCstopBit = descCstopBit
  freed : (port'.txDescriptors port.fifoTxDesc).control = descCstopBit
  words : log.writes ++ fifoWrites (descWords port.fifoDesc) <+: log'.writes

variable (answers) in
theorem fsccPortSetRegisterRep_descWords (channel : Nat) (desc : DmaFrame) (log : RegLog) :
    (fsccPortSetRegisterRep (answering answers) channel 0 fifoOffset desc.buffer desc.dataCount
      log).writes = log.writes ++ fifoWrites (descWords desc) := by
  by_cases hpos : 0 < desc.dataCount
  · rw [fsccPortSetRegisterRep_writes channel desc.buffer hpos, descWords, if_pos hpos]
  · rw [fsccPortSetRegisterRep, if_neg hpos, descWords, if_neg hpos]
    exact (List.append_nil _).symm

section Loop

variable {st : WriteDataLoop} {tfcnt i : Nat} {log : RegLog}

/-- What no later round undoes. -/
structure HasPushed (i : Nat) (writes : List RegWrite) (st : WriteDataLoop) (log : RegLog) : Prop where
  written : st.dataWritten = 1
  freed : (st.port.txDescriptors i).control = descCstopBit
  words : writes <+: log.writes

variable (answers tfcnt) in
theorem HasPushed.step {writes : List RegWrite} (h : HasPushed i writes st log) :
    HasPushed i writes (writeDataStep (answering answers) tfcnt st log).2.1
      (writeDataStep (answering answers) tfcnt st log).2.2 := by
  rw [writeDataStep]
  by_cases hfree : st.port.fifoDesc.control &&& descCstopBit = descCstopBit
  · rw [if_pos hfree]
    exact h
  rw [if_neg hfree]
  split
  · exact h
  split
  · exact h
  have hne : i ≠ st.port.fifoTxDesc := by
    rintro rfl
    apply hfree
    rw [TxPort.fifoDesc, h.freed]
    decide
  refine ⟨rfl, ?_, ?_⟩
  · show (Function.update st.port.txDescriptors st.port.fifoTxDesc _ i).control = descCstopBit
    rw [Function.update_of_ne hne]
    exact h.freed
  · dsimp only
    rw [fsccPortSetRegisterRep_descWords]
    exact h.words.trans (List.prefix_append _ _)

variable (answers tfcnt) in
theorem HasPushed.loop {writes : List RegWrite} (n : Nat) (h : HasPushed i writes st log) :
    HasPushed i writes (writeDataLoop (answering answers) tfcnt n st log).1
      (writeDataLoop (answering answers) tfcnt n st log).2 := by
  induction n generalizing st log with
  | zero => exact h
  | succ n ih =>
    have hnext := h.step answers tfcnt
    rw [writeDataLoop]
    generalize writeDataStep (answering answers) tfcnt st log = round at hnext
    obtain ⟨again, st', log'⟩ := round
    cases again with
    | false => exact hnext
    | true => exact ih hnext

end Loop

section Call

variable {port : TxPort} {log : RegLog} {tfcnt : Nat}

-- The first round pushes the descriptor at `fifo_tx_desc`, if that is pending and fits.
theorem writeDataStep_head {space : Nat}
    (hpending : ¬ port.fifoDesc.control &&& descCstopBit = descCstopBit)
    (hfits : sizeInFifo port.fifoDesc.dataCount ≤ space) (htfcnt : tfcnt = 0) :
    ∃ st log', writeDataStep (answering answers) tfcnt ⟨port, space, 0, 0⟩ log = (true, st, log') ∧
      HasPushed port.fifoTxDesc (log.writes ++ fifoWrites (descWords port.fifoDesc)) st log' := by
  have hidle : ¬ (port.fifoDesc.control &&& descFeBit = descFeBit ∧ (tfcnt > 255 ∨ 0 ≠ 0)) := by
    rw [htfcnt]
    rintro ⟨-, h | h⟩
    · exact absurd h (by decide)
    · exact h rfl
  rw [writeDataStep, if_neg hpending, if_neg (Nat.not_lt.mpr hfits), if_neg hidle]
  refine ⟨_, _, rfl, rfl, ?_, ?_⟩
  · exact congrArg DmaFrame.control (Function.update_self port.fifoTxDesc _ port.txDescriptors)
  · have hwords := fsccPortSetRegisterRep_descWords answers port.channel port.fifoDesc log
    exact ⟨[], (List.append_nil _).trans hwords.symm⟩

theorem writeDataStep_blocked {space : Nat}
    (h : ¬ (¬ port.fifoDesc.control &&& descCstopBit = descCstopBit ∧
      sizeInFifo port.fifoDesc.dataCount ≤ space)) :
    writeDataStep (answering answers) tfcnt ⟨port, space, 0, 0⟩ log =
      (false, ⟨port, space, 0, 0⟩, log) := by
  by_cases hfree : port.fifoDesc.control &&& descCstopBit = descCstopBit
  · rw [writeDataStep, if_pos hfree]
  · have hroom : space < sizeInFifo port.fifoDesc.dataCount :=
      Nat.lt_of_not_le fun hle ↦ h ⟨hfree, hle⟩
    rw [writeDataStep, if_neg hfree, if_pos hroom]

theorem fifoSpace_empty : fifoSpace 0 = 4092 := by decide

-- With an empty FIFO the call comes to its loop.
theorem fsccFifoWriteData_empty
    (htfcnt : (fsccIoGetTFCNT (answering answers) port log).1 = 0)
    (htxcnt : txcntRead (answering answers) port log = 0) :
    ∃ log₁, log₁.writes = log.writes ∧ fsccFifoWriteData (answering answers) port log =
      let (st, log₂) := writeDataLoop (answering answers) 0 port.txNum ⟨port, 4092, 0, 0⟩ log₁
      if st.frameSize ≠ 0 then
        let (port, log₃) := st.port.setRegister (answering answers) 0 bcFifoLOffset
          (BitVec.ofNat 32 st.frameSize) log₂
        (st.dataWritten, port, log₃)
      else (st.dataWritten, st.port, log₂) := by
  refine ⟨(fsccIoGetTXCNT (answering answers) port
    (fsccIoGetTFCNT (answering answers) port log).2).2, rfl, ?_⟩
  change (fsccIoGetTXCNT (answering answers) port
    (fsccIoGetTFCNT (answering answers) port log).2).1 = 0 at htxcnt
  have hroom : ¬ (4092 > txFifoSize) := by decide
  rw [fsccFifoWriteData]
  dsimp only
  rw [htfcnt, htxcnt, fifoSpace_empty, if_neg hroom, if_neg (Nat.not_lt_zero 254)]

theorem fsccFifoWriteData_pushes (hslots : 0 < port.txNum)
    (htfcnt : (fsccIoGetTFCNT (answering answers) port log).1 = 0)
    (htxcnt : txcntRead (answering answers) port log = 0) :
    let call := fsccFifoWriteData (answering answers) port log
    call.1 ≠ 0 ∧ PushesHead port log call.2.1 call.2.2 ↔
      ¬ port.fifoDesc.control &&& descCstopBit = descCstopBit ∧
        sizeInFifo port.fifoDesc.dataCount ≤ 4092 := by
  obtain ⟨log₁, hsame, hcall⟩ := fsccFifoWriteData_empty htfcnt htxcnt
  obtain ⟨n, hn⟩ : ∃ n, port.txNum = n + 1 := Nat.exists_eq_succ_of_ne_zero (Nat.ne_of_gt hslots)
  rw [hn, writeDataLoop] at hcall
  rw [hcall]
  by_cases hhead : ¬ port.fifoDesc.control &&& descCstopBit = descCstopBit ∧
      sizeInFifo port.fifoDesc.dataCount ≤ 4092
  · rw [iff_true_right hhead]
    obtain ⟨st, log₂, hstep, hpushed⟩ := writeDataStep_head hhead.1 hhead.2 rfl
    have hloop := hpushed.loop answers 0 n
    rw [hstep]
    dsimp only
    generalize writeDataLoop (answering answers) 0 n st log₂ = last at hloop
    obtain ⟨st', log₃⟩ := last
    obtain ⟨hwritten, hfreed, hwords⟩ := hloop
    rw [hsame] at hwords
    have hone : st'.dataWritten ≠ 0 := by
      rw [hwritten]
      decide
    dsimp only at hwords hfreed ⊢
    by_cases hframe : st'.frameSize ≠ 0
    · obtain ⟨port', log', hset, hkeeps, hwrites⟩ := setRegister_length answers
        st'.port (BitVec.ofNat 32 st'.frameSize) log₃
      rw [if_pos hframe, hset]
      refine ⟨hone, hhead.1, ?_, ?_⟩
      · rw [hkeeps.txDescriptors]
        exact hfreed
      · rw [hwrites]
        exact hwords.trans (List.prefix_append _ _)
    · rw [if_neg hframe]
      exact ⟨hone, hhead.1, hfreed, hwords⟩
  · rw [iff_false_right hhead, writeDataStep_blocked hhead]
    exact fun h ↦ h.1 rfl

end Call

/-- With an empty hardware FIFO a call pushes something exactly if the descriptor at `fifo_tx_desc` is
pending and its bytes fit 4092; and that descriptor is pending in a ring that holds one at all,
unless the length of some frame has reached CSTOP. -/
theorem fscc_fifo_write_data_progress (answers : (bar offset : Nat) → RegLog → BitVec 32)
    (pool : TxPool) (port : TxPort) (number size : BitVec 32) (log : RegLog)
    (actions : List StallAction) :
    let s := actions.foldl (stallStep answers) (stallStart pool port number size log)
    (∃ i < s.port.txNum, ¬ (s.port.txDescriptors i).control &&& descCstopBit = descCstopBit) →
      (fsccIoGetTFCNT (answering answers) s.port s.log).1 = 0 →
      txcntRead (answering answers) s.port s.log = 0 →
      let call := fsccFifoWriteData (answering answers) s.port s.log
      (call.1 ≠ 0 ∧ PushesHead s.port s.log call.2.1 call.2.2 ↔
        ¬ s.port.fifoDesc.control &&& descCstopBit = descCstopBit ∧
          sizeInFifo s.port.fifoDesc.dataCount ≤ 4092) ∧
        ((∀ action ∈ actions, action.Short) →
          ¬ s.port.fifoDesc.control &&& descCstopBit = descCstopBit) := by
  intro s ⟨i, hi, hpending⟩ htfcnt htxcnt
  have hslots : 0 < s.port.txNum := Nat.lt_of_le_of_lt (Nat.zero_le i) hi
  refine ⟨fsccFifoWriteData_pushes hslots htfcnt htxcnt, fun hshort ↦ ?_⟩
  rcases stall_run_shape answers hshort (stallStart_shape pool port number size log) with
    hnone | ⟨waiting, hring⟩
  · exact absurd hnone (Nat.ne_of_gt hslots)
  · exact hring.head_pending hi hpending

-- Every allocation succeeds.
def fullPool : TxPool := ⟨true, fun _ ↦ some 0⟩

theorem fscc_fifo_write_data_progress_short :
    let actions := [StallAction.userWriteFrame [1, 2, 3, 4, 5] 5]
    let s := actions.foldl (stallStep fun _ _ _ ↦ 0)
      (stallStart fullPool twoBufferPort 2 4 ⟨[], 0⟩)
    let call := fsccFifoWriteData (answering fun _ _ _ ↦ 0) s.port s.log
    (call.1 ≠ 0 ∧ PushesHead s.port s.log call.2.1 call.2.2 ↔
      ¬ s.port.fifoDesc.control &&& descCstopBit = descCstopBit ∧
        sizeInFifo s.port.fifoDesc.dataCount ≤ 4092) ∧
      ((∀ action ∈ [StallAction.userWriteFrame [1, 2, 3, 4, 5] 5], action.Short) →
        ¬ s.port.fifoDesc.control &&& descCstopBit = descCstopBit) :=
  fscc_fifo_write_data_progress (fun _ _ _ ↦ 0) fullPool twoBufferPort 2 4 ⟨[], 0⟩ _
    ⟨0, by decide, by decide⟩ (by decide) (by decide)

-- Two buffers of 4092 bytes are created, one is filled, and the idle transmitter does not move.
theorem fscc_fifo_write_data_stalls :
    let s := stallStep (fun _ _ _ ↦ 0) (stallStart fullPool twoBufferPort 2 4092 ⟨[], 0⟩)
      (.userWriteFrame (List.replicate 4092 0) 4092)
    (fsccIoCreateTx fullPool twoBufferPort 2 4092).1 = .success ∧
      (fsccIoCreateTx fullPool twoBufferPort 2 4092).2.2.txNum = 2 ∧
      ¬ (s.port.txDescriptors 0).control &&& descCstopBit = descCstopBit ∧
      (fsccIoGetTFCNT (answering fun _ _ _ ↦ 0) s.port s.log).1 = 0 ∧
      txcntRead (answering fun _ _ _ ↦ 0) s.port s.log = 0 ∧
      (fsccFifoWriteData (answering fun _ _ _ ↦ 0) s.port s.log).1 = 0 := by
  decide

end FsccDriver

import FsccDriver.Lib.Cyclic
import FsccDriver.Registers

/-!
# TxPort — the transmit half of `io.c`

`TxPort` is the part of `struct fscc_port` that `board_tx_spinlock` guards, with the registers and
the settings the write path looks at.
-/

namespace FsccDriver

open Words

variable {H : Type}

structure TxPort extends RegPort where
  txModifiers : Nat
  txNum : Nat
  txDescriptors : Nat → DmaFrame
  descPhysicalAddress : Nat → BitVec 32
  userTxDesc : Nat
  fifoTxDesc : Nat

def TxPort.userDesc (port : TxPort) : DmaFrame := port.txDescriptors port.userTxDesc
def TxPort.fifoDesc (port : TxPort) : DmaFrame := port.txDescriptors port.fifoTxDesc

def TxPort.setUserDesc (port : TxPort) (desc : DmaFrame) : TxPort :=
  { port with txDescriptors := Function.update port.txDescriptors port.userTxDesc desc }

def TxPort.setFifoDesc (port : TxPort) (desc : DmaFrame) : TxPort :=
  { port with txDescriptors := Function.update port.txDescriptors port.fifoTxDesc desc }

def TxPort.nextUser (port : TxPort) : TxPort :=
  { port with userTxDesc := Cyclic.next port.txNum port.userTxDesc }

def TxPort.nextFifo (port : TxPort) : TxPort :=
  { port with fifoTxDesc := Cyclic.next port.txNum port.fifoTxDesc }

/-! ## Register readings and commands -/

def fsccIoGetTFCNT (hw : Hardware H) (port : TxPort) (h : H) : Nat × H :=
  let (fifoFcValue, h) := fsccPortGetRegister hw port.channel 0 fifoFcOffset h
  ((fifoFcValue.toNat &&& 0x01ff0000) >>> 16, h)

def fsccIoGetTXCNT (hw : Hardware H) (port : TxPort) (h : H) : Nat × H :=
  let (fifoBcValue, h) := fsccPortGetRegister hw port.channel 0 fifoBcOffset h
  ((fifoBcValue.toNat &&& 0x1FFF0000) >>> 16, h)

def fsccDmaIsTxRunning (hw : Hardware H) (port : TxPort) (h : H) : Bool × H :=
  let (dstarValue, h) := fsccPortGetRegister hw port.channel 2 dstarOffset h
  let stopped : BitVec 32 := if port.channel = 0 then 0x2 else 0x8
  (decide (dstarValue &&& stopped = 0), h)

def xrepModifier : Nat := 1
def txtModifier : Nat := 2
def txextModifier : Nat := 4

-- The two commands differ in their start bit and in the bit for XREP.
def transmitCommand (port : TxPort) (start xrep : BitVec 32) : BitVec 32 :=
  start ||| (if port.txModifiers &&& xrepModifier ≠ 0 then xrep else 0) |||
    (if port.txModifiers &&& txtModifier ≠ 0 then 0x10000000 else 0) |||
    if port.txModifiers &&& txextModifier ≠ 0 then 0x20000000 else 0

def TxPort.setRegister (hw : Hardware H) (port : TxPort) (bar offset : Nat) (value : BitVec 32)
    (h : H) : TxPort × H :=
  let (_, registers, h) := fsccPortSetRegister hw port.toRegPort bar offset value h
  ({ port with toRegPort := registers }, h)

def fsccIoExecuteTransmit (hw : Hardware H) (port : TxPort) (dma : Bool) (h : H) : TxPort × H :=
  if dma then port.setRegister hw 2 dmaccrOffset (transmitCommand port 0x00000002 0x40000000) h
  else port.setRegister hw 0 cmdrOffset (transmitCommand port 0x01000000 0x02000000) h

/-! ## `fscc_user_get_tx_space` -/

def getTxSpaceLoop (port : TxPort) : Nat → (curDesc space : Nat) → Nat
  | 0, _, space => space
  | n + 1, curDesc, space =>
      let desc := port.txDescriptors curDesc
      if desc.control &&& descCstopBit ≠ descCstopBit then space
      else getTxSpaceLoop port n (Cyclic.next port.txNum curDesc) (space + desc.dataSize)

def fsccUserGetTxSpace (port : TxPort) : Nat := getTxSpaceLoop port port.txNum port.userTxDesc 0

/-! ## `fscc_user_write_frame` -/

structure WriteFrameLoop where
  port : TxPort
  i : Nat
  outLength : Nat
  startDesc : BitVec 32
  status : NtStatus

-- The first descriptor of a frame carries FE and the length of the whole frame.
def segmentControl (i dataLength transmitLength : Nat) : Nat :=
  if i = 0 then descHiBit ||| descFeBit ||| dataLength else descHiBit ||| transmitLength

def writeFrameStep (buf : List Byte) (dataLength : Nat) (st : WriteFrameLoop) :
    Bool × WriteFrameLoop :=
  let desc := st.port.userDesc
  if desc.control &&& descCstopBit ≠ descCstopBit then
    (false, { st with status := .bufferTooSmall })
  else
    let startDesc :=
      if st.startDesc = 0 then st.port.descPhysicalAddress st.port.userTxDesc else st.startDesc
    let transmitLength := min (u32 ((dataLength : Int) - st.outLength)) desc.dataSize
    let buffer := Bytes.write desc.buffer 0 (Bytes.read buf st.outLength transmitLength)
    let outLength := u32 ((st.outLength : Int) + transmitLength)
    let control := segmentControl st.i dataLength transmitLength
    (decide (outLength ≠ dataLength), { st with
      port := (st.port.setUserDesc
        { desc with control, dataCount := transmitLength, buffer }).nextUser
      i := st.i + 1, outLength, startDesc })

def writeFrameLoop (buf : List Byte) (dataLength : Nat) : Nat → WriteFrameLoop → WriteFrameLoop
  | 0, st => st
  | n + 1, st =>
      match writeFrameStep buf dataLength st with
      | (true, st) => writeFrameLoop buf dataLength n st
      | (false, st) => st

-- The status of `fscc_user_write_frame` and what it stores in `*out_length`.
structure WriteResult where
  status : NtStatus
  outLength : Nat

def fsccUserWriteFrame (hw : Hardware H) (buf : List Byte) (dataLength : Nat) (port : TxPort)
    (h : H) : WriteResult × TxPort × H :=
  let st := writeFrameLoop buf dataLength port.txNum ⟨port, 0, 0, 0, .success⟩
  let (port, h) :=
    if fsccPortUsesDma st.port.toRegPort then
      let (running, h) := fsccDmaIsTxRunning hw st.port h
      if running then (st.port, h)
      else
        let (port, h) := st.port.setRegister hw 2 dmaTxBaseOffset st.startDesc h
        fsccIoExecuteTransmit hw port true h
    else (st.port, h)
  (⟨st.status, st.outLength⟩, port, h)

/-! ## `fscc_fifo_write_data` -/

def txFifoSize : Nat := 4096

structure WriteDataLoop where
  port : TxPort
  fifoSpace : Nat
  frameSize : Nat
  dataWritten : Nat

-- A descriptor of `writeLength` bytes is taken to need up to one word more than it has.
def sizeInFifo (writeLength : Nat) : Nat := u32 ((writeLength : Int) + (4 - writeLength % 4 : Nat))

def writeDataStep (hw : Hardware H) (tfcnt : Nat) (st : WriteDataLoop) (h : H) :
    Bool × WriteDataLoop × H :=
  let desc := st.port.fifoDesc
  if desc.control &&& descCstopBit = descCstopBit then (false, st, h)
  else if st.fifoSpace < sizeInFifo desc.dataCount then (false, st, h)
  else if desc.control &&& descFeBit = descFeBit ∧ (tfcnt > 255 ∨ st.frameSize ≠ 0) then
    (false, st, h)
  else
    let frameSize :=
      if desc.control &&& descFeBit = descFeBit then desc.control &&& dmaMaxLength
      else st.frameSize
    let h := fsccPortSetRegisterRep hw st.port.channel 0 fifoOffset desc.buffer desc.dataCount h
    -- The descriptor is empty.
    (true,
      { port := (st.port.setFifoDesc
          { desc with dataCount := 0, control := descCstopBit }).nextFifo
        fifoSpace := u32 ((st.fifoSpace : Int) - sizeInFifo desc.dataCount)
        frameSize, dataWritten := 1 }, h)

def writeDataLoop (hw : Hardware H) (tfcnt : Nat) :
    Nat → WriteDataLoop → H → WriteDataLoop × H
  | 0, st, h => (st, h)
  | n + 1, st, h =>
      match writeDataStep hw tfcnt st h with
      | (true, st, h) => writeDataLoop hw tfcnt n st h
      | (false, st, h) => (st, h)

-- The whole words TXCNT leaves free; a count beyond the FIFO wraps to a huge number.
def fifoSpace (txcnt : Nat) : Nat :=
  let space := u32 ((txFifoSize : Int) - txcnt - 1)
  space - space % 4

/-- The return value of `fscc_fifo_write_data` says whether it wrote anything. -/
def fsccFifoWriteData (hw : Hardware H) (port : TxPort) (h : H) : Nat × TxPort × H :=
  let (tfcnt, h) := fsccIoGetTFCNT hw port h
  if tfcnt > 254 then (0, port, h)
  else
    let (txcnt, h) := fsccIoGetTXCNT hw port h
    if fifoSpace txcnt > txFifoSize then (0, port, h)
    else
      let (st, h) := writeDataLoop hw tfcnt port.txNum ⟨port, fifoSpace txcnt, 0, 0⟩ h
      if st.frameSize ≠ 0 then
        let (port, h) := st.port.setRegister hw 0 bcFifoLOffset (BitVec.ofNat 32 st.frameSize) h
        (st.dataWritten, port, h)
      else (st.dataWritten, st.port, h)

/-! ## `fscc_io_reset_tx` -/

def resetTxDesc (desc : DmaFrame) : DmaFrame :=
  { desc with control := descCstopBit, dataCount := 0, timestamp := 0 }

-- The software half of `fscc_io_reset_tx`: every descriptor and both indices.
def resetTx (port : TxPort) : TxPort :=
  { port with
    txDescriptors := fun i ↦
      if i < port.txNum then resetTxDesc (port.txDescriptors i) else port.txDescriptors i
    userTxDesc := 0, fifoTxDesc := 0 }

end FsccDriver

import FsccDriver.Card
import FsccDriver.Lib.Cyclic

/-!
# RxPort — the receive half of `io.c`

`RxPort` is the part of `struct fscc_port` that `board_rx_spinlock` guards, with the settings the
read path looks at.  Each loop of the source is a step function and a recursion on the number of
rounds its `for` header still allows.
-/

namespace FsccDriver

open Words

variable {H : Type}

structure RxPort where
  channel : Nat
  appendStatus : Bool
  appendTimestamp : Bool
  rxMultiple : Bool
  rxNum : Nat
  rxDescriptors : Nat → DmaFrame
  userRxDesc : Nat
  fifoRxDesc : Nat
  rxBytesInFrame : Int
  rxFrameSize : Int

def RxPort.userDesc (port : RxPort) : DmaFrame := port.rxDescriptors port.userRxDesc
def RxPort.fifoDesc (port : RxPort) : DmaFrame := port.rxDescriptors port.fifoRxDesc

def RxPort.setUserDesc (port : RxPort) (desc : DmaFrame) : RxPort :=
  { port with rxDescriptors := Function.update port.rxDescriptors port.userRxDesc desc }

def RxPort.setFifoDesc (port : RxPort) (desc : DmaFrame) : RxPort :=
  { port with rxDescriptors := Function.update port.rxDescriptors port.fifoRxDesc desc }

def RxPort.nextUser (port : RxPort) : RxPort :=
  { port with userRxDesc := Cyclic.next port.rxNum port.userRxDesc }

def RxPort.nextFifo (port : RxPort) : RxPort :=
  { port with fifoRxDesc := Cyclic.next port.rxNum port.fifoRxDesc }

/-! ## Register readings -/

def fsccIoGetRFCNT (hw : Hardware H) (port : RxPort) (h : H) : Nat × H :=
  let (fifoFcValue, h) := fsccPortGetRegister hw port.channel 0 fifoFcOffset h
  (fifoFcValue.toNat &&& 0x000003ff, h)

def fsccIoGetRXCNT (hw : Hardware H) (port : RxPort) (h : H) : Nat × H :=
  let (fifoBcValue, h) := fsccPortGetRegister hw port.channel 0 fifoBcOffset h
  let fifoBcValue := fifoBcValue.toNat &&& 0x00003FFF
  (if fifoBcValue > 8192 then 0 else fifoBcValue, h)

/-! ## `fscc_user_next_read_size` -/

def nextReadSizeLoop (port : RxPort) : Nat → (curDesc bytes : Nat) → Bool × Nat
  | 0, _, bytes => (false, bytes)
  | n + 1, curDesc, bytes =>
      let desc := port.rxDescriptors curDesc
      -- Neither FE nor CSTOP: the descriptor is unfinished.
      if desc.control &&& descFeBit = 0 ∧ desc.control &&& descCstopBit = 0 then (false, bytes)
      else if desc.control &&& descFeBit ≠ 0 ∧ desc.control &&& descCstopBit ≠ 0 then
        (true, desc.control &&& dmaMaxLength)
      else
        nextReadSizeLoop port n (Cyclic.next port.rxNum curDesc) (u32 (bytes + desc.dataCount))

/-- The return value of `fscc_user_next_read_size` and what it stores in `*bytes`. -/
def fsccUserNextReadSize (port : RxPort) : Bool × Nat :=
  nextReadSizeLoop port port.rxNum port.userRxDesc 0

/-! ## `fscc_fifo_read_data` -/

-- How many bytes the driver takes the FIFO to hold for it: the rest of the frame when its length is
-- known, otherwise the whole words RXCNT announces.
def receiveLength (hw : Hardware H) (port : RxPort) (h : H) : Nat × RxPort × H :=
  let (port, h) :=
    if port.rxFrameSize = 0 then
      let (rfcnt, h) := fsccIoGetRFCNT hw port h
      if rfcnt ≠ 0 then
        let (length, h) := fsccPortGetRegister hw port.channel 0 bcFifoLOffset h
        ({ port with rxFrameSize := i32 length.toNat }, h)
      else (port, h)
    else (port, h)
  if port.rxFrameSize ≠ 0 then
    if port.rxFrameSize > port.rxBytesInFrame then
      (u32 (port.rxFrameSize - port.rxBytesInFrame), port, h)
    else (0, port, h)
  else
    let (rxcnt, h) := fsccIoGetRXCNT hw port h
    (rxcnt - rxcnt % 4, port, h)

-- `rx_bytes_in_frame` once `receive_length` bytes more have been read.
def RxPort.bytesAfter (port : RxPort) (receiveLength : Nat) : Int :=
  i32 (u32 (port.rxBytesInFrame + receiveLength))

-- The rest of one round, once `receive_length` is settled.  The Boolean says whether the `for` loop
-- goes round again.
def fifoFill (hw : Hardware H) (receiveLength : Nat) (port : RxPort) (h : H) : Bool × RxPort × H :=
  let desc := port.fifoDesc
  let (data, h) := fsccPortGetRegisterRep hw port.channel 0 fifoOffset receiveLength h
  let buffer := Bytes.write desc.buffer (desc.control &&& dmaMaxLength) data
  let newControl := u32 ((desc.control : Int) + receiveLength)
  let bytesInFrame := port.bytesAfter receiveLength
  -- The descriptor is full.
  let newControl :=
    if newControl &&& dmaMaxLength ≥ desc.dataSize then
      newControl &&& not32 dmaMaxLength ||| descCstopBit
    else newControl
  -- The frame is complete.
  let frameDone : Prop := port.rxFrameSize > 0 ∧ bytesInFrame ≥ port.rxFrameSize
  let newControl :=
    if frameDone then u32 port.rxFrameSize ||| descCstopBit ||| descFeBit else newControl
  let port :=
    if frameDone then { port with rxFrameSize := 0, rxBytesInFrame := 0 }
    else { port with rxBytesInFrame := bytesInFrame }
  if newControl &&& descCstopBit ≠ 0 then
    let (timestamp, h) :=
      if desc.timestamp = 0 then hw.keQuerySystemTime h else (desc.timestamp, h)
    (true, (port.setFifoDesc { desc with
      control := newControl, dataCount := desc.dataSize, buffer, timestamp }).nextFifo, h)
  else
    (false, port.setFifoDesc { desc with control := newControl, buffer }, h)

def fifoReadStep (hw : Hardware H) (port : RxPort) (h : H) : Bool × RxPort × H :=
  if port.fifoDesc.control &&& descCstopBit = descCstopBit then (false, port, h)
  else
    let (length, port, h) := receiveLength hw port h
    let desc := port.fifoDesc
    let room := u32 ((desc.dataSize : Int) - (desc.control &&& dmaMaxLength : Nat))
    fifoFill hw (min length room) port h

def fifoReadLoop (hw : Hardware H) : Nat → RxPort → H → RxPort × H
  | 0, port, h => (port, h)
  | n + 1, port, h =>
      match fifoReadStep hw port h with
      | (true, port, h) => fifoReadLoop hw n port h
      | (false, port, h) => (port, h)

def fsccFifoReadData (hw : Hardware H) (port : RxPort) (h : H) : RxPort × H :=
  fifoReadLoop hw port.rxNum port h

/-- `k` calls of `fscc_fifo_read_data`. -/
def fifoCalls (hw : Hardware H) : Nat → RxPort → H → RxPort × H
  | 0, port, h => (port, h)
  | k + 1, port, h =>
      let (port, h) := fifoCalls hw k port h
      fsccFifoReadData hw port h

theorem fifoCalls_succ {hw : Hardware H} {k : Nat} {port port' : RxPort} {h h' : H}
    (hrun : fifoCalls hw k port h = (port', h')) :
    fifoCalls hw (k + 1) port h = fsccFifoReadData hw port' h' := by
  rw [fifoCalls, hrun]

-- What every round preserves, any number of calls preserves.
theorem fifoReadLoop_invariant {hw : Hardware H} {P : RxPort → H → Prop}
    (hstep : ∀ port h, P port h →
      P (fifoReadStep hw port h).2.1 (fifoReadStep hw port h).2.2) (n : Nat) {port : RxPort} {h : H}
    (hP : P port h) : P (fifoReadLoop hw n port h).1 (fifoReadLoop hw n port h).2 := by
  induction n generalizing port h with
  | zero => exact hP
  | succ n ih =>
    have hnext := hstep port h hP
    rw [fifoReadLoop]
    generalize fifoReadStep hw port h = round at hnext
    obtain ⟨again, port', h'⟩ := round
    cases again with
    | false => exact hnext
    | true => exact ih hnext

theorem fifoCalls_invariant {hw : Hardware H} {P : RxPort → H → Prop}
    (hstep : ∀ port h, P port h →
      P (fifoReadStep hw port h).2.1 (fifoReadStep hw port h).2.2) (k : Nat) {port : RxPort} {h : H}
    (hP : P port h) : P (fifoCalls hw k port h).1 (fifoCalls hw k port h).2 := by
  induction k with
  | zero => exact hP
  | succ k ih => exact fifoReadLoop_invariant hstep _ ih

/-! ## `fscc_user_read_frame` -/

/-- What a read call hands back: its status, the bytes stored at `buf` and `*out_length`. -/
structure ReadResult where
  status : NtStatus
  out : List Byte
  outLength : Nat

def timestampBytes (timestamp : BitVec 64) : List Byte :=
  Bytes.ofWord (timestamp.extractLsb' 0 32) ++ Bytes.ofWord (timestamp.extractLsb' 32 32)

-- The local variables of `fscc_user_read_frame`, with what has been stored at `buf` so far.
structure ReadLoop where
  port : RxPort
  bytesInDescs : Nat
  totalValidData : Nat
  filledFrameSize : Nat
  outLength : Nat
  out : List Byte

def validData (port : RxPort) (bytesInDescs : Nat) : Nat :=
  u32 ((bytesInDescs : Int) - if port.appendStatus then 0 else 2)

def bufferRequirement (port : RxPort) (bytesInDescs : Nat) : Nat :=
  u32 ((validData port bytesInDescs : Int) + if port.appendTimestamp then 8 else 0)

def plannedMoveSize (st : ReadLoop) : Nat :=
  let desc := st.port.userDesc
  if desc.control &&& descFeBit ≠ 0 ∧ desc.control &&& descCstopBit ≠ 0 then
    u32 (((desc.control &&& dmaMaxLength : Nat) : Int) - st.filledFrameSize)
  else desc.dataCount

def realMoveSize (st : ReadLoop) : Nat :=
  if plannedMoveSize st > st.totalValidData then st.totalValidData else plannedMoveSize st

-- The copy out of the current descriptor and the bookkeeping around it.
def moveData (st : ReadLoop) : ReadLoop :=
  { st with
    bytesInDescs :=
      if plannedMoveSize st > st.bytesInDescs then 0 else st.bytesInDescs - plannedMoveSize st
    totalValidData := st.totalValidData - realMoveSize st
    filledFrameSize := u32 ((st.filledFrameSize : Int) + realMoveSize st)
    outLength := u32 ((st.outLength : Int) + realMoveSize st)
    out := st.out ++ Bytes.read st.port.userDesc.buffer 0 (realMoveSize st) }

def appendTimestamp (hw : Hardware H) (st : ReadLoop) (h : H) : ReadLoop × H :=
  if st.bytesInDescs = 0 ∧ st.port.appendTimestamp then
    let (timestamp, h) :=
      if st.port.userDesc.timestamp = 0 then hw.keQuerySystemTime h
      else (st.port.userDesc.timestamp, h)
    ({ st with
      outLength := u32 ((st.outLength : Int) + 8), out := st.out ++ timestampBytes timestamp }, h)
  else (st, h)

-- The descriptor goes back to the FIFO side.
def releaseUserDesc (port : RxPort) : RxPort :=
  (port.setUserDesc { port.userDesc with timestamp := 0, control := descHiBit }).nextUser

-- At a frame boundary: whether the loop goes on with the next frame.
def nextFrame (bufLength : Nat) (st : ReadLoop) : Bool × ReadLoop :=
  if st.bytesInDescs = 0 then
    if ¬ st.port.rxMultiple then (false, st)
    else
      let (frameReady, bytesInDescs) := fsccUserNextReadSize st.port
      if ¬ frameReady then (false, st)
      else if bufferRequirement st.port bytesInDescs > u32 ((bufLength : Int) - st.outLength) then
        (false, st)
      else
        (true, { st with
          bytesInDescs, totalValidData := validData st.port bytesInDescs, filledFrameSize := 0 })
  else (true, st)

def readFrameStep (hw : Hardware H) (bufLength : Nat) (st : ReadLoop) (h : H) :
    Bool × ReadLoop × H :=
  let (st, h) := appendTimestamp hw (moveData st) h
  let (again, st) := nextFrame bufLength { st with port := releaseUserDesc st.port }
  (again, st, h)

def readFrameLoop (hw : Hardware H) (bufLength : Nat) : Nat → ReadLoop → H → ReadLoop × H
  | 0, st, h => (st, h)
  | n + 1, st, h =>
      match readFrameStep hw bufLength st h with
      | (true, st, h) => readFrameLoop hw bufLength n st h
      | (false, st, h) => (st, h)

def readFrameStart (port : RxPort) (bytesInDescs : Nat) : ReadLoop :=
  { port, bytesInDescs, totalValidData := validData port bytesInDescs
    filledFrameSize := 0, outLength := 0, out := [] }

def fsccUserReadFrame (hw : Hardware H) (bufLength : Nat) (port : RxPort) (h : H) :
    ReadResult × RxPort × H :=
  let (frameReady, bytesInDescs) := fsccUserNextReadSize port
  if ¬ frameReady then (⟨.bufferTooSmall, [], 0⟩, port, h)
  else if bufferRequirement port bytesInDescs > bufLength then
    (⟨.bufferTooSmall, [], 0⟩, port, h)
  else
    let (st, h) := readFrameLoop hw bufLength port.rxNum (readFrameStart port bytesInDescs) h
    (⟨.success, st.out, st.outLength⟩, st.port, h)

/-! ## `fscc_user_read_stream` -/

-- The loop variables of `fscc_user_read_stream`; `i` decides the bit pattern of a freed descriptor.
structure StreamLoop where
  port : RxPort
  i : Nat
  outLength : Nat
  out : List Byte

def streamReceiveLength (bufLength : Nat) (st : StreamLoop) : Nat :=
  min st.port.userDesc.dataCount (u32 ((bufLength : Int) - st.outLength))

def readStreamStep (bufLength : Nat) (st : StreamLoop) : Bool × StreamLoop :=
  let desc := st.port.userDesc
  if desc.control &&& descFeBit = 0 ∧ desc.control &&& descCstopBit = 0 then (false, st)
  else
    let length := streamReceiveLength bufLength st
    let outLength := u32 ((st.outLength : Int) + length)
    let out := st.out ++ Bytes.read desc.buffer 0 length
    if length = desc.dataCount then
      let control := if st.i % 2 ≠ 0 then descHiBit else 0
      (true, { port := (st.port.setUserDesc
                { desc with dataCount := desc.dataSize, timestamp := 0, control }).nextUser,
               i := st.i + 1, outLength, out })
    else
      let remaining := i32 (desc.dataCount - length)
      -- What was not taken moves to the front of the descriptor.
      let buffer := Bytes.write desc.buffer 0 (Bytes.read desc.buffer length (sizeT remaining))
      (false, { st with port := st.port.setUserDesc { desc with buffer, dataCount := u32 remaining },
                        outLength, out })

def readStreamLoop (bufLength : Nat) : Nat → StreamLoop → StreamLoop
  | 0, st => st
  | n + 1, st =>
      match readStreamStep bufLength st with
      | (true, st) => readStreamLoop bufLength n st
      | (false, st) => st

def fsccUserReadStream (bufLength : Nat) (port : RxPort) : ReadResult × RxPort :=
  let st := readStreamLoop bufLength port.rxNum { port, i := 0, outLength := 0, out := [] }
  (⟨.success, st.out, st.outLength⟩, st.port)

/-! ## `fscc_io_reset_rx` -/

def resetRxDesc (desc : DmaFrame) : DmaFrame :=
  { desc with control := descHiBit, dataCount := desc.dataSize, timestamp := 0 }

-- The software half of `fscc_io_reset_rx`: every descriptor, both indices and the frame counters.
def resetRx (port : RxPort) : RxPort :=
  { port with
    rxDescriptors := fun i ↦
      if i < port.rxNum then resetRxDesc (port.rxDescriptors i) else port.rxDescriptors i
    userRxDesc := 0, fifoRxDesc := 0, rxBytesInFrame := 0, rxFrameSize := 0 }

end FsccDriver

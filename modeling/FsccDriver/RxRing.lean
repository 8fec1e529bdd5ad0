import FsccDriver.Control
import FsccDriver.RxPort

/-!
# RxRing — the queue of finished descriptors

`RxRing ds cells held port` says that the receive ring of `port`, with buffers of `ds` bytes, holds
the finished descriptors `cells` from `user_rx_desc` on, and `held` bytes in the descriptor at
`fifo_rx_desc`.  The two sides of the driver act on it as on a queue: `fscc_fifo_read_data` appends
(`fifoFill_ring`), the read calls take from the front (`RxRing.release`).
-/

namespace FsccDriver

open Words

variable {H : Type}

/-! ## Descriptors -/

/-- A finished descriptor: the bytes it holds, the frame length if it ends a frame, and when it was
finished. -/
structure Cell where
  bytes : List Byte
  total : Option Nat
  stamp : BitVec 64

def DmaFrame.Unfinished (desc : DmaFrame) : Prop :=
  desc.control &&& descFeBit = 0 ∧ desc.control &&& descCstopBit = 0

instance (desc : DmaFrame) : Decidable desc.Unfinished :=
  inferInstanceAs (Decidable (desc.control &&& descFeBit = 0 ∧ desc.control &&& descCstopBit = 0))

/-- What a reader sees of a finished descriptor. -/
structure CellDesc (cell : Cell) (desc : DmaFrame) : Prop where
  cstop : ¬ desc.control &&& descCstopBit = 0
  fe : desc.control &&& descFeBit = 0 ↔ cell.total = none
  count : ∀ t, cell.total = some t → desc.control &&& dmaMaxLength = t
  dataCount : cell.total = none → desc.dataCount = cell.bytes.length
  read : ∀ n ≤ cell.bytes.length, Bytes.read desc.buffer 0 n = cell.bytes.take n

structure FinishedDesc (ds : Nat) (cell : Cell) (desc : DmaFrame) : Prop where
  dataSize : desc.dataSize = ds
  bufferLength : desc.buffer.length = ds
  control_lt : desc.control < 4294967296
  cstop : desc.control / 1073741824 % 2 = 1
  fe : desc.control / 2147483648 % 2 = if cell.total.isSome then 1 else 0
  count : ∀ t, cell.total = some t → desc.control % 536870912 = t
  dataCount : desc.dataCount = if cell.total.isSome then ds else cell.bytes.length
  length_le : cell.bytes.length ≤ ds
  bytes : desc.buffer.take cell.bytes.length = cell.bytes
  timestamp : desc.timestamp = cell.stamp

-- A descriptor that is still being filled and has `held` so far.
structure OpenDesc (ds : Nat) (held : List Byte) (desc : DmaFrame) : Prop where
  dataSize : desc.dataSize = ds
  bufferLength : desc.buffer.length = ds
  dataCount : desc.dataCount = ds
  control_lt : desc.control < 1073741824
  count : desc.control % 536870912 = held.length
  bytes : desc.buffer.take held.length = held
  timestamp : desc.timestamp = 0

structure RxRing (ds : Nat) (cells : List Cell) (held : List Byte) (port : RxPort) : Prop where
  holds : Cyclic.Holds (FinishedDesc ds) (OpenDesc ds held) (OpenDesc ds []) cells
    port.rxDescriptors port.rxNum port.userRxDesc
  fifo : port.fifoRxDesc = (port.userRxDesc + cells.length) % port.rxNum
  held_lt : held.length < ds
  held_full : cells.length = port.rxNum → held = []

variable {ds : Nat} {cells : List Cell} {cell : Cell} {held : List Byte} {port : RxPort}

theorem RxRing.cells_le (h : RxRing ds cells held port) : cells.length ≤ port.rxNum := h.holds.fits

theorem RxRing.size_pos (h : RxRing ds cells held port) : 0 < ds :=
  Nat.lt_of_le_of_lt (Nat.zero_le _) h.held_lt

theorem RxRing.userDesc (h : RxRing ds (cell :: cells) held port) :
    FinishedDesc ds cell port.userDesc := h.holds.head

theorem RxRing.fifoDesc (h : RxRing ds cells held port) (hlt : cells.length < port.rxNum) :
    OpenDesc ds held port.fifoDesc := by
  have hcur := h.holds.cur hlt
  rwa [Cyclic.slot, ← h.fifo] at hcur

-- When every descriptor is finished, the FIFO side meets the reader's.
theorem RxRing.fifoDesc_full (h : RxRing ds (cell :: cells) held port)
    (hfull : (cell :: cells).length = port.rxNum) : FinishedDesc ds cell port.fifoDesc := by
  have hfifo : port.fifoRxDesc = port.userRxDesc := by
    rw [h.fifo, hfull, Nat.add_mod_right, Nat.mod_eq_of_lt h.holds.origin_lt]
  rw [RxPort.fifoDesc, hfifo]
  exact h.userDesc

theorem OpenDesc.not_cstop {desc : DmaFrame} (h : OpenDesc ds held desc) :
    ¬ desc.control &&& descCstopBit = descCstopBit := by
  rw [and_descCstopBit_self]
  have hlt := h.control_lt
  omega

theorem OpenDesc.unfinished {desc : DmaFrame} (h : OpenDesc ds held desc) :
    desc.control &&& descFeBit = 0 ∧ desc.control &&& descCstopBit = 0 := by
  rw [and_descFeBit, and_descCstopBit]
  have hlt := h.control_lt
  omega

theorem FinishedDesc.cstop_self {desc : DmaFrame} (h : FinishedDesc ds cell desc) :
    desc.control &&& descCstopBit = descCstopBit := by
  rw [and_descCstopBit_self]
  exact h.cstop

theorem FinishedDesc.cstop_ne_zero {desc : DmaFrame} (h : FinishedDesc ds cell desc) :
    ¬ desc.control &&& descCstopBit = 0 := by
  rw [and_descCstopBit, h.cstop]
  decide

theorem FinishedDesc.fe_iff {desc : DmaFrame} (h : FinishedDesc ds cell desc) :
    desc.control &&& descFeBit = 0 ↔ cell.total = none := by
  rw [and_descFeBit, h.fe]
  cases cell.total <;> simp

theorem FinishedDesc.read {desc : DmaFrame} (h : FinishedDesc ds cell desc) {n : Nat}
    (hn : n ≤ cell.bytes.length) : Bytes.read desc.buffer 0 n = cell.bytes.take n := by
  have hle := h.length_le
  rw [Bytes.read_eq_take_drop (by rw [h.bufferLength]; omega), List.drop_zero, ← h.bytes,
    List.take_take, Nat.min_eq_left hn]

theorem FinishedDesc.cellDesc {desc : DmaFrame} (h : FinishedDesc ds cell desc) :
    CellDesc cell desc := by
  refine ⟨h.cstop_ne_zero, h.fe_iff, fun t ht ↦ ?_, fun hnone ↦ ?_, fun n hn ↦ h.read hn⟩
  · rw [and_dmaMaxLength]
    exact h.count t ht
  · rw [h.dataCount, hnone]
    rfl

/-! ## The FIFO side -/

-- What `fscc_fifo_read_data` leaves alone.
structure FifoKeeps (port port' : RxPort) : Prop where
  channel : port'.channel = port.channel
  appendStatus : port'.appendStatus = port.appendStatus
  appendTimestamp : port'.appendTimestamp = port.appendTimestamp
  rxMultiple : port'.rxMultiple = port.rxMultiple
  rxNum : port'.rxNum = port.rxNum
  userRxDesc : port'.userRxDesc = port.userRxDesc

theorem FifoKeeps.refl (port : RxPort) : FifoKeeps port port := ⟨rfl, rfl, rfl, rfl, rfl, rfl⟩

theorem FifoKeeps.trans {a b c : RxPort} (hab : FifoKeeps a b) (hbc : FifoKeeps b c) :
    FifoKeeps a c :=
  ⟨hbc.1.trans hab.1, hbc.2.trans hab.2, hbc.3.trans hab.3, hbc.4.trans hab.4, hbc.5.trans hab.5,
    hbc.6.trans hab.6⟩

theorem RxRing.setFrame (h : RxRing ds cells held port) (size bytes : Int) :
    RxRing ds cells held { port with rxFrameSize := size, rxBytesInFrame := bytes } :=
  ⟨h.holds, h.fifo, h.held_lt, h.held_full⟩

/-- The settings a user may change between reads. -/
def RxPort.setOptions (port : RxPort) (appendStatus appendTimestamp rxMultiple : Bool) : RxPort :=
  { port with appendStatus, appendTimestamp, rxMultiple }

theorem RxRing.setOptions (h : RxRing ds cells held port) (a b c : Bool) :
    RxRing ds cells held (port.setOptions a b c) :=
  ⟨h.holds, h.fifo, h.held_lt, h.held_full⟩

-- The open descriptor takes in bytes and stays open.
theorem RxRing.hold {held' : List Byte} {desc : DmaFrame} (h : RxRing ds cells held port)
    (hlt : cells.length < port.rxNum) (hdesc : OpenDesc ds held' desc) (hheld : held'.length < ds) :
    RxRing ds cells held' (port.setFifoDesc desc) := by
  refine ⟨?_, h.fifo, hheld, fun hfull ↦ absurd hlt (by rw [hfull]; exact Nat.lt_irrefl _)⟩
  have hholds := h.holds.setCur hlt hdesc
  rwa [← h.fifo] at hholds

-- The open descriptor is finished and the next one is opened.
theorem RxRing.finish {desc : DmaFrame} (h : RxRing ds cells held port)
    (hlt : cells.length < port.rxNum) (hdesc : FinishedDesc ds cell desc) :
    RxRing ds (cells ++ [cell]) [] (port.setFifoDesc desc).nextFifo := by
  refine ⟨?_, ?_, h.size_pos, fun _ ↦ rfl⟩
  · have hholds := h.holds.push (OpenDesc ds []) hlt hdesc fun _ ↦ id
    rwa [← h.fifo] at hholds
  · change Cyclic.next port.rxNum port.fifoRxDesc = _
    rw [h.fifo, Cyclic.next_add_mod (by omega), List.length_append, List.length_singleton]
    rfl

-- A descriptor without CSTOP is an open one.
theorem RxRing.room (h : RxRing ds cells held port)
    (hopen : ¬ port.fifoDesc.control &&& descCstopBit = descCstopBit) :
    cells.length < port.rxNum := by
  refine Nat.lt_of_le_of_ne h.cells_le fun hfull ↦ hopen ?_
  cases cells with
  | nil =>
    have hpos := Nat.lt_of_le_of_lt (Nat.zero_le _) h.holds.origin_lt
    exact absurd hfull.symm (Nat.ne_of_gt hpos)
  | cons cell cells => exact (h.fifoDesc_full hfull).cstop_self

-- A round over an open descriptor, once it is known how much there is to take.
-- A round is a fill of what there is, up to the room in the descriptor.
theorem fifoReadStep_fill {hw : Hardware H} {s s' : H} {count : Nat} (hds : ds < 4294967296)
    (hopen : ¬ port.fifoDesc.control &&& descCstopBit = descCstopBit)
    (hsize : port.fifoDesc.dataSize = ds) (hcount : port.fifoDesc.control &&& dmaMaxLength = count)
    (hle : count ≤ ds) {len : Nat} (size : Int)
    (hlen : receiveLength hw port s = (len, { port with rxFrameSize := size }, s')) :
    fifoReadStep hw port s = fifoFill hw (min len (ds - count)) { port with rxFrameSize := size } s' := by
  have hroom : u32 ((port.fifoDesc.dataSize : Int) -
      (port.fifoDesc.control &&& dmaMaxLength : Nat)) = ds - count := by
    rw [hcount, hsize, u32_sub_of_le hds hle]
  rw [FsccDriver.fifoReadStep, if_neg hopen, hlen, ← hroom]
  rfl

theorem RxRing.fifoReadStep {hw : Hardware H} {s s' : H} (h : RxRing ds cells held port)
    (hds : ds < 4294967296) (hopen : ¬ port.fifoDesc.control &&& descCstopBit = descCstopBit)
    {len : Nat} (size : Int)
    (hlen : receiveLength hw port s = (len, { port with rxFrameSize := size }, s')) :
    fifoReadStep hw port s =
      fifoFill hw (min len (ds - held.length)) { port with rxFrameSize := size } s' := by
  have hdesc := h.fifoDesc (h.room hopen)
  have hcount : port.fifoDesc.control &&& dmaMaxLength = held.length := by
    rw [and_dmaMaxLength, hdesc.count]
  exact fifoReadStep_fill hds hopen hdesc.dataSize hcount (Nat.le_of_lt h.held_lt) size hlen

theorem OpenDesc.write {desc : DmaFrame} (h : OpenDesc ds held desc) (data : List Byte)
    (hfit : held.length + data.length ≤ ds) :
    (Bytes.write desc.buffer (desc.control &&& dmaMaxLength) data).length = ds ∧
      (Bytes.write desc.buffer (desc.control &&& dmaMaxLength) data).take (held ++ data).length =
        held ++ data := by
  have hlen := h.bufferLength
  rw [and_dmaMaxLength, h.count]
  refine ⟨by rw [Bytes.write_length (by omega), hlen], ?_⟩
  rw [List.length_append, Bytes.write_take data (by omega), h.bytes]

/-! The three ways one round of `fscc_fifo_read_data` ends: the descriptor stays open, it is full, or
it ends the frame. -/

section Fill

variable {hw : Hardware H} {r : Nat} {s s' : H} {data : List Byte}

structure FillReady (ds : Nat) (cells : List Cell) (held : List Byte) (port : RxPort) (r : Nat) :
    Prop where
  ring : RxRing ds cells held port
  room : cells.length < port.rxNum
  fits : held.length + r ≤ ds
  count_lt : held.length + r < 536870912

theorem FillReady.control (h : FillReady ds cells held port r) :
    u32 ((port.fifoDesc.control : Int) + r) = port.fifoDesc.control + r := by
  have hctl := (h.ring.fifoDesc h.room).control_lt
  have hcount := h.count_lt
  exact u32_add_of_lt (by omega)

theorem FillReady.mask (h : FillReady ds cells held port r) :
    (port.fifoDesc.control + r) &&& dmaMaxLength = held.length + r := by
  have hcount := (h.ring.fifoDesc h.room).count
  have hlt := h.count_lt
  rw [and_dmaMaxLength]
  omega

theorem RxPort.bytesAfter_of_lt {n : Nat} (hbytes : port.rxBytesInFrame = n) (hlt : n + r < 2147483648) :
    port.bytesAfter r = (n + r : Nat) := by
  rw [RxPort.bytesAfter, hbytes, u32_add_of_lt (by omega), i32_of_lt hlt]

theorem fifoFill_open (h : FillReady ds cells held port r)
    (hrep : fsccPortGetRegisterRep hw port.channel 0 fifoOffset r s = (data, s'))
    (hdata : data.length = r) (hopen : held.length + r < ds)
    (hframe : ¬ (port.rxFrameSize > 0 ∧ port.bytesAfter r ≥ port.rxFrameSize)) :
    ∃ port', fifoFill hw r port s = (false, port', s') ∧ RxRing ds cells (held ++ data) port' ∧
      port'.rxFrameSize = port.rxFrameSize ∧ port'.rxBytesInFrame = port.bytesAfter r ∧
      FifoKeeps port port' := by
  have hdesc := h.ring.fifoDesc h.room
  obtain ⟨hlen, htake⟩ := hdesc.write data (by omega)
  have hctl := hdesc.control_lt
  have hcount := hdesc.count
  have hlt := h.count_lt
  have hnotFull : ¬ held.length + r ≥ port.fifoDesc.dataSize := by rw [hdesc.dataSize]; omega
  have hnoStop : (port.fifoDesc.control + r) &&& descCstopBit = 0 := by
    rw [and_descCstopBit]
    omega
  refine ⟨({ port with rxBytesInFrame := port.bytesAfter r } : RxPort).setFifoDesc
    { port.fifoDesc with
      control := port.fifoDesc.control + r
      buffer := Bytes.write port.fifoDesc.buffer (port.fifoDesc.control &&& dmaMaxLength) data },
    by simp only [fifoFill, hrep, h.control, h.mask, if_neg hframe, if_neg hnotFull,
      hnoStop, ne_eq, not_true_eq_false, if_false], ?_, rfl, rfl, ⟨rfl, rfl, rfl, rfl, rfl, rfl⟩⟩
  refine RxRing.hold (h.ring.setFrame _ _) h.room
    ⟨hdesc.dataSize, hlen, hdesc.dataCount, ?_, ?_, htake, hdesc.timestamp⟩ ?_
  · change port.fifoDesc.control + r < 1073741824
    omega
  · change (port.fifoDesc.control + r) % 536870912 = _
    rw [List.length_append]
    omega
  · rw [List.length_append]
    omega

theorem fifoFill_full (h : FillReady ds cells held port r)
    (hrep : fsccPortGetRegisterRep hw port.channel 0 fifoOffset r s = (data, s'))
    (hdata : data.length = r) (hfull : held.length + r = ds)
    (hframe : ¬ (port.rxFrameSize > 0 ∧ port.bytesAfter r ≥ port.rxFrameSize)) :
    ∃ port', fifoFill hw r port s = (true, port', (hw.keQuerySystemTime s').2) ∧
      RxRing ds (cells ++ [⟨held ++ data, none, (hw.keQuerySystemTime s').1⟩]) [] port' ∧
      port'.rxFrameSize = port.rxFrameSize ∧ port'.rxBytesInFrame = port.bytesAfter r ∧
      FifoKeeps port port' := by
  have hdesc := h.ring.fifoDesc h.room
  obtain ⟨hlen, htake⟩ := hdesc.write data (by omega)
  have hctl := hdesc.control_lt
  have hcount := hdesc.count
  have hlt := h.count_lt
  have hisFull : held.length + r ≥ port.fifoDesc.dataSize := by rw [hdesc.dataSize]; omega
  have hnew : (port.fifoDesc.control + r) &&& not32 dmaMaxLength ||| descCstopBit =
      (port.fifoDesc.control + r) / 536870912 * 536870912 + 1073741824 :=
    full_control (by omega)
  have hstop : ¬ ((port.fifoDesc.control + r) / 536870912 * 536870912 + 1073741824) &&&
      descCstopBit = 0 := by
    rw [and_descCstopBit]
    omega
  refine ⟨(({ port with rxBytesInFrame := port.bytesAfter r } : RxPort).setFifoDesc
    { port.fifoDesc with
      control := (port.fifoDesc.control + r) / 536870912 * 536870912 + 1073741824
      dataCount := port.fifoDesc.dataSize
      buffer := Bytes.write port.fifoDesc.buffer (port.fifoDesc.control &&& dmaMaxLength) data
      timestamp := (hw.keQuerySystemTime s').1 }).nextFifo,
    by simp only [fifoFill, hrep, h.control, h.mask, if_neg hframe, if_pos hisFull,
      hnew, hstop, ne_eq, not_false_eq_true, if_true, hdesc.timestamp], ?_, rfl, rfl,
    ⟨rfl, rfl, rfl, rfl, rfl, rfl⟩⟩
  refine RxRing.finish (h.ring.setFrame _ _) h.room
    ⟨hdesc.dataSize, hlen, ?_, ?_, ?_, fun t ht ↦ by simp at ht, ?_, ?_, htake, rfl⟩
  · change (port.fifoDesc.control + r) / 536870912 * 536870912 + 1073741824 < 4294967296
    omega
  · change ((port.fifoDesc.control + r) / 536870912 * 536870912 + 1073741824) / 1073741824 % 2 = 1
    omega
  · change ((port.fifoDesc.control + r) / 536870912 * 536870912 + 1073741824) / 2147483648 % 2 = 0
    omega
  · change port.fifoDesc.dataSize = (held ++ data).length
    rw [hdesc.dataSize, List.length_append]
    omega
  · rw [List.length_append]
    omega

theorem fifoFill_frame (h : FillReady ds cells held port r)
    (hrep : fsccPortGetRegisterRep hw port.channel 0 fifoOffset r s = (data, s'))
    (hdata : data.length = r) {t : Nat} (ht : t < 536870912) (hsize : port.rxFrameSize = t)
    (hframe : port.rxFrameSize > 0 ∧ port.bytesAfter r ≥ port.rxFrameSize) :
    ∃ port', fifoFill hw r port s = (true, port', (hw.keQuerySystemTime s').2) ∧
      RxRing ds (cells ++ [⟨held ++ data, some t, (hw.keQuerySystemTime s').1⟩]) [] port' ∧
      port'.rxFrameSize = 0 ∧ port'.rxBytesInFrame = 0 ∧ FifoKeeps port port' := by
  have hdesc := h.ring.fifoDesc h.room
  have hfits := h.fits
  obtain ⟨hlen, htake⟩ := hdesc.write data (by omega)
  have hnew : u32 port.rxFrameSize ||| descCstopBit ||| descFeBit =
      t + 1073741824 + 2147483648 := by
    rw [hsize, u32_of_nat (by omega), frame_control ht]
  have hstop : ¬ (t + 1073741824 + 2147483648) &&& descCstopBit = 0 := by
    rw [and_descCstopBit]
    omega
  refine ⟨(({ port with rxFrameSize := 0, rxBytesInFrame := 0 } : RxPort).setFifoDesc
    { port.fifoDesc with
      control := t + 1073741824 + 2147483648
      dataCount := port.fifoDesc.dataSize
      buffer := Bytes.write port.fifoDesc.buffer (port.fifoDesc.control &&& dmaMaxLength) data
      timestamp := (hw.keQuerySystemTime s').1 }).nextFifo,
    by simp only [fifoFill, hrep, if_pos hframe, hnew, hstop, ne_eq,
      not_false_eq_true, if_true, hdesc.timestamp], ?_, rfl, rfl, ⟨rfl, rfl, rfl, rfl, rfl, rfl⟩⟩
  refine RxRing.finish (h.ring.setFrame _ _) h.room
    ⟨hdesc.dataSize, hlen, ?_, ?_, ?_, ?_, hdesc.dataSize, ?_, htake, rfl⟩
  · change t + 1073741824 + 2147483648 < 4294967296
    omega
  · change (t + 1073741824 + 2147483648) / 1073741824 % 2 = 1
    omega
  · change (t + 1073741824 + 2147483648) / 2147483648 % 2 = 1
    omega
  · intro t' ht'
    obtain rfl : t = t' := by simpa using ht'
    change (t + 1073741824 + 2147483648) % 536870912 = t
    omega
  · rw [List.length_append]
    omega

end Fill

/-! ## The reader's side -/

theorem descHiBit_lt : descHiBit < 1073741824 := by decide

theorem descHiBit_count : descHiBit % 536870912 = 0 := by decide

-- Giving a descriptor back takes its cell off the queue.
theorem RxRing.giveBack {desc : DmaFrame} (h : RxRing ds (cell :: cells) held port)
    (hopen : OpenDesc ds [] desc) : RxRing ds cells held (port.setUserDesc desc).nextUser := by
  have hnil : cells.length + 1 = port.rxNum → held = [] := h.held_full
  refine ⟨h.holds.pop hopen fun hn ↦ by rw [hnil hn]; exact hopen, ?_, h.held_lt, fun hn ↦ ?_⟩
  · change port.fifoRxDesc = (Cyclic.next port.rxNum port.userRxDesc + cells.length) % port.rxNum
    rw [h.fifo, List.length_cons, Cyclic.add_mod_next h.holds.origin_lt]
  · have hfits : cells.length + 1 ≤ port.rxNum := h.cells_le
    change cells.length = port.rxNum at hn
    omega

theorem RxRing.release (h : RxRing ds (cell :: cells) held port)
    (hcount : port.userDesc.dataCount = ds) : RxRing ds cells held (releaseUserDesc port) :=
  have hdesc := h.userDesc
  h.giveBack (show OpenDesc ds [] { port.userDesc with timestamp := 0, control := descHiBit } from
    ⟨hdesc.dataSize, hdesc.bufferLength, hcount, descHiBit_lt, descHiBit_count, rfl, rfl⟩)

-- The first descriptor is changed in place.
theorem RxRing.setHead {cell' : Cell} {desc : DmaFrame} (h : RxRing ds (cell :: cells) held port)
    (hdesc : FinishedDesc ds cell' desc) : RxRing ds (cell' :: cells) held (port.setUserDesc desc) :=
  ⟨h.holds.setHead hdesc, h.fifo, h.held_lt, h.held_full⟩

/-- `fscc_user_next_read_size` on the queue of finished descriptors. -/
def readSize : List Cell → Nat → Bool × Nat
  | [], bytes => (false, bytes)
  | cell :: cells, bytes =>
      match cell.total with
      | some total => (true, total)
      | none => readSize cells (u32 ((bytes : Int) + cell.bytes.length))

-- Induction on the rounds, over the descriptors that have not been looked at.
theorem nextReadSizeLoop_cells
    (h : Cyclic.Holds CellDesc DmaFrame.Unfinished DmaFrame.Unfinished cells port.rxDescriptors
      port.rxNum port.userRxDesc) (n : Nat) {j : Nat} (hj : j + n ≤ port.rxNum) (bytes : Nat) :
    nextReadSizeLoop port n ((port.userRxDesc + j) % port.rxNum) bytes =
      readSize ((cells.drop j).take n) bytes := by
  induction n generalizing j bytes with
  | zero =>
    rw [List.take_zero]
    rfl
  | succ n ih =>
    rw [nextReadSizeLoop, Cyclic.next_add_mod (by omega), ih (by omega)]
    by_cases hlt : j < cells.length
    · have hdesc := h.busy j hlt
      rw [Cyclic.slot] at hdesc
      rw [List.drop_eq_getElem_cons hlt, List.take_succ_cons, readSize]
      simp only [hdesc.fe, hdesc.cstop, and_false, if_false, not_false_eq_true, and_true, ne_eq]
      cases htotal : cells[j].total with
      | none => simp [hdesc.dataCount htotal]
      | some total => simp [hdesc.count total htotal]
    · have hopen : DmaFrame.Unfinished
          (Cyclic.slot port.rxDescriptors port.rxNum port.userRxDesc j) := by
        rcases Nat.eq_or_lt_of_le (Nat.le_of_not_lt hlt) with heq | hgt
        · subst heq
          exact h.cur (by omega)
        · exact h.free j hgt (by omega)
      rw [Cyclic.slot, DmaFrame.Unfinished] at hopen
      rw [if_pos hopen, List.drop_of_length_le (by omega)]
      rfl

theorem fsccUserNextReadSize_cells
    (h : Cyclic.Holds CellDesc DmaFrame.Unfinished DmaFrame.Unfinished cells port.rxDescriptors
      port.rxNum port.userRxDesc) : fsccUserNextReadSize port = readSize cells 0 := by
  have hloop := nextReadSizeLoop_cells h port.rxNum (Nat.le_of_eq (Nat.zero_add _)) 0
  rwa [Nat.add_zero, Nat.mod_eq_of_lt h.origin_lt, List.drop_zero, List.take_of_length_le h.fits]
    at hloop

theorem fsccUserNextReadSize_ring (h : RxRing ds cells held port) :
    fsccUserNextReadSize port = readSize cells 0 :=
  fsccUserNextReadSize_cells (h.holds.imp (fun _ _ hdesc ↦ hdesc.cellDesc)
    (fun _ hopen ↦ hopen.unfinished) fun _ hopen ↦ hopen.unfinished)

section Read

variable {hw : Hardware H} {bufLength : Nat} {st : ReadLoop} {s : H}

-- One round over a full descriptor that does not end the frame.
theorem readFrameStep_mid (hdesc : CellDesc cell st.port.userDesc) (htotal : cell.total = none)
    (hfull : cell.bytes.length = ds) (hmore : ds < st.bytesInDescs)
    (hfilled : st.filledFrameSize + ds < 4294967296)
    (hout : st.outLength + st.totalValidData < 4294967296) :
    readFrameStep hw bufLength st s =
      (true, { port := releaseUserDesc st.port, bytesInDescs := st.bytesInDescs - ds
               totalValidData := st.totalValidData - min ds st.totalValidData
               filledFrameSize := st.filledFrameSize + min ds st.totalValidData
               outLength := st.outLength + min ds st.totalValidData
               out := st.out ++ cell.bytes.take (min ds st.totalValidData) }, s) := by
  have hplanned : plannedMoveSize st = ds := by
    simp only [plannedMoveSize, hdesc.fe, htotal, ne_eq, not_true_eq_false, false_and, if_false,
      hdesc.dataCount htotal, hfull]
  have hreal : realMoveSize st = min ds st.totalValidData := by
    rw [realMoveSize, hplanned]
    split <;> omega
  have hbytes : ¬ st.bytesInDescs - ds = 0 := by omega
  have hread := hdesc.read (min ds st.totalValidData) (by omega)
  simp only [readFrameStep, moveData, hplanned, hreal, if_neg (show ¬ ds > st.bytesInDescs by omega),
    appendTimestamp, hbytes, false_and, if_false, nextFrame, hread]
  rw [u32_add_of_lt (by omega), u32_add_of_lt (by omega)]

-- The state after the data of the last descriptor has been copied.
def lastMove (st : ReadLoop) (cell : Cell) : ReadLoop :=
  { st with
    bytesInDescs := 0, totalValidData := 0
    filledFrameSize := st.filledFrameSize + st.totalValidData
    outLength := st.outLength + st.totalValidData
    out := st.out ++ cell.bytes.take st.totalValidData }

-- One round over the descriptor that ends the frame.
theorem readFrameStep_last (hdesc : CellDesc cell st.port.userDesc) {total : Nat}
    (htotal : cell.total = some total) (hlt : total < 536870912)
    (hfilled : st.filledFrameSize ≤ total) (hbytes : st.bytesInDescs ≤ total - st.filledFrameSize)
    (hvalid : st.totalValidData ≤ total - st.filledFrameSize)
    (hhere : st.totalValidData ≤ cell.bytes.length)
    (hout : st.outLength + st.totalValidData < 4294967296) :
    readFrameStep hw bufLength st s =
      let (st', s') := appendTimestamp hw (lastMove st cell) s
      let (again, st'') := nextFrame bufLength { st' with port := releaseUserDesc st'.port }
      (again, st'', s') := by
  have hplanned : plannedMoveSize st = total - st.filledFrameSize := by
    simp only [plannedMoveSize, hdesc.fe, hdesc.cstop, htotal, ne_eq, reduceCtorEq,
      not_false_eq_true, and_self, if_true, hdesc.count total htotal]
    exact u32_sub_of_le (by omega) hfilled
  have hreal : realMoveSize st = st.totalValidData := by
    rw [realMoveSize, hplanned]
    split <;> omega
  have hmove : moveData st = lastMove st cell := by
    have hzero : (if total - st.filledFrameSize > st.bytesInDescs then 0
        else st.bytesInDescs - (total - st.filledFrameSize)) = 0 := by
      split <;> omega
    simp only [moveData, lastMove, hplanned, hreal, hzero, hdesc.read _ hhere, Nat.sub_self]
    rw [u32_add_of_lt (by omega), u32_add_of_lt (by omega)]
  rw [readFrameStep, hmove]

end Read

/-! ## After a purge -/

/-- The receive memory of a port: a ring of at least two descriptors with buffers of `ds` bytes. -/
structure RxMemory (ds : Nat) (port : RxPort) : Prop where
  slots : 2 ≤ port.rxNum
  size : BufferSize ds
  descs : ∀ i < port.rxNum,
    (port.rxDescriptors i).dataSize = ds ∧ (port.rxDescriptors i).buffer.length = ds

theorem RxMemory.openDesc (h : RxMemory ds port) {i : Nat} (hi : i < port.rxNum) :
    OpenDesc ds [] (resetRxDesc (port.rxDescriptors i)) :=
  ⟨(h.descs i hi).1, (h.descs i hi).2, (h.descs i hi).1, descHiBit_lt, descHiBit_count, rfl, rfl⟩

theorem RxMemory.resetRx (h : RxMemory ds port) : RxRing ds [] [] (resetRx port) := by
  have hpos : 0 < port.rxNum := Nat.lt_of_lt_of_le Nat.two_pos h.slots
  have hopen : ∀ i < port.rxNum, OpenDesc ds [] ((FsccDriver.resetRx port).rxDescriptors i) := by
    intro i hi
    change OpenDesc ds [] (if i < port.rxNum then _ else _)
    rw [if_pos hi]
    exact h.openDesc hi
  exact ⟨.empty hpos hopen hopen, (Nat.zero_mod _).symm, h.size.pos, fun _ ↦ rfl⟩

end FsccDriver

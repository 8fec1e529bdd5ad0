import FsccDriver.RxFifo
import FsccDriver.RxRing

/-!
# LongFill — a descriptor that takes more than its count field can say

A descriptor counts its bytes in 29 bits.  Here a descriptor of at least `2 ^ 29` bytes is filled by
calls that find 8192 bytes each; `LongFill ds n rest` is the state after `n` bytes.
-/

namespace FsccDriver

open Words

/-- A port with two descriptors of `ds` bytes that asks for status bytes and timestamps. -/
def twoDescPort (ds : Nat) : RxPort where
  channel := 0
  appendStatus := true
  appendTimestamp := true
  rxMultiple := false
  rxNum := 2
  rxDescriptors _ :=
    { control := 0, dataCount := 0, dataSize := ds, buffer := List.replicate ds 0, timestamp := 0 }
  userRxDesc := 0
  fifoRxDesc := 0
  rxBytesInFrame := 0
  rxFrameSize := 0

theorem twoDescPort_memory {ds : Nat} (hds : BufferSize ds) : RxMemory ds (twoDescPort ds) :=
  ⟨Nat.le_refl 2, hds, fun _ _ ↦ ⟨rfl, List.length_replicate⟩⟩

-- Every look at the FIFO finds 8192 more bytes, and the clock stands at 1.
def busyLine : Nat → Nat := fun _ ↦ 8192
def constClock : Nat → BitVec 64 := fun _ ↦ 1

theorem constClock_ne_zero {k : Nat} : constClock k ≠ 0 := by
  rw [constClock]
  decide

structure LongFill (ds n : Nat) (rest : List Arrival) (port : RxPort) (fifo : RxFifo) : Prop where
  channel : port.channel = 0
  appendStatus : port.appendStatus = true
  appendTimestamp : port.appendTimestamp = true
  rxMultiple : port.rxMultiple = false
  rxNum : port.rxNum = 2
  userRxDesc : port.userRxDesc = 0
  fifoRxDesc : port.fifoRxDesc = 0
  rxFrameSize : port.rxFrameSize = 0
  rxBytesInFrame : port.rxBytesInFrame = n
  control : (port.rxDescriptors 0).control = descHiBit + n
  dataSize : (port.rxDescriptors 0).dataSize = ds
  timestamp : (port.rxDescriptors 0).timestamp = 0
  nextDesc : port.rxDescriptors 1 = resetRxDesc ((twoDescPort ds).rxDescriptors 1)
  line : fifo.line = rest
  waiting : fifo.waiting = []
  lengths : fifo.lengths = []
  popped : fifo.popped.length = n

variable {ds n : Nat} {rest : List Arrival} {port : RxPort} {fifo : RxFifo}

-- The FIFO after the driver has looked at it and 8192 bytes have come in.
def filledFifo (fifo : RxFifo) (rest : List Arrival) : RxFifo :=
  { fifo with
    line := rest.drop 8192, waiting := (rest.take 8192).map Arrival.byte
    lengths := (rest.take 8192).filterMap Arrival.ends, looks := fifo.looks + 1 }

namespace LongFill

theorem look (h : LongFill ds n rest port fifo)
    (hends : ((rest.take 8192).filterMap Arrival.ends).length ≤ 1023) :
    fifo.look busyLine = filledFifo fifo rest := by
  have hlook : ({ fifo with looks := fifo.looks + 1 } : RxFifo).receiveBytes 8192 = _ :=
    receiveBytes_room (by simp [h.waiting]) (by simpa [h.lengths, h.line] using hends)
  rw [RxFifo.look]
  refine hlook.trans ?_
  simp [filledFifo, h.waiting, h.lengths, h.line]

theorem carries (h : LongFill ds n rest port fifo) : Carries rest 0 [] fifo :=
  ⟨by rw [h.waiting]; exact Nat.zero_le _, by rw [h.lengths]; exact Nat.zero_le _, [],
    h.line.symm, Nat.zero_le _, h.waiting, h.lengths.symm⟩

theorem fifoDesc (h : LongFill ds n rest port fifo) : port.fifoDesc = port.rxDescriptors 0 := by
  rw [RxPort.fifoDesc, h.fifoRxDesc]

theorem count (h : LongFill ds n rest port fifo) (hn : n < 536870912) :
    port.fifoDesc.control &&& dmaMaxLength = n := by
  rw [h.fifoDesc, h.control, and_dmaMaxLength, descHiBit]
  omega

-- A round that finds 8192 bytes takes them all.
theorem fifoReadStep (h : LongFill ds n rest port fifo) (hn : n + 8192 ≤ 536870912)
    (hds : 536870912 ≤ ds) (hlt : ds < 4294967296) (size : Int) {fifo' : RxFifo}
    (hlen : receiveLength (rxFifo busyLine constClock) port fifo =
      (8192, { port with rxFrameSize := size }, fifo')) :
    FsccDriver.fifoReadStep (rxFifo busyLine constClock) port fifo =
      fifoFill (rxFifo busyLine constClock) 8192 { port with rxFrameSize := size } fifo' := by
  have hopen : ¬ port.fifoDesc.control &&& descCstopBit = descCstopBit := by
    rw [and_descCstopBit_self, h.fifoDesc, h.control, descHiBit]
    omega
  have hcount := h.count (by omega)
  have hsize : port.fifoDesc.dataSize = ds := by rw [h.fifoDesc, h.dataSize]
  rw [FsccDriver.fifoReadStep, if_neg hopen, hlen]
  change fifoFill _ (min 8192 (u32 ((port.fifoDesc.dataSize : Int) -
    (port.fifoDesc.control &&& dmaMaxLength : Nat)))) _ _ = _
  rw [hcount, hsize, u32_sub_of_le hlt (by omega), Nat.min_eq_left (by omega)]

theorem rep (fifo : RxFifo) (hwaiting : fifo.waiting.length = 8192) (channel : Nat) :
    ∃ data, fsccPortGetRegisterRep (rxFifo busyLine constClock) channel 0 fifoOffset 8192 fifo =
      (data, fifo.pop 8192) := by
  have hpad : wordPadded 8192 ≤ fifo.waiting.length := by rw [hwaiting]; decide
  exact ⟨_, (rxFifo_popsWords busyLine constClock).getRegisterRep channel hpad⟩

-- With no end of a frame in sight the descriptor stays open.
theorem step (h : LongFill ds n rest port fifo) (hn : n + 8192 < 536870912) (hds : 536870912 ≤ ds)
    (hlt : ds < 4294967296) (hrest : 8192 ≤ rest.length)
    (hends : (rest.take 8192).filterMap Arrival.ends = []) :
    ∃ port' fifo', fsccFifoReadData (rxFifo busyLine constClock) port fifo = (port', fifo') ∧
      LongFill ds (n + 8192) (rest.drop 8192) port' fifo' := by
  have hlook := h.look (by rw [hends]; exact Nat.zero_le _)
  have hnone : (fifo.look busyLine).lengths = [] := by rw [hlook]; exact hends
  have hwaiting : (filledFifo fifo rest).waiting.length = 8192 := by
    simp [filledFifo, List.length_take, Nat.min_eq_left hrest]
  have hlen := receiveLength_unknown constClock h.carries h.rxFrameSize hnone
  rw [hlook, hwaiting] at hlen
  obtain ⟨data, hrep⟩ := rep (filledFifo fifo rest) hwaiting port.channel
  have hctl : u32 ((port.fifoDesc.control : Int) + (8192 : Nat)) = descHiBit + (n + 8192) := by
    rw [h.fifoDesc, h.control, u32_add_of_lt (by rw [descHiBit]; omega), Nat.add_assoc]
  have hmask : descHiBit + (n + 8192) &&& dmaMaxLength = n + 8192 := by
    rw [and_dmaMaxLength, descHiBit]
    omega
  have hnoStop : descHiBit + (n + 8192) &&& descCstopBit = 0 := by
    rw [and_descCstopBit, descHiBit]
    omega
  have hsize : ¬ n + 8192 ≥ port.fifoDesc.dataSize := by
    rw [h.fifoDesc, h.dataSize]
    omega
  have hframe : ¬ port.rxFrameSize > 0 := by rw [h.rxFrameSize]; exact lt_irrefl 0
  have hbytes : port.bytesAfter 8192 = (n + 8192 : Nat) := by
    rw [RxPort.bytesAfter, h.rxBytesInFrame, u32_add_of_lt (by omega), i32_of_lt (by omega)]
  have hstep := h.fifoReadStep (by omega) hds hlt port.rxFrameSize hlen
  have hfill : fifoFill (rxFifo busyLine constClock) 8192 port (filledFifo fifo rest) =
      (false, ({ port with rxBytesInFrame := (n + 8192 : Nat) } : RxPort).setFifoDesc
        { port.fifoDesc with
          control := descHiBit + (n + 8192)
          buffer := Bytes.write port.fifoDesc.buffer (port.fifoDesc.control &&& dmaMaxLength) data },
        (filledFifo fifo rest).pop 8192) := by
    simp only [fifoFill, hrep, hctl, hmask, hnoStop, hbytes, hsize, hframe, false_and, if_false,
      ne_eq, not_true_eq_false]
  refine ⟨_, _, by rw [fsccFifoReadData, h.rxNum, fifoReadLoop, hstep, hfill], ?_⟩
  have hself : ∀ desc, Function.update port.rxDescriptors port.fifoRxDesc desc 0 = desc := by
    intro desc
    rw [h.fifoRxDesc, Function.update_self]
  constructor
  case rxBytesInFrame => rfl
  case control => exact congrArg DmaFrame.control (hself _)
  case dataSize => exact (congrArg DmaFrame.dataSize (hself _)).trans (h.fifoDesc ▸ h.dataSize)
  case timestamp => exact (congrArg DmaFrame.timestamp (hself _)).trans (h.fifoDesc ▸ h.timestamp)
  case nextDesc =>
    change Function.update port.rxDescriptors port.fifoRxDesc _ 1 = _
    rw [h.fifoRxDesc, Function.update_of_ne (by decide), h.nextDesc]
  case line => rfl
  case waiting => exact List.drop_of_length_le (Nat.le_of_eq hwaiting)
  case lengths => exact hends
  case popped => simp [RxFifo.pop, filledFifo, h.popped, hrest]
  exacts [h.channel, h.appendStatus, h.appendTimestamp, h.rxMultiple, h.rxNum, h.userRxDesc,
    h.fifoRxDesc, h.rxFrameSize]

theorem start (ds : Nat) (rest : List Arrival) : LongFill ds 0 rest (resetRx (twoDescPort ds))
    { line := rest, waiting := [], lengths := [], looks := 0, ticks := 0, popped := [] } :=
  ⟨rfl, rfl, rfl, rfl, rfl, rfl, rfl, rfl, rfl, rfl, rfl, rfl, rfl, rfl, rfl, rfl, rfl⟩

end LongFill

theorem LongFill.calls (h : LongFill ds 0 rest port fifo) (hds : 536870912 ≤ ds)
    (hlt : ds < 4294967296) {k : Nat} (hk : 8192 * k < 536870912) (hrest : 8192 * k ≤ rest.length)
    (hends : ∀ arrival ∈ rest.take (8192 * k), arrival.ends = none) :
    ∃ port' fifo', fifoCalls (rxFifo busyLine constClock) k port fifo = (port', fifo') ∧
      LongFill ds (8192 * k) (rest.drop (8192 * k)) port' fifo' := by
  induction k with
  | zero => exact ⟨port, fifo, rfl, h⟩
  | succ k ih =>
    obtain ⟨port₁, fifo₁, hrun, h₁⟩ := ih (by omega) (by omega) fun arrival harr ↦
      hends arrival ((List.take_subset_take_left _ (by omega)) harr)
    have hquiet : ((rest.drop (8192 * k)).take 8192).filterMap Arrival.ends = [] := by
      rw [List.filterMap_eq_nil_iff]
      intro arrival harr
      refine hends arrival ?_
      rw [Nat.mul_add_one, List.take_add]
      exact List.mem_append_right _ harr
    obtain ⟨port₂, fifo₂, hrun₂, h₂⟩ := h₁.step (by omega) hds hlt
      (by rw [List.length_drop]; omega) hquiet
    refine ⟨port₂, fifo₂, (fifoCalls_succ hrun).trans hrun₂, ?_⟩
    rw [List.drop_drop] at h₂
    rwa [Nat.mul_add_one]

/-! ## The round behind the last one -/

-- With nothing in the FIFO a round over a fresh descriptor changes no other descriptor.
theorem fifoReadStep_empty {schedule : Nat → Nat} {clock : Nat → BitVec 64}
    (hds : 0 < ds) (hlt : ds < 4294967296)
    (hdesc : port.fifoDesc = resetRxDesc ((twoDescPort ds).rxDescriptors 1))
    (hsize : port.rxFrameSize = 0) (hline : fifo.line = []) (hwaiting : fifo.waiting = [])
    (hlengths : fifo.lengths = []) :
    ∃ port' fifo', fifoReadStep (rxFifo schedule clock) port fifo = (false, port', fifo') ∧
      fifo'.popped = fifo.popped ∧ FifoKeeps port port' ∧
      ∀ i, i ≠ port.fifoRxDesc → port'.rxDescriptors i = port.rxDescriptors i := by
  have hlook : fifo.look schedule = { fifo with looks := fifo.looks + 1 } :=
    receiveBytes_nil { fifo with looks := fifo.looks + 1 } hline _
  have hc : Carries [] 0 [] fifo :=
    ⟨by simp [hwaiting], by simp [hlengths], [], by rw [hline]; rfl, Nat.zero_le _, hwaiting,
      by simp [hlengths]⟩
  have hlen := receiveLength_unknown clock hc hsize (by rw [hlook]; exact hlengths)
  have hnothing : fifo.waiting.length - fifo.waiting.length % 4 = 0 := by rw [hwaiting]; rfl
  rw [hlook, hnothing] at hlen
  have hctl : port.fifoDesc.control = descHiBit := by rw [hdesc]; rfl
  have hsizeDesc : port.fifoDesc.dataSize = ds := by rw [hdesc]; rfl
  have hopen : ¬ descHiBit &&& descCstopBit = descCstopBit := by decide
  have hmask : descHiBit &&& dmaMaxLength = 0 := by decide
  have hnoStop : descHiBit &&& descCstopBit = 0 := by decide
  have hword : u32 ((descHiBit : Int) + (0 : Nat)) = descHiBit := rfl
  have hframe : ¬ port.rxFrameSize > 0 := by rw [hsize]; exact lt_irrefl 0
  have hnotFull : ¬ 0 ≥ ds := by omega
  have hrep : fsccPortGetRegisterRep (rxFifo schedule clock) port.channel 0 fifoOffset 0
      { fifo with looks := fifo.looks + 1 } = ([], { fifo with looks := fifo.looks + 1 }) := rfl
  have hstep : fifoReadStep (rxFifo schedule clock) port fifo =
      (false, ({ port with rxBytesInFrame := port.bytesAfter 0 } : RxPort).setFifoDesc
        { port.fifoDesc with
          control := descHiBit, buffer := Bytes.write port.fifoDesc.buffer 0 [] },
        { fifo with looks := fifo.looks + 1 }) := by
    rw [fifoReadStep, hctl, if_neg hopen, hlen]
    simp only [Nat.zero_min, fifoFill, hrep, hctl, hword, hmask, hsizeDesc, hnotFull, hframe,
      false_and, if_false, hnoStop, ne_eq, not_true_eq_false]
  refine ⟨_, _, hstep, rfl, ⟨rfl, rfl, rfl, rfl, rfl, rfl⟩, fun i hi ↦ ?_⟩
  exact Function.update_of_ne hi _ _

-- A round that finishes the descriptor, and the empty one behind it.
theorem LongFill.finish {port₁ : RxPort} {fifo₁ : RxFifo} {desc : DmaFrame}
    (h : LongFill ds n rest port fifo) (hds : 0 < ds) (hlt : ds < 4294967296)
    (hround : FsccDriver.fifoReadStep (rxFifo busyLine constClock) port fifo =
      (true, (port₁.setFifoDesc desc).nextFifo, fifo₁))
    (hkeeps : FifoKeeps port port₁) (hindex : port₁.fifoRxDesc = port.fifoRxDesc)
    (hdescs : port₁.rxDescriptors = port.rxDescriptors) (hsize : port₁.rxFrameSize = 0)
    (hline : fifo₁.line = []) (hwaiting : fifo₁.waiting = []) (hlengths : fifo₁.lengths = []) :
    ∃ port' fifo', fsccFifoReadData (rxFifo busyLine constClock) port fifo = (port', fifo') ∧
      FifoKeeps port port' ∧ port'.rxDescriptors 0 = desc ∧ fifo'.popped = fifo₁.popped := by
  have hnext : (port₁.setFifoDesc desc).nextFifo.fifoRxDesc = 1 := by
    change Cyclic.next port₁.rxNum port₁.fifoRxDesc = 1
    rw [hkeeps.rxNum, h.rxNum, hindex, h.fifoRxDesc]
    rfl
  have hfresh : (port₁.setFifoDesc desc).nextFifo.fifoDesc =
      resetRxDesc ((twoDescPort ds).rxDescriptors 1) := by
    rw [RxPort.fifoDesc, hnext]
    change Function.update port₁.rxDescriptors port₁.fifoRxDesc desc 1 = _
    rw [hindex, h.fifoRxDesc, Function.update_of_ne (by decide), hdescs, h.nextDesc]
  obtain ⟨port', fifo', hempty, hpopped, hkeeps', hother⟩ :=
    fifoReadStep_empty hds hlt hfresh hsize hline hwaiting hlengths
  have hkeeps₁ : FifoKeeps port (port₁.setFifoDesc desc).nextFifo :=
    hkeeps.trans ⟨rfl, rfl, rfl, rfl, rfl, rfl⟩
  refine ⟨port', fifo', ?_, hkeeps₁.trans hkeeps', ?_, hpopped⟩
  · rw [fsccFifoReadData, h.rxNum, fifoReadLoop, hround]
    change fifoReadLoop _ 1 (port₁.setFifoDesc desc).nextFifo fifo₁ = _
    rw [fifoReadLoop, hempty]
  · rw [hother 0 (by rw [hnext]; decide)]
    change Function.update port₁.rxDescriptors port₁.fifoRxDesc desc 0 = _
    rw [hindex, h.fifoRxDesc, Function.update_self]

-- A frame of `2 ^ 29` bytes ends: its length runs into the HI bit, and the count field reads 0.
theorem LongFill.frame {rest : List Arrival} (h : LongFill 536870912 536862720 rest port fifo)
    (hrest : rest.length = 8192) (hends : rest.filterMap Arrival.ends = [536870912]) :
    ∃ port' fifo', fsccFifoReadData (rxFifo busyLine constClock) port fifo = (port', fifo') ∧
      FifoKeeps port port' ∧ (port'.rxDescriptors 0).control = 3758096384 ∧
      (port'.rxDescriptors 0).timestamp = 1 := by
  have htake : rest.take 8192 = rest := List.take_of_length_le (Nat.le_of_eq hrest)
  have hlook := h.look (by rw [htake, hends]; decide)
  have hlengths : (fifo.look busyLine).lengths = [536870912] := by
    rw [hlook, filledFifo, htake]
    exact hends
  have hlen := receiveLength_counted constClock h.carries h.rxFrameSize hlengths (by decide)
    (by decide)
  have hrestOf : frameRest { port with rxFrameSize := (536870912 : Nat) } = 8192 := by
    rw [frameRest, h.rxBytesInFrame]
    rfl
  rw [hrestOf, hlook] at hlen
  have hwaiting : (filledFifo fifo rest).waiting.length = 8192 := by
    rw [filledFifo, List.length_map, htake, hrest]
  obtain ⟨data, hrep⟩ := rep { filledFifo fifo rest with lengths := [] } hwaiting port.channel
  have hstep := h.fifoReadStep (by decide) (by decide) (by decide) _ hlen
  have hbytes : ({ port with rxFrameSize := (536870912 : Nat) } : RxPort).bytesAfter 8192 =
      (536870912 : Nat) := by
    rw [RxPort.bytesAfter, h.rxBytesInFrame]
    rfl
  have hdone : ((536870912 : Nat) : Int) > 0 ∧ ((536870912 : Nat) : Int) ≥ (536870912 : Nat) := by
    decide
  have hctl : u32 ((536870912 : Nat) : Int) ||| descCstopBit ||| descFeBit = 3758096384 := by decide
  have hstop : ¬ 3758096384 &&& descCstopBit = 0 := by decide
  have hstamp : ({ port with rxFrameSize := (536870912 : Nat) } : RxPort).fifoDesc.timestamp = 0 :=
    h.fifoDesc ▸ h.timestamp
  have hround : FsccDriver.fifoReadStep (rxFifo busyLine constClock) port fifo =
      (true, (({ port with rxFrameSize := 0, rxBytesInFrame := 0 } : RxPort).setFifoDesc
        { port.fifoDesc with
          control := 3758096384
          dataCount := port.fifoDesc.dataSize
          buffer := Bytes.write port.fifoDesc.buffer (port.fifoDesc.control &&& dmaMaxLength) data
          timestamp := 1 }).nextFifo,
        { (({ filledFifo fifo rest with lengths := [] } : RxFifo).pop 8192) with
          ticks := fifo.ticks + 1 }) := by
    rw [hstep]
    simp only [fifoFill, hrep, hbytes, hdone, and_self, if_true, hctl, hstop, ne_eq,
      not_false_eq_true, hstamp]
    rfl
  obtain ⟨port', fifo', hrun, hkeeps, hdesc, -⟩ := h.finish (by decide) (by decide) hround
    ⟨rfl, rfl, rfl, rfl, rfl, rfl⟩ rfl rfl rfl (List.drop_of_length_le (Nat.le_of_eq hrest))
    (List.drop_of_length_le (Nat.le_of_eq hwaiting)) rfl
  exact ⟨port', fifo', hrun, hkeeps, by rw [hdesc], by rw [hdesc]⟩

end FsccDriver

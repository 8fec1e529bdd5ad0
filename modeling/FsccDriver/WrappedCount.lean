import FsccDriver.LongFill

/-!
# WrappedCount — `rx_bytes_in_frame` after `2 ^ 31` bytes

The bytes of a frame are counted in an `int`.  Here the driver drains 8192 bytes in each round and is
told of no frame; four descriptors of 1.5 GiB each stop at `2 ^ 29` bytes, the counter wraps, and then
a frame ends.  `WrapFill k` is the state after `k` rounds.
-/

namespace FsccDriver

open Words

/-- RXCNT reads 8192; RFCNT reads 0 for the first `2 ^ 18` rounds and 1 from then on.  The state is the
number of rounds. -/
def wrapHardware : Hardware Nat where
  ioRead _ offset k :=
    if offset = fifoBcOffset then (8192, k + 1)
    else if offset = fifoFcOffset then (if k < 262144 then 0 else 1, k)
    else if offset = bcFifoLOffset then (0x1fffffff, k)
    else (0, k)
  ioWrite _ _ _ k := k
  keQuerySystemTime k := (1, k)

/-- Five descriptors of `0x60000000` bytes. -/
def fiveDescPort : RxPort := { twoDescPort 1610612736 with rxNum := 5 }

structure WrapFill (k : Nat) (port : RxPort) : Prop where
  rxNum : port.rxNum = 5
  userRxDesc : port.userRxDesc = 0
  fifoRxDesc : port.fifoRxDesc = k / 65536
  rxFrameSize : port.rxFrameSize = 0
  rxBytesInFrame : port.rxBytesInFrame = i32 (8192 * k)
  dataSize : ∀ i, (port.rxDescriptors i).dataSize = 1610612736
  control : (port.rxDescriptors (k / 65536)).control = descHiBit + 8192 * (k % 65536)
  later : ∀ i, k / 65536 < i → i < 5 → (port.rxDescriptors i).control = descHiBit

variable {k : Nat} {port : RxPort}

theorem wrapHardware_getRegisterRep (channel r k : Nat) :
    (fsccPortGetRegisterRep wrapHardware channel 0 fifoOffset r k).2 = k := by
  have hchunks : ∀ n, (ioReadChunks wrapHardware 0 fifoOffset n k).2 = k := by
    intro n
    induction n with
    | zero => rfl
    | succ n ih => exact ih
  rw [fsccPortGetRegisterRep]
  split
  · rw [portOffset_bar0, fsccCardGetRegisterRep]
    dsimp only
    generalize hread : ioReadChunks wrapHardware 0 fifoOffset _ k = read
    have hsame : read.2 = k := hread ▸ hchunks _
    split
    · exact hsame
    · exact hsame
  · rfl

theorem receiveLength_wrap (hsize : port.rxFrameSize = 0) (hk : k < 262144) :
    receiveLength wrapHardware port k = (8192, port, k + 1) := by
  have hrfcnt : fsccIoGetRFCNT wrapHardware port k = (0, k) := by
    rw [fsccIoGetRFCNT, fsccPortGetRegister, portOffset_bar0]
    show (BitVec.toNat (if k < 262144 then 0 else 1) &&& 0x000003ff, k) = _
    rw [if_pos hk]
    rfl
  have hrxcnt : fsccIoGetRXCNT wrapHardware port k = (8192, k + 1) := by
    have hread : fsccCardGetRegister wrapHardware 0 fifoBcOffset k = (8192, k + 1) := rfl
    have hmask : (8192 : BitVec 32).toNat &&& 0x00003FFF = 8192 := by decide
    rw [fsccIoGetRXCNT, fsccPortGetRegister, portOffset_bar0, hread]
    dsimp only
    rw [hmask, if_neg (Nat.lt_irrefl 8192)]
  simp only [receiveLength, hsize, if_true, hrfcnt, ne_eq, not_true_eq_false, if_false, hrxcnt]

-- What becomes of the count of a descriptor in a round.
theorem wrap_control {c : Nat} (hc : c < 65536) :
    descHiBit + 8192 * c + 8192 = descHiBit + 8192 * (c + 1) ∧
      ¬ descHiBit + 8192 * (c + 1) &&& dmaMaxLength ≥ 1610612736 ∧
      (descHiBit + 8192 * (c + 1) &&& descCstopBit ≠ 0 ↔ c + 1 = 65536) := by
  refine ⟨by omega, ?_, ?_⟩
  · rw [and_dmaMaxLength]
    omega
  · rw [ne_eq, and_descCstopBit, descHiBit]
    omega

theorem WrapFill.fifoDesc (h : WrapFill k port) :
    port.fifoDesc = port.rxDescriptors (k / 65536) := by rw [RxPort.fifoDesc, h.fifoRxDesc]

theorem WrapFill.room (h : WrapFill k port) :
    ¬ port.fifoDesc.control &&& descCstopBit = descCstopBit ∧
      u32 ((port.fifoDesc.dataSize : Int) - (port.fifoDesc.control &&& dmaMaxLength : Nat)) =
        1610612736 - 8192 * (k % 65536) := by
  have hmod : k % 65536 < 65536 := Nat.mod_lt _ (by decide)
  have hcount : port.fifoDesc.control &&& dmaMaxLength = 8192 * (k % 65536) := by
    rw [h.fifoDesc, h.control, and_dmaMaxLength, descHiBit]
    omega
  rw [hcount, h.fifoDesc, h.dataSize, h.control, and_descCstopBit_self, descHiBit]
  exact ⟨by omega, u32_sub_of_le (by decide) (by omega)⟩

theorem WrapFill.step (h : WrapFill k port) (hk : k < 262144) :
    ∃ port', fifoReadStep wrapHardware port k = (decide ((k + 1) % 65536 = 0), port', k + 1) ∧
      WrapFill (k + 1) port' := by
  have hmod : k % 65536 < 65536 := Nat.mod_lt _ (by decide)
  obtain ⟨hopen, hroom⟩ := h.room
  obtain ⟨hsum, hnotFull, hstop⟩ := wrap_control hmod
  have hctl : u32 ((port.fifoDesc.control : Int) + (8192 : Nat)) =
      descHiBit + 8192 * (k % 65536 + 1) := by
    rw [h.fifoDesc, h.control, u32_add_of_lt (by rw [descHiBit]; omega), hsum]
  have hbytes : port.bytesAfter 8192 = i32 (8192 * (k + 1)) := by
    have hbefore : i32 (8192 * k) = (8192 * k : Nat) := i32_of_lt (by omega)
    rw [RxPort.bytesAfter, h.rxBytesInFrame, hbefore, u32_add_of_lt (by omega), Nat.mul_add_one]
  have hsize : port.fifoDesc.dataSize = 1610612736 := by rw [h.fifoDesc, h.dataSize]
  have hframe : ¬ port.rxFrameSize > 0 := by
    rw [h.rxFrameSize]
    exact lt_irrefl 0
  have hstep : fifoReadStep wrapHardware port k =
      fifoFill wrapHardware 8192 port (k + 1) := by
    rw [fifoReadStep, if_neg hopen, receiveLength_wrap h.rxFrameSize hk]
    dsimp only
    rw [hroom, Nat.min_eq_left (by omega)]
  have hrep := wrapHardware_getRegisterRep port.channel 8192 (k + 1)
  generalize hread : fsccPortGetRegisterRep wrapHardware port.channel 0 fifoOffset 8192 (k + 1) =
    rep at hrep
  obtain ⟨data, k'⟩ := rep
  obtain rfl : k' = k + 1 := hrep
  have hself : ∀ desc, Function.update port.rxDescriptors port.fifoRxDesc desc (k / 65536) = desc := by
    intro desc
    rw [h.fifoRxDesc, Function.update_self]
  have hother : ∀ desc i, i ≠ k / 65536 →
      Function.update port.rxDescriptors port.fifoRxDesc desc i = port.rxDescriptors i := by
    intro desc i hi
    rw [h.fifoRxDesc, Function.update_of_ne hi]
  have hsizes : ∀ desc : DmaFrame, desc.dataSize = 1610612736 → ∀ i,
      (Function.update port.rxDescriptors port.fifoRxDesc desc i).dataSize = 1610612736 := by
    intro desc hdesc i
    by_cases hi : i = k / 65536
    · rw [hi, hself]
      exact hdesc
    · rw [hother desc i hi]
      exact h.dataSize i
  generalize hwraps : i32 (8192 * (k + 1)) = bytes at hbytes
  rw [hstep]
  by_cases hend : (k + 1) % 65536 = 0
  · -- The count runs into CSTOP.
    have hlast : k % 65536 + 1 = 65536 := by omega
    have hdone := hstop.mpr hlast
    have hfill : ∃ timestamp, fifoFill wrapHardware 8192 port (k + 1) =
        (true, (({ port with rxBytesInFrame := bytes } : RxPort).setFifoDesc
          { port.fifoDesc with
            control := descHiBit + 8192 * (k % 65536 + 1)
            dataCount := port.fifoDesc.dataSize
            buffer := Bytes.write port.fifoDesc.buffer (port.fifoDesc.control &&& dmaMaxLength) data
            timestamp }).nextFifo, k + 1) := by
      simp only [fifoFill, hread, hctl, hbytes, hsize, hnotFull, hframe, false_and, if_false, hdone,
        ne_eq, not_false_eq_true, if_true]
      split
      · exact ⟨1, rfl⟩
      · exact ⟨_, rfl⟩
    obtain ⟨timestamp, hfill⟩ := hfill
    have hdiv : (k + 1) / 65536 = k / 65536 + 1 := by omega
    refine ⟨_, by rw [hfill, decide_eq_true hend], ?_⟩
    constructor
    case fifoRxDesc =>
      show Cyclic.next port.rxNum port.fifoRxDesc = _
      rw [h.rxNum, h.fifoRxDesc, Cyclic.next, if_neg (by omega), hdiv]
    case rxBytesInFrame => exact hwraps.symm
    case dataSize => exact hsizes _ hsize
    case control =>
      rw [hdiv, hend]
      exact (congrArg DmaFrame.control (hother _ _ (by omega))).trans
        (h.later _ (Nat.lt_succ_self _) (by omega))
    case later =>
      intro i hi hlt
      rw [hdiv] at hi
      exact (congrArg DmaFrame.control (hother _ i (by omega))).trans (h.later i (by omega) hlt)
    exacts [h.rxNum, h.userRxDesc, h.rxFrameSize]
  · have hgo : ¬ k % 65536 + 1 = 65536 := by omega
    have hnoStop := mt hstop.mp hgo
    have hfill : fifoFill wrapHardware 8192 port (k + 1) =
        (false, ({ port with rxBytesInFrame := bytes } : RxPort).setFifoDesc
          { port.fifoDesc with
            control := descHiBit + 8192 * (k % 65536 + 1)
            buffer := Bytes.write port.fifoDesc.buffer (port.fifoDesc.control &&& dmaMaxLength) data },
          k + 1) := by
      simp only [fifoFill, hread, hctl, hbytes, hsize, hnotFull, hframe, false_and, if_false, hnoStop]
    have hdiv : (k + 1) / 65536 = k / 65536 := by omega
    have hnext : (k + 1) % 65536 = k % 65536 + 1 := by omega
    refine ⟨_, by rw [hfill, decide_eq_false hend], ?_⟩
    constructor
    case fifoRxDesc => exact hdiv ▸ h.fifoRxDesc
    case rxBytesInFrame => exact hwraps.symm
    case dataSize => exact hsizes _ hsize
    case control =>
      rw [hdiv, hnext]
      exact congrArg DmaFrame.control (hself _)
    case later =>
      intro i hi hlt
      rw [hdiv] at hi
      exact (congrArg DmaFrame.control (hother _ i (by omega))).trans (h.later i hi hlt)
    exacts [h.rxNum, h.userRxDesc, h.rxFrameSize]

/-! ## Calls -/

theorem WrapFill.call (h : WrapFill k port) (hk : k + 1 < 262144) :
    ∃ port', fsccFifoReadData wrapHardware port k =
        (port', if (k + 1) % 65536 = 0 then k + 2 else k + 1) ∧
      WrapFill (if (k + 1) % 65536 = 0 then k + 2 else k + 1) port' := by
  obtain ⟨port₁, hround, h₁⟩ := h.step (by omega)
  rw [fsccFifoReadData, h.rxNum, fifoReadLoop, hround]
  by_cases hend : (k + 1) % 65536 = 0
  · obtain ⟨port₂, hround₂, h₂⟩ := h₁.step hk
    have hgo : ¬ (k + 1 + 1) % 65536 = 0 := by omega
    rw [decide_eq_true hend, if_pos hend]
    dsimp only
    rw [fifoReadLoop, hround₂, decide_eq_false hgo]
    exact ⟨port₂, rfl, h₂⟩
  · rw [decide_eq_false hend, if_neg hend]
    exact ⟨port₁, rfl, h₁⟩

theorem wrapFill_start : WrapFill 0 (resetRx fiveDescPort) := by
  have hi : ∀ i, ((resetRx fiveDescPort).rxDescriptors i).dataSize = 1610612736 := by
    intro i
    show (if i < 5 then _ else _ : DmaFrame).dataSize = _
    split <;> rfl
  have hcontrol : ∀ i < 5, ((resetRx fiveDescPort).rxDescriptors i).control = descHiBit := by
    intro i hi
    show (if i < 5 then _ else _ : DmaFrame).control = _
    rw [if_pos hi]
    rfl
  exact ⟨rfl, rfl, rfl, rfl, rfl, hi, hcontrol 0 (by decide), fun i _ hlt ↦ hcontrol i hlt⟩

-- How many rounds the first `j + 1` calls take.
def wrapRounds (j : Nat) : Nat := 65536 * (j / 65535) + j % 65535 + 1

theorem wrapFill_calls {j : Nat} (hj : j < 262140) :
    ∃ port, fifoCalls wrapHardware (j + 1) (resetRx fiveDescPort) 0 = (port, wrapRounds j) ∧
      WrapFill (wrapRounds j) port := by
  induction j with
  | zero =>
    obtain ⟨port, hcall, h⟩ := wrapFill_start.call (by decide)
    exact ⟨port, hcall, h⟩
  | succ j ih =>
    obtain ⟨port, hcalls, h⟩ := ih (by omega)
    have hrounds : wrapRounds (j + 1) = if (wrapRounds j + 1) % 65536 = 0 then wrapRounds j + 2
        else wrapRounds j + 1 := by
      unfold wrapRounds
      split <;> omega
    obtain ⟨port', hcall, h'⟩ := h.call (by
      unfold wrapRounds
      omega)
    rw [hrounds]
    exact ⟨port', (fifoCalls_succ hcalls).trans hcall, h'⟩

/-! ## The frame behind them -/

-- In the round behind them a frame ends, which is taken to have more bytes than it has.
theorem receiveLength_wrapped (hsize : port.rxFrameSize = 0)
    (hbytes : port.rxBytesInFrame = -2147483648) :
    receiveLength wrapHardware port 262144 =
      (2684354559, { port with rxFrameSize := 536870911 }, 262144) := by
  have hrfcnt : fsccIoGetRFCNT wrapHardware port 262144 = (1, 262144) := by
    have hread : fsccCardGetRegister wrapHardware 0 fifoFcOffset 262144 = (1, 262144) := by
      show ((if 262144 < 262144 then 0 else 1 : BitVec 32), 262144) = _
      rw [if_neg (Nat.lt_irrefl _)]
    have hmask : (1 : BitVec 32).toNat &&& 0x000003ff = 1 := by decide
    rw [fsccIoGetRFCNT, fsccPortGetRegister, portOffset_bar0, hread]
    dsimp only
    rw [hmask]
  have hlength : fsccPortGetRegister wrapHardware port.channel 0 bcFifoLOffset 262144 =
      (0x1fffffff, 262144) := rfl
  have hnat : i32 (0x1fffffff : BitVec 32).toNat = 536870911 := by decide
  have hone : (1 : Nat) ≠ 0 := by decide
  have hframe : (536870911 : Int) ≠ 0 := by decide
  have hlong : (536870911 : Int) > -2147483648 := by decide
  have hrest : u32 (536870911 - -2147483648) = 2684354559 := by decide
  simp only [receiveLength, hsize, if_true, hrfcnt, if_pos hone, hlength, hnat, if_pos hframe, hbytes,
    if_pos hlong, hrest]

/-- A fill that runs the count into FE alone leaves the descriptor with FE and without CSTOP. -/
theorem fifoFill_fe {H : Type} (hw : Hardware H) (r : Nat) (port : RxPort) (s : H)
    (hctl : u32 ((port.fifoDesc.control : Int) + r) = descFeBit) (hsize : 0 < port.fifoDesc.dataSize)
    (hshort : ¬ port.bytesAfter r ≥ port.rxFrameSize) :
    ∃ buffer s', fifoFill hw r port s =
      (false, ({ port with rxBytesInFrame := port.bytesAfter r } : RxPort).setFifoDesc
        { port.fifoDesc with control := descFeBit, buffer }, s') := by
  have hroom : ¬ descFeBit &&& dmaMaxLength ≥ port.fifoDesc.dataSize := by
    have hnone : descFeBit &&& dmaMaxLength = 0 := by decide
    rw [hnone]
    exact Nat.not_le_of_lt hsize
  have hnoStop : ¬ descFeBit &&& descCstopBit ≠ 0 := by decide
  have hframe : ¬ (port.rxFrameSize > 0 ∧ port.bytesAfter r ≥ port.rxFrameSize) := fun h ↦ hshort h.2
  generalize hread : fsccPortGetRegisterRep hw port.channel 0 fifoOffset r s = rep
  obtain ⟨data, s'⟩ := rep
  refine ⟨Bytes.write port.fifoDesc.buffer (port.fifoDesc.control &&& dmaMaxLength) data, s', ?_⟩
  simp only [fifoFill, hread, hctl, if_neg hroom, if_neg hframe, if_neg hnoStop]

-- The counter has wrapped, so the driver takes the frame to have more bytes than the descriptor.
theorem WrapFill.broken (h : WrapFill 262144 port) :
    ∃ port' k', fifoReadStep wrapHardware port 262144 = (false, port', k') ∧
      port'.rxNum = 5 ∧ port'.userRxDesc = 0 ∧ port'.fifoRxDesc = 4 ∧
      (port'.rxDescriptors 4).control = descFeBit := by
  obtain ⟨hopen, hroom⟩ := h.room
  have hwrapped : port.rxBytesInFrame = -2147483648 := h.rxBytesInFrame.trans (by decide)
  have hfour : port.fifoRxDesc = 4 := h.fifoRxDesc.trans (by decide)
  have hcontrol : port.fifoDesc.control = descHiBit := by
    rw [h.fifoDesc]
    exact h.control.trans (by decide)
  have hsize : 0 < port.fifoDesc.dataSize := by
    rw [h.fifoDesc, h.dataSize]
    decide
  have hlength := receiveLength_wrapped h.rxFrameSize hwrapped
  have hmin : min 2684354559 (1610612736 - 8192 * (262144 % 65536)) = 1610612736 := by decide
  have hctl : u32 ((descHiBit : Int) + (1610612736 : Nat)) = descFeBit := by decide
  have hsum : ¬ i32 (u32 (-2147483648 + (1610612736 : Nat))) ≥ 536870911 := by decide
  generalize 1610612736 - 8192 * (262144 % 65536) = room at hroom hmin
  generalize 1610612736 = r at hmin hctl hsum
  have hstep : fifoReadStep wrapHardware port 262144 =
      fifoFill wrapHardware r { port with rxFrameSize := 536870911 } 262144 := by
    rw [fifoReadStep, if_neg hopen, hlength, ← hmin, ← hroom]
    rfl
  have hshort : ¬ port.bytesAfter r ≥ 536870911 := by
    rw [RxPort.bytesAfter, hwrapped]
    exact hsum
  rw [← hcontrol] at hctl
  obtain ⟨buffer, k', hfill⟩ := fifoFill_fe wrapHardware r
    { port with rxFrameSize := 536870911 } 262144 hctl hsize hshort
  refine ⟨_, k', hstep.trans hfill, h.rxNum, h.userRxDesc, hfour, ?_⟩
  show (Function.update port.rxDescriptors port.fifoRxDesc _ 4).control = descFeBit
  rw [hfour, Function.update_self]

/-- `262141` calls leave a descriptor with FE and without CSTOP. -/
theorem wrapped_calls :
    ∃ port k, fifoCalls wrapHardware 262141 (resetRx fiveDescPort) 0 = (port, k) ∧
      port.rxNum = 5 ∧ port.userRxDesc = 0 ∧ port.fifoRxDesc = 4 ∧
      (port.rxDescriptors 4).control = descFeBit := by
  obtain ⟨port, hcalls, h⟩ := wrapFill_calls (show 262139 < 262140 by decide)
  obtain ⟨port₁, hround, h₁⟩ := h.step (by decide)
  obtain ⟨port₂, k₂, hround₂, hend⟩ := h₁.broken
  refine ⟨port₂, k₂, (fifoCalls_succ hcalls).trans ?_, hend⟩
  have hfull : (wrapRounds 262139 + 1) % 65536 = 0 := by decide
  rw [fsccFifoReadData, h.rxNum, fifoReadLoop, hround, decide_eq_true hfull]
  show fifoReadLoop wrapHardware 4 port₁ 262144 = _
  rw [fifoReadLoop, hround₂]

end FsccDriver

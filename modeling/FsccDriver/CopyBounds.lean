import FsccDriver.FrameSplit
import FsccDriver.LongFill
import FsccDriver.Lib.Runs

/-!
# CopyBounds — the copies of the receive path stay in their buffers

Each call has a list of the copies it makes: drains into a descriptor, moves out of one, and what is
stored at the caller's `buf`.  They are in bounds for any hardware, as long as a frame that a read
takes ends in the descriptor that its length reaches into.
-/

namespace FsccDriver

open Words

/-! ## The copies of each call -/

/-- One side of a copy: `length` bytes at `offset` of a buffer of `size` bytes. -/
structure Access where
  offset : Nat
  length : Nat
  size : Nat

def Access.InBounds (access : Access) : Prop := access.offset + access.length ≤ access.size

instance (access : Access) : Decidable access.InBounds :=
  inferInstanceAs (Decidable (access.offset + access.length ≤ access.size))

variable {H : Type}

-- The drain into a descriptor, when the FIFO is taken to hold `length` bytes.
def drainAccesses (desc : DmaFrame) (length : Nat) : List Access :=
  let count := desc.control &&& dmaMaxLength
  let receiveLength := min length (u32 ((desc.dataSize : Int) - count))
  if receiveLength ≠ 0 then [⟨count, receiveLength, desc.dataSize⟩] else []

def fifoReadStepAccesses (hw : Hardware H) (port : RxPort) (h : H) : List Access :=
  if port.fifoDesc.control &&& descCstopBit = descCstopBit then []
  else
    let (length, port, _) := receiveLength hw port h
    drainAccesses port.fifoDesc length

def fifoReadLoopAccesses (hw : Hardware H) : Nat → RxPort → H → List Access
  | 0, _, _ => []
  | n + 1, port, h =>
      fifoReadStepAccesses hw port h ++
        match fifoReadStep hw port h with
        | (true, port, h) => fifoReadLoopAccesses hw n port h
        | (false, _, _) => []

-- The move out of the descriptor, at both of its ends, and the timestamp behind it.
def readFrameStepAccesses (bufLength : Nat) (st : ReadLoop) : List Access :=
  (if realMoveSize st ≠ 0 then
    [⟨0, realMoveSize st, st.port.userDesc.dataSize⟩, ⟨st.outLength, realMoveSize st, bufLength⟩]
  else []) ++
    if (moveData st).bytesInDescs = 0 ∧ (moveData st).port.appendTimestamp then
      [⟨(moveData st).outLength, 8, bufLength⟩]
    else []

def readFrameLoopAccesses (hw : Hardware H) (bufLength : Nat) : Nat → ReadLoop → H → List Access
  | 0, _, _ => []
  | n + 1, st, h =>
      readFrameStepAccesses bufLength st ++
        match readFrameStep hw bufLength st h with
        | (true, st, h) => readFrameLoopAccesses hw bufLength n st h
        | (false, _, _) => []

def userReadFrameAccesses (hw : Hardware H) (bufLength : Nat) (port : RxPort) (h : H) :
    List Access :=
  let (frameReady, bytesInDescs) := fsccUserNextReadSize port
  if ¬ frameReady then []
  else if bufferRequirement port bytesInDescs > bufLength then []
  else readFrameLoopAccesses hw bufLength port.rxNum (readFrameStart port bytesInDescs) h

-- The copy to the caller and, when a part of the descriptor is left, the move to its front.
def readStreamStepAccesses (bufLength : Nat) (st : StreamLoop) : List Access :=
  let desc := st.port.userDesc
  if desc.control &&& descFeBit = 0 ∧ desc.control &&& descCstopBit = 0 then []
  else
    let length := streamReceiveLength bufLength st
    let moved := sizeT (i32 (desc.dataCount - length))
    [⟨0, length, desc.dataSize⟩, ⟨st.outLength, length, bufLength⟩] ++
      if length = desc.dataCount then []
      else [⟨length, moved, desc.dataSize⟩, ⟨0, moved, desc.dataSize⟩]

def readStreamLoopAccesses (bufLength : Nat) : Nat → StreamLoop → List Access
  | 0, _ => []
  | n + 1, st =>
      readStreamStepAccesses bufLength st ++
        match readStreamStep bufLength st with
        | (true, st) => readStreamLoopAccesses bufLength n st
        | (false, _) => []

def userReadStreamAccesses (bufLength : Nat) (port : RxPort) : List Access :=
  readStreamLoopAccesses bufLength port.rxNum { port, i := 0, outLength := 0, out := [] }

/-! ## What every descriptor keeps to -/

structure DescBounds (ds : Nat) (desc : DmaFrame) : Prop where
  dataSize : desc.dataSize = ds
  dataCount : desc.dataCount ≤ ds
  count : ¬ desc.control &&& descCstopBit = descCstopBit → desc.control &&& dmaMaxLength < ds

structure RxBounds (ds : Nat) (port : RxPort) : Prop where
  user : port.userRxDesc < port.rxNum
  fifo : port.fifoRxDesc < port.rxNum
  descs : ∀ i < port.rxNum, DescBounds ds (port.rxDescriptors i)

variable {ds : Nat} {port : RxPort} {desc : DmaFrame}

theorem RxBounds.userDesc (h : RxBounds ds port) : DescBounds ds port.userDesc := h.descs _ h.user

theorem RxBounds.fifoDesc (h : RxBounds ds port) : DescBounds ds port.fifoDesc := h.descs _ h.fifo

theorem RxBounds.update (h : RxBounds ds port) (hdesc : DescBounds ds desc) (index : Nat) :
    ∀ i < port.rxNum, DescBounds ds (Function.update port.rxDescriptors index desc i) := by
  intro i hi
  by_cases heq : i = index
  · rw [heq, Function.update_self]
    exact hdesc
  · rw [Function.update_of_ne heq]
    exact h.descs i hi

theorem RxBounds.setFifoDesc (h : RxBounds ds port) (hdesc : DescBounds ds desc) :
    RxBounds ds (port.setFifoDesc desc) := ⟨h.user, h.fifo, h.update hdesc _⟩

theorem RxBounds.setUserDesc (h : RxBounds ds port) (hdesc : DescBounds ds desc) :
    RxBounds ds (port.setUserDesc desc) := ⟨h.user, h.fifo, h.update hdesc _⟩

theorem RxBounds.nextFifo (h : RxBounds ds port) : RxBounds ds port.nextFifo :=
  ⟨h.user, Cyclic.next_lt h.fifo, h.descs⟩

theorem RxBounds.nextUser (h : RxBounds ds port) : RxBounds ds port.nextUser :=
  ⟨Cyclic.next_lt h.user, h.fifo, h.descs⟩

theorem RxBounds.setFrame (h : RxBounds ds port) (size bytes : Int) :
    RxBounds ds { port with rxFrameSize := size, rxBytesInFrame := bytes } :=
  ⟨h.user, h.fifo, h.descs⟩

theorem descBounds_fresh (hds : 0 < ds) (hsize : desc.dataSize = ds) (hcount : desc.dataCount ≤ ds)
    (hcontrol : desc.control &&& dmaMaxLength = 0) : DescBounds ds desc :=
  ⟨hsize, hcount, fun _ ↦ hcontrol ▸ hds⟩

theorem descHiBit_and_dmaMaxLength : descHiBit &&& dmaMaxLength = 0 := by decide

theorem RxBounds.release (h : RxBounds ds port) (hds : 0 < ds) :
    RxBounds ds (releaseUserDesc port) :=
  (h.setUserDesc (show DescBounds ds { port.userDesc with timestamp := 0, control := descHiBit } from
    descBounds_fresh hds h.userDesc.dataSize h.userDesc.dataCount
      descHiBit_and_dmaMaxLength)).nextUser

theorem resetRx_bounds (h : RxMemory ds port) : RxBounds ds (resetRx port) := by
  have hpos : 0 < port.rxNum := Nat.lt_of_lt_of_le Nat.two_pos h.slots
  refine ⟨hpos, hpos, fun i hi ↦ ?_⟩
  change i < port.rxNum at hi
  change DescBounds ds (if i < port.rxNum then _ else _)
  rw [if_pos hi]
  exact descBounds_fresh h.size.pos (h.descs i hi).1 (Nat.le_of_eq (h.descs i hi).1)
    descHiBit_and_dmaMaxLength

/-! ## Drains -/

section Drain

variable {hw : Hardware H} {s : H}

-- Settling how much there is to take changes the frame length at most.
theorem receiveLength_port (hw : Hardware H) (port : RxPort) (s : H) :
    ∃ size, (receiveLength hw port s).2.1 = { port with rxFrameSize := size } := by
  unfold receiveLength
  by_cases hsize : port.rxFrameSize = 0
  · by_cases hcount : (fsccIoGetRFCNT hw port s).1 = 0
    · simp only [hsize, if_true, hcount, ne_eq, not_true_eq_false, if_false]
      exact ⟨port.rxFrameSize, rfl⟩
    · simp only [hsize, if_true, hcount, ne_eq, not_false_eq_true]
      split
      · split <;> exact ⟨_, rfl⟩
      · exact ⟨_, rfl⟩
  · simp only [hsize, if_false, ne_eq, not_false_eq_true, if_true]
    split <;> exact ⟨port.rxFrameSize, rfl⟩

-- A descriptor that a round leaves open is not full.
theorem fifoFill_bounds (h : RxBounds ds port) (r : Nat) :
    RxBounds ds (fifoFill hw r port s).2.1 := by
  have hdesc := h.fifoDesc
  have hdone : ∀ (port' : RxPort) control buffer timestamp, RxBounds ds port' →
      control &&& descCstopBit ≠ 0 →
      RxBounds ds (port'.setFifoDesc { port.fifoDesc with
        control, dataCount := port.fifoDesc.dataSize, buffer, timestamp }).nextFifo := by
    intro port' control buffer timestamp h' hstop
    apply RxBounds.nextFifo
    apply h'.setFifoDesc
    refine ⟨hdesc.dataSize, Nat.le_of_eq hdesc.dataSize, fun hnot ↦ ?_⟩
    change ¬ control &&& descCstopBit = descCstopBit at hnot
    rw [and_descCstopBit_self] at hnot
    rw [Ne, and_descCstopBit] at hstop
    omega
  unfold fifoFill
  generalize fsccPortGetRegisterRep hw port.channel 0 fifoOffset r s = rep
  obtain ⟨data, s'⟩ := rep
  dsimp only
  generalize u32 ((port.fifoDesc.control : Int) + r) = control
  by_cases hframe : port.rxFrameSize > 0 ∧ port.bytesAfter r ≥ port.rxFrameSize
  · simp only [if_pos hframe, if_pos (or_descCstopBit_ne_zero _ _)]
    exact hdone _ _ _ _ (h.setFrame 0 0) (or_descCstopBit_ne_zero _ _)
  · by_cases hfull : control &&& dmaMaxLength ≥ port.fifoDesc.dataSize
    · have hstop := or_descCstopBit_ne_zero (control &&& not32 dmaMaxLength) 0
      rw [Nat.or_zero] at hstop
      simp only [if_neg hframe, if_pos hfull, if_pos hstop]
      exact hdone _ _ _ _ (h.setFrame _ _) hstop
    · by_cases hstop : control &&& descCstopBit ≠ 0
      · simp only [if_neg hframe, if_neg hfull, if_pos hstop]
        exact hdone _ _ _ _ (h.setFrame _ _) hstop
      · simp only [if_neg hframe, if_neg hfull, if_neg hstop]
        refine (h.setFrame _ _).setFifoDesc ⟨hdesc.dataSize, hdesc.dataCount, fun _ ↦ ?_⟩
        rw [← hdesc.dataSize]
        exact Nat.lt_of_not_le hfull

theorem drainAccesses_inBounds (h : DescBounds ds desc) (hds : ds < 4294967296)
    (hopen : ¬ desc.control &&& descCstopBit = descCstopBit) (length : Nat) :
    ∀ access ∈ drainAccesses desc length, access.InBounds := by
  have hcount := h.count hopen
  unfold drainAccesses
  rw [h.dataSize]
  dsimp only
  rw [u32_sub_of_le hds (Nat.le_of_lt hcount)]
  intro access haccess
  split at haccess
  · rw [List.mem_singleton.mp haccess]
    change (desc.control &&& dmaMaxLength) + min _ _ ≤ ds
    omega
  · exact absurd haccess List.not_mem_nil

theorem fifoReadStep_bounds (h : RxBounds ds port) (hds : ds < 4294967296) (hw : Hardware H)
    (s : H) :
    RxBounds ds (fifoReadStep hw port s).2.1 ∧
      ∀ access ∈ fifoReadStepAccesses hw port s, access.InBounds := by
  by_cases hopen : port.fifoDesc.control &&& descCstopBit = descCstopBit
  · rw [fifoReadStep, fifoReadStepAccesses, if_pos hopen, if_pos hopen]
    exact ⟨h, fun _ haccess ↦ absurd haccess List.not_mem_nil⟩
  · rw [fifoReadStep, fifoReadStepAccesses, if_neg hopen, if_neg hopen]
    obtain ⟨size, hport⟩ := receiveLength_port hw port s
    generalize receiveLength hw port s = received at hport
    obtain ⟨length, port', s'⟩ := received
    obtain rfl : port' = { port with rxFrameSize := size } := hport
    exact ⟨fifoFill_bounds (h.setFrame size _) _,
      drainAccesses_inBounds h.fifoDesc hds hopen length⟩

theorem fifoReadLoop_bounds (h : RxBounds ds port) (hds : ds < 4294967296) (hw : Hardware H) (n : Nat)
    (s : H) :
    RxBounds ds (fifoReadLoop hw n port s).1 ∧
      ∀ access ∈ fifoReadLoopAccesses hw n port s, access.InBounds := by
  induction n generalizing port s with
  | zero => exact ⟨h, fun _ haccess ↦ absurd haccess List.not_mem_nil⟩
  | succ n ih =>
    obtain ⟨hnext, hround⟩ := fifoReadStep_bounds h hds hw s
    rw [fifoReadLoop, fifoReadLoopAccesses]
    generalize fifoReadStep hw port s = round at hnext
    obtain ⟨again, port', s'⟩ := round
    cases again with
    | false =>
      refine ⟨hnext, fun access haccess ↦ hround access ?_⟩
      rwa [List.append_nil] at haccess
    | true =>
      obtain ⟨hlast, hrest⟩ := ih hnext s'
      refine ⟨hlast, fun access haccess ↦ ?_⟩
      rcases List.mem_append.mp haccess with hhere | hlater
      · exact hround access hhere
      · exact hrest access hlater

end Drain

/-! ## Moves out of frames -/

def DmaFrame.EndsFrame (desc : DmaFrame) : Prop :=
  desc.control &&& descFeBit ≠ 0 ∧ desc.control &&& descCstopBit ≠ 0

instance (desc : DmaFrame) : Decidable desc.EndsFrame :=
  inferInstanceAs (Decidable (desc.control &&& descFeBit ≠ 0 ∧ desc.control &&& descCstopBit ≠ 0))

/-- The descriptors of the ring, from `user_rx_desc` on. -/
def RxPort.ahead (port : RxPort) : List DmaFrame :=
  Cyclic.turn port.rxDescriptors port.rxNum port.userRxDesc

/-- `fscc_user_next_read_size` on a list of descriptors. -/
def frameScan : List DmaFrame → Nat → Bool × Nat
  | [], bytes => (false, bytes)
  | desc :: descs, bytes =>
      if desc.Unfinished then (false, bytes)
      else if desc.EndsFrame then (true, desc.control &&& dmaMaxLength)
      else frameScan descs (u32 ((bytes : Int) + desc.dataCount))

theorem ahead_cons (hlt : port.userRxDesc < port.rxNum) :
    port.ahead = port.userDesc :: port.ahead.tail := Cyclic.turn_eq_cons _ hlt

theorem ahead_release (hlt : port.userRxDesc < port.rxNum) :
    (releaseUserDesc port).ahead = port.ahead.tail ++
      [{ port.userDesc with timestamp := 0, control := descHiBit }] :=
  Cyclic.turn_update_next port.rxDescriptors _ hlt

theorem fsccUserNextReadSize_ahead (hlt : port.userRxDesc < port.rxNum) :
    fsccUserNextReadSize port = frameScan port.ahead 0 := by
  -- Induction on the rounds left, over the descriptors that have not been looked at.
  have hloop : ∀ n j bytes, j + n = port.rxNum →
      nextReadSizeLoop port n ((port.userRxDesc + j) % port.rxNum) bytes =
        frameScan (port.ahead.drop j) bytes := by
    intro n
    induction n with
    | zero =>
      intro j bytes hj
      rw [List.drop_of_length_le (by rw [RxPort.ahead, Cyclic.turn_length]; omega)]
      rfl
    | succ n ih =>
      intro j bytes hj
      have hlen : j < port.ahead.length := by
        rw [RxPort.ahead, Cyclic.turn_length]
        omega
      have hget : port.ahead[j] = port.rxDescriptors ((port.userRxDesc + j) % port.rxNum) :=
        Cyclic.turn_getElem hlen
      rw [nextReadSizeLoop, Cyclic.next_add_mod (by omega), ih (j + 1) _ (by omega),
        List.drop_eq_getElem_cons hlen, frameScan, hget]
      rfl
  have hstart := hloop port.rxNum 0 0 (Nat.zero_add _)
  rwa [Nat.add_zero, Nat.mod_eq_of_lt hlt] at hstart

-- Unfinished descriptors at the end do not make a frame.
theorem frameScan_append {descs released : List DmaFrame} {bytes length : Nat}
    (hreleased : ∀ desc ∈ released, desc.Unfinished)
    (h : frameScan (descs ++ released) bytes = (true, length)) :
    frameScan descs bytes = (true, length) := by
  induction descs generalizing bytes with
  | nil =>
    cases released with
    | nil => cases h
    | cons desc released =>
      rw [List.nil_append, frameScan, if_pos (hreleased desc List.mem_cons_self)] at h
      cases h
  | cons desc descs ih =>
    rw [List.cons_append, frameScan] at h
    rw [frameScan]
    by_cases hopen : desc.Unfinished
    · rw [if_pos hopen] at h
      cases h
    · rw [if_neg hopen] at h ⊢
      by_cases hends : desc.EndsFrame
      · rw [if_pos hends] at h ⊢
        exact h
      · rw [if_neg hends] at h ⊢
        exact ih h

/-- The length in the last descriptor of a frame reaches into that descriptor and not beyond it, when
`behind` bytes are in the ones before; and the two status bytes can be taken off it. -/
def FrameCovered (port : RxPort) (behind : Nat) (last : DmaFrame) : Prop :=
  behind < last.control &&& dmaMaxLength ∧
    last.control &&& dmaMaxLength ≤ behind + last.dataSize ∧
    (2 ≤ last.control &&& dmaMaxLength ∨ port.appendStatus = true ∨ port.appendTimestamp = false)

/-- Every frame that a read may take is covered: the first one, and all of them under `rx_multiple`. -/
def FramesCovered (port : RxPort) : List DmaFrame → (behind : Nat) → Prop
  | [], _ => True
  | desc :: descs, behind =>
      if desc.Unfinished then True
      else if desc.EndsFrame then
        FrameCovered port behind desc ∧ (port.rxMultiple = true → FramesCovered port descs 0)
      else FramesCovered port descs (behind + desc.dataCount)

instance (port : RxPort) (behind : Nat) (last : DmaFrame) : Decidable (FrameCovered port behind last) :=
  inferInstanceAs (Decidable (_ ∧ _ ∧ (_ ∨ _ ∨ _)))

instance FramesCovered.decidable (port : RxPort) :
    (descs : List DmaFrame) → (behind : Nat) → Decidable (FramesCovered port descs behind)
  | [], _ => isTrue trivial
  | desc :: descs, behind =>
      have := FramesCovered.decidable port descs 0
      have := FramesCovered.decidable port descs (behind + desc.dataCount)
      inferInstanceAs (Decidable (if desc.Unfinished then True
        else if desc.EndsFrame then
          FrameCovered port behind desc ∧ (port.rxMultiple = true → FramesCovered port descs 0)
        else FramesCovered port descs (behind + desc.dataCount)))

theorem FramesCovered.found {descs : List DmaFrame} {behind bytes length : Nat}
    (h : FramesCovered port descs behind) (hscan : frameScan descs bytes = (true, length)) :
    behind < length ∧ length < 536870912 ∧
      (2 ≤ length ∨ port.appendStatus = true ∨ port.appendTimestamp = false) := by
  induction descs generalizing behind bytes with
  | nil => cases hscan
  | cons desc descs ih =>
    rw [FramesCovered] at h
    rw [frameScan] at hscan
    by_cases hopen : desc.Unfinished
    · rw [if_pos hopen] at hscan
      cases hscan
    · rw [if_neg hopen] at h hscan
      by_cases hends : desc.EndsFrame
      · rw [if_pos hends] at h hscan
        obtain ⟨⟨hlt, -, htwo⟩, -⟩ := h
        cases hscan
        refine ⟨hlt, ?_, htwo⟩
        rw [and_dmaMaxLength]
        exact Nat.mod_lt _ (by decide)
      · rw [if_neg hends] at h hscan
        obtain ⟨hlt, hrest⟩ := ih h hscan
        exact ⟨by omega, hrest⟩

section Read

variable {hw : Hardware H} {s : H} {bufLength behind length : Nat} {st : ReadLoop}

/-- A read in the middle of a frame of `length` bytes, of which the descriptors given back held
`behind`: what is still to be copied fits the caller's buffer. -/
structure InFrame (bufLength behind length : Nat) (st : ReadLoop) : Prop where
  bytes : st.bytesInDescs + behind = length
  filled : st.filledFrameSize ≤ behind
  valid : st.totalValidData = 0 ∨ st.filledFrameSize = behind
  room : st.outLength + min st.totalValidData (length - st.filledFrameSize) +
    (if st.port.appendTimestamp then 8 else 0) ≤ bufLength
  out : st.outLength = st.out.length

variable (st) in
-- The frame is announced, and the buffer is large enough for it.
theorem inFrame_start (hlt : length < 536870912) (hpos : 0 < length)
    (htwo : 2 ≤ length ∨ st.port.appendStatus = true ∨ st.port.appendTimestamp = false)
    (hbuf : bufLength < 4294967296) (hle : st.outLength ≤ bufLength)
    (hout : st.outLength = st.out.length)
    (hfits : ¬ bufferRequirement st.port length > bufLength - st.outLength) :
    InFrame bufLength 0 length { st with
      bytesInDescs := length, totalValidData := validData st.port length, filledFrameSize := 0 } := by
  refine ⟨rfl, Nat.le_refl 0, Or.inr rfl, ?_, hout⟩
  change st.outLength + min (validData st.port length) (length - 0) + _ ≤ _
  unfold bufferRequirement validData u32 at *
  cases hstatus : st.port.appendStatus <;> cases hstamp : st.port.appendTimestamp <;>
    simp only [hstatus, hstamp, if_true, if_false, Bool.false_eq_true, reduceCtorEq, or_false,
      or_true] at htwo hfits ⊢ <;> omega

theorem moveData_out (st : ReadLoop) : (moveData st).out.length = st.out.length + realMoveSize st := by
  rw [moveData, List.length_append, Bytes.read_length]

-- A descriptor that does not end the frame.
theorem InFrame.mid (h : InFrame bufLength behind length st) (hlt : length < 536870912)
    (hbuf : bufLength < 4294967296) (hmid : ¬ st.port.userDesc.EndsFrame)
    (hmore : behind + st.port.userDesc.dataCount < length) :
    realMoveSize st ≤ st.port.userDesc.dataCount ∧ st.outLength + realMoveSize st ≤ bufLength ∧
      (moveData st).bytesInDescs ≠ 0 ∧
      InFrame bufLength (behind + st.port.userDesc.dataCount) length (moveData st) := by
  have hplanned : plannedMoveSize st = st.port.userDesc.dataCount := if_neg hmid
  obtain ⟨hbytes, hfilled, hvalid, hroom, hout⟩ := h
  have hreal : realMoveSize st = min st.port.userDesc.dataCount st.totalValidData := by
    rw [realMoveSize, hplanned]
    split <;> omega
  have hmoved : realMoveSize st ≤ min st.totalValidData (length - st.filledFrameSize) := by omega
  have hleft : (moveData st).bytesInDescs = st.bytesInDescs - st.port.userDesc.dataCount := by
    change (if plannedMoveSize st > st.bytesInDescs then 0 else _) = _
    rw [hplanned, if_neg (by omega)]
  have hfill : (moveData st).filledFrameSize = st.filledFrameSize + realMoveSize st :=
    u32_add_of_lt (by omega)
  have hlength : (moveData st).outLength = st.outLength + realMoveSize st :=
    u32_add_of_lt (by omega)
  have htotal : (moveData st).totalValidData = st.totalValidData - realMoveSize st := rfl
  refine ⟨by omega, by omega, by omega, by omega, by omega, ?_, ?_, ?_⟩
  · omega
  · rw [hlength, hfill, htotal]
    change _ + (if st.port.appendTimestamp then 8 else 0) ≤ _
    omega
  · rw [hlength, moveData_out, hout]

-- The descriptor that ends it.
theorem InFrame.last (h : InFrame bufLength behind length st) (hlt : length < 536870912)
    (hbuf : bufLength < 4294967296) (hends : st.port.userDesc.EndsFrame)
    (hlength : st.port.userDesc.control &&& dmaMaxLength = length) (hbehind : behind < length) :
    realMoveSize st ≤ length - behind ∧ st.outLength + realMoveSize st ≤ bufLength ∧
      (moveData st).bytesInDescs = 0 ∧ (moveData st).outLength = (moveData st).out.length ∧
      (moveData st).outLength + (if st.port.appendTimestamp then 8 else 0) ≤ bufLength := by
  obtain ⟨hbytes, hfilled, hvalid, hroom, hout⟩ := h
  have hplanned : plannedMoveSize st = length - st.filledFrameSize := by
    refine (if_pos hends).trans ?_
    rw [hlength, u32_sub_of_le (by omega) (by omega)]
  have hreal : realMoveSize st = min st.totalValidData (length - st.filledFrameSize) := by
    rw [realMoveSize, hplanned]
    split <;> omega
  have hdone : (moveData st).bytesInDescs = 0 := by
    change (if plannedMoveSize st > st.bytesInDescs then 0 else _) = _
    rw [hplanned]
    split <;> omega
  have hout' : (moveData st).outLength = st.outLength + realMoveSize st := u32_add_of_lt (by omega)
  refine ⟨by omega, by omega, hdone, ?_, by omega⟩
  rw [hout', moveData_out, hout]

theorem readFrameStepAccesses_inBounds (hreal : realMoveSize st ≤ st.port.userDesc.dataSize)
    (hout : st.outLength + realMoveSize st ≤ bufLength)
    (hstamp : (moveData st).bytesInDescs = 0 → st.port.appendTimestamp = true →
      (moveData st).outLength + 8 ≤ bufLength) :
    ∀ access ∈ readFrameStepAccesses bufLength st, access.InBounds := by
  intro access haccess
  rcases List.mem_append.mp haccess with hmove | htime
  · split at hmove
    · rcases List.mem_cons.mp hmove with rfl | hdest
      · change 0 + realMoveSize st ≤ _
        rwa [Nat.zero_add]
      · rw [List.mem_singleton.mp hdest]
        exact hout
    · exact absurd hmove List.not_mem_nil
  · split at htime
    · rename_i hboth
      rw [List.mem_singleton.mp htime]
      exact hstamp hboth.1 hboth.2
    · exact absurd htime List.not_mem_nil

/-- How a read leaves the ring and the caller's buffer. -/
structure ReadDone (ds bufLength : Nat) (st : ReadLoop) : Prop where
  bounds : RxBounds ds st.port
  out : st.outLength = st.out.length
  le : st.outLength ≤ bufLength

-- At the end of a frame the read stops, or goes on with a frame that fits.
theorem nextFrame_bounds {settings : RxPort} {descs released : List DmaFrame}
    (hkeeps : ReadKeeps settings st.port) (hdone : ReadDone ds bufLength st)
    (hbuf : bufLength < 4294967296) (hzero : st.bytesInDescs = 0)
    (hahead : st.port.ahead = descs ++ released) (hreleased : ∀ desc ∈ released, desc.Unfinished)
    (hcovered : settings.rxMultiple = true → FramesCovered settings descs 0) :
    nextFrame bufLength st = (false, st) ∨
      ∃ length st', nextFrame bufLength st = (true, st') ∧ st'.port = st.port ∧
        FramesCovered settings descs 0 ∧ frameScan descs 0 = (true, length) ∧
        InFrame bufLength 0 length st' := by
  unfold nextFrame
  rw [if_pos hzero]
  by_cases hmultiple : st.port.rxMultiple = true
  · rw [if_neg (not_not.mpr hmultiple), fsccUserNextReadSize_ahead hdone.bounds.user, hahead]
    generalize hscan : frameScan (descs ++ released) 0 = scan
    obtain ⟨ready, length⟩ := scan
    cases ready with
    | false => exact Or.inl rfl
    | true =>
      have hcovered' := hcovered (hkeeps.rxMultiple ▸ hmultiple)
      have hfound := frameScan_append hreleased hscan
      obtain ⟨hpos, hlt, htwo⟩ := hcovered'.found hfound
      rw [← hkeeps.appendStatus, ← hkeeps.appendTimestamp] at htwo
      have hroom : u32 ((bufLength : Int) - st.outLength) = bufLength - st.outLength :=
        u32_sub_of_le hbuf hdone.le
      dsimp only
      rw [if_neg (not_not.mpr rfl), hroom]
      by_cases hfits : bufferRequirement st.port length > bufLength - st.outLength
      · exact Or.inl (if_pos hfits)
      · exact Or.inr ⟨length, _, if_neg hfits, rfl, hcovered', hfound,
          inFrame_start _ hlt hpos htwo hbuf hdone.le hdone.out hfits⟩
  · exact Or.inl (if_pos hmultiple)

theorem released_unfinished (desc : DmaFrame) :
    DmaFrame.Unfinished { desc with timestamp := 0, control := descHiBit } :=
  have hfe : descHiBit &&& descFeBit = 0 := by decide
  have hcstop : descHiBit &&& descCstopBit = 0 := by decide
  ⟨hfe, hcstop⟩

/-- A read between two rounds, somewhere in a frame that is covered.  `released` are the descriptors it
has given back. -/
structure ReadOn (settings : RxPort) (ds bufLength : Nat) (st : ReadLoop) : Prop where
  keeps : ReadKeeps settings st.port
  bounds : RxBounds ds st.port
  covered : ∃ descs released behind length bytes, st.port.ahead = descs ++ released ∧
    (∀ desc ∈ released, desc.Unfinished) ∧ FramesCovered settings descs behind ∧
    frameScan descs bytes = (true, length) ∧ InFrame bufLength behind length st

theorem ReadOn.done {settings : RxPort} (h : ReadOn settings ds bufLength st) :
    ReadDone ds bufLength st := by
  obtain ⟨-, -, behind, length, -, -, -, -, -, hin⟩ := h.covered
  exact ⟨h.bounds, hin.out, Nat.le_trans (by omega) hin.room⟩

theorem ReadOn.step {settings : RxPort} (h : ReadOn settings ds bufLength st) (hds : 0 < ds)
    (hbuf : bufLength < 4294967296) (hw : Hardware H) (s : H) :
    (∀ access ∈ readFrameStepAccesses bufLength st, access.InBounds) ∧
      ∃ again st' s', readFrameStep hw bufLength st s = (again, st', s') ∧
        ReadDone ds bufLength st' ∧ (again = true → ReadOn settings ds bufLength st') := by
  obtain ⟨hkeeps, hbounds, descs, released, behind, length, bytes, hahead, hreleased, hcovered, hscan,
    hin⟩ := h
  obtain ⟨hbehind, hlt, -⟩ := hcovered.found hscan
  cases descs with
  | nil => cases hscan
  | cons desc descs =>
    have hcons := ahead_cons hbounds.user
    have htail : st.port.ahead.tail = descs ++ released := by rw [hahead, List.cons_append, List.tail_cons]
    rw [htail, hahead, List.cons_append] at hcons
    obtain rfl : desc = st.port.userDesc := (List.cons_eq_cons.mp hcons).1
    have hahead' := ahead_release hbounds.user
    rw [htail, List.append_assoc] at hahead'
    have hreleased' : ∀ desc ∈ released ++
        [{ st.port.userDesc with timestamp := 0, control := descHiBit }], desc.Unfinished := by
      intro desc hdesc
      rcases List.mem_append.mp hdesc with hold | hnew
      · exact hreleased desc hold
      · rw [List.mem_singleton.mp hnew]
        exact released_unfinished _
    have hkeeps' : ReadKeeps settings (releaseUserDesc st.port) := hkeeps.trans (ReadKeeps.release _)
    have hbounds' := hbounds.release hds
    have hsize := hbounds.userDesc.dataSize
    rw [FramesCovered] at hcovered
    rw [frameScan] at hscan
    by_cases hopen : st.port.userDesc.Unfinished
    · rw [if_pos hopen] at hscan
      cases hscan
    rw [if_neg hopen] at hcovered hscan
    rw [readFrameStep]
    by_cases hends : st.port.userDesc.EndsFrame
    · -- The frame ends here: its rest is copied, and another frame may follow.
      rw [if_pos hends] at hcovered hscan
      obtain ⟨⟨-, hreach, -⟩, hnext⟩ := hcovered
      have hlength : st.port.userDesc.control &&& dmaMaxLength = length := congrArg Prod.snd hscan
      obtain ⟨hreal, hout, hzero, hmoved, hroom⟩ := hin.last hlt hbuf hends hlength hbehind
      obtain ⟨stamp, s', -, happend⟩ := appendTimestamp_end hw s (moveData st) hzero
        (Nat.lt_of_le_of_lt hroom hbuf)
      have hdone : ReadDone ds bufLength { moveData st with
          outLength := (moveData st).outLength + if st.port.appendTimestamp then 8 else 0
          out := (moveData st).out ++ if st.port.appendTimestamp then timestampBytes stamp else []
          port := releaseUserDesc st.port } := by
        refine ⟨hbounds', ?_, hroom⟩
        rw [List.length_append, apply_ite List.length, timestampBytes_length, List.length_nil, hmoved]
      constructor
      · apply readFrameStepAccesses_inBounds (by omega) hout
        intro _ hstamp
        rwa [if_pos hstamp] at hroom
      · rw [happend]
        dsimp only
        rcases nextFrame_bounds hkeeps' hdone hbuf hzero hahead' hreleased' hnext with
          hstop | ⟨length', st', hgo, hport, hcovered', hscan', hin'⟩
        · exact ⟨_, _, _, congrArg (fun r : Bool × ReadLoop ↦ (r.1, r.2, s')) hstop, hdone,
            fun hagain ↦ absurd hagain Bool.false_ne_true⟩
        · have hon : ReadOn settings ds bufLength st' :=
            ⟨hport ▸ hkeeps', hport ▸ hbounds', descs, _, 0, length', 0, hport ▸ hahead', hreleased',
              hcovered', hscan', hin'⟩
          exact ⟨_, _, _, congrArg (fun r : Bool × ReadLoop ↦ (r.1, r.2, s')) hgo, hon.done,
            fun _ ↦ hon⟩
    · rw [if_neg hends] at hcovered hscan
      obtain ⟨hmore, -, -⟩ := hcovered.found hscan
      obtain ⟨hreal, hout, hleft, hin'⟩ := hin.mid hlt hbuf hends hmore
      have hcount := hbounds.userDesc.dataCount
      have hon : ReadOn settings ds bufLength { moveData st with port := releaseUserDesc st.port } :=
        ⟨hkeeps', hbounds', descs, _, _, length, _, hahead', hreleased', hcovered, hscan,
          ⟨hin'.bytes, hin'.filled, hin'.valid, hin'.room, hin'.out⟩⟩
      constructor
      · exact readFrameStepAccesses_inBounds (by omega) hout fun hzero ↦ absurd hzero hleft
      · have hnoStamp : appendTimestamp hw (moveData st) s = (moveData st, s) :=
          if_neg fun hboth ↦ hleft hboth.1
        have hgo : nextFrame bufLength { moveData st with port := releaseUserDesc st.port } =
            (true, { moveData st with port := releaseUserDesc st.port }) := if_neg hleft
        refine ⟨true, _, s, ?_, hon.done, fun _ ↦ hon⟩
        rw [hnoStamp]
        exact congrArg (fun r : Bool × ReadLoop ↦ (r.1, r.2, s)) hgo

theorem ReadOn.loop {settings : RxPort} (h : ReadOn settings ds bufLength st) (hds : 0 < ds)
    (hbuf : bufLength < 4294967296) (hw : Hardware H) (n : Nat) (s : H) :
    ReadDone ds bufLength (readFrameLoop hw bufLength n st s).1 ∧
      ∀ access ∈ readFrameLoopAccesses hw bufLength n st s, access.InBounds := by
  induction n generalizing st s with
  | zero => exact ⟨h.done, fun _ haccess ↦ absurd haccess List.not_mem_nil⟩
  | succ n ih =>
    obtain ⟨hhere, again, st', s', hstep, hdone, hon⟩ := h.step hds hbuf hw s
    rw [readFrameLoop, readFrameLoopAccesses, hstep]
    cases again with
    | false =>
      refine ⟨hdone, fun access haccess ↦ hhere access ?_⟩
      rwa [List.append_nil] at haccess
    | true =>
      obtain ⟨hlast, hrest⟩ := ih (hon rfl) s'
      refine ⟨hlast, fun access haccess ↦ ?_⟩
      rcases List.mem_append.mp haccess with hnow | hlater
      · exact hhere access hnow
      · exact hrest access hlater

/-- A read whose frames are covered copies within its buffers. -/
theorem fsccUserReadFrame_bounds (h : RxBounds ds port) (hds : 0 < ds)
    (hbuf : bufLength < 4294967296) (hcovered : FramesCovered port port.ahead 0) (hw : Hardware H)
    (s : H) :
    RxBounds ds (fsccUserReadFrame hw bufLength port s).2.1 ∧
      (fsccUserReadFrame hw bufLength port s).1.out.length ≤ bufLength ∧
      ∀ access ∈ userReadFrameAccesses hw bufLength port s, access.InBounds := by
  unfold fsccUserReadFrame userReadFrameAccesses
  rw [fsccUserNextReadSize_ahead h.user]
  generalize hscan : frameScan port.ahead 0 = scan
  obtain ⟨ready, length⟩ := scan
  cases ready with
  | false => exact ⟨h, Nat.zero_le _, fun _ haccess ↦ absurd haccess List.not_mem_nil⟩
  | true =>
    dsimp only
    rw [if_neg (not_not.mpr rfl), if_neg (not_not.mpr rfl)]
    obtain ⟨hpos, hlt, htwo⟩ := hcovered.found hscan
    by_cases hfits : bufferRequirement port length > bufLength
    · rw [if_pos hfits, if_pos hfits]
      exact ⟨h, Nat.zero_le _, fun _ haccess ↦ absurd haccess List.not_mem_nil⟩
    · rw [if_neg hfits, if_neg hfits]
      have hin : InFrame bufLength 0 length (readFrameStart port length) :=
        inFrame_start (readFrameStart port length) hlt hpos htwo hbuf (Nat.zero_le _) rfl hfits
      have hon : ReadOn port ds bufLength (readFrameStart port length) :=
        ⟨ReadKeeps.refl port, h, port.ahead, [], 0, length, 0, (List.append_nil _).symm,
          fun _ hdesc ↦ absurd hdesc List.not_mem_nil, hcovered, hscan, hin⟩
      obtain ⟨hdone, haccesses⟩ := hon.loop hds hbuf hw port.rxNum s
      exact ⟨hdone.bounds, hdone.out ▸ hdone.le, haccesses⟩

end Read

/-! ## Moves out of a stream -/

theorem forall_mem_append {α : Type} {P : α → Prop} {xs ys : List α} (hxs : ∀ x ∈ xs, P x)
    (hys : ∀ x ∈ ys, P x) : ∀ x ∈ xs ++ ys, P x :=
  fun x hx ↦ (List.mem_append.mp hx).elim (hxs x) (hys x)

/-- What a stream read leaves in the descriptor it stops in has a length that an `int` can hold;
`room` is what is left of the caller's buffer. -/
def StreamCovered : List DmaFrame → (room : Nat) → Prop
  | [], _ => True
  | desc :: descs, room =>
      if desc.Unfinished then True
      else if desc.dataCount ≤ room then StreamCovered descs (room - desc.dataCount)
      else desc.dataCount - room < 2147483648

instance StreamCovered.decidable :
    (descs : List DmaFrame) → (room : Nat) → Decidable (StreamCovered descs room)
  | [], _ => isTrue trivial
  | desc :: descs, room =>
      have := StreamCovered.decidable descs (room - desc.dataCount)
      inferInstanceAs (Decidable (if desc.Unfinished then True
        else if desc.dataCount ≤ room then StreamCovered descs (room - desc.dataCount)
        else desc.dataCount - room < 2147483648))

-- A descriptor as a stream read gives it back.
def streamRelease (i : Nat) (desc : DmaFrame) : DmaFrame :=
  { desc with
    dataCount := desc.dataSize, timestamp := 0, control := if i % 2 ≠ 0 then descHiBit else 0 }

theorem streamRelease_unfinished (i : Nat) (desc : DmaFrame) : (streamRelease i desc).Unfinished := by
  have hhi := released_unfinished desc
  show (if i % 2 ≠ 0 then descHiBit else 0) &&& descFeBit = 0 ∧
    (if i % 2 ≠ 0 then descHiBit else 0) &&& descCstopBit = 0
  split
  · exact hhi
  · exact ⟨Nat.zero_and _, Nat.zero_and _⟩

section Stream

variable {bufLength : Nat} {st : StreamLoop}

structure StreamDone (ds bufLength : Nat) (st : StreamLoop) : Prop where
  bounds : RxBounds ds st.port
  out : st.outLength = st.out.length
  le : st.outLength ≤ bufLength

/-- A stream read between two rounds; `released` are the descriptors it has given back. -/
structure StreamOn (ds bufLength : Nat) (st : StreamLoop) : Prop extends
    StreamDone ds bufLength st where
  covered : ∃ descs released, st.port.ahead = descs ++ released ∧
    (∀ desc ∈ released, desc.Unfinished) ∧ StreamCovered descs (bufLength - st.outLength)

-- A descriptor the read does not stop in front of is one of those that are covered.
theorem StreamOn.userDesc (h : StreamOn ds bufLength st) (hopen : ¬ st.port.userDesc.Unfinished) :
    ∃ descs released, st.port.ahead.tail = descs ++ released ∧
      (∀ desc ∈ released, desc.Unfinished) ∧
      if st.port.userDesc.dataCount ≤ bufLength - st.outLength then
        StreamCovered descs (bufLength - st.outLength - st.port.userDesc.dataCount)
      else st.port.userDesc.dataCount - (bufLength - st.outLength) < 2147483648 := by
  obtain ⟨descs, released, hahead, hreleased, hcovered⟩ := h.covered
  have hcons := ahead_cons h.bounds.user
  cases descs with
  | nil =>
    have hmem : st.port.userDesc ∈ released := by
      rw [List.nil_append] at hahead
      rw [← hahead, hcons]
      exact List.mem_cons_self
    exact absurd (hreleased _ hmem) hopen
  | cons desc descs =>
    rw [hahead, List.cons_append] at hcons
    obtain ⟨rfl, htail⟩ := List.cons_eq_cons.mp hcons
    rw [StreamCovered, if_neg hopen] at hcovered
    exact ⟨descs, released, htail.symm ▸ by rw [hahead]; rfl, hreleased, hcovered⟩

-- A descriptor that fits is taken whole and given back.
theorem StreamOn.release (h : StreamOn ds bufLength st) (hds : BufferSize ds)
    (hopen : ¬ st.port.userDesc.Unfinished) (hfits : st.port.userDesc.dataCount ≤ bufLength - st.outLength) :
    StreamOn ds bufLength ⟨(st.port.setUserDesc (streamRelease st.i st.port.userDesc)).nextUser, st.i + 1,
      st.outLength + st.port.userDesc.dataCount,
      st.out ++ Bytes.read st.port.userDesc.buffer 0 st.port.userDesc.dataCount⟩ := by
  obtain ⟨descs, released, htail, hreleased, hcovered⟩ := h.userDesc hopen
  rw [if_pos hfits, Nat.sub_sub] at hcovered
  have hbounds := h.bounds
  have hle := h.le
  have hsize := hbounds.userDesc.dataSize
  have hfresh := streamRelease_unfinished st.i st.port.userDesc
  constructor
  · refine ⟨RxBounds.nextUser (hbounds.setUserDesc (descBounds_fresh hds.pos hsize
      (Nat.le_of_eq hsize) ?_)), ?_, by dsimp only; omega⟩
    · dsimp only [streamRelease]
      split <;> decide
    · rw [List.length_append, Bytes.read_length, h.out]
  · refine ⟨descs, released ++ [streamRelease st.i st.port.userDesc], ?_, ?_, hcovered⟩
    · rw [← List.append_assoc, ← htail]
      exact Cyclic.turn_update_next st.port.rxDescriptors _ hbounds.user
    · exact forall_mem_append hreleased fun desc hmem ↦ List.mem_singleton.mp hmem ▸ hfresh

theorem StreamOn.step (h : StreamOn ds bufLength st) (hds : BufferSize ds)
    (hbuf : bufLength < 4294967296) :
    (∀ access ∈ readStreamStepAccesses bufLength st, access.InBounds) ∧
      StreamDone ds bufLength (readStreamStep bufLength st).2 ∧
      ((readStreamStep bufLength st).1 = true → StreamOn ds bufLength (readStreamStep bufLength st).2) := by
  have hbounds := h.bounds
  have hout := h.out
  have hle := h.le
  have hdesc := hbounds.userDesc
  have hcount := hdesc.dataCount
  have hsize := hdesc.dataSize
  rw [readStreamStep, readStreamStepAccesses]
  by_cases hopen : st.port.userDesc.control &&& descFeBit = 0 ∧
      st.port.userDesc.control &&& descCstopBit = 0
  · rw [if_pos hopen, if_pos hopen]
    exact ⟨fun _ haccess ↦ absurd haccess List.not_mem_nil, ⟨hbounds, hout, hle⟩,
      fun hagain ↦ absurd hagain Bool.false_ne_true⟩
  rw [if_neg hopen, if_neg hopen]
  have hlength : streamReceiveLength bufLength st =
      min st.port.userDesc.dataCount (bufLength - st.outLength) := by
    rw [streamReceiveLength, u32_sub_of_le hbuf hle]
  generalize streamReceiveLength bufLength st = length at hlength
  have hnext : u32 ((st.outLength : Int) + length) = st.outLength + length :=
    u32_add_of_lt (by omega)
  dsimp only
  rw [hnext]
  by_cases hall : length = st.port.userDesc.dataCount
  · subst hall
    rw [if_pos rfl, if_pos rfl]
    constructor
    · intro access haccess
      rw [List.append_nil] at haccess
      rcases List.mem_cons.mp haccess with rfl | hdest
      · change 0 + st.port.userDesc.dataCount ≤ st.port.userDesc.dataSize
        omega
      · rw [List.mem_singleton.mp hdest]
        change st.outLength + st.port.userDesc.dataCount ≤ bufLength
        omega
    have hreleased := h.release hds hopen (by omega)
    exact ⟨hreleased.toStreamDone, fun _ ↦ hreleased⟩
  · rw [if_neg hall, if_neg hall]
    obtain ⟨descs, released, -, -, hcovered⟩ := h.userDesc hopen
    rw [if_neg (by omega)] at hcovered
    have hmoved : st.port.userDesc.dataCount - length < 2147483648 := by omega
    rw [sizeT_i32 hmoved]
    constructor
    · intro access haccess
      simp only [List.cons_append, List.nil_append, List.mem_cons, List.not_mem_nil, or_false]
        at haccess
      rcases haccess with rfl | rfl | rfl | rfl <;> unfold Access.InBounds <;> dsimp only <;> omega
    · have hcopied : st.outLength + length =
          (st.out ++ Bytes.read st.port.userDesc.buffer 0 length).length := by
        rw [List.length_append, Bytes.read_length, hout]
      refine ⟨⟨hbounds.setUserDesc ⟨hsize, ?_, hdesc.count⟩, hcopied, by dsimp only; omega⟩,
        fun hagain ↦ absurd hagain Bool.false_ne_true⟩
      change u32 (i32 (st.port.userDesc.dataCount - length)) ≤ ds
      rw [u32_i32 (Nat.lt_trans hmoved (by decide))]
      omega

theorem StreamOn.loop (h : StreamOn ds bufLength st) (hds : BufferSize ds)
    (hbuf : bufLength < 4294967296) (n : Nat) :
    StreamDone ds bufLength (readStreamLoop bufLength n st) ∧
      ∀ access ∈ readStreamLoopAccesses bufLength n st, access.InBounds := by
  induction n generalizing st with
  | zero => exact ⟨h.toStreamDone, fun _ haccess ↦ absurd haccess List.not_mem_nil⟩
  | succ n ih =>
    obtain ⟨hhere, hdone, hon⟩ := h.step hds hbuf
    rw [readStreamLoop, readStreamLoopAccesses]
    generalize readStreamStep bufLength st = round at hdone hon
    obtain ⟨again, st'⟩ := round
    cases again with
    | false =>
      refine ⟨hdone, fun access haccess ↦ hhere access ?_⟩
      rwa [List.append_nil] at haccess
    | true =>
      obtain ⟨hlast, hrest⟩ := ih (hon rfl)
      exact ⟨hlast, forall_mem_append hhere hrest⟩

end Stream

/-! ## Runs -/

inductive CopyAction where
  | fifoReadData
  | setOptions (appendStatus appendTimestamp rxMultiple : Bool)
  | userReadFrame (bufLength : BitVec 32)
  | userReadStream (bufLength : BitVec 32)

-- What a read stored at `buf`, and how much room there was.
structure BufferUse where
  bufLength : Nat
  result : ReadResult

structure CopyState (H : Type) where
  port : RxPort
  hardware : H
  accesses : List Access
  reads : List BufferUse

def copyStep (hw : Hardware H) (s : CopyState H) : CopyAction → CopyState H
  | .fifoReadData =>
      let (port, hardware) := fsccFifoReadData hw s.port s.hardware
      { s with
        port, hardware
        accesses := s.accesses ++ fifoReadLoopAccesses hw s.port.rxNum s.port s.hardware }
  | .setOptions appendStatus appendTimestamp rxMultiple =>
      { s with port := s.port.setOptions appendStatus appendTimestamp rxMultiple }
  | .userReadFrame bufLength =>
      let (result, port, hardware) := fsccUserReadFrame hw bufLength.toNat s.port s.hardware
      { port, hardware
        accesses := s.accesses ++ userReadFrameAccesses hw bufLength.toNat s.port s.hardware
        reads := s.reads ++ [⟨bufLength.toNat, result⟩] }
  | .userReadStream bufLength =>
      let (result, port) := fsccUserReadStream bufLength.toNat s.port
      { s with
        port
        accesses := s.accesses ++ userReadStreamAccesses bufLength.toNat s.port
        reads := s.reads ++ [⟨bufLength.toNat, result⟩] }

def copyStart (port : RxPort) (hardware : H) : CopyState H :=
  { port := resetRx port, hardware, accesses := [], reads := [] }

-- Before a frame is read, the frames that the read may take are covered; before a part of the stream
-- is, the descriptor that the read stops in is.
def ReadsCovered (s : CopyState H) : CopyAction → Prop
  | .userReadFrame _ => FramesCovered s.port s.port.ahead 0
  | .userReadStream bufLength => StreamCovered s.port.ahead bufLength.toNat
  | _ => True

structure CopiesInBounds (ds : Nat) (s : CopyState H) : Prop where
  bounds : RxBounds ds s.port
  accesses : ∀ access ∈ s.accesses, access.InBounds
  reads : ∀ read ∈ s.reads, read.result.out.length ≤ read.bufLength

theorem CopiesInBounds.step {s : CopyState H} (h : CopiesInBounds ds s) (hds : BufferSize ds)
    (hw : Hardware H) (action : CopyAction) (hcovered : ReadsCovered s action) :
    CopiesInBounds ds (copyStep hw s action) := by
  obtain ⟨hbounds, haccesses, hreads⟩ := h
  cases action with
  | fifoReadData =>
    obtain ⟨hbounds', hnew⟩ := fifoReadLoop_bounds hbounds hds.lt hw s.port.rxNum s.hardware
    exact ⟨hbounds', forall_mem_append haccesses hnew, hreads⟩
  | setOptions a b c => exact ⟨⟨hbounds.user, hbounds.fifo, hbounds.descs⟩, haccesses, hreads⟩
  | userReadFrame bufLength =>
    obtain ⟨hbounds', hlen, hnew⟩ :=
      fsccUserReadFrame_bounds hbounds hds.pos bufLength.isLt hcovered hw s.hardware
    refine ⟨hbounds', forall_mem_append haccesses hnew, forall_mem_append hreads fun read hread ↦ ?_⟩
    rw [List.mem_singleton.mp hread]
    exact hlen
  | userReadStream bufLength =>
    have hstart : StreamOn ds bufLength.toNat ⟨s.port, 0, 0, []⟩ :=
      ⟨⟨hbounds, rfl, Nat.zero_le _⟩, s.port.ahead, [], (List.append_nil _).symm,
        fun _ hdesc ↦ absurd hdesc List.not_mem_nil, hcovered⟩
    obtain ⟨hdone, hnew⟩ := hstart.loop hds bufLength.isLt s.port.rxNum
    refine ⟨hdone.bounds, forall_mem_append haccesses hnew,
      forall_mem_append hreads fun read hread ↦ ?_⟩
    rw [List.mem_singleton.mp hread]
    exact hdone.out ▸ hdone.le

/-- Whatever the registers read, no copy of a run from a purge leaves its buffer, as long as each read
finds its frames or its part of the stream covered. -/
theorem fscc_rx_copies_in_bounds (hw : Hardware H) (hardware : H) (hmem : RxMemory ds port)
    (actions : List CopyAction)
    (hcovered : Runs.Along ReadsCovered (copyStep hw) (copyStart port hardware) actions) :
    let s := actions.foldl (copyStep hw) (copyStart port hardware)
    (∀ access ∈ s.accesses, access.InBounds) ∧
      ∀ read ∈ s.reads, read.result.out.length ≤ read.bufLength := by
  have hstart : CopiesInBounds ds (copyStart port hardware) :=
    ⟨resetRx_bounds hmem, fun _ haccess ↦ absurd haccess List.not_mem_nil,
      fun _ hread ↦ absurd hread List.not_mem_nil⟩
  have hend : CopiesInBounds ds (actions.foldl (copyStep hw) (copyStart port hardware)) :=
    hcovered.invariant (fun s action hcond h ↦ h.step hmem.size hw action hcond) hstart
  exact ⟨hend.accesses, hend.reads⟩

def eightByteFrame : WireFrame where
  data := [1, 2, 3, 4, 5, 6, 7, 8]
  padding := []
  two_le := by decide
  padded := by decide

-- Four descriptors of four bytes.
def fourDescPort : RxPort := { twoDescPort 4 with rxNum := 4, appendTimestamp := false }

theorem fourDescPort_memory : RxMemory 4 fourDescPort :=
  ⟨by decide, ⟨by decide, by decide, by decide⟩, fun _ _ ↦ ⟨rfl, List.length_replicate⟩⟩

-- Half of the frame is drained before its length is known.
theorem fscc_rx_copies_in_bounds_half :
    let s := [CopyAction.fifoReadData, .fifoReadData, .userReadFrame 8, .userReadStream 3].foldl
      (copyStep (splitFifo [4] constClock)) (copyStart fourDescPort (splitStart eightByteFrame))
    (∀ access ∈ s.accesses, access.InBounds) ∧
      ∀ read ∈ s.reads, read.result.out.length ≤ read.bufLength :=
  fscc_rx_copies_in_bounds (splitFifo [4] constClock) (splitStart eightByteFrame)
    fourDescPort_memory [.fifoReadData, .fifoReadData, .userReadFrame 8, .userReadStream 3]
    ⟨trivial, trivial, by unfold ReadsCovered; decide, by unfold ReadsCovered; decide, trivial⟩

-- All of it is drained: the read behind the first one moves eight bytes out of four.
theorem fscc_rx_copies_out_of_bounds :
    ¬ ∀ access ∈ ([CopyAction.fifoReadData, .userReadFrame 8, .userReadFrame 8].foldl
      (copyStep (splitFifo [4, 4] constClock))
        (copyStart fourDescPort (splitStart eightByteFrame))).accesses, access.InBounds := by
  decide

end FsccDriver

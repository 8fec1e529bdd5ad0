import FsccDriver.Lib.Threads
import FsccDriver.FramedTransmit

/-!
# FifoRoom — how full the transmit FIFO gets

`fscc_fifo_write_data` reads TFCNT and TXCNT before it takes the lock, and `oframe_worker` may be
running several times at once.  Each of the two readings and the section under the lock is one step.
-/

namespace FsccDriver

open Words

variable {H : Type}

/-! ## The parts of a call -/

-- The section under `board_tx_spinlock`.
def writeDataLocked (hw : Hardware H) (tfcnt txcnt : Nat) (port : TxPort) (h : H) :
    Nat × TxPort × H :=
  let (st, h) := writeDataLoop hw tfcnt port.txNum ⟨port, fifoSpace txcnt, 0, 0⟩ h
  if st.frameSize ≠ 0 then
    let (port, h) := st.port.setRegister hw 0 bcFifoLOffset (BitVec.ofNat 32 st.frameSize) h
    (st.dataWritten, port, h)
  else (st.dataWritten, st.port, h)

/-- Where a call of `fscc_fifo_write_data` is, with what it has read so far. -/
inductive WriteDataPc where
  | readTFCNT
  | readTXCNT (tfcnt : Nat)
  | locked (tfcnt txcnt : Nat)
  | returned (dataWritten : Nat)

def writeDataPcStep (hw : Hardware H) (port : TxPort) (h : H) :
    WriteDataPc → WriteDataPc × TxPort × H
  | .readTFCNT =>
      let (tfcnt, h) := fsccIoGetTFCNT hw port h
      (if tfcnt > 254 then .returned 0 else .readTXCNT tfcnt, port, h)
  | .readTXCNT tfcnt =>
      let (txcnt, h) := fsccIoGetTXCNT hw port h
      (if fifoSpace txcnt > txFifoSize then .returned 0 else .locked tfcnt txcnt, port, h)
  | .locked tfcnt txcnt =>
      let (dataWritten, port, h) := writeDataLocked hw tfcnt txcnt port h
      (.returned dataWritten, port, h)
  | .returned dataWritten => (.returned dataWritten, port, h)

-- Three steps in a row are the call.
theorem writeDataPcStep_call (hw : Hardware H) (port : TxPort) (h : H) :
    let first := writeDataPcStep hw port h .readTFCNT
    let second := writeDataPcStep hw first.2.1 first.2.2 first.1
    let third := writeDataPcStep hw second.2.1 second.2.2 second.1
    third = (.returned (fsccFifoWriteData hw port h).1, (fsccFifoWriteData hw port h).2) := by
  dsimp only [writeDataPcStep, fsccFifoWriteData]
  by_cases htfcnt : (fsccIoGetTFCNT hw port h).1 > 254
  · rw [if_pos htfcnt, if_pos htfcnt]
  · rw [if_neg htfcnt, if_neg htfcnt]
    dsimp only
    by_cases hspace : fifoSpace (fsccIoGetTXCNT hw port (fsccIoGetTFCNT hw port h).2).1 > txFifoSize
    · rw [if_pos hspace, if_pos hspace]
    · rw [if_neg hspace, if_neg hspace]
      rfl

/-! ## The FIFO -/

-- The bytes in the transmit FIFO, and what TFCNT is read from.
structure TxCard where
  count : Nat
  fifoFc : BitVec 32

def txCard : Hardware TxCard where
  ioRead bar offset card :=
    if bar = 0 ∧ offset = fifoBcOffset then (BitVec.ofNat 32 (card.count * 65536), card)
    else if bar = 0 ∧ offset = fifoFcOffset then (card.fifoFc, card)
    else (0, card)
  ioWrite bar offset _ card :=
    if bar = 0 ∧ offset = fifoOffset then { card with count := card.count + 4 } else card
  keQuerySystemTime card := (0, card)

variable {port : TxPort} {card : TxCard} {st : WriteDataLoop} {tfcnt txcnt : Nat}

theorem txCard_getTXCNT (hlt : card.count < 8192) :
    fsccIoGetTXCNT txCard port card = (card.count, card) := by
  have hread : fsccPortGetRegister txCard port.channel 0 fifoBcOffset card =
      (BitVec.ofNat 32 (card.count * 65536), card) := rfl
  have hmask : ∀ c < 8192, c * 65536 &&& 0x1FFF0000 = c * 65536 := by
    intro c hc
    have hshift : (0x1FFF0000 : Nat) = 8191 <<< 16 := by decide
    have hlow : c &&& 8191 = c := (and_low c 13).trans (Nat.mod_eq_of_lt hc)
    have hcount : c * 65536 = c <<< 16 := (Nat.shiftLeft_eq c 16).symm
    rw [hshift, hcount, ← Nat.shiftLeft_and_distrib, hlow]
  rw [fsccIoGetTXCNT, hread]
  dsimp only
  rw [BitVec.toNat_ofNat, Nat.mod_eq_of_lt (by omega), hmask _ hlt, Nat.shiftRight_eq_div_pow,
    Nat.mul_div_cancel _ (by decide)]

theorem setRegisterRepWords_length (data : List Byte) (byteCount : Nat) :
    (setRegisterRepWords data byteCount).length = (byteCount + 3) / 4 := by
  unfold setRegisterRepWords
  dsimp only
  rw [List.length_append, List.length_map, List.length_range]
  split
  · rw [List.length_singleton]
    omega
  · rw [List.length_nil]
    omega

theorem txCard_pushWords (words : List (BitVec 32)) (card : TxCard) :
    words.foldl (fun card value ↦ txCard.ioWrite 0 fifoOffset value card) card =
      { card with count := card.count + 4 * words.length } := by
  induction words generalizing card with
  | nil => rfl
  | cons word words ih =>
    rw [List.foldl_cons, ih, List.length_cons]
    show TxCard.mk (card.count + 4 + 4 * words.length) card.fifoFc = _
    rw [Nat.add_assoc, Nat.mul_add_one, Nat.add_comm 4]

-- A block write takes whole words.
theorem txCard_setRegisterRep (channel : Nat) (data : List Byte) (byteCount : Nat) (card : TxCard) :
    fsccPortSetRegisterRep txCard channel 0 fifoOffset data byteCount card =
      { card with count := card.count + 4 * ((byteCount + 3) / 4) } := by
  rw [fsccPortSetRegisterRep]
  split
  · rw [fsccCardSetRegisterRep, portOffset_bar0, txCard_pushWords, setRegisterRepWords_length]
  next hnone =>
    rw [Nat.eq_zero_of_not_pos hnone]
    rfl

/-! ## The section under the lock -/

-- `size_in_fifo` fits an `unsigned`.
def ShortDescs (port : TxPort) : Prop :=
  ∀ i < port.txNum, ¬ (port.txDescriptors i).control &&& descCstopBit = descCstopBit →
    (port.txDescriptors i).dataCount < 4294967292

theorem sizeInFifo_of_lt {writeLength : Nat} (hlt : writeLength < 4294967292) :
    sizeInFifo writeLength = writeLength + (4 - writeLength % 4) := u32_add_of_lt (by omega)

theorem ShortDescs.pop (h : ShortDescs port) :
    ShortDescs (port.setFifoDesc { port.fifoDesc with dataCount := 0, control := descCstopBit }).nextFifo
    := by
  intro i hi hpending
  have hdesc : ((port.setFifoDesc { port.fifoDesc with
      dataCount := 0, control := descCstopBit }).nextFifo).txDescriptors i =
      Function.update port.txDescriptors port.fifoTxDesc
        { port.fifoDesc with dataCount := 0, control := descCstopBit } i := rfl
  rw [hdesc] at hpending ⊢
  by_cases heq : i = port.fifoTxDesc
  · rw [heq, Function.update_self]
    exact (by decide : 0 < 4294967292)
  · rw [Function.update_of_ne heq] at hpending ⊢
    exact h i hi hpending

/-- The state of the loop, with what it may still push. -/
structure Pushing (bound : Nat) (st : WriteDataLoop) (card : TxCard) : Prop where
  fifo_lt : st.port.fifoTxDesc < st.port.txNum
  short : ShortDescs st.port
  space : st.fifoSpace < 4294967296
  room : card.count + st.fifoSpace ≤ bound

variable (tfcnt) in
theorem Pushing.step {bound : Nat} (h : Pushing bound st card) :
    Pushing bound (writeDataStep txCard tfcnt st card).2.1
      (writeDataStep txCard tfcnt st card).2.2 := by
  rw [writeDataStep]
  by_cases hfree : st.port.fifoDesc.control &&& descCstopBit = descCstopBit
  · rw [if_pos hfree]
    exact h
  rw [if_neg hfree]
  by_cases hroom : st.fifoSpace < sizeInFifo st.port.fifoDesc.dataCount
  · rw [if_pos hroom]
    exact h
  rw [if_neg hroom]
  split
  · exact h
  have hsize := sizeInFifo_of_lt (h.short _ h.fifo_lt hfree)
  change sizeInFifo st.port.fifoDesc.dataCount = st.port.fifoDesc.dataCount +
    (4 - st.port.fifoDesc.dataCount % 4) at hsize
  have hspace := h.space
  have hbound := h.room
  have hless : u32 ((st.fifoSpace : Int) - sizeInFifo st.port.fifoDesc.dataCount) =
      st.fifoSpace - sizeInFifo st.port.fifoDesc.dataCount :=
    u32_sub_of_le hspace (Nat.le_of_not_lt hroom)
  dsimp only
  rw [txCard_setRegisterRep, hless]
  refine ⟨Cyclic.next_lt h.fifo_lt, h.short.pop, ?_, ?_⟩
  · show st.fifoSpace - _ < 4294967296
    omega
  · show card.count + _ + (st.fifoSpace - _) ≤ bound
    omega

variable (tfcnt) in
theorem Pushing.loop {bound : Nat} (n : Nat) (h : Pushing bound st card) :
    Pushing bound (writeDataLoop txCard tfcnt n st card).1
      (writeDataLoop txCard tfcnt n st card).2 := by
  induction n generalizing st card with
  | zero => exact h
  | succ n ih =>
    have hnext := h.step tfcnt
    rw [writeDataLoop]
    generalize writeDataStep txCard tfcnt st card = round at hnext
    obtain ⟨again, st', card'⟩ := round
    cases again with
    | false => exact hnext
    | true => exact ih hnext

theorem fifoSpace_lt (txcnt : Nat) : fifoSpace txcnt < 4294967296 := by
  unfold fifoSpace u32
  dsimp only
  omega

variable (card tfcnt txcnt) in
theorem writeDataLocked_room (hlt : port.fifoTxDesc < port.txNum) (hshort : ShortDescs port) :
    (writeDataLocked txCard tfcnt txcnt port card).2.2.count ≤ card.count + fifoSpace txcnt ∧
      (writeDataLocked txCard tfcnt txcnt port card).2.1.fifoTxDesc <
        (writeDataLocked txCard tfcnt txcnt port card).2.1.txNum := by
  have hpushing : Pushing (card.count + fifoSpace txcnt) ⟨port, fifoSpace txcnt, 0, 0⟩ card :=
    ⟨hlt, hshort, fifoSpace_lt txcnt, Nat.le_refl _⟩
  obtain ⟨hfifo, -, -, hroom⟩ := hpushing.loop tfcnt port.txNum
  have hcount := Nat.le_trans (Nat.le_add_right _ _) hroom
  rw [writeDataLocked]
  generalize writeDataLoop txCard tfcnt port.txNum ⟨port, fifoSpace txcnt, 0, 0⟩ card = last at *
  obtain ⟨st, card'⟩ := last
  dsimp only at hcount hfifo ⊢
  by_cases hframe : st.frameSize ≠ 0
  · rw [if_pos hframe]
    exact ⟨hcount, hfifo⟩
  · rw [if_neg hframe]
    exact ⟨hcount, hfifo⟩

/-! ## Overlapping activations -/

structure RoomState where
  port : TxPort
  card : TxCard
  calls : List WriteDataPc

-- A ring of any content.
structure AnyRing where
  port : TxPort
  fifo_lt : port.fifoTxDesc < port.txNum

inductive RoomAction where
  -- Another activation of `oframe_worker` begins.
  | enter
  | step (i : Nat)
  -- The card sends, and TFCNT becomes anything.
  | send (bytes : Nat) (fifoFc : BitVec 32)
  -- Writes and purges change the ring.
  | setRing (ring : AnyRing)

def roomStep (s : RoomState) : RoomAction → RoomState
  | .enter => { s with calls := s.calls ++ [.readTFCNT] }
  | .step i =>
      match s.calls[i]? with
      | some pc =>
          let (pc, port, card) := writeDataPcStep txCard s.port s.card pc
          { port, card, calls := s.calls.set i pc }
      | none => s
  | .send bytes fifoFc => { s with card := ⟨s.card.count - bytes, fifoFc⟩ }
  | .setRing ring => { s with port := ring.port }

def roomStart (ring : AnyRing) (fifoFc : BitVec 32) : RoomState := ⟨ring.port, ⟨0, fifoFc⟩, []⟩

/-- When an activation gets to its section under the lock, the FIFO holds no more than the activation
has read from TXCNT. -/
def StillRoom (s : RoomState) : RoomAction → Prop
  | .step i => ∀ tfcnt txcnt, s.calls[i]? = some (.locked tfcnt txcnt) →
      s.card.count ≤ txcnt ∧ ShortDescs s.port
  | .enter | .send _ _ | .setRing _ => True

instance (port : TxPort) : Decidable (ShortDescs port) :=
  inferInstanceAs (Decidable (∀ i < port.txNum, _ → _))

instance (s : RoomState) : (action : RoomAction) → Decidable (StillRoom s action)
  | .step i =>
      match h : s.calls[i]? with
      | some (.locked tfcnt txcnt) =>
          decidable_of_iff (s.card.count ≤ txcnt ∧ ShortDescs s.port)
            ⟨fun hroom _ _ hcall ↦ by rw [h] at hcall; cases hcall; exact hroom, fun hroom ↦ hroom tfcnt txcnt h⟩
      | some .readTFCNT | some (.readTXCNT _) | some (.returned _) | none =>
          .isTrue fun _ _ hcall ↦ by rw [h] at hcall; cases hcall
  | .enter | .send _ _ | .setRing _ => .isTrue trivial

-- What an activation knows before it takes the lock.
def WriteDataPc.Measured : WriteDataPc → Prop
  | .locked _ txcnt => txcnt < 8192 ∧ ¬ fifoSpace txcnt > txFifoSize
  | .readTFCNT | .readTXCNT _ | .returned _ => True

structure RoomInvariant (s : RoomState) : Prop where
  fifo_lt : s.port.fifoTxDesc < s.port.txNum
  count : s.card.count ≤ 4095
  calls : ∀ pc ∈ s.calls, pc.Measured

variable {s : RoomState}

theorem RoomInvariant.pcStep (h : RoomInvariant s) {pc : WriteDataPc} (hpc : pc.Measured)
    (hroom : ∀ tfcnt txcnt, pc = .locked tfcnt txcnt → s.card.count ≤ txcnt ∧ ShortDescs s.port) :
    let next := writeDataPcStep txCard s.port s.card pc
    next.1.Measured ∧ next.2.1.fifoTxDesc < next.2.1.txNum ∧ next.2.2.count ≤ 4095 := by
  cases pc with
  | readTFCNT =>
    refine ⟨?_, h.fifo_lt, h.count⟩
    show WriteDataPc.Measured (if _ then _ else _)
    split
    · trivial
    · trivial
  | readTXCNT tfcnt =>
    have hcount := h.count
    have hread : fsccIoGetTXCNT txCard s.port s.card = (s.card.count, s.card) :=
      txCard_getTXCNT (by omega)
    dsimp only [writeDataPcStep]
    rw [hread]
    refine ⟨?_, h.fifo_lt, hcount⟩
    by_cases hover : fifoSpace s.card.count > txFifoSize
    · rw [if_pos hover]
      trivial
    · rw [if_neg hover]
      exact ⟨by omega, hover⟩
  | locked tfcnt txcnt =>
    obtain ⟨hless, hshort⟩ := hroom tfcnt txcnt rfl
    obtain ⟨hcount, hfifo⟩ := writeDataLocked_room s.card tfcnt txcnt h.fifo_lt hshort
    have hspace := fifoSpace_le hpc.2 hpc.1
    refine ⟨trivial, hfifo, Nat.le_trans hcount ?_⟩
    omega
  | returned dataWritten => exact ⟨trivial, h.fifo_lt, h.count⟩

theorem RoomInvariant.step {action : RoomAction} (hroom : StillRoom s action) (h : RoomInvariant s) :
    RoomInvariant (roomStep s action) := by
  cases action with
  | enter => exact ⟨h.fifo_lt, h.count, Threads.forall_append_one h.calls trivial⟩
  | step i =>
    rw [roomStep]
    cases hcall : s.calls[i]? with
    | none => exact h
    | some pc =>
      obtain ⟨hmeasured, hfifo, hcount⟩ := h.pcStep (h.calls pc (List.mem_of_getElem? hcall))
        fun tfcnt txcnt hpc ↦ hroom tfcnt txcnt (hcall.trans (congrArg some hpc))
      exact ⟨hfifo, hcount, Threads.forall_set h.calls hmeasured⟩
  | send bytes fifoFc => exact ⟨h.fifo_lt, Nat.le_trans (Nat.sub_le _ _) h.count, h.calls⟩
  | setRing ring => exact ⟨ring.fifo_lt, h.count, h.calls⟩

/-- As long as no activation finds the FIFO fuller than it has read it to be, the FIFO is never
overfilled, whatever the ring holds and however many activations overlap. -/
theorem fscc_fifo_write_data_keeps_room (ring : AnyRing) (fifoFc : BitVec 32)
    (actions : List RoomAction)
    (hroom : Runs.Along StillRoom roomStep (roomStart ring fifoFc) actions) :
    (actions.foldl roomStep (roomStart ring fifoFc)).card.count ≤ txFifoSize := by
  have hstart : RoomInvariant (roomStart ring fifoFc) :=
    ⟨ring.fifo_lt, Nat.zero_le _, fun pc hpc ↦ absurd hpc List.not_mem_nil⟩
  have hend := hroom.invariant (fun _ _ hroom h ↦ h.step hroom) hstart
  exact Nat.le_trans hend.count (by decide)

-- Two descriptors of 4088 bytes wait.
def twoFullRing : AnyRing where
  port := { twoBufferPort with
    txDescriptors := fun _ ↦ ⟨descHiBit + descFeBit + 4088, 4088, 4088, List.replicate 4088 0, 0⟩ }
  fifo_lt := by decide

/-- Two activations overlap, and the second one reads TXCNT behind the writes of the first. -/
def oneBehindTheOther : List RoomAction :=
  [.enter, .enter, .step 0, .step 1, .step 0, .step 0, .step 1, .step 1]

theorem fscc_fifo_write_data_keeps_room_overlapping :
    (oneBehindTheOther.foldl roomStep (roomStart twoFullRing 0)).card.count ≤ txFifoSize :=
  fscc_fifo_write_data_keeps_room twoFullRing 0 oneBehindTheOther (by decide +kernel)

-- Two activations both read TXCNT while the FIFO is empty.
theorem fscc_fifo_write_data_overfills :
    let actions := [RoomAction.enter, .enter, .step 0, .step 0, .step 1, .step 1, .step 0, .step 1]
    ¬ (actions.foldl roomStep (roomStart twoFullRing 0)).card.count ≤ txFifoSize := by
  decide +kernel

end FsccDriver

import FsccDriver.RxShape
import FsccDriver.TxDescs
import FsccDriver.WrappedCount

/-!
# RingShapes — both rings keep their shape over whole runs

The transmit ring is the mirror image of the receive ring: the descriptors without CSTOP wait from
`fifo_tx_desc` on, and all others are free and count no bytes.
-/

namespace FsccDriver

open Words

variable {H : Type} {hw : Hardware H} {port : TxPort} {desc : DmaFrame} {waiting : List DmaFrame}

/-! ## The transmit ring -/

structure WaitingDesc (item desc : DmaFrame) : Prop where
  item : desc = item
  cstop : desc.control &&& descCstopBit = 0

structure SentDesc (desc : DmaFrame) : Prop where
  control : desc.control = descCstopBit
  dataCount : desc.dataCount = 0

structure TxShape (waiting : List DmaFrame) (port : TxPort) : Prop where
  holds : Cyclic.Holds WaitingDesc SentDesc SentDesc waiting port.txDescriptors port.txNum
    port.fifoTxDesc
  user : port.userTxDesc = (port.fifoTxDesc + waiting.length) % port.txNum

theorem WaitingDesc.not_cstop {item : DmaFrame} (h : WaitingDesc item desc) :
    ¬ desc.control &&& descCstopBit = descCstopBit := by
  rw [h.cstop]
  decide

theorem SentDesc.cstop (h : SentDesc desc) : desc.control &&& descCstopBit = descCstopBit := by
  rw [h.control]
  decide

theorem TxShape.pop {freed : DmaFrame} (h : TxShape (desc :: waiting) port) (hfreed : SentDesc freed) :
    TxShape waiting (port.setFifoDesc freed).nextFifo := by
  refine ⟨h.holds.pop hfreed fun _ ↦ hfreed, ?_⟩
  show port.userTxDesc = (Cyclic.next port.txNum port.fifoTxDesc + waiting.length) % port.txNum
  rw [h.user, List.length_cons, Cyclic.add_mod_next h.holds.origin_lt]

theorem TxShape.push (h : TxShape waiting port) (hlt : waiting.length < port.txNum)
    (hdesc : WaitingDesc desc desc) :
    TxShape (waiting ++ [desc]) (port.setUserDesc desc).nextUser := by
  have hholds := h.holds.push SentDesc hlt hdesc fun _ ↦ id
  rw [← h.user] at hholds
  refine ⟨hholds, ?_⟩
  show Cyclic.next port.txNum port.userTxDesc = _
  rw [h.user, Cyclic.next_add_mod (Nat.lt_of_le_of_lt (Nat.zero_le _) hlt), List.length_append,
    List.length_singleton]
  rfl

theorem resetTx_shape (hslots : 0 < port.txNum) : TxShape [] (resetTx port) := by
  have hsent : ∀ i < port.txNum, SentDesc ((resetTx port).txDescriptors i) := by
    intro i hi
    show SentDesc (if i < port.txNum then _ else _)
    rw [if_pos hi]
    exact ⟨rfl, rfl⟩
  exact ⟨.empty hslots hsent hsent, (Nat.zero_mod _).symm⟩

theorem TxShape.same {port' : TxPort} (h : TxShape waiting port)
    (hdescs : port'.txDescriptors = port.txDescriptors) (hnum : port'.txNum = port.txNum)
    (hfifo : port'.fifoTxDesc = port.fifoTxDesc) (huser : port'.userTxDesc = port.userTxDesc) :
    TxShape waiting port' := by
  constructor
  · rw [hdescs, hnum, hfifo]
    exact h.holds
  · rw [huser, hnum, hfifo]
    exact h.user

theorem TxShape.setRegister (h : TxShape waiting port) (bar offset : Nat) (value : BitVec 32)
    (s : H) : TxShape waiting (port.setRegister hw bar offset value s).1 :=
  h.same rfl rfl rfl rfl

/-! ## `fscc_user_write_frame` -/

section Write

variable {buf : List Byte} {dataLength : Nat} {st : WriteFrameLoop}

theorem TxShape.has_free (h : TxShape waiting port) (hfree : port.Free port.userTxDesc) :
    waiting.length < port.txNum := by
  by_contra hfull
  have hall : waiting.length = port.txNum :=
    Nat.le_antisymm h.holds.fits (Nat.le_of_not_lt hfull)
  cases waiting with
  | nil => exact absurd (hall ▸ h.holds.origin_lt) (Nat.not_lt_zero _)
  | cons desc rest =>
    apply h.holds.head.not_cstop
    rwa [TxPort.Free, h.user, hall, Nat.add_mod_right, Nat.mod_eq_of_lt h.holds.origin_lt] at hfree

variable (buf st) in
theorem writeFrameLoop_shape (n : Nat) (h : ∃ waiting, TxShape waiting st.port)
    (hlength : dataLength < 1073741824) (hout : st.outLength ≤ dataLength) :
    ∃ waiting, TxShape waiting (writeFrameLoop buf dataLength n st).port := by
  induction n generalizing st with
  | zero => exact h
  | succ n ih =>
    obtain ⟨waiting, hring⟩ := h
    rw [writeFrameLoop]
    rcases writeFrameStep_cases buf dataLength st with ⟨-, hstep⟩ | ⟨hfree, st', hone, hstep⟩
    · rw [hstep]
      exact ⟨waiting, hring⟩
    have hlen : segmentLength dataLength st ≤ dataLength - st.outLength := by
      rw [segmentLength, u32_sub_of_le (by omega) hout]
      exact Nat.min_le_left _ _
    have hnext : st'.outLength ≤ dataLength := by
      rw [hone.outLength, u32_add_of_lt (by omega)]
      omega
    have hring' : TxShape (waiting ++ [segmentDesc buf dataLength st]) st'.port := by
      rw [hone.port]
      exact hring.push (hring.has_free hfree) ⟨rfl, segmentControl_cstop hlength (by omega)⟩
    rw [hstep]
    cases decide (st'.outLength ≠ dataLength) with
    | false => exact ⟨_, hring'⟩
    | true => exact ih st' ⟨_, hring'⟩ hnext

theorem fsccUserWriteFrame_shape (h : ∃ waiting, TxShape waiting port)
    (hlength : dataLength < 1073741824) (s : H) :
    ∃ waiting, TxShape waiting (fsccUserWriteFrame hw buf dataLength port s).2.1 := by
  obtain ⟨waiting, hring⟩ := writeFrameLoop_shape buf ⟨port, 0, 0, 0, .success⟩ port.txNum
    h hlength (Nat.zero_le _)
  obtain ⟨-, hdescs, hnum, huser, hfifo⟩ := fsccUserWriteFrame_loop hw buf dataLength port s
  exact ⟨waiting, hring.same hdescs hnum hfifo huser⟩

end Write

/-! ## `fscc_fifo_write_data` -/

theorem TxShape.empty (h : TxShape waiting port) (hpending : ¬ port.Free port.fifoTxDesc) :
    ∃ waiting, TxShape waiting (emptiedPort port) := by
  cases waiting with
  | nil => exact absurd h.holds.cur_first.cstop hpending
  | cons desc rest => exact ⟨rest, h.pop ⟨rfl, rfl⟩⟩

variable (hw) in
theorem writeDataLoop_shape (st : WriteDataLoop) (tfcnt n : Nat)
    (h : ∃ waiting, TxShape waiting st.port) (s : H) :
    ∃ waiting, TxShape waiting (writeDataLoop hw tfcnt n st s).1.port :=
  writeDataLoop_invariant (P := fun port ↦ ∃ waiting, TxShape waiting port)
    (fun _ ⟨_, hring⟩ hpending ↦ hring.empty hpending) n s h

theorem fsccFifoWriteData_shape (h : ∃ waiting, TxShape waiting port) (s : H) :
    ∃ waiting, TxShape waiting (fsccFifoWriteData hw port s).2.1 := by
  rw [fsccFifoWriteData]
  dsimp only
  split
  · exact h
  split
  · exact h
  obtain ⟨waiting, hring⟩ := writeDataLoop_shape hw ⟨port, _, 0, 0⟩ _ port.txNum h _
  split
  · exact ⟨waiting, hring.same rfl rfl rfl rfl⟩
  · exact ⟨waiting, hring⟩

/-! ## What the shape says of each descriptor -/

/-- The descriptors without CSTOP are those from `fifo_tx_desc` to just before `user_tx_desc`; the
others are free and count no bytes. -/
def TxSegment (port : TxPort) : Prop :=
  port.userTxDesc < port.txNum ∧ port.fifoTxDesc < port.txNum ∧
    ∃ m ≤ port.txNum, port.userTxDesc = (port.fifoTxDesc + m) % port.txNum ∧
      (∀ k < m, (Cyclic.slot port.txDescriptors port.txNum port.fifoTxDesc k).control &&&
        descCstopBit = 0) ∧
      ∀ k, m ≤ k → k < port.txNum →
        let desc := Cyclic.slot port.txDescriptors port.txNum port.fifoTxDesc k
        desc.control = descCstopBit ∧ desc.dataCount = 0

theorem TxShape.segment (h : TxShape waiting port) : TxSegment port := by
  refine ⟨?_, h.holds.origin_lt, waiting.length, h.holds.fits, h.user, ?_, ?_⟩
  · rw [h.user]
    exact Nat.mod_lt _ (Nat.lt_of_le_of_lt (Nat.zero_le _) h.holds.origin_lt)
  · intro k hk
    exact (h.holds.busy k hk).cstop
  · intro k hle hk
    have hsent : SentDesc (Cyclic.slot port.txDescriptors port.txNum port.fifoTxDesc k) := by
      rcases Nat.lt_or_eq_of_le hle with hlt | rfl
      · exact h.holds.free k hlt hk
      · exact h.holds.cur hk
    exact ⟨hsent.control, hsent.dataCount⟩

/-! ## Runs -/

structure WriteLength where
  bytes : Nat
  pos : 0 < bytes
  le : bytes ≤ dmaMaxLength

-- A purge leaves the card in any state at all.
inductive RingAction (H : Type) where
  | fifoReadData
  | userReadFrame (bufLength : BitVec 32)
  | userReadStream (bufLength : BitVec 32)
  | userWriteFrame (buf : List Byte) (dataLength : WriteLength)
  | fifoWriteData
  | purgeRx (card : H)
  | purgeTx (card : H)

structure RingState (H : Type) where
  rx : RxPort
  tx : TxPort
  card : H

def ringStep (hw : Hardware H) (s : RingState H) : RingAction H → RingState H
  | .fifoReadData =>
      let (rx, card) := fsccFifoReadData hw s.rx s.card
      { s with rx, card }
  | .userReadFrame bufLength =>
      let (_, rx, card) := fsccUserReadFrame hw bufLength.toNat s.rx s.card
      { s with rx, card }
  | .userReadStream bufLength => { s with rx := (fsccUserReadStream bufLength.toNat s.rx).2 }
  | .userWriteFrame buf dataLength =>
      let (_, tx, card) := fsccUserWriteFrame hw buf dataLength.bytes s.tx s.card
      { s with tx, card }
  | .fifoWriteData =>
      let (_, tx, card) := fsccFifoWriteData hw s.tx s.card
      { s with tx, card }
  | .purgeRx card => { s with rx := resetRx s.rx, card }
  | .purgeTx card => { s with tx := resetTx s.tx, card }

def ringStart (rx : RxPort) (tx : TxPort) (card : H) : RingState H := ⟨resetRx rx, resetTx tx, card⟩

structure RingsKept (ds : Nat) (s : RingState H) : Prop where
  rx : ∃ finished, RxShape ds finished s.rx
  tx : ∃ waiting, TxShape waiting s.tx

variable {ds : Nat} {s : RingState H}

variable (hw) in
theorem RingsKept.step (hds : ds < 1610612736) (h : RingsKept ds s) (action : RingAction H) :
    RingsKept ds (ringStep hw s action) := by
  obtain ⟨hrx, htx⟩ := h
  cases action with
  | fifoReadData =>
    obtain ⟨finished, hring⟩ := hrx
    obtain ⟨more, hmore⟩ := fsccFifoReadData_shape hring hds s.card
    exact ⟨⟨_, hmore⟩, htx⟩
  | userReadFrame bufLength => exact ⟨fsccUserReadFrame_shape hrx, htx⟩
  | userReadStream bufLength => exact ⟨readStreamLoop_shape _ hrx, htx⟩
  | userWriteFrame buf dataLength =>
    exact ⟨hrx, fsccUserWriteFrame_shape htx (Nat.lt_of_le_of_lt dataLength.le (by decide)) s.card⟩
  | fifoWriteData => exact ⟨hrx, fsccFifoWriteData_shape htx s.card⟩
  | purgeRx card =>
    obtain ⟨finished, hring⟩ := hrx
    exact ⟨⟨[], hring.reset⟩, htx⟩
  | purgeTx card =>
    obtain ⟨waiting, hring⟩ := htx
    exact ⟨hrx, [], resetTx_shape (Nat.lt_of_le_of_lt (Nat.zero_le _) hring.holds.origin_lt)⟩

variable {rx : RxPort} {tx : TxPort}

/-- From a purge on both rings keep their shape, whatever the registers read as, as long as no buffer
has `0x60000000` bytes or more. -/
theorem fscc_rings_keep_shape (hw : Hardware H) (card : H) (hrx : 2 ≤ rx.rxNum) (htx : 2 ≤ tx.txNum)
    (hsize : ∀ i < rx.rxNum, (rx.rxDescriptors i).dataSize = ds) (hds : ds < 0x60000000)
    (actions : List (RingAction H)) :
    let s := actions.foldl (ringStep hw) (ringStart rx tx card)
    RxSegment s.rx ∧ TxSegment s.tx := by
  have hstart : RingsKept ds (ringStart rx tx card) :=
    ⟨⟨[], resetRx_shape (Nat.lt_of_lt_of_le Nat.two_pos hrx) hsize⟩,
      [], resetTx_shape (Nat.lt_of_lt_of_le Nat.two_pos htx)⟩
  have hkept : RingsKept ds (actions.foldl (ringStep hw) (ringStart rx tx card)) :=
    Runs.invariant (fun _ action h ↦ h.step hw hds action) hstart actions
  obtain ⟨⟨finished, hfinished⟩, waiting, hwaiting⟩ := hkept
  exact ⟨hfinished.segment, hwaiting.segment⟩

-- A run through both rings, with a frame that does not fit into the transmit buffers.
theorem fscc_rings_keep_shape_short :
    let s := [RingAction.fifoReadData, .userReadFrame 8,
      .userWriteFrame (List.replicate 9 0) ⟨9, by decide, by decide⟩, .fifoWriteData].foldl
        (ringStep wrapHardware) (ringStart (twoDescPort 4) twoBufferPort 0)
    RxSegment s.rx ∧ TxSegment s.tx :=
  fscc_rings_keep_shape wrapHardware 0 (by decide) (by decide) (fun _ _ ↦ rfl)
    (by decide : 4 < 0x60000000) _

theorem foldl_ring_fifoReadData (hw : Hardware H) (s : RingState H) (k : Nat) :
    (List.replicate k RingAction.fifoReadData).foldl (ringStep hw) s =
      { s with rx := (fifoCalls hw k s.rx s.card).1, card := (fifoCalls hw k s.rx s.card).2 } := by
  induction k with
  | zero => rfl
  | succ k ih => rw [List.replicate_succ', List.foldl_append, ih]; rfl

-- With longer buffers the count may reach FE, and the descriptor has FE without CSTOP.
theorem fscc_rings_lose_shape :
    ¬ ∀ actions : List (RingAction Nat),
      RxSegment (actions.foldl (ringStep wrapHardware) (ringStart fiveDescPort twoBufferPort 0)).rx := by
  intro hall
  obtain ⟨port, k, hcalls, hnum, huser, hfifo, hcontrol⟩ := wrapped_calls
  have hrun := foldl_ring_fifoReadData wrapHardware (ringStart fiveDescPort twoBufferPort 0) 262141
  have hshape := hall (List.replicate 262141 .fifoReadData)
  have hport : (fifoCalls wrapHardware 262141 (ringStart fiveDescPort twoBufferPort 0).rx
      (ringStart fiveDescPort twoBufferPort 0).card) = (port, k) := hcalls
  rw [hrun, hport] at hshape
  obtain ⟨-, -, m, hm, hfifo', -, hothers⟩ := hshape
  dsimp only at hm hfifo' hothers
  rw [hnum, huser, hfifo, Nat.zero_add] at hfifo'
  rw [hnum] at hm
  have hlast : m = 4 := by
    rcases Nat.lt_or_eq_of_le hm with hlt | rfl
    · rw [Nat.mod_eq_of_lt hlt] at hfifo'
      exact hfifo'.symm
    · exact absurd hfifo' (by decide)
  have hopen := (hothers 4 (Nat.le_of_eq hlast) (by rw [hnum]; decide)).1.1
  rw [Cyclic.slot, huser, hnum] at hopen
  have hdesc : (0 + 4) % 5 = 4 := by decide
  rw [hdesc, hcontrol] at hopen
  exact absurd hopen (by decide)

end FsccDriver

import FsccDriver.TxQueue

/-!
# TransmitWords — what the FIFO register is given

A card that records the words written to its FIFO register sees the pieces that leave the transmit ring,
each packed into whole words, and nothing else.
-/

namespace FsccDriver

open Words

variable {H : Type}

/-- The card, with the words that `ioWrite` has brought to its FIFO register. -/
def Hardware.recording (hw : Hardware H) : Hardware (H × List (BitVec 32)) where
  ioRead bar offset h := ((hw.ioRead bar offset h.1).1, (hw.ioRead bar offset h.1).2, h.2)
  ioWrite bar offset value h :=
    (hw.ioWrite bar offset value h.1,
      if bar = 0 ∧ offset = fifoOffset then h.2 ++ [value] else h.2)
  keQuerySystemTime h := ((hw.keQuerySystemTime h.1).1, (hw.keQuerySystemTime h.1).2, h.2)

/-- The words of a piece, as `fscc_port_set_register_rep` cuts them. -/
def Piece.words (piece : Piece) : List (BitVec 32) :=
  setRegisterRepWords piece.desc.buffer piece.desc.dataCount

theorem Piece.packed {piece : Piece} (h : piece.desc.dataCount ≤ piece.desc.buffer.length) :
    Bytes.Packed piece.bytes piece.words :=
  setRegisterRepWords_packed h

/-! ## The functions of the driver on a recording card -/

section Functions

variable (hw : Hardware H) (h : H) (words : List (BitVec 32))

theorem timedOutLoop_recording (port : RegPort) (n : Nat) :
    timedOutLoop hw.recording port n (h, words) =
      ((timedOutLoop hw port n h).1, (timedOutLoop hw port n h).2, words) := by
  induction n generalizing h with
  | zero => rfl
  | succ n ih =>
    rw [timedOutLoop, timedOutLoop]
    dsimp only [fsccPortGetRegister, fsccCardGetRegister, Hardware.recording]
    split
    · rfl
    · exact ih _

/-- A register other than the FIFO's. -/
def BesideFifo (bar offset : Nat) : Prop := ¬ (bar = 0 ∧ offset = fifoOffset)

theorem setRegister_recording {bar offset : Nat} (hother : BesideFifo bar offset) (port : TxPort)
    (value : BitVec 32) :
    port.setRegister hw.recording bar offset value (h, words) =
      ((port.setRegister hw bar offset value h).1, (port.setRegister hw bar offset value h).2,
        words) := by
  have hwrite : ∀ value h, fsccCardSetRegister hw.recording bar (portOffset port.channel bar offset) value
      (h, words) = (fsccCardSetRegister hw bar (portOffset port.channel bar offset) value h, words) := by
    intro value h
    refine Prod.ext rfl (if_neg fun hfifo ↦ hother ⟨hfifo.1, ?_⟩)
    obtain ⟨rfl, hoffset⟩ := hfifo
    exact hoffset
  dsimp only [TxPort.setRegister, fsccPortSetRegister]
  by_cases hcommand : offset = cmdrOffset ∧ port.ignoreTimeout = false
  · rw [if_pos hcommand, if_pos hcommand, fsccPortTimedOut, fsccPortTimedOut, timedOutLoop_recording]
    split
    · rfl
    · rw [hwrite]
  · rw [if_neg hcommand, if_neg hcommand, hwrite]
    rfl

theorem fsccUserWriteFrame_recording (buf : List Byte) (dataLength : Nat) (port : TxPort) :
    fsccUserWriteFrame hw.recording buf dataLength port (h, words) =
      ((fsccUserWriteFrame hw buf dataLength port h).1,
        (fsccUserWriteFrame hw buf dataLength port h).2.1,
        (fsccUserWriteFrame hw buf dataLength port h).2.2, words) := by
  dsimp only [fsccUserWriteFrame]
  generalize writeFrameLoop buf dataLength port.txNum ⟨port, 0, 0, 0, .success⟩ = st
  have hrunning : fsccDmaIsTxRunning hw.recording st.port (h, words) =
      ((fsccDmaIsTxRunning hw st.port h).1, (fsccDmaIsTxRunning hw st.port h).2, words) := rfl
  split
  · rw [hrunning]
    split
    · rfl
    · rw [setRegister_recording hw _ words (fun hfifo ↦ by cases hfifo.1), fsccIoExecuteTransmit,
        if_pos rfl, setRegister_recording hw _ words (fun hfifo ↦ by cases hfifo.1)]
      rfl
  · rfl

theorem ioWrites_recording (more : List (BitVec 32)) :
    more.foldl (fun h value ↦ hw.recording.ioWrite 0 fifoOffset value h) (h, words) =
      (more.foldl (fun h value ↦ hw.ioWrite 0 fifoOffset value h) h, words ++ more) := by
  induction more generalizing h words with
  | nil => exact Prod.ext rfl (List.append_nil _).symm
  | cons value more ih =>
    rw [List.foldl_cons, List.foldl_cons]
    show List.foldl _ (hw.ioWrite 0 fifoOffset value h, words ++ [value]) more = _
    rw [ih, List.append_assoc, List.singleton_append]

theorem fsccPortSetRegisterRep_recording (channel : Nat) (data : List Byte) (byteCount : Nat) :
    fsccPortSetRegisterRep hw.recording channel 0 fifoOffset data byteCount (h, words) =
      (fsccPortSetRegisterRep hw channel 0 fifoOffset data byteCount h,
        words ++ setRegisterRepWords data byteCount) := by
  rw [fsccPortSetRegisterRep, fsccPortSetRegisterRep]
  split
  · exact ioWrites_recording hw h words _
  next hnone =>
    have hzero : byteCount = 0 := Nat.eq_zero_of_not_pos hnone
    rw [hzero]
    exact Prod.ext rfl (List.append_nil _).symm

variable {h} in
-- A round sends the descriptor it empties, and one that stops sends nothing.
theorem writeDataStep_recording (tfcnt : Nat) (st : WriteDataLoop) :
    (writeDataStep hw tfcnt st h = (false, st, h) ∧
        writeDataStep hw.recording tfcnt st (h, words) = (false, st, h, words)) ∨
      ¬ st.port.Free st.port.fifoTxDesc ∧ ∃ st' h', st'.port = emptiedPort st.port ∧
        writeDataStep hw tfcnt st h = (true, st', h') ∧
        writeDataStep hw.recording tfcnt st (h, words) = (true, st', h',
          words ++ setRegisterRepWords st.port.fifoDesc.buffer st.port.fifoDesc.dataCount) := by
  rw [writeDataStep, writeDataStep]
  dsimp only
  by_cases hfree : st.port.fifoDesc.control &&& descCstopBit = descCstopBit
  · rw [if_pos hfree, if_pos hfree]
    exact Or.inl ⟨rfl, rfl⟩
  rw [if_neg hfree, if_neg hfree]
  split
  · exact Or.inl ⟨rfl, rfl⟩
  split
  · exact Or.inl ⟨rfl, rfl⟩
  rw [fsccPortSetRegisterRep_recording]
  exact Or.inr ⟨hfree, _, _, rfl, rfl, rfl⟩

end Functions

section Push

variable (hw : Hardware H) {port : TxPort} {st : WriteDataLoop} {tfcnt : Nat} {h : H}
  {words : List (BitVec 32)}

variable (tfcnt h words) in
-- Induction over the rounds, with the pieces as they were before the first one.
theorem writeDataLoop_recording (owner : Nat → Nat) (n : Nat) (hplain : TxPlain st.port) :
    pushedDescs hw.recording tfcnt n st (h, words) = pushedDescs hw tfcnt n st h ∧
      writeDataLoop hw.recording tfcnt n st (h, words) =
        ((writeDataLoop hw tfcnt n st h).1, (writeDataLoop hw tfcnt n st h).2,
          words ++ ((pushedDescs hw tfcnt n st h).map (pieceAt owner st.port)).flatMap Piece.words) := by
  induction n generalizing st h words with
  | zero => exact ⟨rfl, congrArg _ (Prod.ext rfl (List.append_nil _).symm)⟩
  | succ n ih =>
    rw [pushedDescs, pushedDescs, writeDataLoop, writeDataLoop]
    rcases writeDataStep_recording hw words tfcnt st with
      ⟨hplainly, hrecorded⟩ | ⟨hpending, st', h', hport, hplainly, hrecorded⟩
    · rw [hplainly, hrecorded]
      dsimp only
      rw [List.map_nil, List.flatMap_nil, List.append_nil]
      exact ⟨rfl, rfl⟩
    have hone := emptiedPort_pushes hplain hpending
    rw [← hport] at hone
    obtain ⟨hdescs, hloop⟩ := ih h' (words ++ _) hone.plain
    have hlater := hone.later_pieces (writeDataLoop_pushes hw tfcnt n hone.plain h') owner
    rw [hplainly, hrecorded]
    dsimp only
    rw [hdescs, hloop, hlater, List.append_assoc]
    exact ⟨rfl, rfl⟩

variable (tfcnt h words) in
theorem writeDataLocked_recording (owner : Nat → Nat) (txcnt : Nat) (hplain : TxPlain port) :
    let st : WriteDataLoop := ⟨port, fifoSpace txcnt, 0, 0⟩
    let descs := pushedDescs hw tfcnt port.txNum st h
    pushedDescs hw.recording tfcnt port.txNum st (h, words) = descs ∧
      writeDataLocked hw.recording tfcnt txcnt port (h, words) =
        ((writeDataLocked hw tfcnt txcnt port h).1, (writeDataLocked hw tfcnt txcnt port h).2.1,
          (writeDataLocked hw tfcnt txcnt port h).2.2,
          words ++ (descs.map (pieceAt owner port)).flatMap Piece.words) := by
  intro st descs
  have hst : TxPlain st.port := hplain
  obtain ⟨hdescs, hloop⟩ := writeDataLoop_recording hw tfcnt h words owner port.txNum hst
  refine ⟨hdescs, ?_⟩
  dsimp only [writeDataLocked]
  rw [hloop]
  dsimp only
  split
  · rw [setRegister_recording hw _ _ fun hfifo ↦ absurd hfifo.2 (by decide)]
  · rfl

end Push

/-! ## Runs on a recording card -/

/-- The state with a card that has recorded `words`. -/
def WriteState.recorded (s : WriteState H) (words : List (BitVec 32)) :
    WriteState (H × List (BitVec 32)) :=
  { s with card := (s.card, words) }

-- The FIFO and its record begin again at a reset; nothing else the card does reaches the record.
def WriteAction.recorded (words : List (BitVec 32)) :
    WriteAction H → WriteAction (H × List (BitVec 32))
  | .submit data => .submit data
  | .present => .present
  | .evtIoWrite => .evtIoWrite
  | .enqueueRequestDpc => .enqueueRequestDpc
  | .requestWorker i => .requestWorker i
  | .fifoWriteData tfcnt txcnt => .fifoWriteData tfcnt txcnt
  | .setBlockingWrite value => .setBlockingWrite value
  | .setWaitOnWrite value => .setWaitOnWrite value
  | .purgeReset card => .purgeReset (card, [])
  | .purgeStop => .purgeStop
  | .purgeReturn => .purgeReturn
  | .send pieces => .send pieces
  | .alls => .alls
  | .setCard card => .setCard (card, words)
  | .allsWorker => .allsWorker

def recordStep (hw : Hardware H) (s : WriteState (H × List (BitVec 32))) (action : WriteAction H) :
    WriteState (H × List (BitVec 32)) :=
  writeStep hw.recording s (action.recorded s.card.2)

section Steps

variable (hw : Hardware H) (s : WriteState H) (words : List (BitVec 32))

theorem fill_recording (write : Write) :
    (s.recorded words).fill hw.recording write =
      ((s.fill hw write).1, (s.fill hw write).2.recorded words) := by
  have hcall := fsccUserWriteFrame_recording hw s.card words write.data write.length32 s.port
  dsimp only [WriteState.fill, WriteState.recorded]
  rw [hcall]

variable {s} in
theorem drain_recording (hplain : TxPlain s.port) (tfcnt txcnt : Nat) :
    (s.recorded words).drain hw.recording tfcnt txcnt = (s.drain hw tfcnt txcnt).recorded
      (words ++ (s.pushedPieces hw tfcnt txcnt).flatMap Piece.words) := by
  obtain ⟨hdescs, hlocked⟩ := writeDataLocked_recording hw tfcnt s.card words s.owner txcnt hplain
  dsimp only [WriteState.drain, WriteState.recorded]
  rw [hdescs, hlocked]
  rfl

theorem evtIoWriteStep_recording (pc : WriterPc) :
    (s.recorded words).evtIoWriteStep hw.recording pc =
      (s.evtIoWriteStep hw pc).recorded words := by
  cases pc with
  | entered write =>
    dsimp only [WriteState.evtIoWriteStep, WriteState.recorded]
    split
    · rfl
    split
    · rfl
    split
    · rfl
    · rfl
  | direct write =>
    dsimp only [WriteState.evtIoWriteStep, WriteState.recorded]
    split
    · rfl
    by_cases hclock : s.port.ignoreTimeout = false
    · rw [if_pos hclock, if_pos hclock, fsccPortTimedOut, fsccPortTimedOut, timedOutLoop_recording]
      split
      · rfl
      · rfl
    · rw [if_neg hclock, if_neg hclock]
      rfl
  | checked write =>
    rw [WriteState.evtIoWriteStep, WriteState.evtIoWriteStep, fill_recording]
    rfl
  | filled write result =>
    dsimp only [WriteState.evtIoWriteStep, WriteState.recorded]
    split
    · rfl
    · rfl

theorem requestWorkerStep_recording (pc : WorkerPc) :
    (s.recorded words).requestWorkerStep hw.recording pc =
      ((s.requestWorkerStep hw pc).1, (s.requestWorkerStep hw pc).2.recorded words) := by
  cases pc with
  | entered =>
    dsimp only [WriteState.requestWorkerStep, WriteState.recorded]
    split
    · rfl
    · rfl
  | found write =>
    dsimp only [WriteState.requestWorkerStep, WriteState.recorded]
    split
    · rfl
    · rfl
  | checked write =>
    dsimp only [WriteState.requestWorkerStep, WriteState.recorded]
    split
    · rfl
    · rfl
  | retrieved write =>
    rw [WriteState.requestWorkerStep, WriteState.requestWorkerStep, fill_recording]
  | filled write result => rfl
  | done => rfl

variable {s} in
/-- A recording card changes nothing but the record, and that only where pieces leave the ring and at a
reset. -/
theorem recordStep_recorded (hplain : TxPlain s.port) (action : WriteAction H) :
    recordStep hw (s.recorded words) action = (writeStep hw s action).recorded
      ((queueEvents hw s action).foldl (Fifo.Event.delivered Piece.words) words) := by
  cases action with
  | submit data =>
    dsimp only [recordStep, WriteAction.recorded, writeStep, WriteState.submit, WriteState.recorded]
    split
    · rfl
    · rfl
  | present =>
    dsimp only [recordStep, WriteAction.recorded, writeStep, WriteState.present, WriteState.recorded]
    split
    · rfl
    · rfl
  | evtIoWrite =>
    have hwriter : (s.recorded words).writer = s.writer := rfl
    dsimp only [recordStep, WriteAction.recorded, writeStep, queueEvents]
    rw [hwriter]
    cases s.writer with
    | none => rfl
    | some pc =>
      dsimp only
      rw [evtIoWriteStep_recording]
      cases pc with
      | checked write => rfl
      | entered write => rfl
      | direct write => rfl
      | filled write result => rfl
  | requestWorker i =>
    have hworkers : (s.recorded words).workers[i]? = s.workers[i]? := rfl
    dsimp only [recordStep, WriteAction.recorded, writeStep, queueEvents]
    rw [hworkers]
    cases s.workers[i]? with
    | none => rfl
    | some pc =>
      dsimp only
      rw [requestWorkerStep_recording]
      cases pc with
      | retrieved write => rfl
      | entered => rfl
      | found write => rfl
      | checked write => rfl
      | filled write result => rfl
      | done => rfl
  | fifoWriteData tfcnt txcnt => exact drain_recording hw words hplain tfcnt txcnt
  | purgeReset card =>
    have hpurge : (s.recorded words).purge = s.purge := rfl
    dsimp only [recordStep, WriteAction.recorded, writeStep, WriteState.purgeReset, queueEvents]
    rw [hpurge]
    cases s.purge with
    | none => rfl
    | some purge => rfl
  | purgeStop =>
    dsimp only [recordStep, WriteAction.recorded, writeStep, WriteState.purgeStop, WriteState.recorded]
    split
    · rfl
    · rfl
  | purgeReturn =>
    dsimp only [recordStep, WriteAction.recorded, writeStep, WriteState.purgeReturn, WriteState.recorded]
    split
    · rfl
    · rfl
  | allsWorker =>
    dsimp only [recordStep, WriteAction.recorded, writeStep, WriteState.allsWorker, WriteState.recorded]
    split
    · rfl
    · split
      · rfl
      · rfl
  | _ => rfl

end Steps

/-- What the FIFO register has been given since the last purge. -/
def fifoRecord (hw : Hardware H) (port : TxPort) (size : Nat) (card : H) (actions : List (WriteAction H)) :
    List (BitVec 32) :=
  (actions.foldl (recordStep hw) ((writeStart port size card).recorded [])).card.2

section Created

variable {hw : Hardware H} {port : TxPort} {size : Nat} {s : WriteState H}

theorem recordRun_recorded (hcapacity : port.txNum * size < 1073741824) (words : List (BitVec 32))
    (actions : List (WriteAction H)) (hs : QueueInvariant port.txNum size s) :
    actions.foldl (recordStep hw) (s.recorded words) = (actions.foldl (writeStep hw) s).recorded
      ((Fifo.trace (queueEvents hw) (writeStep hw) s actions).foldl (Fifo.Event.delivered Piece.words)
        words) := by
  induction actions generalizing s words with
  | nil => rfl
  | cons action actions ih =>
    have hplain := hs.plain (hs.txNum ▸ hs.ring.num_pos)
    rw [List.foldl_cons, List.foldl_cons, recordStep_recorded hw words hplain,
      ih _ (hs.step hw hcapacity action).1, Fifo.trace, List.foldl_append]

theorem fifoRecord_eq (hsize : SameSize port size) (hslots : 0 < port.txNum)
    (hcapacity : port.txNum * size < 1073741824) (card : H) (actions : List (WriteAction H)) :
    fifoRecord hw port size card actions =
      (Fifo.left (Fifo.sinceDrop (queueTrace hw port size card actions))).flatMap Piece.words := by
  rw [fifoRecord, recordRun_recorded hcapacity [] actions (writeStart_queue hsize hslots card).1]
  exact Fifo.delivered_eq Piece.words _

end Created

/-- What the FIFO register has been given since the last purge are the pieces that have left the ring,
each packed into whole words.  They and what still waits are, request by request, the bytes the calls
since then took, and each call puts its pieces one behind the other. -/
theorem fscc_transmit_bytes_in_order (hw : Hardware H) (card : H) {port : TxPort} {size : Nat}
    (hslots : 0 < port.txNum) (hsize : SameSize port size) (hcapacity : port.txNum * size < 2 ^ 30)
    (actions : List (WriteAction H)) :
    let s := actions.foldl (writeStep hw) (writeStart port size card)
    let events := Fifo.sinceDrop (queueTrace hw port size card actions)
    ∃ fills packed, fills <:+ s.fills ∧ Fifo.batches events = fills.map Fill.pieces ∧
      (∀ fill ∈ fills, PiecesOf fill.write.data 0 0 fill.result.outLength fill.pieces) ∧
      (Fifo.left events ++ s.pieces).flatMap Piece.bytes =
        fills.flatMap (fun fill ↦ fill.write.data.take fill.result.outLength) ∧
      List.Forall₂ Bytes.Packed ((Fifo.left events).map Piece.bytes) packed ∧
      fifoRecord hw port size card actions = packed.flatten := by
  intro s events
  have hs : QueueInvariant port.txNum size s :=
    (queueTrace_replays hw hsize hslots hcapacity card actions).1
  have hreplays : Fifo.Replays (queueTrace hw port size card actions) [] s.pieces :=
    (queueTrace_replays hw hsize hslots hcapacity card actions).2
  obtain ⟨fills, hsuffix, hbatches⟩ := queueTrace_fills hw port size card actions
  have hcarried : ∀ fill ∈ fills, PiecesOf fill.write.data 0 0 fill.result.outLength fill.pieces :=
    fun fill hfill ↦ hs.carried fill (hsuffix.subset hfill)
  have hjoined : Fifo.left events ++ s.pieces = (fills.map Fill.pieces).flatten := by
    rw [← hreplays.since, Fifo.joined_eq_flatten, hbatches]
  refine ⟨fills, (Fifo.left events).map Piece.words, hsuffix, hbatches, hcarried, ?_, ?_, ?_⟩
  · rw [hjoined, ← List.flatMap_def, List.flatMap_assoc]
    exact List.flatMap_congr fun fill hfill ↦ (hcarried fill hfill).bytes
  · refine List.forall₂_map_left_iff.mpr (List.forall₂_map_right_iff.mpr
      (List.forall₂_same.mpr fun piece hpiece ↦ Piece.packed ?_))
    have hmem : piece ∈ (fills.map Fill.pieces).flatten := by
      rw [← hjoined]
      exact List.mem_append_left _ hpiece
    obtain ⟨pieces, hpieces, hin⟩ := List.mem_flatten.mp hmem
    obtain ⟨fill, hfill, rfl⟩ := List.mem_map.mp hpieces
    exact (hcarried fill hfill).fits piece hin
  · rw [fifoRecord_eq hsize hslots hcapacity card actions, List.flatMap_def]

theorem fscc_transmit_bytes_in_order_purged :
    let s := purgedRun.foldl (writeStep wrapHardware) (writeStart twoBufferPort 4 0)
    let events := Fifo.sinceDrop (queueTrace wrapHardware twoBufferPort 4 0 purgedRun)
    ∃ fills packed, fills <:+ s.fills ∧ Fifo.batches events = fills.map Fill.pieces ∧
      (∀ fill ∈ fills, PiecesOf fill.write.data 0 0 fill.result.outLength fill.pieces) ∧
      (Fifo.left events ++ s.pieces).flatMap Piece.bytes =
        fills.flatMap (fun fill ↦ fill.write.data.take fill.result.outLength) ∧
      List.Forall₂ Bytes.Packed ((Fifo.left events).map Piece.bytes) packed ∧
      fifoRecord wrapHardware twoBufferPort 4 0 purgedRun = packed.flatten :=
  fscc_transmit_bytes_in_order wrapHardware 0 (by decide) twoBufferPort_sameSize (by decide) purgedRun

-- Behind the purge: the three bytes of the second request, and one of the first that is still in the buffer.
example : fifoRecord wrapHardware twoBufferPort 4 0 (purgedRun ++ [.fifoWriteData 0 0]) =
    [0x04080706] := by decide

end FsccDriver

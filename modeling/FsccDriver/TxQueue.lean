import FsccDriver.Lib.Fifo
import FsccDriver.RingShapes
import FsccDriver.WriteAdmission

/-!
# TxQueue — the transmit ring is a queue

What the ring is for: `fscc_user_write_frame` puts the pieces of a request at the end of a queue and
`fscc_fifo_write_data` takes pieces from its front.  Between a purge and the next nothing in it is lost,
repeated or overtaken, and no request comes between the pieces of another.
-/

namespace FsccDriver

open Words

variable {H : Type} {hw : Hardware H} {port : TxPort} {owner : Nat → Nat}

/-- One filled descriptor and the request it belongs to. -/
structure Piece where
  id : Nat
  desc : DmaFrame

def Piece.bytes (piece : Piece) : List Byte := descBytes piece.desc

def Piece.waits (piece : Piece) : Bool := decide (piece.desc.control &&& descCstopBit ≠ descCstopBit)

def pieceAt (owner : Nat → Nat) (port : TxPort) (i : Nat) : Piece := ⟨owner i, port.txDescriptors i⟩

/-- The pieces from `fifo_tx_desc` up to the first free descriptor. -/
def WriteState.pieces (s : WriteState H) : List Piece :=
  (Cyclic.turn (pieceAt s.owner s.port) s.port.txNum s.port.fifoTxDesc).takeWhile Piece.waits

/-! ## The ring holds its pieces -/

structure WaitingPiece (item piece : Piece) : Prop where
  item : piece = item
  cstop : piece.desc.control &&& descCstopBit = 0

def SentPiece (piece : Piece) : Prop := SentDesc piece.desc

structure TxQueue (items : List Piece) (owner : Nat → Nat) (port : TxPort) : Prop where
  holds : Cyclic.Holds WaitingPiece SentPiece SentPiece items (pieceAt owner port) port.txNum
    port.fifoTxDesc
  user : port.userTxDesc = (port.fifoTxDesc + items.length) % port.txNum

variable {items : List Piece}

theorem TxQueue.pieces {s : WriteState H} (h : TxQueue items s.owner s.port) : s.pieces = items := by
  have hsent : ∀ piece, SentPiece piece → piece.waits = false :=
    fun _ hsent ↦ decide_eq_false (not_not.mpr hsent.cstop)
  refine h.holds.takeWhile_turn (fun item piece hwaits ↦ ⟨hwaits.item, ?_⟩) hsent hsent
  apply decide_eq_true
  rw [hwaits.cstop]
  decide

theorem resetTx_queue (hslots : 0 < port.txNum) : TxQueue [] owner (resetTx port) := by
  have hsent : ∀ i < port.txNum, SentPiece (pieceAt owner (resetTx port) i) := by
    intro i hi
    show SentDesc (if i < port.txNum then _ else _)
    rw [if_pos hi]
    exact ⟨rfl, rfl⟩
  exact ⟨.empty hslots hsent hsent, (Nat.zero_mod _).symm⟩

theorem TxQueue.same {port' : TxPort} (h : TxQueue items owner port)
    (hdescs : port'.txDescriptors = port.txDescriptors) (hnum : port'.txNum = port.txNum)
    (huser : port'.userTxDesc = port.userTxDesc) (hfifo : port'.fifoTxDesc = port.fifoTxDesc) :
    TxQueue items owner port' := by
  have hpieces : pieceAt owner port' = pieceAt owner port := by
    funext i
    rw [pieceAt, pieceAt, hdescs]
  constructor
  · rw [hpieces, hnum, hfifo]
    exact h.holds
  · rw [huser, hfifo, hnum]
    exact h.user

theorem TxQueue.num_pos (h : TxQueue items owner port) : 0 < port.txNum :=
  Nat.lt_of_le_of_lt (Nat.zero_le _) h.holds.origin_lt

theorem TxQueue.has_free (h : TxQueue items owner port) (hfree : port.Free port.userTxDesc) :
    items.length < port.txNum := by
  by_contra hfull
  have hall : items.length = port.txNum := Nat.le_antisymm h.holds.fits (Nat.le_of_not_lt hfull)
  cases items with
  | nil => exact absurd hall (Nat.ne_of_lt h.num_pos)
  | cons piece rest =>
    have hclear := h.holds.head.cstop
    rw [h.user, hall, Nat.add_mod_right, Nat.mod_eq_of_lt h.holds.origin_lt] at hfree
    exact absurd (hclear.symm.trans hfree) (by decide)

-- What is written into the ring at one index, by the ghost and the real half.
theorem pieceAt_update (owner : Nat → Nat) (port : TxPort) (i id : Nat) (desc : DmaFrame) :
    pieceAt (Function.update owner i id)
        { port with txDescriptors := Function.update port.txDescriptors i desc } =
      Function.update (pieceAt owner port) i ⟨id, desc⟩ := by
  funext k
  by_cases hk : k = i
  · rw [hk, Function.update_self, pieceAt, Function.update_self]
    exact congrArg _ (Function.update_self _ _ _)
  · rw [Function.update_of_ne hk, pieceAt, Function.update_of_ne hk]
    exact congrArg _ (Function.update_of_ne hk _ _)

theorem TxQueue.push {desc : DmaFrame} (h : TxQueue items owner port)
    (hlt : items.length < port.txNum) (hcstop : desc.control &&& descCstopBit = 0) (id : Nat) :
    TxQueue (items ++ [⟨id, desc⟩]) (Function.update owner port.userTxDesc id)
      (port.setUserDesc desc).nextUser := by
  have hholds := h.holds.push SentPiece hlt (⟨rfl, hcstop⟩ : WaitingPiece ⟨id, desc⟩ ⟨id, desc⟩)
    fun _ hsent ↦ hsent
  rw [← h.user, ← pieceAt_update] at hholds
  refine ⟨hholds, ?_⟩
  show Cyclic.next port.txNum port.userTxDesc = _
  rw [h.user, Cyclic.next_add_mod h.num_pos, List.length_append, List.length_singleton]
  rfl

theorem TxQueue.pop (h : TxQueue items owner port) (hpending : ¬ port.Free port.fifoTxDesc) :
    ∃ rest, items = pieceAt owner port port.fifoTxDesc :: rest ∧ TxQueue rest owner (emptiedPort port) := by
  cases items with
  | nil => exact absurd h.holds.cur_first.cstop hpending
  | cons piece rest =>
    have hsent : SentPiece ⟨owner port.fifoTxDesc,
        { port.fifoDesc with dataCount := 0, control := descCstopBit }⟩ := ⟨rfl, rfl⟩
    have hholds := h.holds.pop hsent fun _ ↦ hsent
    rw [← pieceAt_update, Function.update_eq_self] at hholds
    refine ⟨rest, by rw [h.holds.head.item], hholds, ?_⟩
    show port.userTxDesc = (Cyclic.next port.txNum port.fifoTxDesc + rest.length) % port.txNum
    rw [h.user, List.length_cons, Cyclic.add_mod_next h.holds.origin_lt]

/-! ## `fscc_user_write_frame` joins at the end -/

section Write

variable {buf : List Byte} {dataLength : Nat} {st : WriteFrameLoop}

/-- The pieces a call has made of one request, as it leaves them. -/
def filledPieces (id : Nat) (port : TxPort) (descs : List Nat) : List Piece :=
  descs.map (pieceAt (fun _ ↦ id) port)

def newOwner (owner : Nat → Nat) (id : Nat) (descs : List Nat) : Nat → Nat :=
  fun i ↦ if i ∈ descs then id else owner i

theorem newOwner_nil (owner : Nat → Nat) (id : Nat) : newOwner owner id [] = owner := by
  funext i
  exact if_neg List.not_mem_nil

theorem newOwner_cons (owner : Nat → Nat) (id i : Nat) (descs : List Nat) :
    newOwner owner id (i :: descs) = newOwner (Function.update owner i id) id descs := by
  funext k
  rw [newOwner, newOwner]
  by_cases hk : k ∈ descs
  · rw [if_pos hk, if_pos (List.mem_cons_of_mem i hk)]
  · by_cases hki : k = i
    · rw [hki, if_pos List.mem_cons_self, Function.update_self, ite_self]
    · rw [if_neg hk, if_neg fun hmem ↦ (List.mem_cons.mp hmem).elim hki hk,
        Function.update_of_ne hki]

variable (buf) in
-- Induction over the rounds: each one puts a piece at the end, and the later ones leave it as it is.
theorem writeFrameLoop_queue (n id : Nat) (h : TxQueue items owner st.port) (hplain : TxPlain st.port)
    (hn : n ≤ st.port.txNum) (hlength : dataLength < 1073741824) (hout : st.outLength ≤ dataLength) :
    TxQueue (items ++ filledPieces id (writeFrameLoop buf dataLength n st).port
        (filledDescs buf dataLength n st))
      (newOwner owner id (filledDescs buf dataLength n st)) (writeFrameLoop buf dataLength n st).port := by
  induction n generalizing st items owner with
  | zero =>
    rw [filledDescs, newOwner_nil, writeFrameLoop]
    simpa [filledPieces] using h
  | succ n ih =>
    rw [filledDescs, writeFrameLoop]
    rcases writeFrameStep_cases buf dataLength st with ⟨hbusy, hstep⟩ | ⟨hfree, st', hone, hstep⟩
    · rw [if_pos hbusy, hstep, newOwner_nil]
      simpa [filledPieces] using h
    have hlen : segmentLength dataLength st ≤ dataLength - st.outLength := by
      rw [segmentLength, u32_sub_of_le (by omega) hout]
      exact Nat.min_le_left _ _
    have hnext : st'.outLength ≤ dataLength := by
      rw [hone.outLength, u32_add_of_lt (by omega)]
      omega
    have hfills := hone.fills hplain hfree
    have hqueue : TxQueue (items ++ [⟨id, segmentDesc buf dataLength st⟩])
        (Function.update owner st.port.userTxDesc id) st'.port := by
      rw [hone.port]
      exact h.push (h.has_free hfree) (segmentControl_cstop hlength (by omega)) id
    rw [if_neg (not_not.mpr hfree), hstep]
    by_cases hlast : st'.outLength = dataLength
    · rw [decide_eq_false (not_not.mpr hlast)]
      show TxQueue (items ++ filledPieces id st'.port [st.port.userTxDesc])
        (newOwner owner id [st.port.userTxDesc]) st'.port
      rw [newOwner_cons, newOwner_nil, filledPieces, List.map_singleton, pieceAt, hone.filled]
      exact hqueue
    · rw [decide_eq_true hlast]
      have hrest := ih hqueue hfills.plain (by rw [hfills.txNum]; omega) hnext
      have hkept := hone.kept hplain hfree hn
      rw [List.append_assoc, List.singleton_append] at hrest
      show TxQueue (items ++ filledPieces id (writeFrameLoop buf dataLength n st').port
        (st.port.userTxDesc :: filledDescs buf dataLength n st')) (newOwner owner id
          (st.port.userTxDesc :: filledDescs buf dataLength n st')) (writeFrameLoop buf dataLength n st').port
      rw [newOwner_cons, filledPieces, List.map_cons, pieceAt, hkept]
      exact hrest

/-- The pieces hold what follows in the request, and each says how much; the first of a call says how
long the request is. -/
structure PiecesOf (data : List Byte) (first start stop : Nat) (pieces : List Piece) : Prop where
  start_le : start ≤ stop
  stop_le : stop ≤ data.length
  bytes : pieces.flatMap Piece.bytes = (data.drop start).take (stop - start)
  fits : ∀ piece ∈ pieces, piece.desc.dataCount ≤ piece.desc.buffer.length
  control : ∀ (k : Nat) piece, pieces[k]? = some piece →
    piece.desc.control = segmentControl (first + k) data.length piece.desc.dataCount

theorem PiecesOf.none {data : List Byte} {first start : Nat} (h : start ≤ data.length) :
    PiecesOf data first start start [] := by
  refine ⟨Nat.le_refl _, h, ?_, fun _ hpiece ↦ absurd hpiece List.not_mem_nil,
    fun _ _ hpiece ↦ by cases hpiece⟩
  rw [Nat.sub_self, List.take_zero]
  rfl

theorem PiecesOf.cons {data : List Byte} {first start mid stop : Nat} {piece : Piece} {pieces : List Piece}
    (hle : start ≤ mid) (hbytes : piece.bytes = (data.drop start).take (mid - start))
    (hfits : piece.desc.dataCount ≤ piece.desc.buffer.length)
    (hcontrol : piece.desc.control = segmentControl first data.length piece.desc.dataCount)
    (hrest : PiecesOf data (first + 1) mid stop pieces) :
    PiecesOf data first start stop (piece :: pieces) := by
  have hmid := hrest.start_le
  refine ⟨Nat.le_trans hle hmid, hrest.stop_le, ?_, List.forall_mem_cons.mpr ⟨hfits, hrest.fits⟩,
    fun k later hlater ↦ ?_⟩
  · have hdrop : data.drop mid = (data.drop start).drop (mid - start) := by
      rw [List.drop_drop, Nat.add_sub_cancel' hle]
    rw [List.flatMap_cons, hbytes, hrest.bytes, hdrop, ← List.take_add]
    congr 1
    omega
  · cases k with
    | zero =>
      rw [← Option.some.inj hlater]
      exact hcontrol
    | succ k =>
      rw [hrest.control k later hlater, Nat.add_right_comm, Nat.add_assoc]

theorem segmentDesc_fits (hplain : TxPlain st.port) :
    (segmentDesc buf dataLength st).dataCount ≤ (segmentDesc buf dataLength st).buffer.length := by
  have hle : segmentLength dataLength st ≤ st.port.userDesc.buffer.length :=
    Nat.le_trans (Nat.min_le_right _ _) (Nat.le_of_eq (hplain.buffer _ hplain.user_lt).symm)
  refine Nat.le_trans hle (Nat.le_of_eq (Bytes.write_length ?_).symm)
  rwa [Bytes.read_length, Nat.zero_add]

variable (buf) in
-- Induction over the rounds.
theorem writeFrameLoop_piecesOf (n id : Nat) (hplain : TxPlain st.port) (hn : n ≤ st.port.txNum)
    (hlength : buf.length < 1073741824) (hout : st.outLength ≤ buf.length) :
    PiecesOf buf st.i st.outLength (writeFrameLoop buf buf.length n st).outLength
      (filledPieces id (writeFrameLoop buf buf.length n st).port (filledDescs buf buf.length n st)) := by
  induction n generalizing st with
  | zero => exact .none hout
  | succ n ih =>
    rw [filledDescs, writeFrameLoop]
    rcases writeFrameStep_cases buf buf.length st with ⟨hbusy, hstep⟩ | ⟨hfree, st', hone, hstep⟩
    · rw [if_pos hbusy, hstep]
      exact .none hout
    have hlen : segmentLength buf.length st ≤ buf.length - st.outLength := by
      rw [segmentLength, u32_sub_of_le (by omega) hout]
      exact Nat.min_le_left _ _
    have hnext : st'.outLength = st.outLength + segmentLength buf.length st := by
      rw [hone.outLength, u32_add_of_lt (by omega)]
    have hbytes := segmentDesc_bytes (by omega : st.outLength + _ ≤ buf.length)
    have hcount : segmentLength buf.length st = st'.outLength - st.outLength := by omega
    rw [hcount] at hbytes
    have hfills := hone.fills hplain hfree
    -- The piece of this round, in front of those of the later ones.
    have hcons : ∀ {stop pieces}, PiecesOf buf (st.i + 1) st'.outLength stop pieces →
        PiecesOf buf st.i st.outLength stop (⟨id, segmentDesc buf buf.length st⟩ :: pieces) :=
      PiecesOf.cons (by omega) hbytes (segmentDesc_fits hplain) rfl
    rw [if_neg (not_not.mpr hfree), hstep]
    by_cases hlast : st'.outLength = buf.length
    · rw [decide_eq_false (not_not.mpr hlast)]
      show PiecesOf buf st.i st.outLength st'.outLength [⟨id, st'.port.txDescriptors st.port.userTxDesc⟩]
      rw [hone.filled]
      exact hcons (.none (Nat.le_of_eq hlast))
    · rw [decide_eq_true hlast]
      have hrest := ih hfills.plain (by rw [hfills.txNum]; omega) (by omega)
      rw [hone.i] at hrest
      show PiecesOf buf st.i st.outLength (writeFrameLoop buf buf.length n st').outLength
        (⟨id, (writeFrameLoop buf buf.length n st').port.txDescriptors st.port.userTxDesc⟩ ::
          filledPieces id (writeFrameLoop buf buf.length n st').port (filledDescs buf buf.length n st'))
      rw [hone.kept hplain hfree hn]
      exact hcons hrest

variable {s : WriteState H} {write : Write}

def Fill.pieces (fill : Fill) : List Piece := filledPieces fill.write.id fill.after fill.descs

theorem fillRecord_pieces : (s.fillRecord hw write).pieces = filledPieces write.id
    (writeFrameLoop write.data write.length32 s.port.txNum ⟨s.port, 0, 0, 0, .success⟩).port
      (s.fillRecord hw write).descs := by
  obtain ⟨-, hdescs, -⟩ := fsccUserWriteFrame_loop hw write.data write.length32 s.port s.card
  refine List.map_congr_left fun i _ ↦ ?_
  rw [pieceAt, pieceAt]
  exact congrArg _ (congrFun hdescs i)

variable (hw) in
theorem fillRecord_piecesOf (hplain : TxPlain s.port) (hlength : write.length < 1073741824) :
    PiecesOf write.data 0 0 (s.fillRecord hw write).result.outLength (s.fillRecord hw write).pieces := by
  obtain ⟨hresult, -⟩ := fsccUserWriteFrame_loop hw write.data write.length32 s.port s.card
  let st : WriteFrameLoop := ⟨s.port, 0, 0, 0, .success⟩
  have hst : TxPlain st.port := hplain
  have hlength32 : write.length32 = write.data.length := u32_of_nat (by omega)
  have hloop := writeFrameLoop_piecesOf write.data s.port.txNum write.id hst (Nat.le_refl _) hlength
    (Nat.zero_le _)
  rw [← hlength32] at hloop
  rw [fillRecord_pieces]
  show PiecesOf write.data 0 0 (fsccUserWriteFrame hw write.data write.length32 s.port s.card).1.outLength _
  rw [hresult]
  exact hloop

variable (hw) in
theorem TxQueue.fill (h : TxQueue items s.owner s.port) (hplain : TxPlain s.port)
    (hlength : write.length < 1073741824) :
    TxQueue (items ++ (s.fillRecord hw write).pieces) (s.fill hw write).2.owner (s.fill hw write).2.port := by
  obtain ⟨-, hdescs, hnum, huser, hfifo⟩ :=
    fsccUserWriteFrame_loop hw write.data write.length32 s.port s.card
  have hshort : write.length32 < 1073741824 := by
    rwa [Write.length32, u32_of_nat (by omega)]
  let st : WriteFrameLoop := ⟨s.port, 0, 0, 0, .success⟩
  have hst : TxQueue items s.owner st.port := h
  have hloop := writeFrameLoop_queue write.data s.port.txNum write.id hst hplain (Nat.le_refl _) hshort
    (Nat.zero_le _)
  rw [fillRecord_pieces]
  exact hloop.same hdescs hnum huser hfifo

end Write

/-! ## `fscc_fifo_write_data` takes from the front -/

section Push

variable {st : WriteDataLoop} {tfcnt : Nat}

-- What is pushed later is still pending now, so the first push has not changed it.
theorem Pushes.later_pieces {port port₁ port₂ : TxPort} {descs more : List Nat}
    (h : Pushes port descs port₁) (hmore : Pushes port₁ more port₂) (owner : Nat → Nat) :
    more.map (pieceAt owner port₁) = more.map (pieceAt owner port) := by
  refine List.map_congr_left fun i hi ↦ ?_
  have hwaits := hmore.pending i hi
  rw [pieceAt, pieceAt, h.other i fun hmem ↦ hwaits (h.freed i hmem)]

variable (hw tfcnt) in
theorem writeDataLoop_queue (n : Nat) (h : TxQueue items owner st.port) (hplain : TxPlain st.port)
    (card : H) : ∃ rest,
      items = (pushedDescs hw tfcnt n st card).map (pieceAt owner st.port) ++ rest ∧
        TxQueue rest owner (writeDataLoop hw tfcnt n st card).1.port := by
  induction n generalizing st items card with
  | zero => exact ⟨items, rfl, h⟩
  | succ n ih =>
    rw [pushedDescs, writeDataLoop]
    rcases writeDataStep_cases hw st tfcnt card with hstop | ⟨hpending, st', card', hstep, hport⟩
    · rw [hstop]
      exact ⟨items, rfl, h⟩
    obtain ⟨rest, hitems, hrest⟩ := h.pop hpending
    have hone := emptiedPort_pushes hplain hpending
    rw [← hport] at hrest hone
    obtain ⟨last, hmore, hlast⟩ := ih hrest hone.plain card'
    have hlater := hone.later_pieces (writeDataLoop_pushes hw tfcnt n hone.plain card') owner
    refine ⟨last, ?_, by rw [hstep]; exact hlast⟩
    rw [hstep, hitems, hmore, hlater]
    rfl

variable {s : WriteState H}

/-- The pieces the section under the lock pushes, as they are before it. -/
def WriteState.pushedPieces (hw : Hardware H) (s : WriteState H) (tfcnt txcnt : Nat) : List Piece :=
  (pushedDescs hw tfcnt s.port.txNum ⟨s.port, fifoSpace txcnt, 0, 0⟩ s.card).map
    (pieceAt s.owner s.port)

variable (hw) in
theorem TxQueue.drain (h : TxQueue items s.owner s.port) (hplain : TxPlain s.port) (tfcnt txcnt : Nat) :
    ∃ rest, items = s.pushedPieces hw tfcnt txcnt ++ rest ∧
      TxQueue rest s.owner (s.drain hw tfcnt txcnt).port := by
  obtain ⟨hdescs, hnum, huser, hfifo⟩ := writeDataLocked_loop hw tfcnt txcnt s.port s.card
  let st : WriteDataLoop := ⟨s.port, fifoSpace txcnt, 0, 0⟩
  have hst : TxQueue items s.owner st.port := h
  obtain ⟨rest, hitems, hrest⟩ := writeDataLoop_queue hw tfcnt s.port.txNum hst hplain s.card
  exact ⟨rest, hitems, hrest.same hdescs hnum huser hfifo⟩

end Push

/-! ## Runs -/

/-- What an action does to the queue. -/
def queueEvents (hw : Hardware H) (s : WriteState H) : WriteAction H → List (Fifo.Event Piece)
  | .evtIoWrite =>
      match s.writer with
      | some (.checked write) => [.join (s.fillRecord hw write).pieces]
      | _ => []
  | .requestWorker i =>
      match s.workers[i]? with
      | some (.retrieved write) => [.join (s.fillRecord hw write).pieces]
      | _ => []
  | .fifoWriteData tfcnt txcnt => [.leave (s.pushedPieces hw tfcnt txcnt)]
  | .purgeReset _ => if s.purge.isNone then [.drop] else []
  | _ => []

section Run

variable {num size : Nat} {s s' : WriteState H} {write : Write}

/-- All that a step can do to the ring. -/
inductive RingStep (hw : Hardware H) (s s' : WriteState H) : List (Fifo.Event Piece) → Prop
  | same (hport : s'.port = s.port) (howner : s'.owner = s.owner) (hfills : s'.fills = s.fills)
      (hpushed : s'.pushed = s.pushed) : RingStep hw s s' []
  | fill (write : Write) (hpc : s.writer = some (.checked write) ∨ .retrieved write ∈ s.workers)
      (hport : s'.port = (s.fill hw write).2.port) (howner : s'.owner = (s.fill hw write).2.owner)
      (hfills : s'.fills = s.fills ++ [s.fillRecord hw write]) (hpushed : s'.pushed = s.pushed) :
      RingStep hw s s' [.join (s.fillRecord hw write).pieces]
  | push (tfcnt txcnt : Nat) (hstep : s' = s.drain hw tfcnt txcnt) :
      RingStep hw s s' [.leave (s.pushedPieces hw tfcnt txcnt)]
  | purge (hport : s'.port = resetTx s.port) (hfills : s'.fills = s.fills)
      (hpushed : s'.pushed = s.pushed) : RingStep hw s s' [.drop]

variable (hw s) in
theorem evtIoWriteStep_ringStep {pc : WriterPc} (hpc : s.writer = some pc) :
    RingStep hw s (s.evtIoWriteStep hw pc) (queueEvents hw s .evtIoWrite) := by
  rw [queueEvents, hpc]
  cases pc with
  | entered write =>
    rcases s.evtIoWriteStep_entered hw write with ⟨status, hstep⟩ | ⟨-, hstep⟩ | hstep
    all_goals
      rw [hstep]
      exact .same rfl rfl rfl rfl
  | direct write =>
    obtain ⟨card, ⟨status, admitted, hstep⟩ | hstep⟩ := s.evtIoWriteStep_direct hw write
    all_goals
      rw [hstep]
      exact .same rfl rfl rfl rfl
  | checked write => exact .fill write (Or.inl hpc) rfl rfl rfl rfl
  | filled write result =>
    rw [WriteState.evtIoWriteStep]
    dsimp only
    split
    all_goals exact .same rfl rfl rfl rfl

variable (hw s) in
theorem requestWorkerStep_ringStep {i : Nat} {pc : WorkerPc} (hpc : s.workers[i]? = some pc) :
    RingStep hw s (writeStep hw s (.requestWorker i)) (queueEvents hw s (.requestWorker i)) := by
  rw [queueEvents, writeStep, hpc]
  dsimp only
  cases pc with
  | entered =>
    rw [WriteState.requestWorkerStep]
    split
    all_goals exact .same rfl rfl rfl rfl
  | found write =>
    rw [WriteState.requestWorkerStep]
    split
    all_goals exact .same rfl rfl rfl rfl
  | checked write =>
    rw [WriteState.requestWorkerStep]
    split
    all_goals exact .same rfl rfl rfl rfl
  | retrieved write => exact .fill write (Or.inr (List.mem_of_getElem? hpc)) rfl rfl rfl rfl
  | filled write result => exact .same rfl rfl rfl rfl
  | done => exact .same rfl rfl rfl rfl

variable (hw s) in
theorem writeStep_ringStep (action : WriteAction H) :
    RingStep hw s (writeStep hw s action) (queueEvents hw s action) := by
  cases action with
  | submit data =>
    rw [writeStep]
    rcases s.submit_cases data with ⟨mark, -, hstep⟩ | ⟨-, hstep⟩
    all_goals
      rw [hstep]
      exact .same rfl rfl rfl rfl
  | present =>
    rw [writeStep]
    rcases s.present_cases with hstep | ⟨write, writes, -, -, hstep⟩
    all_goals
      rw [hstep]
      exact .same rfl rfl rfl rfl
  | evtIoWrite =>
    cases hpc : s.writer with
    | none =>
      rw [queueEvents, writeStep, hpc]
      exact .same rfl rfl rfl rfl
    | some pc =>
      rw [writeStep, hpc]
      exact evtIoWriteStep_ringStep hw s hpc
  | requestWorker i =>
    cases hpc : s.workers[i]? with
    | none =>
      rw [queueEvents, writeStep, hpc]
      exact .same rfl rfl rfl rfl
    | some pc => exact requestWorkerStep_ringStep hw s hpc
  | fifoWriteData tfcnt txcnt => exact .push tfcnt txcnt rfl
  | purgeReset card =>
    rw [writeStep, queueEvents, WriteState.purgeReset]
    cases s.purge with
    | none => exact .purge rfl rfl rfl
    | some purge => exact .same rfl rfl rfl rfl
  | purgeStop =>
    rw [writeStep]
    rcases s.purgeStop_cases with hstep | ⟨mark, -, hstep⟩
    all_goals
      rw [hstep]
      exact .same rfl rfl rfl rfl
  | purgeReturn =>
    rw [writeStep]
    rcases s.purgeReturn_cases with hstep | ⟨mark, -, -, hstep⟩
    all_goals
      rw [hstep]
      exact .same rfl rfl rfl rfl
  | allsWorker =>
    rw [writeStep]
    rcases s.allsWorker_cases with ⟨-, hstep⟩ | ⟨ids, -, ⟨-, hstep⟩ | ⟨-, hstep⟩⟩
    all_goals
      rw [hstep]
      exact .same rfl rfl rfl rfl
  | enqueueRequestDpc => exact .same rfl rfl rfl rfl
  | setBlockingWrite value => exact .same rfl rfl rfl rfl
  | setWaitOnWrite value => exact .same rfl rfl rfl rfl
  | send pieces => exact .same rfl rfl rfl rfl
  | alls => exact .same rfl rfl rfl rfl
  | setCard card => exact .same rfl rfl rfl rfl

structure QueueInvariant (num size : Nat) (s : WriteState H) : Prop
    extends AdmissionInvariant num size s where
  ring : TxQueue s.pieces s.owner s.port
  carried : ∀ fill ∈ s.fills, PiecesOf fill.write.data 0 0 fill.result.outLength fill.pieces

-- The ring after a step, and what the step did to the queue.
theorem QueueInvariant.ringStep (h : QueueInvariant num size s) (hcapacity : num * size < 1073741824)
    {events : List (Fifo.Event Piece)} (hstep : RingStep hw s s' events) :
    ∃ items, TxQueue items s'.owner s'.port ∧ Fifo.Replays events s.pieces items ∧
      ∀ fill ∈ s'.fills, PiecesOf fill.write.data 0 0 fill.result.outLength fill.pieces := by
  have hplain := h.plain (h.txNum ▸ h.ring.num_pos)
  cases hstep with
  | same hport howner hfills hpushed =>
    refine ⟨s.pieces, ?_, rfl, hfills ▸ h.carried⟩
    rw [hport, howner]
    exact h.ring
  | fill write hpc hport howner hfills hpushed =>
    have hadmits : Admits num size write := by
      rcases hpc with hwriter | hworker
      · exact h.writer _ hwriter
      · exact h.workers _ hworker
    have hlength := Nat.lt_of_le_of_lt hadmits.le hcapacity
    refine ⟨s.pieces ++ (s.fillRecord hw write).pieces, ?_, .single rfl, ?_⟩
    · rw [hport, howner]
      exact h.ring.fill hw hplain hlength
    · rw [hfills]
      exact Threads.forall_append_one h.carried (fillRecord_piecesOf hw hplain hlength)
  | push tfcnt txcnt hstep =>
    obtain ⟨rest, hitems, hrest⟩ := h.ring.drain hw hplain tfcnt txcnt
    rw [hstep]
    exact ⟨rest, hrest, .single hitems, h.carried⟩
  | purge hport hfills hpushed =>
    refine ⟨[], ?_, .single rfl, hfills ▸ h.carried⟩
    rw [hport]
    exact resetTx_queue h.ring.num_pos

variable (hw) in
theorem QueueInvariant.step (h : QueueInvariant num size s) (hcapacity : num * size < 1073741824)
    (action : WriteAction H) : QueueInvariant num size (writeStep hw s action) ∧
      Fifo.Replays (queueEvents hw s action) s.pieces (writeStep hw s action).pieces := by
  obtain ⟨items, hring, hreplays, hcarried⟩ := h.ringStep hcapacity (writeStep_ringStep hw s action)
  have hpieces := hring.pieces
  rw [← hpieces] at hring hreplays
  exact ⟨⟨h.toAdmissionInvariant.step hw action, hring, hcarried⟩, hreplays⟩

variable {events : List (Fifo.Event Piece)}

theorem RingStep.fills_log (h : RingStep hw s s' events) : s'.fills.map Fill.pieces =
    s.fills.map Fill.pieces ++ events.flatMap Fifo.Event.batch := by
  cases h with
  | same hport howner hfills hpushed => rw [hfills, List.flatMap_nil, List.append_nil]
  | fill write hpc hport howner hfills hpushed =>
    rw [hfills, List.map_append, List.flatMap_singleton]
    rfl
  | push tfcnt txcnt hstep =>
    rw [hstep, List.flatMap_singleton]
    exact (List.append_nil _).symm
  | purge hport hfills hpushed =>
    rw [hfills, List.flatMap_singleton]
    exact (List.append_nil _).symm

theorem RingStep.pushed_log (h : RingStep hw s s' events) : s'.pushed.map Prod.fst =
    s.pushed.map Prod.fst ++ events.flatMap fun event ↦ event.left.map Piece.id := by
  cases h with
  | same hport howner hfills hpushed => rw [hpushed, List.flatMap_nil, List.append_nil]
  | fill write hpc hport howner hfills hpushed =>
    rw [hpushed, List.flatMap_singleton]
    exact (List.append_nil _).symm
  | push tfcnt txcnt hstep =>
    rw [hstep, List.flatMap_singleton, WriteState.drain]
    dsimp only
    rw [List.map_append, List.map_map, Fifo.Event.left, WriteState.pushedPieces, List.map_map]
    rfl
  | purge hport hfills hpushed =>
    rw [hpushed, List.flatMap_singleton]
    exact (List.append_nil _).symm

end Run

/-- What a run does to the queue. -/
def queueTrace (hw : Hardware H) (port : TxPort) (size : Nat) (card : H) (actions : List (WriteAction H)) :
    List (Fifo.Event Piece) :=
  Fifo.trace (queueEvents hw) (writeStep hw) (writeStart port size card) actions

section Created

variable {size : Nat} {actions : List (WriteAction H)}

theorem writeStart_queue (h : SameSize port size) (hslots : 0 < port.txNum) (card : H) :
    QueueInvariant port.txNum size (writeStart port size card) ∧
      (writeStart port size card).pieces = [] := by
  have hring : TxQueue [] (writeStart port size card).owner (writeStart port size card).port :=
    resetTx_queue hslots
  refine ⟨⟨writeStart_admission h card, ?_, fun _ hmem ↦ absurd hmem List.not_mem_nil⟩, hring.pieces⟩
  rwa [hring.pieces]

variable (hw) in
theorem queueTrace_replays (h : SameSize port size) (hslots : 0 < port.txNum)
    (hcapacity : port.txNum * size < 1073741824) (card : H) (actions : List (WriteAction H)) :
    let s := actions.foldl (writeStep hw) (writeStart port size card)
    QueueInvariant port.txNum size s ∧ Fifo.Replays (queueTrace hw port size card actions) [] s.pieces := by
  obtain ⟨hstart, hempty⟩ := writeStart_queue h hslots card
  have hrun := Fifo.replays_trace (fun s action hs ↦ hs.step hw hcapacity action) hstart actions
  rwa [hempty] at hrun

theorem queueTrace_batches (hw : Hardware H) (port : TxPort) (size : Nat) (card : H)
    (actions : List (WriteAction H)) :
    (actions.foldl (writeStep hw) (writeStart port size card)).fills.map Fill.pieces =
      Fifo.batches (queueTrace hw port size card actions) :=
  Fifo.log_trace (fun s ↦ s.fills.map Fill.pieces)
    (fun s action ↦ (writeStep_ringStep hw s action).fills_log)
    (writeStart port size card) actions

/-- The calls since the last purge, and what they put into the ring. -/
theorem queueTrace_fills (hw : Hardware H) (port : TxPort) (size : Nat) (card : H)
    (actions : List (WriteAction H)) :
    ∃ fills, fills <:+ (actions.foldl (writeStep hw) (writeStart port size card)).fills ∧
      Fifo.batches (Fifo.sinceDrop (queueTrace hw port size card actions)) = fills.map Fill.pieces := by
  obtain ⟨earlier, hsuffix⟩ := Fifo.sinceDrop_suffix (queueTrace hw port size card actions)
  have hall := queueTrace_batches hw port size card actions
  rw [← hsuffix, Fifo.batches, List.flatMap_append] at hall
  obtain ⟨before, fills, hfills, -, hbatches⟩ := List.map_eq_append_iff.mp hall
  exact ⟨fills, ⟨before, hfills.symm⟩, hbatches.symm⟩

end Created

/-- Over any run the transmit ring is a queue: what was pushed is what was filled, in that order, less
what a purge dropped; since the last purge nothing is missing. -/
theorem fscc_transmit_ring_is_fifo (hw : Hardware H) (card : H) {size : Nat} (hslots : 0 < port.txNum)
    (hsize : SameSize port size) (hcapacity : port.txNum * size < 2 ^ 30) (actions : List (WriteAction H)) :
    let s := actions.foldl (writeStep hw) (writeStart port size card)
    let events := queueTrace hw port size card actions
    Fifo.joined events = s.fills.flatMap Fill.pieces ∧
      (Fifo.left events).map Piece.id = s.pushed.map Prod.fst ∧
      (Fifo.left events ++ s.pieces).Sublist (s.fills.flatMap Fill.pieces) ∧
      Fifo.joined (Fifo.sinceDrop events) = Fifo.left (Fifo.sinceDrop events) ++ s.pieces := by
  intro s events
  have hreplays : Fifo.Replays events [] s.pieces :=
    (queueTrace_replays hw hsize hslots hcapacity card actions).2
  have hjoined : Fifo.joined events = s.fills.flatMap Fill.pieces := by
    rw [Fifo.joined_eq_flatten, ← queueTrace_batches, List.flatMap_def]
  have hpushed : s.pushed.map Prod.fst = [] ++ events.flatMap fun event ↦ event.left.map Piece.id :=
    Fifo.log_trace (fun s ↦ s.pushed.map Prod.fst)
      (fun s action ↦ (writeStep_ringStep hw s action).pushed_log)
      (writeStart port size card) actions
  refine ⟨hjoined, ?_, ?_, hreplays.since⟩
  · rw [hpushed, List.nil_append, Fifo.left, List.map_flatMap]
  · rw [← hjoined]
    exact hreplays.sublist

theorem twoBufferPort_sameSize : SameSize twoBufferPort 4 := ⟨fun _ _ ↦ rfl, fun _ _ ↦ rfl⟩

/-- One request in two pieces, of which the first is pushed, then a purge and another request. -/
def purgedRun : List (WriteAction Nat) :=
  [.submit [1, 2, 3, 4, 5], .present, .evtIoWrite, .evtIoWrite, .evtIoWrite, .evtIoWrite,
    .fifoWriteData 0 4084, .purgeReset 0, .purgeStop, .purgeReturn,
    .submit [6, 7, 8], .present, .evtIoWrite, .evtIoWrite, .evtIoWrite]

theorem fscc_transmit_ring_is_fifo_purged :
    let s := purgedRun.foldl (writeStep wrapHardware) (writeStart twoBufferPort 4 0)
    let events := queueTrace wrapHardware twoBufferPort 4 0 purgedRun
    Fifo.joined events = s.fills.flatMap Fill.pieces ∧
      (Fifo.left events).map Piece.id = s.pushed.map Prod.fst ∧
      (Fifo.left events ++ s.pieces).Sublist (s.fills.flatMap Fill.pieces) ∧
      Fifo.joined (Fifo.sinceDrop events) = Fifo.left (Fifo.sinceDrop events) ++ s.pieces :=
  fscc_transmit_ring_is_fifo wrapHardware 0 (by decide) twoBufferPort_sameSize (by decide) purgedRun

end FsccDriver

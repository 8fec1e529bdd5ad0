import FsccDriver.FrameSplit
import FsccDriver.LongFill

/-!
# SplitRead — what a read sees of a frame that was split into drains

`ReadsWhole` is what a user expects of the read behind the drains.  It holds for every split but one:
the drains take a whole frame that ends on the edge of a descriptor before its length is known.
-/

namespace FsccDriver

open Words

/-- A read with a large enough buffer returns the frame as the settings ask for it and leaves the
ring just behind the frame's `descs` descriptors, with nothing to read. -/
def ReadsWhole {H : Type} (hw : Hardware H) (data : List Byte) (start descs : Nat) (port : RxPort)
    (h : H) : Prop :=
  ∀ (appendStatus appendTimestamp rxMultiple : Bool) (bufLength : BitVec 32),
    let asked := port.setOptions appendStatus appendTimestamp rxMultiple
    (deliver asked ⟨data, 0⟩).length ≤ bufLength.toNat →
      let (result, port', _) := fsccUserReadFrame hw bufLength.toNat asked h
      result.status = .success ∧ (∃ stamp, result.out = deliver asked ⟨data, stamp⟩) ∧
        result.outLength = result.out.length ∧
        port'.userRxDesc = (start + descs) % port.rxNum ∧
        fsccUserNextReadSize port' = (false, 0)

section Split

variable {ds rxNum p : Nat} {frame : WireFrame} {chunks : List Nat} {clock : Nat → BitVec 64}
  {port : RxPort} {fifo : RxFifo}

-- The ring holds one frame and nothing else.
theorem Filling.single {framed : StampedFrame} (h : Filling ds [framed] [] port) :
    ∃ mids last, FrameCells ds framed mids last ∧ RxRing ds (mids ++ [last]) [] port ∧
      last.bytes.length ≤ ds := by
  obtain ⟨mids, held, ⟨cells, hready, hmids, hring⟩, hdata, -⟩ := h
  obtain ⟨hempty, rfl⟩ := List.append_eq_nil_iff.mp hdata
  have hnone : mids = [] := by
    have hlen := hmids.bytes_length
    rw [hempty, List.length_nil] at hlen
    rcases Nat.mul_eq_zero.mp hlen.symm with hzero | hzero
    · exact absurd hzero (Nat.ne_of_gt hring.size_pos)
    · exact List.length_eq_zero_iff.mp hzero
  cases hready with
  | cons hframe hrest =>
    cases hrest
    subst hnone
    rw [List.append_nil] at hring
    refine ⟨_, _, hframe, hring, ?_⟩
    have hlast := hring.holds.busy _ (by rw [List.length_append]; exact Nat.lt_succ_self _)
    rw [List.getElem_concat_length rfl] at hlast
    exact hlast.length_le

theorem Complete.readsWhole (h : Complete ds rxNum frame chunks port fifo)
    (hw : Hardware RxFifo) :
    ReadsWhole hw frame.data port.userRxDesc (descCount ds frame.data.length) port fifo := by
  intro a b c bufLength asked hbuf
  obtain ⟨stamp, hfill⟩ := h.filling
  have hasked : Filling ds [⟨frame.data, stamp⟩] [] asked := hfill.setOptions a b c
  obtain ⟨mids, last, hframe, hring, hlast⟩ := hasked.single
  have hholds : HoldsFrames ds [⟨frame.data, stamp⟩] [] [] asked :=
    ⟨_, ReadyCells.cons hframe ReadyCells.nil, Mids.nil, by rw [List.append_nil]; exact hring⟩
  have hsize : fsccUserNextReadSize asked = (true, frame.data.length) := by
    rw [fsccUserNextReadSize_ring hring, readSize_frame hframe]
  obtain ⟨result, port', hrun, hkeeps, ⟨hrefused, -⟩ | ⟨hstatus, hlen, hfits, batch, rest, hsplit,
    hne, -, hout, cells', hready', -, hring'⟩⟩ := fsccUserReadFrame_spec hw fifo hholds bufLength.isLt
  · rcases hrefused with hnot | hshort
    · rw [hsize] at hnot
      exact absurd hnot (by simp)
    · rw [hsize, bufferRequirement_valid _ hframe.two_le hframe.length_lt] at hshort
      rw [deliver_length] at hbuf
      exact absurd hbuf (Nat.not_le_of_lt hshort)
  · -- The batch is the frame, so nothing is left.
    obtain ⟨first, more, rfl⟩ := List.exists_cons_of_ne_nil hne
    rw [List.cons_append] at hsplit
    obtain ⟨rfl, hnil⟩ := List.cons_eq_cons.mp hsplit
    obtain ⟨rfl, rfl⟩ := List.append_eq_nil_iff.mp hnil.symm
    cases hready'
    rw [hrun]
    refine ⟨hstatus, ⟨stamp, by simpa using hout⟩, hlen, ?_, ?_⟩
    · have hbefore : port.fifoRxDesc =
          (port.userRxDesc + (mids ++ [last]).length) % port.rxNum := hring.fifo
      have hafter : port'.fifoRxDesc = (port'.userRxDesc + 0) % port'.rxNum := hring'.fifo
      have hsame : port'.fifoRxDesc = port.fifoRxDesc := hkeeps.fifoRxDesc
      rw [Nat.add_zero, Nat.mod_eq_of_lt hring'.holds.origin_lt] at hafter
      rw [← hafter, hsame, hbefore, List.length_append, List.length_singleton, hframe.count hlast]
    · rw [fsccUserNextReadSize_ring hring']
      rfl

/-! ## The frame that ends on the edge of a descriptor -/

/-- The whole frame went into full descriptors; the one that ends it is empty. -/
structure Ghost (ds rxNum : Nat) (frame : WireFrame) (chunks : List Nat) (port : RxPort)
    (fifo : RxFifo) : Prop where
  ring : ∃ mids cell, Mids ds mids ∧ ds * mids.length = frame.data.length ∧
    cell.total = some frame.data.length ∧ RxRing ds (mids ++ [cell]) [] port
  rxNum : port.rxNum = rxNum
  rxFrameSize : port.rxFrameSize = 0
  lengths : fifo.lengths = []
  past : chunks.length ≤ fifo.looks

theorem Ghost.fifoReadStep (h : Ghost ds rxNum frame chunks port fifo) (hds : BufferSize ds) :
    Ghost ds rxNum frame chunks (fifoReadStep (splitFifo chunks clock) port fifo).2.1
      (fifoReadStep (splitFifo chunks clock) port fifo).2.2 := by
  obtain ⟨mids, cell, hmids, hbytes, htotal, hring⟩ := h.ring
  by_cases hopen : port.fifoDesc.control &&& descCstopBit = descCstopBit
  · rw [fifoReadStep_full hopen]
    exact h
  · have hpos : 0 < ds := hds.pos
    have hlen := receiveLength_quiet clock h.rxFrameSize h.lengths h.past
    have hrep : fsccPortGetRegisterRep (splitFifo chunks clock) port.channel 0 fifoOffset 0
        { fifo with looks := fifo.looks + 1 } = ([], { fifo with looks := fifo.looks + 1 }) := rfl
    have hready : FillReady ds (mids ++ [cell]) [] port 0 :=
      ⟨hring, hring.room hopen, Nat.zero_le _, by decide⟩
    obtain ⟨port', hrun, hring', hsize, -, hkeeps⟩ := fifoFill_open hready hrep rfl
      (by rw [List.length_nil]; omega) (by rw [h.rxFrameSize]; simp)
    rw [hring.fifoReadStep hds.lt hopen port.rxFrameSize hlen, Nat.zero_min, hrun]
    exact ⟨⟨mids, cell, hmids, hbytes, htotal, hring'⟩, hkeeps.rxNum.trans h.rxNum,
      hsize.trans h.rxFrameSize, h.lengths, Nat.le_succ_of_le h.past⟩

-- All of the frame is out, and only then is its length announced.
theorem Unannounced.ghost (clock : Nat → BitVec 64) (hds : BufferSize ds)
    (h : Unannounced ds rxNum frame.data.length frame chunks port fifo)
    (hopen : ¬ port.fifoDesc.control &&& descCstopBit = descCstopBit)
    (hshort : frame.data.length < 536870912) (hedge : ds ∣ frame.data.length)
    (hpast : chunks.length ≤ fifo.looks) :
    Ghost ds rxNum frame chunks (FsccDriver.fifoReadStep (splitFifo chunks clock) port fifo).2.1
      (FsccDriver.fifoReadStep (splitFifo chunks clock) port fifo).2.2 := by
  have htwo := frame.two_le
  obtain ⟨mids, held, cells, hready, hmids, hring, hroom, hdata⟩ := h.filling.opened hopen
  cases hready
  rw [List.nil_append] at hring hroom
  have hheld : held = [] := by
    have hmod := held_length hmids hring.held_lt hdata
    rw [List.take_length, Nat.mod_eq_zero_of_dvd hedge] at hmod
    exact List.length_eq_zero_iff.mp hmod.symm
  subst hheld
  have hbytes : port.rxBytesInFrame = frame.data.length := by
    obtain ⟨-, -, -, -, hbytes⟩ := h.filling
    rw [hbytes, List.take_length]
  have hlen := receiveLength_announced clock h.rxFrameSize h.lengths hpast (by omega) (by omega)
  have hnothing : frameRest { port with rxFrameSize := (frame.data.length : Int) } = 0 := by
    rw [frameRest, hbytes]
    exact if_neg (lt_irrefl _)
  have hfill : FillReady ds mids [] { port with rxFrameSize := (frame.data.length : Int) } 0 :=
    ⟨hring.setFrame _ _, hroom, Nat.zero_le _, by decide⟩
  have hrep : fsccPortGetRegisterRep (splitFifo chunks clock) port.channel 0 fifoOffset 0
      { fifo with looks := fifo.looks + 1, lengths := [] } =
        ([], { fifo with looks := fifo.looks + 1, lengths := [] }) := rfl
  have hdone : ((frame.data.length : Nat) : Int) > 0 ∧
      ({ port with rxFrameSize := (frame.data.length : Int) } : RxPort).bytesAfter 0 ≥
        (frame.data.length : Nat) := by
    have hafter : ({ port with rxFrameSize := (frame.data.length : Int) } : RxPort).bytesAfter 0 =
        (frame.data.length + 0 : Nat) := RxPort.bytesAfter_of_lt hbytes (by omega)
    rw [hafter]
    omega
  obtain ⟨port', hrun, hring', hsize, -, hkeeps⟩ := fifoFill_frame hfill hrep rfl hshort rfl hdone
  rw [hring.fifoReadStep hds.lt hopen _ hlen, hnothing, Nat.zero_min, hrun]
  refine ⟨⟨mids, _, hmids, ?_, rfl, hring'⟩, hkeeps.rxNum.trans h.rxNum, hsize, rfl,
    Nat.le_succ_of_le hpast⟩
  rw [← hmids.bytes_length, ← List.append_nil (cellBytes mids), hdata, List.take_length]

-- The states of a run that drains the whole frame up to the edge of a descriptor.
def OnEdge (ds rxNum : Nat) (frame : WireFrame) (chunks : List Nat) (port : RxPort)
    (fifo : RxFifo) : Prop :=
  (∃ p, Unannounced ds rxNum p frame chunks port fifo) ∨ Ghost ds rxNum frame chunks port fifo

theorem OnEdge.fifoReadStep (clock : Nat → BitVec 64) (hds : BufferSize ds)
    (hshort : frame.data.length < 536870912) (hedge : ds ∣ frame.data.length)
    (hsum : chunks.sum = frame.data.length) (h : OnEdge ds rxNum frame chunks port fifo) :
    OnEdge ds rxNum frame chunks (FsccDriver.fifoReadStep (splitFifo chunks clock) port fifo).2.1
      (FsccDriver.fifoReadStep (splitFifo chunks clock) port fifo).2.2 := by
  rcases h with ⟨p, h⟩ | h
  · by_cases hopen : port.fifoDesc.control &&& descCstopBit = descCstopBit
    · rw [fifoReadStep_full hopen]
      exact Or.inl ⟨p, h⟩
    · cases hrest : chunks.drop fifo.looks with
      | nil =>
        have hall : p = frame.data.length := by
          have hpart := h.sum
          rw [hrest, List.sum_nil, Nat.add_zero, hsum] at hpart
          exact hpart
        subst hall
        exact Or.inr (h.ghost clock hds hopen hshort hedge (List.drop_eq_nil_iff.mp hrest))
      | cons chunk rest =>
        obtain ⟨again, port₁, fifo₁, hstep, -, hnext, -, -⟩ := h.chunk clock hds hopen hrest hshort
        rw [hstep]
        exact Or.inl ⟨_, hnext⟩
  · exact Or.inr (h.fifoReadStep hds)

/-! ## The reads that go wrong -/

-- The settings under which a read asks for the data and the status bytes, and for nothing else.
def RxPort.askWhole (port : RxPort) : RxPort := port.setOptions true false false

theorem deliver_askWhole (data : List Byte) (stamp : BitVec 64) :
    deliver port.askWhole ⟨data, stamp⟩ = data := by
  rw [deliver]
  exact (List.append_nil _).trans List.take_length

-- What `ReadsWhole` says about such a read into a buffer that is just large enough.
theorem ReadsWhole.askWhole {H : Type} {hw : Hardware H} {data : List Byte} {start descs : Nat}
    {h : H} (hread : ReadsWhole hw data start descs port h) (hlt : data.length < 4294967296) :
    let (result, port', _) := fsccUserReadFrame hw data.length port.askWhole h
    result.status = .success ∧ result.out = data ∧ fsccUserNextReadSize port' = (false, 0) := by
  have hbuf : (BitVec.ofNat 32 data.length).toNat = data.length := by
    rw [BitVec.toNat_ofNat, Nat.mod_eq_of_lt hlt]
  have hasked := hread true false false (BitVec.ofNat 32 data.length) (by
    rw [hbuf]
    exact Nat.le_of_eq (congrArg List.length (deliver_askWhole data 0)))
  rw [hbuf] at hasked
  obtain ⟨hstatus, ⟨stamp, hout⟩, -, -, hempty⟩ := hasked
  exact ⟨hstatus, hout.trans (deliver_askWhole data stamp), hempty⟩

-- While the length of the frame is not known, a read fails.
theorem Unannounced.not_readsWhole {H : Type} {hw : Hardware H} {start descs : Nat} {h : H}
    (hfill : Unannounced ds rxNum p frame chunks port fifo)
    (hlt : frame.data.length < 4294967296) :
    ¬ ReadsWhole hw frame.data start descs port h := by
  intro hread
  have hwhole := hread.askWhole hlt
  obtain ⟨mids, held, ⟨cells, hready, hmids, hring⟩, -, -⟩ := hfill.filling
  have hnone : (fsccUserNextReadSize port.askWhole).1 = false := by
    rcases fsccUserNextReadSize_ready hready hmids (hring.setOptions true false false) with
      ⟨-, hnone⟩ | ⟨first, frames, hnil, -⟩
    · exact hnone
    · cases hnil
  unfold fsccUserReadFrame at hwhole
  simp only [hnone, Bool.false_eq_true, not_false_eq_true, if_true, reduceCtorEq, false_and]
    at hwhole

-- A round of a read that asks for no timestamps and for one frame.
theorem readFrameStep_plain {H : Type} (hw : Hardware H) (s : H) (bufLength : Nat) {st : ReadLoop}
    (hstamp : st.port.appendTimestamp = false) (hsingle : st.port.rxMultiple = false) :
    readFrameStep hw bufLength st s =
      (decide ((moveData st).bytesInDescs ≠ 0),
        { moveData st with port := releaseUserDesc st.port }, s) := by
  have hnoStamp : appendTimestamp hw (moveData st) s = (moveData st, s) :=
    if_neg fun hboth ↦ Bool.false_ne_true (hstamp.symm.trans hboth.2)
  have hnext := nextFrame_single bufLength
    { moveData st with port := releaseUserDesc st.port } hsingle
  rw [readFrameStep, hnoStamp]
  dsimp only
  rw [show (moveData st).port = st.port from rfl, hnext]

-- A round that takes the last byte of the frame out of a descriptor that does not end it.
theorem readFrameStep_edge {H : Type} (hw : Hardware H) (s : H) (bufLength : Nat) (st : ReadLoop)
    {cell : Cell} {cells : List Cell} (h : RxRing ds (cell :: cells) [] st.port)
    (htotal : cell.total = none) (hfull : cell.bytes.length = ds) (hbytes : st.bytesInDescs = ds)
    (hstamp : st.port.appendTimestamp = false) (hsingle : st.port.rxMultiple = false) :
    ∃ st', readFrameStep hw bufLength st s = (false, st', s) ∧
      st'.port = releaseUserDesc st.port := by
  have hdesc := h.userDesc
  have hplanned : plannedMoveSize st = ds := by
    simp only [plannedMoveSize, hdesc.fe_iff, htotal, ne_eq, not_true_eq_false, false_and, if_false,
      hdesc.dataCount, hfull, Option.isSome_none, Bool.false_eq_true]
  have hzero : (moveData st).bytesInDescs = 0 := by
    simp only [moveData, hplanned, hbytes, gt_iff_lt, lt_irrefl, if_false, Nat.sub_self]
  refine ⟨{ moveData st with port := releaseUserDesc st.port }, ?_, rfl⟩
  rw [readFrameStep_plain hw s bufLength hstamp hsingle, hzero]
  rfl

-- The read ends in front of the empty descriptor, which is then the start of a frame of its own.
theorem Ghost.not_readsWhole {H : Type} {hw : Hardware H} {start descs : Nat} {h : H}
    (hghost : Ghost ds rxNum frame chunks port fifo) (hds : BufferSize ds)
    (hshort : frame.data.length < 536870912) :
    ¬ ReadsWhole hw frame.data start descs port h := by
  intro hread
  have hwhole := hread.askWhole (by omega)
  obtain ⟨mids, cell, hmids, hbytes, htotal, hring⟩ := hghost.ring
  have htwo := frame.two_le
  have hne : mids ≠ [] := by
    rintro rfl
    rw [List.length_nil, Nat.mul_zero] at hbytes
    omega
  obtain ⟨init, last, rfl⟩ : ∃ init last, mids = init ++ [last] :=
    ⟨mids.dropLast, mids.getLast hne, (List.dropLast_append_getLast hne).symm⟩
  have hinit : Mids ds init := fun c hc ↦ hmids c (List.mem_append_left _ hc)
  obtain ⟨hnone, hfull⟩ := hmids last (List.mem_append_right _ List.mem_cons_self)
  have hasked : RxRing ds (init ++ [last] ++ [cell]) [] port.askWhole :=
    hring.setOptions true false false
  have hsize : fsccUserNextReadSize port.askWhole = (true, frame.data.length) := by
    rw [fsccUserNextReadSize_ring hasked]
    exact readSize_last hmids htotal 0
  rw [List.append_assoc, List.singleton_append] at hasked
  have hrounds := hasked.cells_le
  rw [List.length_append, List.length_cons, List.length_singleton] at hrounds
  rw [List.length_append, List.length_singleton, Nat.mul_add_one] at hbytes
  have hvalid : validData port.askWhole frame.data.length = frame.data.length :=
    validData_le _ htwo hshort
  have hneed : bufferRequirement port.askWhole frame.data.length = frame.data.length := by
    rw [bufferRequirement, hvalid]
    change u32 ((frame.data.length : Int) + 0) = _
    rw [Int.add_zero, u32_of_nat (by omega)]
  obtain ⟨port₁, hring₁, hkeeps, hloop⟩ := readFrameLoop_mids hw frame.data.length h
    (readFrameStart port.askWhole frame.data.length) hinit hasked hds.pos hbytes.symm
    (by
      change 0 + frame.data.length < _
      omega)
    (by
      change 0 + validData port.askWhole frame.data.length < _
      rw [hvalid, Nat.zero_add]
      exact Nat.lt_trans hshort (by decide))
  obtain ⟨st, rfl, hlast, hloop⟩ : ∃ st : ReadLoop, st.port = port₁ ∧ st.bytesInDescs = ds ∧
      ∀ n, readFrameLoop hw frame.data.length (init.length + n)
        (readFrameStart port.askWhole frame.data.length) h =
          readFrameLoop hw frame.data.length n st h := ⟨_, rfl, rfl, hloop⟩
  obtain ⟨st', hstep, hport⟩ := readFrameStep_edge hw h frame.data.length st hring₁ hnone hfull
    hlast hkeeps.appendTimestamp hkeeps.rxMultiple
  have hcount : st.port.userDesc.dataCount = ds := by
    rw [hring₁.userDesc.dataCount, hnone]
    exact hfull
  -- The empty descriptor is still in the ring, and it says that a frame is ready.
  have hleft : fsccUserNextReadSize st'.port = (true, frame.data.length) := by
    rw [hport, fsccUserNextReadSize_ring (hring₁.release hcount), readSize, htotal]
  obtain ⟨n, hn⟩ : ∃ n, port.askWhole.rxNum = init.length + (n + 1) :=
    ⟨port.askWhole.rxNum - init.length - 1, by omega⟩
  have hrun : fsccUserReadFrame hw frame.data.length port.askWhole h =
      (⟨.success, st'.out, st'.outLength⟩, st'.port, h) := by
    rw [fsccUserReadFrame, hsize]
    simp only [not_true_eq_false, if_false, hneed, gt_iff_lt, lt_irrefl, hn, hloop, readFrameLoop,
      hstep]
  rw [hrun] at hwhole
  have hempty : fsccUserNextReadSize st'.port = (false, 0) := hwhole.2.2
  rw [hleft] at hempty
  cases hempty

-- With one frame a read and no timestamps, every byte copied out was counted as valid data.
theorem readFrameLoop_out_le {H : Type} (hw : Hardware H) (bufLength n : Nat) {st : ReadLoop} {s : H}
    {bound : Nat} (hstamp : st.port.appendTimestamp = false) (hsingle : st.port.rxMultiple = false)
    (hle : st.out.length + st.totalValidData ≤ bound) :
    (readFrameLoop hw bufLength n st s).1.out.length ≤ bound := by
  induction n generalizing st with
  | zero => exact Nat.le_trans (Nat.le_add_right _ _) hle
  | succ n ih =>
    have hreal : realMoveSize st ≤ st.totalValidData := by
      unfold realMoveSize
      split <;> omega
    have hmove : (moveData st).out.length + (moveData st).totalValidData ≤ bound := by
      change (st.out ++ Bytes.read st.port.userDesc.buffer 0 (realMoveSize st)).length +
        (st.totalValidData - realMoveSize st) ≤ bound
      rw [List.length_append, Bytes.read_length]
      omega
    rw [readFrameLoop, readFrameStep_plain hw s bufLength hstamp hsingle]
    cases decide ((moveData st).bytesInDescs ≠ 0) with
    | false => exact Nat.le_trans (Nat.le_add_right _ _) hmove
    | true =>
      apply ih
      · exact hstamp
      · exact hsingle
      · exact hmove

theorem not_readsWhole_long {H : Type} {hw : Hardware H} {data : List Byte} {start descs : Nat}
    {h : H} (hlong : 536870912 ≤ data.length) (hlt : data.length < 4294967296) :
    ¬ ReadsWhole hw data start descs port h := by
  intro hread
  have hwhole := hread.askWhole hlt
  have hsize : (fsccUserNextReadSize port.askWhole).1 = true →
      (fsccUserNextReadSize port.askWhole).2 < 536870912 := nextReadSizeLoop_lt
  unfold fsccUserReadFrame at hwhole
  generalize fsccUserNextReadSize port.askWhole = size at hwhole hsize
  obtain ⟨ready, bytes⟩ := size
  cases ready with
  | false =>
    simp only [Bool.false_eq_true, not_false_eq_true, if_true, reduceCtorEq, false_and] at hwhole
  | true =>
    have hbytes : bytes < 536870912 := hsize rfl
    by_cases hneed : bufferRequirement port.askWhole bytes > data.length
    · simp only [hneed, not_true_eq_false, if_false, if_true, reduceCtorEq, false_and] at hwhole
    · have hvalid : validData port.askWhole bytes = bytes := by
        change u32 ((bytes : Int) - 0) = bytes
        rw [Int.sub_zero]
        exact u32_of_nat (by omega)
      have hstart : (readFrameStart port.askWhole bytes).out.length +
          (readFrameStart port.askWhole bytes).totalValidData ≤ bytes := by
        change 0 + validData port.askWhole bytes ≤ bytes
        rw [Nat.zero_add]
        exact Nat.le_of_eq hvalid
      have hout := readFrameLoop_out_le hw data.length port.askWhole.rxNum (s := h) rfl rfl hstart
      simp only [hneed, not_true_eq_false, if_false] at hwhole
      rw [hwhole.2.1] at hout
      omega

/-! ## Which splits the reader cannot see -/

theorem SplitOf.sum_le {chunks : List Nat} {size drained : Nat} (h : SplitOf ds size drained chunks)
    (hle : drained ≤ size) : drained + chunks.sum ≤ size := by
  induction chunks generalizing drained with
  | nil => exact hle
  | cons chunk chunks ih =>
    rw [List.sum_cons, ← Nat.add_assoc]
    exact ih h.2.2.2.2 h.2.2.2.1

theorem Unannounced.start (hring : RxRing ds [] [] port) (hsize : port.rxFrameSize = 0)
    (hbytes : port.rxBytesInFrame = 0) (hsplit : SplitOf ds frame.data.length 0 chunks) :
    Unannounced ds port.rxNum 0 frame chunks port (splitStart frame) where
  filling := ⟨[], [], ⟨[], ReadyCells.nil, Mids.nil, hring⟩, rfl, hbytes⟩
  rxNum := rfl
  rxFrameSize := hsize
  le := Nat.zero_le _
  align := rfl
  waiting := rfl
  lengths := rfl
  looks_le := Nat.zero_le _
  split := hsplit
  sum := Nat.zero_add _

/-- `n` calls of `fscc_fifo_read_data` on a ring that has nothing in it. -/
def splitRun (chunks : List Nat) (clock : Nat → BitVec 64) (frame : WireFrame) (n : Nat)
    (port : RxPort) : RxPort × RxFifo :=
  fifoCalls (splitFifo chunks clock) n port (splitStart frame)

/-- Whatever the ring, the frame and the split: once the frame has been announced, a read returns it
whole and leaves nothing behind, unless its length does not fit the count field or the drains took
all of it, up to the edge of a descriptor, before its length was known. -/
theorem fscc_split_frame_reads_whole {n : Nat} (hds : BufferSize ds)
    (hring : RxRing ds [] [] port) (hsize : port.rxFrameSize = 0) (hbytes : port.rxBytesInFrame = 0)
    (hfits : frame.data.length ≤ port.rxNum * ds) (hword : frame.data.length < 4294967296)
    (hsplit : SplitOf ds frame.data.length 0 chunks) (hclock : ∀ k, clock k ≠ 0)
    (hn : chunks.length < n) :
    ReadsWhole (splitFifo chunks clock) frame.data port.userRxDesc
        (descCount ds frame.data.length) (splitRun chunks clock frame n port).1
        (splitRun chunks clock frame n port).2 ↔
      frame.data.length < 536870912 ∧ (chunks.sum < frame.data.length ∨ ¬ ds ∣ frame.data.length) := by
  have hstart := Unannounced.start hring hsize hbytes hsplit
  have hsum := hsplit.sum_le (Nat.zero_le _)
  constructor
  · intro hread
    have hshort : frame.data.length < 536870912 := by
      by_contra hlong
      exact not_readsWhole_long (Nat.le_of_not_lt hlong) hword hread
    refine ⟨hshort, ?_⟩
    by_contra hedge
    obtain ⟨hall, hdvd⟩ := not_or.mp hedge
    have hend : OnEdge ds port.rxNum frame chunks _ _ :=
      fifoCalls_invariant (fun _ _ ↦ OnEdge.fifoReadStep clock hds hshort (not_not.mp hdvd)
        (by omega)) n (Or.inl ⟨0, hstart⟩)
    rcases hend with ⟨p, hquiet⟩ | hghost
    · exact hquiet.not_readsWhole hword hread
    · exact hghost.not_readsWhole hds hshort hread
  · rintro ⟨hshort, hgood⟩
    obtain ⟨port', fifo', hrun, hkeeps, hcomplete | ⟨p, hquiet, hlooks⟩⟩ :=
      hstart.fifoCalls ⟨hds, hfits, hshort⟩ hclock hgood n
    · have hread := hcomplete.readsWhole (splitFifo chunks clock)
      rw [hkeeps.userRxDesc] at hread
      rw [splitRun, hrun]
      exact hread
    · have hle := hquiet.looks_le
      omega

end Split

-- Two descriptors of four bytes, after a purge.
def smallRing : RxPort := resetRx (twoDescPort 4)

theorem smallRing_empty : RxRing 4 [] [] smallRing :=
  RxMemory.resetRx (twoDescPort_memory ⟨by decide, by decide, by decide⟩)

-- Six bytes, of which one word is drained before their number is known.
def sixByteFrame : WireFrame where
  data := [1, 2, 3, 4, 5, 6]
  padding := [0, 0]
  two_le := by decide
  padded := by decide

theorem sixByteSplit : SplitOf 4 sixByteFrame.data.length 0 [4] :=
  ⟨rfl, by decide, by decide, by decide, trivial⟩

theorem fscc_split_frame_reads_whole_six_bytes :
    ReadsWhole (splitFifo [4] constClock) sixByteFrame.data 0 2
      (splitRun [4] constClock sixByteFrame 2 smallRing).1
      (splitRun [4] constClock sixByteFrame 2 smallRing).2 :=
  (fscc_split_frame_reads_whole (n := 2) ⟨by decide, by decide, by decide⟩
    smallRing_empty rfl rfl (by decide) (by decide) sixByteSplit (fun _ ↦ constClock_ne_zero) (by decide)).mpr ⟨by decide, Or.inl (by decide)⟩

def fourByteFrame : WireFrame where
  data := [1, 2, 3, 4]
  padding := []
  two_le := by decide
  padded := by decide

-- The one word of the frame is drained first: after the read a second frame of four bytes is ready.
theorem fscc_split_frame_read_twice :
    SplitOf 4 fourByteFrame.data.length 0 [4] ∧
      ¬ ReadsWhole (splitFifo [4] constClock) fourByteFrame.data 0
        (descCount 4 fourByteFrame.data.length)
        (splitRun [4] constClock fourByteFrame 2 smallRing).1
        (splitRun [4] constClock fourByteFrame 2 smallRing).2 := by
  refine ⟨⟨rfl, by decide, by decide, by decide, trivial⟩, fun hread ↦ ?_⟩
  have hempty : fsccUserNextReadSize (fsccUserReadFrame (splitFifo [4] constClock) 4
      (splitRun [4] constClock fourByteFrame 2 smallRing).1.askWhole
      (splitRun [4] constClock fourByteFrame 2 smallRing).2).2.1 = (false, 0) :=
    (hread.askWhole (by decide)).2.2
  exact absurd hempty (by decide)

end FsccDriver

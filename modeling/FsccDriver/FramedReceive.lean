import FsccDriver.FramedRound
import FsccDriver.LongFill
import FsccDriver.Lib.Runs

/-!
# FramedReceive — framed reception, over whole runs

A run interleaves calls of `fscc_fifo_read_data` with calls of `fscc_user_read_frame`, with bytes that
come in and with changes of the settings the reader looks at.  A frame is ready once all of it is out
of the FIFO; the reads hand over the ready frames, each once, whole and in its turn.
-/

namespace FsccDriver

variable {ds : Nat} {done : List WireFrame} {ready : List StampedFrame} {todo : List WireFrame}
  {port port' : RxPort} {fifo : RxFifo} {schedule : Nat → Nat} {clock : Nat → BitVec 64}

/-! ## Whole calls -/

theorem FifoKeeps.roundKeeps {fifo' : RxFifo} {done' : List WireFrame} {ready' : List StampedFrame}
    {todo' : List WireFrame} {port'' : RxPort} (hkeeps : FifoKeeps port port')
    (hframes : done' ++ todo' = done ++ todo)
    (hsame : undelivered ds clock done' ready' todo' = undelivered ds clock done ready todo)
    (h : RoundKeeps ds clock done' ready' todo' port' port'' fifo') :
    RoundKeeps ds clock done ready todo port port'' fifo' := by
  obtain ⟨hkeeps', done'', ready'', todo'', hreceiving, hframes', hsame'⟩ := h
  exact ⟨hkeeps.trans hkeeps', done'', ready'', todo'', hreceiving, hframes'.trans hframes,
    hsame'.trans hsame⟩

-- Every round but the last one finishes a descriptor.
theorem Receiving.fifoReadLoop (schedule : Nat → Nat) (h : Receiving ds done ready todo port fifo)
    (hds : BufferSize ds) (hclock : ∀ k, clock k ≠ 0) (n : Nat) :
    ∃ port' fifo', fifoReadLoop (rxFifo schedule clock) n port fifo = (port', fifo') ∧
      (port'.fifoDesc.control &&& descCstopBit = descCstopBit ∨ FifoDrained fifo' ∨
        fifo'.ticks = fifo.ticks + n) ∧
      RoundKeeps ds clock done ready todo port port' fifo' := by
  induction n generalizing done ready todo port fifo with
  | zero =>
    exact ⟨port, fifo, rfl, Or.inr (Or.inr rfl), FifoKeeps.refl port, done, ready, todo, h, rfl, rfl⟩
  | succ n ih =>
    obtain ⟨again, port₁, fifo₁, hrun, ⟨hgo, hstop⟩, hkeeps, done₁, ready₁, todo₁, h₁, hframes, hsame⟩ :=
      h.fifoReadStep schedule hds hclock
    rw [FsccDriver.fifoReadLoop, hrun]
    cases again with
    | false =>
      exact ⟨port₁, fifo₁, rfl, (hstop rfl).imp_right Or.inl, hkeeps, done₁, ready₁, todo₁, h₁, hframes,
        hsame⟩
    | true =>
      obtain ⟨port', fifo', hrun', hend, hnext⟩ := ih h₁
      refine ⟨port', fifo', hrun', hend.imp_right fun h ↦ h.imp_right fun hticks ↦ ?_,
        hkeeps.roundKeeps hframes hsame hnext⟩
      rw [hticks, hgo rfl]
      omega

theorem Receiving.setOptions (h : Receiving ds done ready todo port fifo) (a b c : Bool) :
    Receiving ds done ready todo (port.setOptions a b c) fifo := by
  obtain ⟨⟨drained, hfill, harriving, htaken⟩, hshort⟩ := h
  refine ⟨⟨drained, hfill.setOptions a b c, ?_, htaken⟩, hshort⟩
  cases harriving with
  | idle hsize hc => exact Arriving.idle hsize hc
  | unknown hpre hlt halign hsize hc => exact Arriving.unknown hpre hlt halign hsize hc
  | known hpre hlt halign hsize hc => exact Arriving.known hpre hlt halign hsize hc

theorem Arriving.read {drained : List Byte} (h : Arriving todo drained port fifo)
    (hkeeps : ReadKeeps port port') : Arriving todo drained port' fifo := by
  have hsame := hkeeps.rxFrameSize
  cases h with
  | idle hsize hc => exact Arriving.idle (hsame.trans hsize) hc
  | unknown hpre hlt halign hsize hc =>
    exact Arriving.unknown hpre hlt halign (hsame.trans hsize) hc
  | known hpre hlt halign hsize hc => exact Arriving.known hpre hlt halign (hsame.trans hsize) hc

theorem Receiving.arrive (h : Receiving ds done ready todo port fifo) (n : Nat) :
    Receiving ds done ready todo port (fifo.receiveBytes n) := by
  obtain ⟨⟨drained, hfill, harriving, htaken⟩, hshort⟩ := h
  have hsame := receiveBytes_popped fifo n
  refine ⟨⟨drained, hfill, ?_, htaken.congr hsame.2 hsame.1⟩, hshort⟩
  cases harriving with
  | idle hsize hc => exact Arriving.idle hsize (hc.receiveBytes n)
  | unknown hpre hlt halign hsize hc =>
    exact Arriving.unknown hpre hlt halign hsize (hc.receiveBytes n)
  | known hpre hlt halign hsize hc => exact Arriving.known hpre hlt halign hsize (hc.receiveBytes n)

/-! ## Runs -/

inductive RxAction where
  | arrive (bytes : Nat)
  | fifoReadData
  | setOptions (appendStatus appendTimestamp rxMultiple : Bool)
  | userReadFrame (bufLength : BitVec 32)

-- A read call: the port it was made on, the size of its buffer and what it returned.
structure FrameRead where
  port : RxPort
  bufLength : Nat
  result : ReadResult

-- With the number of bytes that were out of the FIFO by then.
structure FifoFrameRead extends FrameRead where
  popped : Nat

structure RxState where
  port : RxPort
  fifo : RxFifo
  reads : List FifoFrameRead

def rxStep (schedule : Nat → Nat) (clock : Nat → BitVec 64) (s : RxState) : RxAction → RxState
  | .arrive bytes => { s with fifo := s.fifo.receiveBytes bytes }
  | .fifoReadData =>
      let (port, fifo) := fsccFifoReadData (rxFifo schedule clock) s.port s.fifo
      { s with port, fifo }
  | .setOptions appendStatus appendTimestamp rxMultiple =>
      { s with port := s.port.setOptions appendStatus appendTimestamp rxMultiple }
  | .userReadFrame bufLength =>
      let (result, port, fifo) :=
        fsccUserReadFrame (rxFifo schedule clock) bufLength.toNat s.port s.fifo
      { port, fifo
        reads := s.reads ++ [⟨⟨s.port, bufLength.toNat, result⟩, s.fifo.popped.length⟩] }

/-- The state after a purge, with `frames` about to arrive. -/
def rxStart (port : RxPort) (frames : List WireFrame) : RxState :=
  { port := resetRx port
    fifo := { line := onLine frames, waiting := [], lengths := [], looks := 0, ticks := 0,
              popped := [] }
    reads := [] }

/-! ## Frames that are ready -/

/-- How many of the frames are out of the FIFO, all of them, when `popped` bytes are. -/
def fetched : List WireFrame → (popped : Nat) → Nat
  | [], _ => 0
  | frame :: frames, popped =>
      if wordPadded frame.data.length ≤ popped then
        fetched frames (popped - wordPadded frame.data.length) + 1
      else 0

/-- The frames that are out of the FIFO, behind the `delivered` ones that were handed over. -/
def pendingFrames (ds : Nat) (clock : Nat → BitVec 64) (frames : List WireFrame)
    (popped delivered : Nat) : List StampedFrame :=
  ((stampedFrames ds clock 0 frames).take (fetched frames popped)).drop delivered

/-- What a read call returns when `pending` are the frames it can take: nothing, when there is none
or the first one does not fit, or the first `taken` of them, one unless `rx_multiple` is set, each as
the settings of the port ask for it. -/
inductive FrameRead.Answers (read : FrameRead) (pending : List StampedFrame) : (taken : Nat) → Prop where
  | refused : (∀ frame ∈ pending.head?, read.bufLength < (deliver read.port frame).length) →
      read.result = ⟨.bufferTooSmall, [], 0⟩ → read.Answers pending 0
  | success {taken} : read.result.status = .success → 0 < taken → taken ≤ pending.length →
      (read.port.rxMultiple = false → taken = 1) →
      read.result.out = (pending.take taken).flatMap (deliver read.port) →
      read.result.outLength = read.result.out.length → read.result.out.length ≤ read.bufLength →
      read.Answers pending taken

/-- The reads hand over the frames in order: `delivered` before them, `total` with them. -/
def HandedOver (ds : Nat) (clock : Nat → BitVec 64) (frames : List WireFrame) : (delivered : Nat) →
    List FifoFrameRead → (total : Nat) → Prop
  | delivered, [], total => total = delivered
  | delivered, read :: reads, total =>
      ∃ taken, read.Answers (pendingFrames ds clock frames read.popped delivered) taken ∧
        HandedOver ds clock frames (delivered + taken) reads total

theorem HandedOver.concat {frames : List WireFrame} {reads : List FifoFrameRead} {read : FifoFrameRead}
    {delivered total taken : Nat} (h : HandedOver ds clock frames delivered reads total)
    (hread : read.Answers (pendingFrames ds clock frames read.popped total) taken) :
    HandedOver ds clock frames delivered (reads ++ [read]) (total + taken) := by
  induction reads generalizing delivered with
  | nil =>
    obtain rfl : total = delivered := h
    exact ⟨taken, hread, rfl⟩
  | cons first reads ih =>
    obtain ⟨taken', hfirst, hrest⟩ := h
    exact ⟨taken', hfirst, ih hrest⟩

-- Of the frames behind the first ones only a part is out.
theorem fetched_append (done : List WireFrame) {n : Nat}
    (hpart : ∀ frame ∈ todo.head?, n < wordPadded frame.data.length) :
    fetched (done ++ todo) ((onLine done).length + n) = done.length := by
  induction done with
  | nil =>
    cases todo with
    | nil => rfl
    | cons frame todo =>
      have hlt := hpart frame rfl
      rw [List.nil_append, fetched, if_neg (by rw [onLine_nil, List.length_nil]; omega)]
      rfl
  | cons frame done ih =>
    have hlen : (onLine (frame :: done)).length = wordPadded frame.data.length + (onLine done).length := by
      rw [onLine_cons, List.length_append, frame.arrivals_length]
    rw [List.cons_append, fetched, if_pos (by omega),
      show (onLine (frame :: done)).length + n - wordPadded frame.data.length =
        (onLine done).length + n by omega, ih, List.length_cons]

theorem Arriving.drained_lt {drained : List Byte} (h : Arriving todo drained port fifo) :
    ∀ frame ∈ todo.head?, drained.length < wordPadded frame.data.length := by
  intro frame hframe
  have hle : frame.data.length ≤ wordPadded frame.data.length := by
    unfold wordPadded
    omega
  cases h with
  | idle => cases hframe
  | unknown _ hlt =>
    cases hframe
    exact Nat.lt_of_lt_of_le hlt hle
  | known _ hlt =>
    cases hframe
    exact Nat.lt_of_lt_of_le hlt hle

theorem Receiving.fetched (h : Receiving ds done ready todo port fifo) :
    fetched (done ++ todo) fifo.popped.length = done.length := by
  obtain ⟨⟨drained, -, harriving, htaken⟩, -⟩ := h
  rw [htaken.popped]
  exact fetched_append done harriving.drained_lt

-- What waits in a drained FIFO does not complete the next frame.
theorem Receiving.fetched_drained (h : Receiving ds done ready todo port fifo) (hdrained : FifoDrained fifo) :
    FsccDriver.fetched (done ++ todo) (fifo.popped.length + fifo.waiting.length) = done.length := by
  obtain ⟨⟨drained, -, harriving, htaken⟩, -⟩ := h
  obtain ⟨hnone, hshort⟩ := hdrained
  rw [htaken.popped, Nat.add_assoc]
  apply fetched_append
  intro frame hframe
  cases harriving with
  | idle => cases hframe
  | unknown _ _ _ _ hc =>
    cases hframe
    exact hc.unannounced hnone
  | known _ hlt halign _ hc =>
    -- The rest of a frame whose length is known takes up a word at least.
    cases hframe
    have hcomplete := hc.complete
    unfold wordPadded at hcomplete
    omega

/-! ## The invariant of a run -/

/-- Of the frames `done` the first `delivered` are handed over and the others are in the ring. -/
structure RxInvariant (ds rxNum : Nat) (clock : Nat → BitVec 64) (frames : List WireFrame)
    (s : RxState) : Prop where
  rxNum : s.port.rxNum = rxNum
  path : ∃ before done ready todo, HandedOver ds clock frames 0 s.reads before.length ∧
    Receiving ds done ready todo s.port s.fifo ∧ done ++ todo = frames ∧
    before ++ undelivered ds clock done ready todo = stampedFrames ds clock 0 frames

-- A stamped frame has the data of a frame from the line.
theorem stampedFrames_data {frames : List WireFrame} {frame : StampedFrame} {n : Nat}
    (h : frame ∈ stampedFrames ds clock n frames) : ∃ wire ∈ frames, frame.data = wire.data := by
  induction frames generalizing n with
  | nil => cases h
  | cons wire frames ih =>
    rw [stampedFrames] at h
    rcases List.mem_cons.mp h with rfl | hrest
    · exact ⟨wire, List.mem_cons_self, rfl⟩
    · obtain ⟨wire', hwire, hdata⟩ := ih hrest
      exact ⟨wire', List.mem_cons_of_mem _ hwire, hdata⟩

theorem pendingFrames_data {frames : List WireFrame} {frame : StampedFrame} {popped delivered : Nat}
    (h : frame ∈ pendingFrames ds clock frames popped delivered) :
    ∃ wire ∈ frames, frame.data = wire.data :=
  stampedFrames_data (List.mem_of_mem_take (List.mem_of_mem_drop h))

theorem stampedFrames_length (frames : List WireFrame) (n : Nat) :
    (stampedFrames ds clock n frames).length = frames.length := by
  induction frames generalizing n with
  | nil => rfl
  | cons frame frames ih => rw [stampedFrames, List.length_cons, ih, List.length_cons]

-- The frames in the ring are those that are out of the FIFO and not handed over.
theorem Receiving.pending {before : List StampedFrame} (h : Receiving ds done ready todo port fifo)
    (hall : before ++ undelivered ds clock done ready todo = stampedFrames ds clock 0 (done ++ todo)) :
    before.length + ready.length = done.length ∧
      pendingFrames ds clock (done ++ todo) fifo.popped.length before.length = ready := by
  have hlen := congrArg List.length hall
  rw [undelivered, List.length_append, List.length_append, stampedFrames_length, stampedFrames_length,
    List.length_append] at hlen
  have hsum : before.length + ready.length = done.length := by omega
  refine ⟨hsum, ?_⟩
  rw [pendingFrames, h.fetched, ← hall, undelivered, ← List.append_assoc, ← hsum, ← List.length_append,
    List.take_left, List.drop_left]

theorem Receiving.userReadFrame (schedule : Nat → Nat) (clock' : Nat → BitVec 64) {bufLength : Nat}
    (h : Receiving ds done ready todo port fifo) (hbuf : bufLength < 4294967296) :
    ∃ result port' taken, fsccUserReadFrame (rxFifo schedule clock') bufLength port fifo =
        (result, port', fifo) ∧
      FrameRead.Answers ⟨port, bufLength, result⟩ ready taken ∧ taken ≤ ready.length ∧
      ReadKeeps port port' ∧ Receiving ds done (ready.drop taken) todo port' fifo := by
  obtain ⟨⟨drained, ⟨mids, held, hholds, hdata, hbytes⟩, harriving, htaken⟩, hshort⟩ := h
  obtain ⟨result, port', hrun, hkeeps, ⟨hrefused, hresult, rfl⟩ | ⟨hstatus, hlen, hfits, batch, rest, rfl,
    hne, hone, hout, hholds'⟩⟩ := fsccUserReadFrame_spec (rxFifo schedule clock') fifo hholds hbuf
  · exact ⟨result, port', 0, hrun, FrameRead.Answers.refused (hrefused.pending hholds) hresult,
      Nat.zero_le _, hkeeps, ⟨⟨drained, ⟨mids, held, hholds, hdata, hbytes⟩, harriving, htaken⟩, hshort⟩⟩
  · have hpos := List.length_pos_iff.mpr hne
    refine ⟨result, port', batch.length, hrun, FrameRead.Answers.success hstatus hpos ?_ hone ?_ hlen
      hfits, ?_, hkeeps, ?_⟩
    · rw [List.length_append]
      omega
    · rw [List.take_left]
      exact hout
    · rw [List.length_append]
      omega
    · rw [List.drop_left]
      exact ⟨⟨drained, ⟨mids, held, hholds', hdata, hkeeps.rxBytesInFrame.trans hbytes⟩,
        harriving.read hkeeps, htaken⟩, hshort⟩

theorem RxInvariant.step {rxNum : Nat} {frames : List WireFrame} {s : RxState}
    (h : RxInvariant ds rxNum clock frames s) (hds : BufferSize ds) (hclock : ∀ k, clock k ≠ 0)
    (action : RxAction) : RxInvariant ds rxNum clock frames (rxStep schedule clock s action) := by
  obtain ⟨hnum, before, done, ready, todo, hhanded, hreceiving, rfl, hall⟩ := h
  cases action with
  | arrive bytes => exact ⟨hnum, before, done, ready, todo, hhanded, hreceiving.arrive bytes, rfl, hall⟩
  | fifoReadData =>
    obtain ⟨port', fifo', hrun, -, hkeeps, done', ready', todo', hreceiving', hframes, hsame⟩ :=
      hreceiving.fifoReadLoop schedule hds hclock s.port.rxNum
    rw [rxStep, fsccFifoReadData, hrun]
    exact ⟨hkeeps.rxNum.trans hnum, before, done', ready', todo', hhanded, hreceiving', hframes,
      by rw [hsame, hall]⟩
  | setOptions a b c =>
    exact ⟨hnum, before, done, ready, todo, hhanded, hreceiving.setOptions a b c, rfl, hall⟩
  | userReadFrame bufLength =>
    obtain ⟨result, port', taken, hrun, hanswers, htaken, hkeeps, hreceiving'⟩ :=
      hreceiving.userReadFrame schedule clock bufLength.isLt
    simp only [rxStep, hrun]
    rw [← (hreceiving.pending hall).2] at hanswers
    refine ⟨hkeeps.rxNum.trans hnum, before ++ ready.take taken, done, ready.drop taken, todo, ?_,
      hreceiving', rfl, ?_⟩
    · rw [List.length_append, List.length_take, Nat.min_eq_left htaken]
      exact hhanded.concat hanswers
    · rw [← hall, undelivered, undelivered, List.append_assoc, ← List.append_assoc (ready.take taken),
        List.take_append_drop]

theorem rxStart_invariant (hmem : RxMemory ds port) {frames : List WireFrame}
    (hshort : ∀ frame ∈ frames, frame.data.length < 536870912) :
    RxInvariant ds port.rxNum clock frames (rxStart port frames) := by
  have hfill : Filling ds [] [] (resetRx port) :=
    ⟨[], [], ⟨[], ReadyCells.nil, Mids.nil, hmem.resetRx⟩, rfl, rfl⟩
  have hcarries : Carries (onLine frames) 0 [] (rxStart port frames).fifo :=
    ⟨Nat.zero_le _, Nat.zero_le _, [], rfl, Nat.le_refl _, rfl, rfl⟩
  have htaken : Taken ds [] [] (rxStart port frames).fifo := ⟨by rw [List.length_nil, Nat.zero_div]; rfl, rfl⟩
  exact ⟨rfl, [], [], [], frames, rfl, ⟨⟨[], hfill, Arriving.start rfl hcarries, htaken⟩, hshort⟩, rfl,
    rfl⟩

/-! ## Progress -/

-- The descriptors that the finished frames in the ring take up.
def ringDescs (ds : Nat) (ready : List StampedFrame) : Nat :=
  (ready.map fun frame ↦ descCount ds frame.data.length).sum

theorem ringDescs_undelivered (ds : Nat) (clock : Nat → BitVec 64) (done : List WireFrame)
    (ready : List StampedFrame) (todo : List WireFrame) :
    ringDescs ds (undelivered ds clock done ready todo) = ringDescs ds ready + descsOf ds todo := by
  have hstamped : ∀ n, ringDescs ds (stampedFrames ds clock n todo) = descsOf ds todo := by
    induction todo with
    | nil => exact fun _ ↦ rfl
    | cons frame todo ih =>
      intro n
      show descCount ds frame.data.length + ringDescs ds (stampedFrames ds clock _ todo) = _
      rw [ih]
      rfl
  rw [undelivered, ringDescs, List.map_append, List.sum_append]
  exact congrArg (ringDescs ds ready + ·) (hstamped _)

theorem descsOf_append (ds : Nat) (done todo : List WireFrame) :
    descsOf ds (done ++ todo) = descsOf ds done + descsOf ds todo := by
  rw [descsOf, List.map_append, List.sum_append]
  rfl

theorem RxRing.bytes_le {cells : List Cell} {held : List Byte} (h : RxRing ds cells held port) :
    ∀ cell ∈ cells, cell.bytes.length ≤ ds := by
  intro cell hcell
  obtain ⟨k, hk, rfl⟩ := List.mem_iff_getElem.mp hcell
  exact (h.holds.busy k hk).length_le

theorem ReadyCells.length_eq {cells : List Cell} (h : ReadyCells ds ready cells)
    (hle : ∀ cell ∈ cells, cell.bytes.length ≤ ds) : cells.length = ringDescs ds ready := by
  induction h with
  | nil => rfl
  | @cons frame frames mids last rest hframe _ ih =>
    have hlast : last.bytes.length ≤ ds := hle last (by simp)
    have hrest : rest.length = ringDescs ds frames := ih fun cell hcell ↦ hle cell (by simp [hcell])
    have hcount := hframe.count hlast
    rw [List.length_append, List.length_cons, hrest]
    show _ = descCount ds frame.data.length + ringDescs ds frames
    omega

-- With an open descriptor the frames in the ring leave room.
theorem Filling.descs_lt {drained : List Byte} (h : Filling ds ready drained port)
    (hopen : ¬ port.fifoDesc.control &&& descCstopBit = descCstopBit) :
    ringDescs ds ready + drained.length / ds < port.rxNum := by
  obtain ⟨mids, held, cells, hready, hmids, hring, hcells, hdata⟩ := h.opened hopen
  have hpos := hring.size_pos
  have hmidsLength : drained.length / ds = mids.length := by
    rw [← hdata, List.length_append, hmids.bytes_length, Nat.mul_add_div hpos,
      Nat.div_eq_of_lt hring.held_lt, Nat.add_zero]
  rw [hmidsLength, ← hready.length_eq fun cell hcell ↦
    hring.bytes_le cell (List.mem_append_left _ hcell), ← List.length_append]
  exact hcells

-- A call that finishes as many descriptors as the ring has fills the ring.
theorem Receiving.full {done' todo' : List WireFrame} {ready' : List StampedFrame} {fifo' : RxFifo}
    (h : Receiving ds done ready todo port fifo) (h' : Receiving ds done' ready' todo' port' fifo')
    (hframes : done' ++ todo' = done ++ todo)
    (hsame : undelivered ds clock done' ready' todo' = undelivered ds clock done ready todo)
    (hticks : fifo'.ticks = fifo.ticks + port'.rxNum) :
    port'.fifoDesc.control &&& descCstopBit = descCstopBit := by
  by_contra hopen
  obtain ⟨⟨drained, -, -, htaken⟩, -⟩ := h
  obtain ⟨⟨drained', hfill', -, htaken'⟩, -⟩ := h'
  have hroom := hfill'.descs_lt hopen
  have hring := congrArg (ringDescs ds) hsame
  have hall := congrArg (descsOf ds) hframes
  rw [ringDescs_undelivered, ringDescs_undelivered] at hring
  rw [descsOf_append, descsOf_append] at hall
  rw [htaken.ticks, htaken'.ticks] at hticks
  generalize drained.length / ds = finished at hticks
  generalize drained'.length / ds = finished' at hticks hroom
  omega

-- A frame that fits the ring never blocks it: with nothing to read there is a descriptor to fill.
theorem Receiving.notStuck (h : Receiving ds done [] todo port fifo)
    (hfit : ∀ frame ∈ todo, frame.data.length ≤ port.rxNum * ds) :
    ¬ port.fifoDesc.control &&& descCstopBit = descCstopBit := by
  obtain ⟨⟨drained, hfill, harriving, -⟩, -⟩ := h
  obtain ⟨mids, held, ⟨cells, -, -, hring⟩, -, -⟩ := id hfill
  have hpos := Nat.lt_of_le_of_lt (Nat.zero_le _) hring.holds.origin_lt
  apply hfill.not_full
  cases harriving with
  | idle => exact Nat.mul_pos hpos hring.size_pos
  | unknown _ hlt => exact Nat.lt_of_lt_of_le hlt (hfit _ List.mem_cons_self)
  | known _ hlt => exact Nat.lt_of_lt_of_le hlt (hfit _ List.mem_cons_self)

-- With nothing left on the line or in the FIFO, every frame has reached the ring.
theorem Receiving.drained (h : Receiving ds done ready todo port fifo) (hline : fifo.line = [])
    (hwaiting : fifo.waiting = []) : todo = [] := by
  obtain ⟨⟨drained, -, harriving, -⟩, -⟩ := h
  have hnot : ∀ {frame frames known}, drained.length < frame.data.length →
      ¬ Carries (onLine (frame :: frames)) drained.length known fifo := by
    intro frame frames known hlt hc
    obtain ⟨arrived, hsplit, hp, hbytes, -⟩ := hc.arrived
    rw [hline, List.append_nil] at hsplit
    rw [hwaiting, ← hsplit, onLine_cons, List.map_append, frame.arrivals_bytes] at hbytes
    have hlen := congrArg List.length hbytes
    rw [List.length_drop, List.length_append, WireFrame.bytes, List.length_append,
      List.length_nil] at hlen
    omega
  cases harriving with
  | idle => rfl
  | unknown _ hlt _ _ hc => exact absurd hc (hnot hlt)
  | known _ hlt _ _ hc => exact absurd hc (hnot hlt)

/-- After a call of `fscc_fifo_read_data` the ring is full, or nothing is left to take. -/
theorem Receiving.fsccFifoReadData (schedule : Nat → Nat) (h : Receiving ds done ready todo port fifo)
    (hds : BufferSize ds) (hclock : ∀ k, clock k ≠ 0) :
    ∃ port' fifo', fsccFifoReadData (rxFifo schedule clock) port fifo = (port', fifo') ∧
      (port'.fifoDesc.control &&& descCstopBit = descCstopBit ∨ FifoDrained fifo') ∧
      RoundKeeps ds clock done ready todo port port' fifo' := by
  obtain ⟨port', fifo', hrun, hend, hkeeps, done', ready', todo', h', hframes, hsame⟩ :=
    h.fifoReadLoop schedule hds hclock port.rxNum
  refine ⟨port', fifo', hrun, ?_, hkeeps, done', ready', todo', h', hframes, hsame⟩
  rcases hend with hfull | hdrained | hticks
  · exact Or.inl hfull
  · exact Or.inr hdrained
  · exact Or.inl (h.full h' hframes hsame (hkeeps.rxNum ▸ hticks))

/-- Framed reception: in every run from a purge the reads hand over the frames that are out of the
FIFO, once, whole and in order, and fail only when there is none or the first one does not fit.  After a
call of `fscc_fifo_read_data` a frame is ready or every frame that has come in is out of the FIFO;
none is missing once line and FIFO are empty; and while no frame is ready the ring has a descriptor
to fill. -/
theorem fscc_framed_receive_delivers (schedule : Nat → Nat) (clock : Nat → BitVec 64)
    (hmem : RxMemory ds port) (hclock : ∀ k, clock k ≠ 0) (frames : List WireFrame)
    (hshort : ∀ frame ∈ frames, frame.data.length < 536870912)
    (hfit : ∀ frame ∈ frames, frame.data.length ≤ port.rxNum * ds) (actions : List RxAction) :
    let s := actions.foldl (rxStep schedule clock) (rxStart port frames)
    let s' := rxStep schedule clock s .fifoReadData
    ∃ delivered ≤ fetched frames s.fifo.popped.length,
      HandedOver ds clock frames 0 s.reads delivered ∧
      (delivered < fetched frames s'.fifo.popped.length ∨ s'.fifo.waiting.length < 4 ∧
        fetched frames (s'.fifo.popped.length + s'.fifo.waiting.length) =
          fetched frames s'.fifo.popped.length) ∧
      (s.fifo.line = [] → s.fifo.waiting = [] →
        fetched frames s.fifo.popped.length = frames.length) ∧
      (delivered = fetched frames s.fifo.popped.length →
        ¬ s.port.fifoDesc.control &&& descCstopBit = descCstopBit) := by
  intro s s'
  have hinv : RxInvariant ds port.rxNum clock frames s :=
    Runs.invariant (fun _ action h ↦ h.step hmem.size hclock action)
      (rxStart_invariant hmem hshort) actions
  obtain ⟨hnum, before, done, ready, todo, hhanded, hreceiving, rfl, hall⟩ := hinv
  have hfit' : ∀ {done' todo' : List WireFrame}, done' ++ todo' = done ++ todo →
      ∀ frame ∈ todo', frame.data.length ≤ port.rxNum * ds :=
    fun hframes frame hframe ↦ hfit frame (hframes ▸ List.mem_append_right _ hframe)
  obtain ⟨hsum, -⟩ := hreceiving.pending hall
  refine ⟨before.length, hreceiving.fetched ▸ by omega, hhanded, ?_, fun hline hwaiting ↦ ?_,
    fun hnone ↦ ?_⟩
  · obtain ⟨port', fifo', hrun, hend, hkeeps, done', ready', todo', h', hframes, hsame⟩ :=
      hreceiving.fsccFifoReadData schedule hmem.size hclock
    have hs' : s' = { s with port := port', fifo := fifo' } := by
      show rxStep schedule clock s .fifoReadData = _
      rw [rxStep, hrun]
    have hall' : before ++ undelivered ds clock done' ready' todo' =
        stampedFrames ds clock 0 (done' ++ todo') := by rw [hsame, hall, hframes]
    obtain ⟨hsum', -⟩ := h'.pending hall'
    rw [hs', ← hframes]
    rw [h'.fetched]
    by_cases hready : ready' = []
    · subst hready
      have hdrained := hend.resolve_left
        (h'.notStuck (hkeeps.rxNum.trans hnum ▸ hfit' hframes))
      exact Or.inr ⟨hdrained.2, h'.fetched_drained hdrained⟩
    · have hpos := List.length_pos_iff.mpr hready
      exact Or.inl (by omega)
  · rw [hreceiving.fetched, hreceiving.drained hline hwaiting, List.append_nil]
  · rw [hreceiving.fetched] at hnone
    obtain rfl : ready = [] := List.length_eq_zero_iff.mp (by omega)
    exact hreceiving.notStuck (hnum ▸ hfit' rfl)

def shortFrame : WireFrame := ⟨[1, 2, 3, 4, 5], [0, 0, 0], by decide, by decide⟩

-- The frame comes in with a part of the next one, which the last call of the driver takes out.
def shortActions : List RxAction :=
  [.arrive 10, .fifoReadData, .setOptions false true true, .userReadFrame 16, .arrive 100]

theorem fscc_framed_receive_delivers_short :
    let s := shortActions.foldl (rxStep busyLine constClock)
      (rxStart (twoDescPort 8) [shortFrame, shortFrame])
    let s' := rxStep busyLine constClock s .fifoReadData
    ∃ delivered ≤ fetched [shortFrame, shortFrame] s.fifo.popped.length,
      HandedOver 8 constClock [shortFrame, shortFrame] 0 s.reads delivered ∧
      (delivered < fetched [shortFrame, shortFrame] s'.fifo.popped.length ∨
        s'.fifo.waiting.length < 4 ∧
          fetched [shortFrame, shortFrame] (s'.fifo.popped.length + s'.fifo.waiting.length) =
            fetched [shortFrame, shortFrame] s'.fifo.popped.length) ∧
      (s.fifo.line = [] → s.fifo.waiting = [] →
        fetched [shortFrame, shortFrame] s.fifo.popped.length = [shortFrame, shortFrame].length) ∧
      (delivered = fetched [shortFrame, shortFrame] s.fifo.popped.length →
        ¬ s.port.fifoDesc.control &&& descCstopBit = descCstopBit) :=
  fscc_framed_receive_delivers busyLine constClock
    (twoDescPort_memory ⟨by decide, by decide, by decide⟩)
    (fun _ ↦ constClock_ne_zero) [shortFrame, shortFrame]
    (fun frame hframe ↦ by
      rw [List.mem_pair, or_self] at hframe
      rw [hframe]
      decide)
    (fun frame hframe ↦ by
      rw [List.mem_pair, or_self] at hframe
      rw [hframe]
      decide)
    shortActions

/-! ## A frame that is too long for the count field -/

theorem foldl_fifoReadData (s : RxState) (k : Nat) :
    (List.replicate k RxAction.fifoReadData).foldl (rxStep schedule clock) s =
      { s with
        port := (fifoCalls (rxFifo schedule clock) k s.port s.fifo).1
        fifo := (fifoCalls (rxFifo schedule clock) k s.port s.fifo).2 } := by
  induction k with
  | zero => rfl
  | succ k ih => rw [List.replicate_succ', List.foldl_append, ih]; rfl

-- A descriptor whose count field reads 0: the read succeeds and returns the timestamp alone.
theorem fsccUserReadFrame_empty {H : Type} (hw : Hardware H) (h : H) (hnum : port.rxNum = 2)
    (hindex : port.userRxDesc = 0) (hstatus : port.appendStatus = true)
    (happend : port.appendTimestamp = true) (hsingle : port.rxMultiple = false)
    (hcontrol : (port.rxDescriptors 0).control = 3758096384)
    (hstamp : (port.rxDescriptors 0).timestamp = 1) :
    (fsccUserReadFrame hw 8 port h).1 = ⟨.success, timestampBytes 1, 8⟩ := by
  have hdesc : port.userDesc = port.rxDescriptors 0 := by rw [RxPort.userDesc, hindex]
  have hfe : ¬ 3758096384 &&& descFeBit = 0 := by decide
  have hcstop : ¬ 3758096384 &&& descCstopBit = 0 := by decide
  have hcount : 3758096384 &&& dmaMaxLength = 0 := by decide
  have hready : fsccUserNextReadSize port = (true, 0) := by
    simp only [fsccUserNextReadSize, hnum, hindex, nextReadSizeLoop, hcontrol, hfe, hcstop, hcount,
      if_false, ne_eq, not_false_eq_true, and_self, if_true]
  have hrequired : bufferRequirement port 0 = 8 := by
    simp only [bufferRequirement, validData, hstatus, happend, if_true]
    rfl
  have hvalid : validData port 0 = 0 := by
    simp only [validData, hstatus, if_true]
    rfl
  have hplanned : plannedMoveSize (readFrameStart port 0) = 0 := by
    simp only [plannedMoveSize, readFrameStart, hdesc, hcontrol, hfe, hcstop, hcount, ne_eq,
      not_false_eq_true, and_self, if_true]
    rfl
  have hmove : moveData (readFrameStart port 0) = readFrameStart port 0 := by
    simp only [moveData, realMoveSize, hplanned]
    simp only [readFrameStart, hvalid]
    rfl
  have hstamped : ¬ (readFrameStart port 0).port.userDesc.timestamp = 0 := by
    change ¬ port.userDesc.timestamp = 0
    rw [hdesc, hstamp]
    decide
  have htime : (readFrameStart port 0).port.userDesc.timestamp = 1 := by
    change port.userDesc.timestamp = 1
    rw [hdesc, hstamp]
  have hstart : (readFrameStart port 0).bytesInDescs = 0 ∧
      (readFrameStart port 0).port.appendTimestamp = true := ⟨rfl, happend⟩
  have hfits : ¬ bufferRequirement port 0 > 8 := by rw [hrequired]; exact Nat.lt_irrefl 8
  have hdone : ∀ st : ReadLoop, st.bytesInDescs = 0 → st.port.rxMultiple = false →
      nextFrame 8 st = (false, st) := by
    intro st hzero hone
    rw [nextFrame, if_pos hzero, if_pos (by rw [hone]; exact Bool.false_ne_true)]
  have happended : appendTimestamp hw (readFrameStart port 0) h =
      ({ readFrameStart port 0 with outLength := 8, out := timestampBytes 1 }, h) := by
    rw [appendTimestamp, if_pos hstart, if_neg hstamped, htime]
    rfl
  have hstep : readFrameStep hw 8 (readFrameStart port 0) h =
      (false, { readFrameStart port 0 with
        port := releaseUserDesc port, outLength := 8, out := timestampBytes 1 }, h) := by
    simp only [readFrameStep, hmove, happended]
    rw [hdone _ rfl hsingle]
    rfl
  simp only [fsccUserReadFrame, hready, not_true_eq_false, if_false, hfits, hnum, readFrameLoop,
    hstep]

def longFrame : WireFrame where
  data := List.replicate 536870912 0
  padding := []
  two_le := by rw [List.length_replicate]; decide
  padded := by rw [List.length_replicate]; decide

theorem longFrame_length : longFrame.data.length = 536870912 := List.length_replicate

theorem longFrame_arrivals_length : longFrame.arrivals.length = 536870912 := by
  rw [longFrame.arrivals_length, longFrame_length]
  decide

-- `2 ^ 16` calls that drain 8192 bytes each, then a read.
def longActions : List RxAction :=
  List.replicate (65535 + 1) .fifoReadData ++ [.userReadFrame 8]

theorem longRun_read :
    ∃ read : FifoFrameRead, (longActions.foldl (rxStep busyLine constClock)
      (rxStart (twoDescPort 536870912) [longFrame])).reads = [read] ∧
        read.result = ⟨.success, timestampBytes 1, 8⟩ := by
  have hline : onLine [longFrame] = longFrame.arrivals := by
    rw [onLine_cons, onLine_nil, List.append_nil]
  have hends : ∀ arrival ∈ longFrame.arrivals.take (8192 * 65535), arrival.ends = none := by
    rw [← List.filterMap_eq_nil_iff]
    exact longFrame.arrivals_take_ends (by rw [longFrame_arrivals_length]; decide)
  obtain ⟨port₁, fifo₁, hcalls, hlong⟩ := (LongFill.start 536870912 longFrame.arrivals).calls
    (by decide) (by decide) (k := 65535) (by decide) (by rw [longFrame_arrivals_length]; decide) hends
  have hrest : (longFrame.arrivals.drop (8192 * 65535)).length = 8192 := by
    rw [List.length_drop, longFrame_arrivals_length]
  have hlast : (longFrame.arrivals.drop (8192 * 65535)).filterMap Arrival.ends = [536870912] := by
    have hall := longFrame.arrivals_ends
    rw [← List.take_append_drop (8192 * 65535) longFrame.arrivals, List.filterMap_append,
      List.filterMap_eq_nil_iff.mpr hends, longFrame_length, List.nil_append] at hall
    exact hall
  obtain ⟨port₂, fifo₂, hcall, hkeeps, hcontrol, hstamp⟩ := hlong.frame hrest hlast
  have hall : fifoCalls (rxFifo busyLine constClock) (65535 + 1) (rxStart (twoDescPort 536870912)
      [longFrame]).port (rxStart (twoDescPort 536870912) [longFrame]).fifo = (port₂, fifo₂) := by
    rw [rxStart, hline]
    exact (fifoCalls_succ hcalls).trans hcall
  have hread := fsccUserReadFrame_empty (rxFifo busyLine constClock) fifo₂
    (hkeeps.rxNum.trans hlong.rxNum) (hkeeps.userRxDesc.trans hlong.userRxDesc)
    (hkeeps.appendStatus.trans hlong.appendStatus)
    (hkeeps.appendTimestamp.trans hlong.appendTimestamp) (hkeeps.rxMultiple.trans hlong.rxMultiple)
    hcontrol hstamp
  rw [longActions, List.foldl_append, foldl_fifoReadData, hall]
  exact ⟨⟨⟨port₂, 8, _⟩, fifo₂.popped.length⟩, rfl, hread⟩

/-- A frame of `2 ^ 29` bytes fits a ring of two descriptors of that size and is not delivered: its
read returns eight bytes of timestamp and nothing of the frame. -/
theorem fscc_framed_receive_long_frame :
    RxMemory 536870912 (twoDescPort 536870912) ∧ (∀ k, constClock k ≠ 0) ∧
      longFrame.data.length ≤ (twoDescPort 536870912).rxNum * 536870912 ∧
      ¬ ∃ delivered, HandedOver 536870912 constClock [longFrame] 0
        (longActions.foldl (rxStep busyLine constClock)
          (rxStart (twoDescPort 536870912) [longFrame])).reads delivered := by
  refine ⟨twoDescPort_memory ⟨by decide, by decide, by decide⟩,
    fun _ ↦ constClock_ne_zero, by rw [longFrame_length]; decide, ?_⟩
  obtain ⟨read, hreads, hresult⟩ := longRun_read
  rw [hreads]
  rintro ⟨delivered, taken, hanswers, -⟩
  cases hanswers with
  | refused _ hfails =>
    rw [hresult] at hfails
    exact NtStatus.noConfusion (congrArg ReadResult.status hfails)
  | success _ hpos hle _ hout _ _ =>
    -- The first frame taken is the long one, and eight bytes do not hold it.
    obtain ⟨frame, more, htake⟩ := List.exists_cons_of_length_pos
      (show 0 < ((pendingFrames 536870912 constClock [longFrame] read.popped 0).take taken).length by
        rw [List.length_take]
        omega)
    obtain ⟨wire, hwire, hdata⟩ :=
      pendingFrames_data (List.mem_of_mem_take (htake ▸ List.mem_cons_self))
    have hdataLength : frame.data.length = 536870912 := by
      rw [hdata, List.mem_singleton.mp hwire, longFrame_length]
    have hlong := le_deliver_length read.port frame
    have hlen := congrArg List.length hout
    rw [hresult, htake, timestampBytes_length, List.flatMap_cons, List.length_append] at hlen
    omega

end FsccDriver

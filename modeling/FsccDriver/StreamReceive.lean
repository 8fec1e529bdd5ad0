import FsccDriver.LongFill
import FsccDriver.RxRead
import FsccDriver.Lib.Runs

/-!
# StreamReceive — streaming reception, over whole runs

With RFCNT always 0 no frame ever ends.  The ring is then a pipe: the FIFO side appends the bytes it
pops, and `fscc_user_read_stream` takes as many as fit its buffer from the front.
-/

namespace FsccDriver

open Words

variable {ds : Nat} {cells : List Cell} {cell : Cell} {buffered held bytes delivered : List Byte}
  {port port' : RxPort} {fifo : RxFifo} {schedule : Nat → Nat} {clock : Nat → BitVec 64}

/-! ## The reader -/

-- Finished descriptors that hold a part of the stream each.
def StreamCells (cells : List Cell) : Prop :=
  ∀ cell ∈ cells, cell.total = none ∧ 0 < cell.bytes.length

theorem StreamCells.nil : StreamCells [] := fun _ hcell ↦ absurd hcell List.not_mem_nil

theorem StreamCells.head (h : StreamCells (cell :: cells)) :
    cell.total = none ∧ 0 < cell.bytes.length := h cell List.mem_cons_self

theorem StreamCells.tail (h : StreamCells (cell :: cells)) : StreamCells cells :=
  fun c hc ↦ h c (List.mem_cons_of_mem _ hc)

theorem StreamCells.cons (h : StreamCells cells) (hnone : cell.total = none)
    (hpos : 0 < cell.bytes.length) : StreamCells (cell :: cells) := by
  intro c hc
  rcases List.mem_cons.mp hc with rfl | hold
  · exact ⟨hnone, hpos⟩
  · exact h c hold

theorem StreamCells.concat (h : StreamCells cells) (cell : Cell) (hnone : cell.total = none)
    (hpos : 0 < cell.bytes.length) : StreamCells (cells ++ [cell]) := by
  intro c hc
  rcases List.mem_append.mp hc with hold | hnew
  · exact h c hold
  · rw [List.mem_singleton.mp hnew]
    exact ⟨hnone, hpos⟩

theorem StreamCells.eq_nil (h : StreamCells cells) (hbytes : cellBytes cells = []) : cells = [] := by
  cases cells with
  | nil => rfl
  | cons cell cells =>
    have hpos := h.head.2
    rw [(List.append_eq_nil_iff.mp hbytes).1] at hpos
    exact absurd hpos (Nat.lt_irrefl 0)

/-- The ring holds the part `buffered` of the stream in finished descriptors and `held` behind it. -/
def HoldsStream (ds : Nat) (buffered held : List Byte) (port : RxPort) : Prop :=
  ∃ cells, StreamCells cells ∧ RxRing ds cells held port ∧ cellBytes cells = buffered

section Read

variable {bufLength : Nat} {st : StreamLoop}

theorem FinishedDesc.dataCount_stream {desc : DmaFrame} (h : FinishedDesc ds cell desc)
    (hnone : cell.total = none) : desc.dataCount = cell.bytes.length := by
  rw [h.dataCount, hnone]
  rfl

-- What is left of the first descriptor when `n` of its bytes have been taken.
theorem FinishedDesc.shift {desc : DmaFrame} (h : FinishedDesc ds cell desc)
    (hnone : cell.total = none) {n : Nat} (hn : n ≤ cell.bytes.length) :
    FinishedDesc ds { cell with bytes := cell.bytes.drop n } { desc with
      buffer := Bytes.write desc.buffer 0 (Bytes.read desc.buffer n (desc.dataCount - n))
      dataCount := desc.dataCount - n } := by
  have hle := h.length_le
  have hcount := h.dataCount_stream hnone
  have hrest : Bytes.read desc.buffer n (desc.dataCount - n) = cell.bytes.drop n := by
    rw [hcount, Bytes.read_eq_take_drop (by rw [h.bufferLength]; omega), ← h.bytes,
      List.length_take, Nat.min_eq_left (by rw [h.bufferLength]; exact hle), List.drop_take]
  have hlength : (cell.bytes.drop n).length = cell.bytes.length - n := List.length_drop
  constructor
  case bufferLength =>
    change (Bytes.write _ _ _).length = ds
    rw [hrest, Bytes.write_length (by rw [hlength, h.bufferLength]; omega), h.bufferLength]
  case count => exact fun t ht ↦ absurd (hnone.symm.trans ht) (by simp)
  case dataCount =>
    change desc.dataCount - n = _
    rw [hcount, hnone, ← hlength]
    rfl
  case length_le =>
    change (cell.bytes.drop n).length ≤ ds
    omega
  case bytes =>
    change (Bytes.write desc.buffer 0 _).take (cell.bytes.drop n).length = _
    have htake := Bytes.write_take (cell.bytes.drop n) (Nat.zero_le desc.buffer.length)
    rw [Nat.zero_add, List.take_zero, List.nil_append] at htake
    rw [hrest]
    exact htake
  exacts [h.dataSize, h.control_lt, h.cstop, h.fe, h.timestamp]

theorem streamReceiveLength_ring (h : RxRing ds (cell :: cells) held st.port)
    (hnone : cell.total = none) (hlt : bufLength < 4294967296) (hle : st.outLength ≤ bufLength) :
    streamReceiveLength bufLength st = min cell.bytes.length (bufLength - st.outLength) := by
  rw [streamReceiveLength, h.userDesc.dataCount_stream hnone, u32_sub_of_le hlt hle]

-- A round that empties its descriptor.
theorem readStreamStep_all (h : RxRing ds (cell :: cells) held st.port) (hnone : cell.total = none)
    (hlt : bufLength < 4294967296) (hroom : st.outLength + cell.bytes.length ≤ bufLength) :
    ∃ port', readStreamStep bufLength st =
        (true, ⟨port', st.i + 1, st.outLength + cell.bytes.length, st.out ++ cell.bytes⟩) ∧
      RxRing ds cells held port' ∧ ReadKeeps st.port port' := by
  have hdesc := h.userDesc
  have hlength : streamReceiveLength bufLength st = cell.bytes.length := by
    rw [streamReceiveLength_ring h hnone hlt (by omega)]
    omega
  have hread : Bytes.read st.port.userDesc.buffer 0 cell.bytes.length = cell.bytes := by
    rw [hdesc.read (Nat.le_refl _), List.take_length]
  have hopen : OpenDesc ds [] { st.port.userDesc with
      dataCount := st.port.userDesc.dataSize, timestamp := 0
      control := if st.i % 2 ≠ 0 then descHiBit else 0 } := by
    refine ⟨hdesc.dataSize, hdesc.bufferLength, hdesc.dataSize, ?_, ?_, rfl, rfl⟩ <;>
    · dsimp only
      split <;> decide
  refine ⟨_, ?_, h.giveBack hopen, ⟨rfl, rfl, rfl, rfl, rfl, rfl, rfl, rfl⟩⟩
  simp only [readStreamStep, hdesc.cstop_ne_zero, and_false, if_false, hlength,
    hdesc.dataCount_stream hnone, if_true, hread]
  rw [u32_add_of_lt (by omega)]

-- A round that fills the buffer and leaves a part of its descriptor.
theorem readStreamStep_part (h : RxRing ds (cell :: cells) held st.port) (hnone : cell.total = none)
    (hds : ds < 2147483648) (hlt : bufLength < 4294967296) (hle : st.outLength ≤ bufLength)
    (hroom : bufLength < st.outLength + cell.bytes.length) :
    ∃ port', readStreamStep bufLength st =
        (false, ⟨port', st.i, bufLength, st.out ++ cell.bytes.take (bufLength - st.outLength)⟩) ∧
      RxRing ds ({ cell with bytes := cell.bytes.drop (bufLength - st.outLength) } :: cells) held
        port' ∧
      ReadKeeps st.port port' := by
  have hdesc := h.userDesc
  have hlength : streamReceiveLength bufLength st = bufLength - st.outLength := by
    rw [streamReceiveLength_ring h hnone hlt hle]
    omega
  have hcount := hdesc.dataCount_stream hnone
  have hread := hdesc.read (n := bufLength - st.outLength) (by omega)
  have hpart : ¬ bufLength - st.outLength = st.port.userDesc.dataCount := by omega
  have hleft : st.port.userDesc.dataCount - (bufLength - st.outLength) < 2147483648 := by
    have hle := hdesc.length_le
    omega
  refine ⟨_, ?_, h.setHead (hdesc.shift hnone (by omega)), ⟨rfl, rfl, rfl, rfl, rfl, rfl, rfl, rfl⟩⟩
  simp only [readStreamStep, hdesc.cstop_ne_zero, and_false, if_false, hlength, hpart, hread,
    sizeT_i32 hleft, u32_i32 (Nat.lt_trans hleft (by decide))]
  rw [u32_add_of_lt (by omega), Nat.add_sub_of_le hle]

-- Induction over the finished descriptors; the rounds left cover all of them.
theorem readStreamLoop_ring (st : StreamLoop) (hcells : StreamCells cells) (h : RxRing ds cells held st.port)
    (hds : ds < 2147483648) (hlt : bufLength < 4294967296) (hle : st.outLength ≤ bufLength)
    (hout : st.outLength = st.out.length) {n : Nat} (hn : cells.length ≤ n) :
    ∃ port' i, readStreamLoop bufLength n st =
        ⟨port', i, (st.out ++ (cellBytes cells).take (bufLength - st.outLength)).length,
          st.out ++ (cellBytes cells).take (bufLength - st.outLength)⟩ ∧
      HoldsStream ds ((cellBytes cells).drop (bufLength - st.outLength)) held port' ∧
      ReadKeeps st.port port' := by
  induction cells generalizing st n with
  | nil =>
    have hempty : readStreamLoop bufLength n st = st := by
      cases n with
      | zero => rfl
      | succ n =>
        have hopen : OpenDesc ds held st.port.userDesc := h.holds.cur_first
        rw [readStreamLoop, readStreamStep, if_pos hopen.unfinished]
    refine ⟨st.port, st.i, ?_, ⟨[], StreamCells.nil, h, by simp⟩, ReadKeeps.refl _⟩
    simp only [hempty, cellBytes_nil, List.take_nil, List.append_nil, ← hout]
  | cons cell cells ih =>
    obtain ⟨m, rfl⟩ : ∃ m, n = m + 1 := ⟨n - 1, by rw [List.length_cons] at hn; omega⟩
    obtain ⟨hnone, hpos⟩ := hcells.head
    rw [readStreamLoop]
    by_cases hroom : st.outLength + cell.bytes.length ≤ bufLength
    · obtain ⟨port₁, hstep, hring₁, hkeeps₁⟩ := readStreamStep_all h hnone hlt hroom
      obtain ⟨port', i, hrun, hholds, hkeeps⟩ := ih
        ⟨port₁, st.i + 1, st.outLength + cell.bytes.length, st.out ++ cell.bytes⟩ (n := m) hcells.tail hring₁ hroom (by rw [List.length_append, ← hout]) (Nat.le_of_succ_le_succ hn)
      have hsplit : bufLength - (st.outLength + cell.bytes.length) =
          bufLength - st.outLength - cell.bytes.length := Nat.sub_add_eq _ _ _
      have hall : cell.bytes.length ≤ bufLength - st.outLength := by omega
      refine ⟨port', i, ?_, ?_, hkeeps₁.trans hkeeps⟩
      · rw [hstep]
        refine hrun.trans ?_
        rw [cellBytes_cons, List.take_append, List.take_of_length_le hall, List.append_assoc, hsplit]
      · rw [cellBytes_cons, List.drop_append, List.drop_of_length_le hall, List.nil_append, ← hsplit]
        exact hholds
    · obtain ⟨port', hstep, hring', hkeeps⟩ :=
        readStreamStep_part h hnone hds hlt hle (Nat.lt_of_not_le hroom)
      have hpart : bufLength - st.outLength ≤ cell.bytes.length := by omega
      have hleft : 0 < (cell.bytes.drop (bufLength - st.outLength)).length := by
        rw [List.length_drop]
        omega
      have hfull : (st.out ++ cell.bytes.take (bufLength - st.outLength)).length = bufLength := by
        rw [List.length_append, List.length_take]
        omega
      refine ⟨port', st.i, ?_, ⟨{ cell with bytes := cell.bytes.drop (bufLength - st.outLength) } ::
        cells, hcells.tail.cons hnone hleft, hring', ?_⟩, hkeeps⟩
      · rw [hstep, cellBytes_cons, List.take_append_of_le_length hpart, hfull]
      · rw [cellBytes_cons, cellBytes_cons, List.drop_append_of_le_length hpart]

/-- A read takes as much of the stream as fits its buffer. -/
theorem fsccUserReadStream_spec (h : HoldsStream ds buffered held port) (hds : ds < 2147483648)
    (hlt : bufLength < 4294967296) :
    ∃ port', fsccUserReadStream bufLength port =
        (⟨.success, buffered.take bufLength, (buffered.take bufLength).length⟩, port') ∧
      HoldsStream ds (buffered.drop bufLength) held port' ∧ ReadKeeps port port' := by
  obtain ⟨cells, hcells, hring, rfl⟩ := h
  obtain ⟨port', i, hrun, hholds, hkeeps⟩ := readStreamLoop_ring ⟨port, 0, 0, []⟩ hcells
    hring hds hlt (Nat.zero_le _) rfl hring.cells_le
  refine ⟨port', ?_, hholds, hkeeps⟩
  rw [fsccUserReadStream, hrun, Nat.sub_zero, List.nil_append]

end Read

/-! ## The FIFO side -/

-- The bytes of the stream on the line: none of them ends a frame.
def streamLine (bytes : List Byte) : List Arrival := bytes.map (⟨·, none⟩)

theorem streamLine_ends (bytes : List Byte) : (streamLine bytes).filterMap Arrival.ends = [] := by
  rw [List.filterMap_eq_nil_iff]
  intro arrival harr
  obtain ⟨byte, -, rfl⟩ := List.mem_map.mp harr
  rfl

theorem streamLine_bytes (bytes : List Byte) : (streamLine bytes).map Arrival.byte = bytes := by
  rw [streamLine, List.map_map]
  exact List.map_id bytes

-- RFCNT stays 0.
theorem Carries.no_lengths {p : Nat} (h : Carries (streamLine bytes) p [] fifo) :
    fifo.lengths = [] := by
  obtain ⟨arrived, hsplit, -, -, hknown⟩ := h.arrived
  have hnone := streamLine_ends bytes
  rw [hsplit, List.filterMap_append, List.append_eq_nil_iff, hknown] at hnone
  exact hnone.1

theorem Carries.waiting_prefix {p n : Nat} (h : Carries (streamLine bytes) p [] fifo)
    (hn : n ≤ fifo.waiting.length) : (bytes.drop p).take n = fifo.waiting.take n := by
  obtain ⟨arrived, hsplit, hp, hwaiting, -⟩ := h.arrived
  have hbytes := streamLine_bytes bytes
  rw [hsplit, List.map_append] at hbytes
  rw [hwaiting, List.length_drop, List.length_map] at hn
  rw [hwaiting, ← hbytes, List.drop_append_of_le_length (by rwa [List.length_map]),
    List.take_append_of_le_length (by rw [List.length_drop, List.length_map]; exact hn)]

/-- `delivered` has been handed over; what else has been popped is in the ring. -/
structure Streaming (ds : Nat) (bytes delivered : List Byte) (port : RxPort) (fifo : RxFifo) :
    Prop where
  stored : ∃ buffered held, HoldsStream ds buffered held port ∧ held.length % 4 = 0 ∧
    delivered ++ (buffered ++ held) = fifo.popped
  rxFrameSize : port.rxFrameSize = 0
  carries : Carries (streamLine bytes) fifo.popped.length [] fifo
  popped : fifo.popped = bytes.take fifo.popped.length

theorem Carries.pop_popped {n : Nat} (h : Carries (streamLine bytes) fifo.popped.length [] fifo)
    (hpopped : fifo.popped = bytes.take fifo.popped.length) (hn : n ≤ fifo.waiting.length) :
    Carries (streamLine bytes) (fifo.pop n).popped.length [] (fifo.pop n) ∧
      (fifo.pop n).popped = bytes.take (fifo.pop n).popped.length := by
  have hlength : (fifo.pop n).popped.length = fifo.popped.length + n := by
    rw [RxFifo.pop, List.length_append, List.length_take, Nat.min_eq_left hn]
  rw [hlength, List.take_add, h.waiting_prefix hn, ← hpopped]
  exact ⟨h.pop hn, rfl⟩

theorem Streaming.fifoReadStep (h : Streaming ds bytes delivered port fifo) (hds : BufferSize ds)
    (hshort : ds < 536870912) :
    Streaming ds bytes delivered (fifoReadStep (rxFifo schedule clock) port fifo).2.1
      (fifoReadStep (rxFifo schedule clock) port fifo).2.2 := by
  by_cases hopen : port.fifoDesc.control &&& descCstopBit = descCstopBit
  · rw [FsccDriver.fifoReadStep, if_pos hopen]
    exact h
  obtain ⟨buffered, held, ⟨cells, hcells, hring, rfl⟩, halign, hall⟩ := h.stored
  have hlt := hring.held_lt
  have hlook := h.carries.look schedule
  have hlen := receiveLength_unknown clock h.carries h.rxFrameSize hlook.no_lengths
  rw [hring.fifoReadStep hds.lt hopen port.rxFrameSize hlen]
  generalize hfifo : fifo.look schedule = fifo₁ at hlook
  generalize hr : min (fifo₁.waiting.length - fifo₁.waiting.length % 4) (ds - held.length) = r
  have hdsAlign := hds.align
  have hword : wordPadded r = r := by
    unfold wordPadded
    omega
  have hpopped₁ : fifo₁.popped = fifo.popped := by
    rw [← hfifo]
    exact look_popped fifo schedule
  have hwaiting : r ≤ fifo₁.waiting.length := by omega
  have hrep := (rxFifo_popsWords schedule clock).getRegisterRep port.channel
    (show wordPadded r ≤ fifo₁.waiting.length by rwa [hword])
  rw [hword] at hrep
  have hdata : (fifo₁.waiting.take r).length = r := by
    rw [List.length_take, Nat.min_eq_left hwaiting]
  have hframe : ¬ (port.rxFrameSize > 0 ∧ port.bytesAfter r ≥ port.rxFrameSize) := by
    rw [h.rxFrameSize]
    exact fun hboth ↦ lt_irrefl _ hboth.1
  rw [← hpopped₁] at hall
  obtain ⟨hcarries, hpopped⟩ := Carries.pop_popped (n := r) (hpopped₁ ▸ hlook)
    (hpopped₁ ▸ h.popped) hwaiting
  have hready : FillReady ds cells held port r := ⟨hring, hring.room hopen, by omega, by omega⟩
  rcases Nat.lt_or_eq_of_le (show held.length + r ≤ ds by omega) with hless | hfull
  · obtain ⟨port', hrun, hring', hsize, -, -⟩ := fifoFill_open hready hrep hdata hless hframe
    rw [hrun]
    refine ⟨⟨_, _, ⟨cells, hcells, hring', rfl⟩, ?_, ?_⟩, hsize.trans h.rxFrameSize, hcarries,
      hpopped⟩
    · rw [List.length_append, hdata]
      omega
    · rw [RxFifo.pop, ← hall]
      simp only [List.append_assoc]
  · obtain ⟨port', hrun, hring', hsize, -, -⟩ := fifoFill_full hready hrep hdata hfull hframe
    have hpos : 0 < (held ++ fifo₁.waiting.take r).length := by
      rw [List.length_append, hdata, hfull]
      exact hds.pos
    rw [hrun]
    refine ⟨⟨_, [], ⟨_, hcells.concat _ rfl hpos, hring', rfl⟩, rfl, ?_⟩,
      hsize.trans h.rxFrameSize, hcarries.tick _, hpopped⟩
    change _ = fifo₁.popped ++ _
    rw [← hall]
    simp

/-! ## Runs -/

inductive StreamAction where
  | fifoReadData
  | userReadStream (bufLength : BitVec 32)

structure StreamState where
  port : RxPort
  fifo : RxFifo
  reads : List ReadResult

-- Everything the reads have returned.
def StreamState.returned (s : StreamState) : List Byte := s.reads.flatMap ReadResult.out

def streamStep (schedule : Nat → Nat) (clock : Nat → BitVec 64) (s : StreamState) :
    StreamAction → StreamState
  | .fifoReadData =>
      let (port, fifo) := fsccFifoReadData (rxFifo schedule clock) s.port s.fifo
      { s with port, fifo }
  | .userReadStream bufLength =>
      let (result, port) := fsccUserReadStream bufLength.toNat s.port
      { s with port, reads := s.reads ++ [result] }

/-- The state after a purge, with the stream `bytes` about to arrive. -/
def streamStart (port : RxPort) (bytes : List Byte) : StreamState :=
  { port := resetRx port
    fifo := { line := streamLine bytes, waiting := [], lengths := [], looks := 0, ticks := 0,
              popped := [] }
    reads := [] }

-- The invariant of a run: what was returned, then what is in the ring, is what was popped.
def StreamInvariant (ds : Nat) (bytes : List Byte) (s : StreamState) : Prop :=
  Streaming ds bytes s.returned s.port s.fifo ∧
    ∀ read ∈ s.reads, read.status = .success ∧ read.outLength = read.out.length

theorem Streaming.read (h : Streaming ds bytes delivered port fifo) (hds : ds < 2147483648)
    {bufLength : Nat} (hlt : bufLength < 4294967296) :
    ∃ out port', fsccUserReadStream bufLength port = (⟨.success, out, out.length⟩, port') ∧
      Streaming ds bytes (delivered ++ out) port' fifo ∧
      (out.length < bufLength → ∃ held, RxRing ds [] held port' ∧
        fifo.popped = delivered ++ out ++ held) := by
  obtain ⟨buffered, held, hholds, halign, hall⟩ := h.stored
  obtain ⟨port', hrun, hholds', hkeeps⟩ := fsccUserReadStream_spec hholds hds hlt
  have hall' : delivered ++ buffered.take bufLength ++ (buffered.drop bufLength ++ held) =
      fifo.popped := by
    rw [← hall, List.append_assoc, ← List.append_assoc (buffered.take bufLength),
      List.take_append_drop]
  refine ⟨_, port', hrun, ⟨⟨_, held, hholds', halign, hall'⟩,
    hkeeps.rxFrameSize.trans h.rxFrameSize, h.carries, h.popped⟩, fun hless ↦ ?_⟩
  rw [List.length_take] at hless
  have hrest : buffered.drop bufLength = [] := List.drop_of_length_le (by omega)
  rw [hrest] at hholds' hall'
  obtain ⟨cells, hcells, hring, hbytes⟩ := hholds'
  rw [hcells.eq_nil hbytes] at hring
  exact ⟨held, hring, hall'.symm⟩

theorem StreamInvariant.step {s : StreamState} (h : StreamInvariant ds bytes s)
    (hds : BufferSize ds) (hshort : ds < 536870912) (action : StreamAction) :
    StreamInvariant ds bytes (streamStep schedule clock s action) := by
  obtain ⟨hstreaming, hreads⟩ := h
  cases action with
  | fifoReadData =>
    exact ⟨fifoReadLoop_invariant (fun _ _ h ↦ h.fifoReadStep hds hshort) s.port.rxNum hstreaming,
      hreads⟩
  | userReadStream bufLength =>
    obtain ⟨out, port', hrun, hstreaming', -⟩ := hstreaming.read (Nat.lt_trans hshort (by decide)) bufLength.isLt
    simp only [streamStep, hrun]
    refine ⟨?_, ?_⟩
    · simpa [StreamState.returned] using hstreaming'
    · intro read hread
      rcases List.mem_append.mp hread with hold | hnew
      · exact hreads read hold
      · rw [List.mem_singleton.mp hnew]
        exact ⟨rfl, rfl⟩

theorem streamStart_invariant (hmem : RxMemory ds port) (bytes : List Byte) :
    StreamInvariant ds bytes (streamStart port bytes) := by
  have hholds : HoldsStream ds [] [] (resetRx port) := ⟨[], StreamCells.nil, hmem.resetRx, rfl⟩
  have hcarries : Carries (streamLine bytes) 0 [] (streamStart port bytes).fifo :=
    ⟨Nat.zero_le _, Nat.zero_le _, [], rfl, Nat.le_refl _, rfl, rfl⟩
  exact ⟨⟨⟨[], [], hholds, rfl, rfl⟩, rfl, hcarries, rfl⟩,
    fun read hread ↦ absurd hread List.not_mem_nil⟩

/-- Streaming reception with buffers of fewer than `2 ^ 29` bytes: in every run from a purge the
reads return, in order, a prefix of the bytes popped from the FIFO, which are a prefix of the stream;
after a read that does not fill its buffer the rest is what the one unfinished descriptor holds. -/
theorem fscc_stream_receive_lossless (schedule : Nat → Nat) (clock : Nat → BitVec 64)
    (hmem : RxMemory ds port) (hshort : ds < 536870912) (bytes : List Byte)
    (actions : List StreamAction) :
    let s := actions.foldl (streamStep schedule clock) (streamStart port bytes)
    s.returned <+: s.fifo.popped ∧ s.fifo.popped <+: bytes ∧
      (∀ read ∈ s.reads, read.status = .success ∧ read.outLength = read.out.length) ∧
      ∀ bufLength : BitVec 32,
        let read := (fsccUserReadStream bufLength.toNat s.port).1
        let s' := streamStep schedule clock s (.userReadStream bufLength)
        read.out.length < bufLength.toNat → ∃ held, s'.fifo.popped = s'.returned ++ held ∧
          held.length < ds ∧ RxRing ds [] held s'.port := by
  intro s
  have hstep : ∀ s action, StreamInvariant ds bytes s →
      StreamInvariant ds bytes (streamStep schedule clock s action) :=
    fun s action h ↦ h.step hmem.size hshort action
  obtain ⟨hstreaming, hreads⟩ := Runs.invariant hstep (streamStart_invariant hmem bytes) actions
  obtain ⟨buffered, held, -, -, hall⟩ := hstreaming.stored
  refine ⟨⟨_, hall⟩, ?_, hreads, fun bufLength ↦ ?_⟩
  · rw [hstreaming.popped]
    exact List.take_prefix _ _
  · obtain ⟨out, port', hrun, -, hrest⟩ := hstreaming.read (Nat.lt_trans hshort (by decide)) bufLength.isLt
    intro read s' hless
    have hread : read = ⟨.success, out, out.length⟩ := congrArg Prod.fst hrun
    rw [hread] at hless
    obtain ⟨held, hring, hpopped⟩ := hrest hless
    have hstate : s' = { s with port := port', reads := s.reads ++ [⟨.success, out, out.length⟩] } := by
      change streamStep schedule clock s (.userReadStream bufLength) = _
      rw [streamStep]
      exact congrArg (fun p : ReadResult × RxPort ↦
        { s with port := p.2, reads := s.reads ++ [p.1] }) hrun
    rw [hstate]
    refine ⟨held, ?_, hring.held_lt, hring⟩
    simpa [StreamState.returned] using hpopped

-- Six bytes come in, four of them fill a descriptor, and a read takes three.
def sixBytes : List Byte := [1, 2, 3, 4, 5, 6]

def sixByteActions : List StreamAction := [.fifoReadData, .userReadStream 3]

theorem fscc_stream_receive_lossless_six_bytes :
    let s := sixByteActions.foldl (streamStep busyLine constClock)
      (streamStart (twoDescPort 4) sixBytes)
    s.returned <+: s.fifo.popped ∧ s.fifo.popped <+: sixBytes ∧
      (∀ read ∈ s.reads, read.status = .success ∧ read.outLength = read.out.length) ∧
      ∀ bufLength : BitVec 32,
        let read := (fsccUserReadStream bufLength.toNat s.port).1
        let s' := streamStep busyLine constClock s (.userReadStream bufLength)
        read.out.length < bufLength.toNat → ∃ held, s'.fifo.popped = s'.returned ++ held ∧
          held.length < 4 ∧ RxRing 4 [] held s'.port :=
  fscc_stream_receive_lossless busyLine constClock
    (twoDescPort_memory ⟨by decide, by decide, by decide⟩) (by decide) sixBytes sixByteActions

/-! ## Buffers that are too large for the count field -/

-- `2 ^ 29` bytes run into the HI bit: the descriptor is finished, and counts all of its buffer.
theorem LongFill.overrun {rest : List Arrival} (h : LongFill 1073741824 536862720 rest port fifo)
    (hrest : rest.length = 8192) (hends : rest.filterMap Arrival.ends = []) :
    ∃ port' fifo', fsccFifoReadData (rxFifo busyLine constClock) port fifo = (port', fifo') ∧
      FifoKeeps port port' ∧ (port'.rxDescriptors 0).control = 1073741824 ∧
      (port'.rxDescriptors 0).dataCount = 1073741824 ∧ fifo'.popped.length = 536870912 := by
  have htake : rest.take 8192 = rest := List.take_of_length_le (Nat.le_of_eq hrest)
  have hlook := h.look (by rw [htake, hends]; exact Nat.zero_le _)
  have hlengths : (fifo.look busyLine).lengths = [] := by
    rw [hlook, filledFifo, htake]
    exact hends
  have hlen := receiveLength_unknown constClock h.carries h.rxFrameSize hlengths
  have hwaiting : (filledFifo fifo rest).waiting.length = 8192 := by
    rw [filledFifo, List.length_map, htake, hrest]
  have hquiet : (filledFifo fifo rest).lengths = [] := hlook ▸ hlengths
  rw [hlook, hwaiting] at hlen
  obtain ⟨data, hrep⟩ := rep (filledFifo fifo rest) hwaiting port.channel
  have hstep := h.fifoReadStep (by decide) (by decide) (by decide) port.rxFrameSize hlen
  have hctl : u32 ((port.fifoDesc.control : Int) + (8192 : Nat)) = 1073741824 := by
    rw [h.fifoDesc, h.control]
    rfl
  have hmask : ¬ 1073741824 &&& dmaMaxLength ≥ port.fifoDesc.dataSize := by
    rw [h.fifoDesc, h.dataSize]
    decide
  have hstop : ¬ 1073741824 &&& descCstopBit = 0 := by decide
  have hframe : ¬ port.rxFrameSize > 0 := by
    rw [h.rxFrameSize]
    exact lt_irrefl 0
  have hstamp : port.fifoDesc.timestamp = 0 := h.fifoDesc ▸ h.timestamp
  have hround : FsccDriver.fifoReadStep (rxFifo busyLine constClock) port fifo =
      (true, (({ port with rxBytesInFrame := port.bytesAfter 8192 } : RxPort).setFifoDesc
        { port.fifoDesc with
          control := 1073741824
          dataCount := port.fifoDesc.dataSize
          buffer := Bytes.write port.fifoDesc.buffer (port.fifoDesc.control &&& dmaMaxLength) data
          timestamp := 1 }).nextFifo,
        { ((filledFifo fifo rest).pop 8192) with ticks := fifo.ticks + 1 }) := by
    rw [hstep]
    simp only [fifoFill, hrep, hctl, hmask, hframe, false_and, if_false, hstop, ne_eq,
      not_false_eq_true, if_true, hstamp]
    rfl
  obtain ⟨port', fifo', hrun, hkeeps, hdesc, hpopped⟩ := h.finish (by decide) (by decide) hround
    ⟨rfl, rfl, rfl, rfl, rfl, rfl⟩ rfl rfl h.rxFrameSize
    (List.drop_of_length_le (Nat.le_of_eq hrest)) (List.drop_of_length_le (Nat.le_of_eq hwaiting))
    hquiet
  refine ⟨port', fifo', hrun, hkeeps, by rw [hdesc], ?_, ?_⟩
  · rw [hdesc]
    exact (congrArg DmaFrame.dataSize h.fifoDesc).trans h.dataSize
  · rw [hpopped, RxFifo.pop, List.length_append, List.length_take, hwaiting]
    change fifo.popped.length + _ = _
    rw [h.popped, Nat.min_self]

theorem foldl_fifoReadData_stream (s : StreamState) (k : Nat) :
    (List.replicate k StreamAction.fifoReadData).foldl (streamStep schedule clock) s =
      { s with
        port := (fifoCalls (rxFifo schedule clock) k s.port s.fifo).1
        fifo := (fifoCalls (rxFifo schedule clock) k s.port s.fifo).2 } := by
  induction k with
  | zero => rfl
  | succ k ih =>
    rw [List.replicate_succ', List.foldl_append, ih]
    rfl

theorem foldl_calls_read (s : StreamState) (k : Nat) (bufLength : BitVec 32) :
    (List.replicate k StreamAction.fifoReadData ++ [StreamAction.userReadStream bufLength]).foldl
        (streamStep schedule clock) s =
      streamStep schedule clock { s with
        port := (fifoCalls (rxFifo schedule clock) k s.port s.fifo).1
        fifo := (fifoCalls (rxFifo schedule clock) k s.port s.fifo).2 }
        (.userReadStream bufLength) := by
  rw [List.foldl_append, foldl_fifoReadData_stream]
  rfl

def longStream : List Byte := List.replicate 536870912 0

theorem longStream_length : longStream.length = 536870912 := List.length_replicate

-- `2 ^ 16` calls that drain 8192 bytes each, then a read with room for one byte more.
def longStreamActions : List StreamAction :=
  List.replicate (65535 + 1) .fifoReadData ++ [.userReadStream 536870913]

def longStreamEnd : StreamState :=
  longStreamActions.foldl (streamStep busyLine constClock)
    (streamStart (twoDescPort 1073741824) longStream)

theorem fscc_stream_receive_long_buffer :
    RxMemory 1073741824 (twoDescPort 1073741824) ∧
      ¬ longStreamEnd.returned <+: longStreamEnd.fifo.popped := by
  refine ⟨twoDescPort_memory ⟨by decide, by decide, by decide⟩, ?_⟩
  have hline : (streamLine longStream).length = 536870912 := by
    rw [streamLine, List.length_map, longStream_length]
  have hquiet : ∀ arrival ∈ streamLine longStream, arrival.ends = none :=
    List.filterMap_eq_nil_iff.mp (streamLine_ends longStream)
  obtain ⟨port₁, fifo₁, hcalls, hlong⟩ := (LongFill.start 1073741824 (streamLine longStream)).calls
    (by decide) (by decide) (k := 65535) (by decide) (by rw [hline]; decide)
    fun arrival harr ↦ hquiet arrival (List.mem_of_mem_take harr)
  obtain ⟨port₂, fifo₂, hcall, hkeeps, hcontrol, hcount, hpopped⟩ := hlong.overrun
    (by rw [List.length_drop, hline])
    (List.filterMap_eq_nil_iff.mpr fun arrival harr ↦ hquiet arrival (List.mem_of_mem_drop harr))
  have hall : fifoCalls (rxFifo busyLine constClock) (65535 + 1)
      (streamStart (twoDescPort 1073741824) longStream).port
      (streamStart (twoDescPort 1073741824) longStream).fifo = (port₂, fifo₂) :=
    (fifoCalls_succ hcalls).trans hcall
  have hindex : port₂.userRxDesc = 0 := hkeeps.userRxDesc.trans hlong.userRxDesc
  have hnum : port₂.rxNum = 2 := hkeeps.rxNum.trans hlong.rxNum
  have hdesc : port₂.userDesc = port₂.rxDescriptors 0 := by rw [RxPort.userDesc, hindex]
  have hread : (fsccUserReadStream 536870913 port₂).1.out.length = 536870913 := by
    have hlength : streamReceiveLength 536870913 ⟨port₂, 0, 0, []⟩ = 536870913 := by
      rw [streamReceiveLength, hdesc, hcount]
      rfl
    have hready : ¬ (port₂.userDesc.control &&& descFeBit = 0 ∧
        port₂.userDesc.control &&& descCstopBit = 0) := by
      rw [hdesc, hcontrol]
      decide
    have hpart : ¬ 536870913 = port₂.userDesc.dataCount := by
      rw [hdesc, hcount]
      decide
    rw [fsccUserReadStream, hnum, readStreamLoop, readStreamStep, if_neg hready]
    dsimp only
    rw [hlength, if_neg hpart]
    change ([] ++ Bytes.read _ 0 536870913).length = _
    rw [List.nil_append, Bytes.read_length]
  have hend : longStreamEnd = streamStep busyLine constClock
      { streamStart (twoDescPort 1073741824) longStream with port := port₂, fifo := fifo₂ }
      (.userReadStream 536870913) := by
    rw [longStreamEnd, longStreamActions, foldl_calls_read, hall]
  have hreturned : longStreamEnd.returned = (fsccUserReadStream 536870913 port₂).1.out := by
    rw [hend]
    exact List.append_nil _
  have hfifo : longStreamEnd.fifo = fifo₂ := by
    rw [hend]
    rfl
  intro hprefix
  have hle := hprefix.length_le
  rw [hreturned, hfifo, hread, hpopped] at hle
  exact absurd hle (by decide)

end FsccDriver

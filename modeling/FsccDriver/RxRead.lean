import FsccDriver.RxRing

/-!
# RxRead — `fscc_user_read_frame` on whole frames

A finished frame lies in the ring as full descriptors and one last descriptor that carries its
length.  A read takes whole frames off the front of the queue: `fsccUserReadFrame_spec`.
-/

namespace FsccDriver

open Words

variable {H : Type} {ds : Nat} {cell last : Cell} {cells mids rest : List Cell} {held : List Byte}

/-! ## Frames in the ring -/

-- A finished frame: its data, status bytes included, and the time its last descriptor was finished.
structure StampedFrame where
  data : List Byte
  stamp : BitVec 64

/-- Full descriptors that do not end a frame. -/
def Mids (ds : Nat) (cells : List Cell) : Prop :=
  ∀ cell ∈ cells, cell.total = none ∧ cell.bytes.length = ds

def cellBytes (cells : List Cell) : List Byte := cells.flatMap Cell.bytes

@[simp] theorem cellBytes_nil : cellBytes [] = [] := rfl

@[simp] theorem cellBytes_cons (cell : Cell) (cells : List Cell) :
    cellBytes (cell :: cells) = cell.bytes ++ cellBytes cells := rfl

@[simp] theorem cellBytes_append (cells cells' : List Cell) :
    cellBytes (cells ++ cells') = cellBytes cells ++ cellBytes cells' := by
  simp [cellBytes]

theorem Mids.nil : Mids ds [] := fun _ hcell ↦ absurd hcell List.not_mem_nil

theorem Mids.head (h : Mids ds (cell :: cells)) : cell.total = none ∧ cell.bytes.length = ds :=
  h cell List.mem_cons_self

theorem Mids.tail (h : Mids ds (cell :: cells)) : Mids ds cells :=
  fun c hc ↦ h c (List.mem_cons_of_mem _ hc)

theorem Mids.concat (h : Mids ds cells) (cell : Cell) (hnone : cell.total = none)
    (hfull : cell.bytes.length = ds) : Mids ds (cells ++ [cell]) := by
  intro c hc
  rcases List.mem_append.mp hc with hold | hnew
  · exact h c hold
  · rw [List.mem_singleton.mp hnew]
    exact ⟨hnone, hfull⟩

theorem Mids.bytes_length (h : Mids ds cells) : (cellBytes cells).length = ds * cells.length := by
  induction cells with
  | nil => rfl
  | cons cell cells ih =>
    rw [cellBytes_cons, List.length_append, h.head.2, ih h.tail, List.length_cons, Nat.mul_add_one,
      Nat.add_comm]

/-- The descriptors of one finished frame. -/
structure FrameCells (ds : Nat) (frame : StampedFrame) (mids : List Cell) (last : Cell) : Prop where
  full : Mids ds mids
  total : last.total = some frame.data.length
  nonempty : 0 < last.bytes.length
  data : cellBytes mids ++ last.bytes = frame.data
  stamp : last.stamp = frame.stamp
  stamp_ne : frame.stamp ≠ 0
  two_le : 2 ≤ frame.data.length
  length_lt : frame.data.length < 536870912

/-- The descriptors of the finished frames in the ring, in order. -/
inductive ReadyCells (ds : Nat) : List StampedFrame → List Cell → Prop where
  | nil : ReadyCells ds [] []
  | cons {frame frames mids last rest} : FrameCells ds frame mids last → ReadyCells ds frames rest →
      ReadyCells ds (frame :: frames) (mids ++ last :: rest)

theorem ReadyCells.concat {frames : List StampedFrame} {frame : StampedFrame}
    (h : ReadyCells ds frames cells) (hframe : FrameCells ds frame mids last) :
    ReadyCells ds (frames ++ [frame]) (cells ++ (mids ++ [last])) := by
  induction h with
  | nil => exact ReadyCells.cons hframe ReadyCells.nil
  | cons hfirst _ ih =>
    rw [List.append_assoc, List.cons_append]
    exact ReadyCells.cons hfirst ih

/-! `fscc_user_next_read_size` finds the length of the first finished frame. -/

theorem readSize_mids (hmids : Mids ds mids) (bytes : Nat) : (readSize mids bytes).1 = false := by
  induction mids generalizing bytes with
  | nil => rfl
  | cons cell cells ih =>
    rw [readSize, hmids.head.1]
    exact ih hmids.tail _

theorem readSize_last {total : Nat} (hmids : Mids ds mids) (htotal : last.total = some total)
    (bytes : Nat) : readSize (mids ++ last :: rest) bytes = (true, total) := by
  induction mids generalizing bytes with
  | nil => rw [List.nil_append, readSize, htotal]
  | cons cell cells ih =>
    rw [List.cons_append, readSize, hmids.head.1]
    exact ih hmids.tail _

theorem readSize_frame {frame : StampedFrame} (h : FrameCells ds frame mids last) (bytes : Nat) :
    readSize (mids ++ last :: rest) bytes = (true, frame.data.length) :=
  readSize_last h.full h.total bytes

/-! ## One frame -/

/-- What a read hands over of a frame, under the settings of the port. -/
def deliver (port : RxPort) (frame : StampedFrame) : List Byte :=
  frame.data.take (if port.appendStatus then frame.data.length else frame.data.length - 2) ++
    if port.appendTimestamp then timestampBytes frame.stamp else []

-- What a read call leaves alone.
structure ReadKeeps (port port' : RxPort) : Prop where
  channel : port'.channel = port.channel
  appendStatus : port'.appendStatus = port.appendStatus
  appendTimestamp : port'.appendTimestamp = port.appendTimestamp
  rxMultiple : port'.rxMultiple = port.rxMultiple
  rxNum : port'.rxNum = port.rxNum
  rxFrameSize : port'.rxFrameSize = port.rxFrameSize
  rxBytesInFrame : port'.rxBytesInFrame = port.rxBytesInFrame
  fifoRxDesc : port'.fifoRxDesc = port.fifoRxDesc

theorem ReadKeeps.refl (port : RxPort) : ReadKeeps port port :=
  ⟨rfl, rfl, rfl, rfl, rfl, rfl, rfl, rfl⟩

theorem ReadKeeps.trans {a b c : RxPort} (hab : ReadKeeps a b) (hbc : ReadKeeps b c) :
    ReadKeeps a c :=
  ⟨hbc.1.trans hab.1, hbc.2.trans hab.2, hbc.3.trans hab.3, hbc.4.trans hab.4, hbc.5.trans hab.5,
    hbc.6.trans hab.6, hbc.7.trans hab.7, hbc.8.trans hab.8⟩

theorem ReadKeeps.release (port : RxPort) : ReadKeeps port (releaseUserDesc port) :=
  ⟨rfl, rfl, rfl, rfl, rfl, rfl, rfl, rfl⟩

theorem ReadKeeps.deliver {port port' : RxPort} (h : ReadKeeps port port') (frame : StampedFrame) :
    deliver port' frame = deliver port frame := by
  rw [FsccDriver.deliver, FsccDriver.deliver, h.appendStatus, h.appendTimestamp]

theorem timestampBytes_length (timestamp : BitVec 64) : (timestampBytes timestamp).length = 8 := rfl

-- How many bytes of a frame of `n` bytes a read hands over.
def validLength (port : RxPort) (n : Nat) : Nat := if port.appendStatus then n else n - 2

theorem validLength_le (port : RxPort) (n : Nat) : validLength port n ≤ n := by
  unfold validLength
  split <;> omega

theorem validData_le (port : RxPort) {n : Nat} (htwo : 2 ≤ n) (hlt : n < 536870912) :
    validData port n = validLength port n := by
  unfold validData validLength u32
  split <;> omega

theorem deliver_eq (port : RxPort) (frame : StampedFrame) :
    deliver port frame = frame.data.take (validLength port frame.data.length) ++
      if port.appendTimestamp then timestampBytes frame.stamp else [] := rfl

theorem deliver_length (port : RxPort) (frame : StampedFrame) :
    (deliver port frame).length =
      validLength port frame.data.length + if port.appendTimestamp then 8 else 0 := by
  rw [deliver_eq, List.length_append, List.length_take, apply_ite List.length, timestampBytes_length,
    List.length_nil, Nat.min_eq_left (validLength_le port _)]

theorem le_deliver_length (port : RxPort) (frame : StampedFrame) :
    frame.data.length - 2 ≤ (deliver port frame).length := by
  rw [deliver_length, validLength]
  split <;> omega

theorem bufferRequirement_valid (port : RxPort) {n : Nat} (htwo : 2 ≤ n) (hlt : n < 536870912) :
    bufferRequirement port n = validLength port n + if port.appendTimestamp then 8 else 0 := by
  have hle := validLength_le port n
  rw [bufferRequirement, validData_le port htwo hlt]
  unfold u32
  split <;> omega

theorem bufferRequirement_deliver {port : RxPort} {frame : StampedFrame}
    (htwo : 2 ≤ frame.data.length) (hlt : frame.data.length < 536870912) :
    bufferRequirement port frame.data.length = (deliver port frame).length := by
  rw [bufferRequirement_valid port htwo hlt, deliver_length]

theorem ReadKeeps.validData {port port' : RxPort} (h : ReadKeeps port port') (n : Nat) :
    validData port' n = validData port n := by
  rw [FsccDriver.validData, FsccDriver.validData, h.appendStatus]

theorem ReadKeeps.bufferRequirement {port port' : RxPort} (h : ReadKeeps port port') (n : Nat) :
    bufferRequirement port' n = bufferRequirement port n := by
  rw [FsccDriver.bufferRequirement, FsccDriver.bufferRequirement, h.validData, h.appendTimestamp]

-- At a frame boundary the loop stops, or it goes on with a frame that fits into the buffer.
theorem nextFrame_boundary (bufLength : Nat) {st : ReadLoop} (hbytes : st.bytesInDescs = 0) :
    nextFrame bufLength st = (false, st) ∨
      ∃ size, st.port.rxMultiple = true ∧ fsccUserNextReadSize st.port = (true, size) ∧
        bufferRequirement st.port size ≤ u32 ((bufLength : Int) - st.outLength) ∧
        nextFrame bufLength st = (true, { st with
          bytesInDescs := size, totalValidData := validData st.port size, filledFrameSize := 0 }) := by
  rw [nextFrame, if_pos hbytes]
  by_cases hmultiple : st.port.rxMultiple = true
  · rw [if_neg (not_not.mpr hmultiple)]
    dsimp only
    by_cases hready : (fsccUserNextReadSize st.port).1 = true
    · rw [if_neg (not_not.mpr hready)]
      by_cases hlong : bufferRequirement st.port (fsccUserNextReadSize st.port).2 >
          u32 ((bufLength : Int) - st.outLength)
      · exact Or.inl (if_pos hlong)
      · exact Or.inr ⟨_, hmultiple, Prod.ext hready rfl, Nat.le_of_not_lt hlong, if_neg hlong⟩
    · exact Or.inl (if_pos hready)
  · exact Or.inl (if_pos hmultiple)

-- A descriptor cannot say that it holds `2 ^ 29` bytes or more, so no frame looks as long.
theorem nextReadSizeLoop_lt {port : RxPort} {n curDesc bytes : Nat}
    (h : (nextReadSizeLoop port n curDesc bytes).1 = true) :
    (nextReadSizeLoop port n curDesc bytes).2 < 536870912 := by
  induction n generalizing curDesc bytes with
  | zero => cases h
  | succ n ih =>
    revert h
    rw [nextReadSizeLoop]
    split
    · intro h
      cases h
    · split
      · intro _
        change _ &&& dmaMaxLength < _
        rw [and_dmaMaxLength]
        exact Nat.mod_lt _ (by decide)
      · exact ih

theorem fsccUserReadFrame_tooSmall (hw : Hardware H) (bufLength : Nat) (port : RxPort) (card : H) :
    (fsccUserReadFrame hw bufLength port card).1.status = .bufferTooSmall ↔
      ((fsccUserNextReadSize port).1 = true →
        bufferRequirement port (fsccUserNextReadSize port).2 > bufLength) := by
  unfold fsccUserReadFrame
  generalize fsccUserNextReadSize port = size
  obtain ⟨ready, bytes⟩ := size
  cases ready with
  | false => simp
  | true =>
    by_cases hlong : bufferRequirement port bytes > bufLength
    · simp [hlong]
    · simp [hlong]

theorem nextFrame_single (bufLength : Nat) (st : ReadLoop) (hsingle : st.port.rxMultiple = false) :
    nextFrame bufLength st = (decide (st.bytesInDescs ≠ 0), st) := by
  unfold nextFrame
  by_cases hzero : st.bytesInDescs = 0
  · rw [if_pos hzero, if_pos (by rw [hsingle]; exact Bool.false_ne_true)]
    simp [hzero]
  · rw [if_neg hzero]
    simp [hzero]

section OneFrame

variable {hw : Hardware H} {bufLength : Nat} {frame : StampedFrame} {s : H}

-- Induction over the full descriptors: each round moves what is still valid of one of them.
theorem readFrameLoop_mids (hw : Hardware H) (bufLength : Nat) (s : H) (st : ReadLoop)
    (hmids : Mids ds mids)
    (h : RxRing ds (mids ++ last :: rest) held st.port) {k : Nat} (hk : 0 < k)
    (hbytes : st.bytesInDescs = ds * mids.length + k)
    (hfilled : st.filledFrameSize + st.bytesInDescs < 4294967296)
    (hout : st.outLength + st.totalValidData < 4294967296) :
    ∃ port', RxRing ds (last :: rest) held port' ∧ ReadKeeps st.port port' ∧
      ∀ n, readFrameLoop hw bufLength (mids.length + n) st s =
        readFrameLoop hw bufLength n
          { port := port', bytesInDescs := k
            totalValidData := st.totalValidData - min (ds * mids.length) st.totalValidData
            filledFrameSize := st.filledFrameSize + min (ds * mids.length) st.totalValidData
            outLength := st.outLength + min (ds * mids.length) st.totalValidData
            out := st.out ++ (cellBytes mids).take st.totalValidData } s := by
  induction mids generalizing st with
  | nil =>
    refine ⟨st.port, h, ReadKeeps.refl _, fun n ↦ ?_⟩
    rw [List.length_nil, Nat.mul_zero, Nat.zero_add] at hbytes
    rw [← hbytes]
    simp
  | cons cell cells ih =>
    rw [List.length_cons, Nat.mul_add_one] at hbytes
    obtain ⟨htotal, hfull⟩ := hmids.head
    have hcount : st.port.userDesc.dataCount = ds := by
      rw [h.userDesc.dataCount, htotal]
      exact hfull
    obtain ⟨port', hring, hkeeps, hloop⟩ := ih
      { port := releaseUserDesc st.port, bytesInDescs := st.bytesInDescs - ds
        totalValidData := st.totalValidData - min ds st.totalValidData
        filledFrameSize := st.filledFrameSize + min ds st.totalValidData
        outLength := st.outLength + min ds st.totalValidData
        out := st.out ++ cell.bytes.take (min ds st.totalValidData) }
      hmids.tail (h.release hcount) (by dsimp only; omega) (by dsimp only; omega)
      (by dsimp only; omega)
    refine ⟨port', hring, (ReadKeeps.release _).trans hkeeps, fun n ↦ ?_⟩
    rw [List.length_cons, Nat.add_right_comm, readFrameLoop, readFrameStep_mid h.userDesc.cellDesc htotal hfull
      (by omega) (by omega) (by omega)]
    refine (hloop n).trans ?_
    have htake : cell.bytes.take (min ds st.totalValidData) ++
        (cellBytes cells).take (st.totalValidData - min ds st.totalValidData) =
          (cell.bytes ++ cellBytes cells).take st.totalValidData := by
      rw [List.take_append, hfull]
      congr 1
      · rw [← hfull, Nat.min_comm, ← List.take_take, List.take_length]
      · congr 1
        omega
    dsimp only
    rw [List.append_assoc, htake, Nat.mul_add_one, cellBytes_cons]
    congr 2 <;> omega

variable (hw s) in
/-- At the end of a frame the timestamp goes behind the data: the one of the descriptor, if there is
one. -/
theorem appendTimestamp_end (st : ReadLoop) (hbytes : st.bytesInDescs = 0)
    (hout : st.outLength + (if st.port.appendTimestamp then 8 else 0) < 4294967296) :
    ∃ stamp s', (st.port.userDesc.timestamp ≠ 0 → stamp = st.port.userDesc.timestamp ∧ s' = s) ∧
      appendTimestamp hw st s =
        ({ st with
          outLength := st.outLength + if st.port.appendTimestamp then 8 else 0
          out := st.out ++ if st.port.appendTimestamp then timestampBytes stamp else [] }, s') := by
  unfold appendTimestamp
  by_cases happend : st.port.appendTimestamp = true
  · rw [if_pos happend] at hout
    rw [if_pos ⟨hbytes, happend⟩, if_pos happend]
    have hnext : u32 ((st.outLength : Int) + 8) = st.outLength + 8 := u32_add_of_lt hout
    by_cases hstamp : st.port.userDesc.timestamp = 0
    · refine ⟨(hw.keQuerySystemTime s).1, (hw.keQuerySystemTime s).2, fun hne ↦ absurd hstamp hne, ?_⟩
      rw [if_pos hstamp, if_pos happend]
      dsimp only
      rw [hnext]
    · refine ⟨st.port.userDesc.timestamp, s, fun _ ↦ ⟨rfl, rfl⟩, ?_⟩
      rw [if_neg hstamp, if_pos happend]
      dsimp only
      rw [hnext]
  · rw [if_neg (fun h ↦ happend h.2), if_neg happend]
    refine ⟨st.port.userDesc.timestamp, s, fun _ ↦ ⟨rfl, rfl⟩, ?_⟩
    rw [if_neg happend, List.append_nil, Nat.add_zero]

-- It was taken when the descriptor was finished.
theorem appendTimestamp_stamped (st : ReadLoop) (hdesc : FinishedDesc ds last st.port.userDesc)
    (hstamp : last.stamp ≠ 0) (hbytes : st.bytesInDescs = 0)
    (hout : st.outLength + (if st.port.appendTimestamp then 8 else 0) < 4294967296) :
    appendTimestamp hw st s =
      ({ st with
        outLength := st.outLength + if st.port.appendTimestamp then 8 else 0
        out := st.out ++ if st.port.appendTimestamp then timestampBytes last.stamp else [] },
        s) := by
  obtain ⟨stamp, s', hkept, happend⟩ := appendTimestamp_end hw s st hbytes hout
  rw [hdesc.timestamp] at hkept
  obtain ⟨rfl, rfl⟩ := hkept hstamp
  exact happend

theorem readFrameStep_end {st : ReadLoop} (h : RxRing ds (last :: rest) held st.port) {total : Nat}
    (htotal : last.total = some total) (hlt : total < 536870912)
    (hfilled : st.filledFrameSize ≤ total) (hbytes : st.bytesInDescs ≤ total - st.filledFrameSize)
    (hvalid : st.totalValidData ≤ total - st.filledFrameSize)
    (hhere : st.totalValidData ≤ last.bytes.length) (hstamp : last.stamp ≠ 0)
    (hout : st.outLength + st.totalValidData + (if st.port.appendTimestamp then 8 else 0) <
      4294967296) :
    readFrameStep hw bufLength st s =
      let (again, st') := nextFrame bufLength
        { port := releaseUserDesc st.port, bytesInDescs := 0, totalValidData := 0
          filledFrameSize := st.filledFrameSize + st.totalValidData
          outLength :=
            st.outLength + st.totalValidData + if st.port.appendTimestamp then 8 else 0
          out := st.out ++ last.bytes.take st.totalValidData ++
            if st.port.appendTimestamp then timestampBytes last.stamp else [] }
      (again, st', s) := by
  rw [readFrameStep_last h.userDesc.cellDesc htotal hlt hfilled hbytes hvalid hhere (by omega),
    appendTimestamp_stamped (lastMove st last) h.userDesc hstamp rfl hout]
  rfl

/-- The reader at a frame boundary: it has taken `frame` out and left the ring at `port'`. -/
def frameTaken (st : ReadLoop) (port' : RxPort) (filled : Nat) (frame : StampedFrame) : ReadLoop :=
  { port := port', bytesInDescs := 0, totalValidData := 0, filledFrameSize := filled
    outLength := st.outLength + (deliver st.port frame).length
    out := st.out ++ deliver st.port frame }

structure FrameStart (frame : StampedFrame) (bufLength : Nat) (st : ReadLoop) : Prop where
  bytesInDescs : st.bytesInDescs = frame.data.length
  totalValidData : st.totalValidData = validData st.port frame.data.length
  filledFrameSize : st.filledFrameSize = 0
  outLength : st.outLength = st.out.length
  fits : st.outLength + (deliver st.port frame).length ≤ bufLength
  bufLength_lt : bufLength < 4294967296

theorem readFrameLoop_frame (hw : Hardware H) (s : H) {st : ReadLoop}
    (hframe : FrameCells ds frame mids last)
    (h : RxRing ds (mids ++ last :: rest) held st.port) (hstart : FrameStart frame bufLength st) :
    ∃ port' filled, RxRing ds rest held port' ∧ ReadKeeps st.port port' ∧
      ∀ n, readFrameLoop hw bufLength (mids.length + (n + 1)) st s =
        match nextFrame bufLength (frameTaken st port' filled frame) with
        | (true, st') => readFrameLoop hw bufLength n st' s
        | (false, st') => (st', s) := by
  have htwo := hframe.two_le
  have hlt := hframe.length_lt
  have hdata : ds * mids.length + last.bytes.length = frame.data.length := by
    rw [← hframe.data, List.length_append, hframe.full.bytes_length]
  have hvalid := validData_le st.port htwo hlt
  have hfits := hstart.fits
  have hbuf := hstart.bufLength_lt
  have hlength : (deliver st.port frame).length =
      st.totalValidData + if st.port.appendTimestamp then 8 else 0 := by
    rw [hstart.totalValidData, hvalid]
    exact deliver_length st.port frame
  have hle : st.totalValidData ≤ frame.data.length := by
    rw [hstart.totalValidData, hvalid]
    exact validLength_le st.port _
  rw [hlength] at hfits
  obtain ⟨port₁, hring, hkeeps, hloop⟩ := readFrameLoop_mids hw
    bufLength s st hframe.full h hframe.nonempty (by rw [hstart.bytesInDescs, hdata])
    (by rw [hstart.bytesInDescs, hstart.filledFrameSize]; omega) (by omega)
  have hcount : port₁.userDesc.dataCount = ds := by
    rw [hring.userDesc.dataCount, hframe.total]
    rfl
  refine ⟨releaseUserDesc port₁, st.totalValidData, hring.release hcount,
    hkeeps.trans (ReadKeeps.release _), fun n ↦ ?_⟩
  have hzero := hstart.filledFrameSize
  have htake : (cellBytes mids).take st.totalValidData ++
      last.bytes.take (st.totalValidData - min (ds * mids.length) st.totalValidData) =
        frame.data.take st.totalValidData := by
    rw [← hframe.data, List.take_append, hframe.full.bytes_length]
    congr 2
    omega
  rw [hloop, readFrameLoop, readFrameStep_end hring hframe.total hlt (by dsimp only; omega)
    (by dsimp only; omega) (by dsimp only; omega) (by dsimp only; omega)
    (by rw [hframe.stamp]; exact hframe.stamp_ne)
    (by dsimp only; rw [hkeeps.appendTimestamp]; omega)]
  have htaken : frameTaken st (releaseUserDesc port₁) st.totalValidData frame =
      { port := releaseUserDesc port₁, bytesInDescs := 0, totalValidData := 0
        filledFrameSize := st.totalValidData
        outLength := st.outLength + st.totalValidData + if st.port.appendTimestamp then 8 else 0
        out := st.out ++ frame.data.take st.totalValidData ++
          if st.port.appendTimestamp then timestampBytes frame.stamp else [] } := by
    rw [frameTaken, hlength, Nat.add_assoc, List.append_assoc, deliver_eq, ← hvalid,
      hstart.totalValidData]
  have hmin : min (ds * mids.length) st.totalValidData +
      (st.totalValidData - min (ds * mids.length) st.totalValidData) = st.totalValidData := by omega
  rw [htaken, ← htake]
  simp only [hkeeps.appendTimestamp, hframe.stamp, hzero, Nat.zero_add, Nat.add_assoc,
    List.append_assoc, hmin]
  generalize nextFrame bufLength _ = next
  obtain ⟨again, st'⟩ := next
  cases again <;> rfl

end OneFrame

/-! ## A whole read -/

/-- The ring holds the finished frames `ready`, then an unfinished one: the full descriptors `mids`
and `held` bytes in the open descriptor. -/
def HoldsFrames (ds : Nat) (ready : List StampedFrame) (mids : List Cell) (held : List Byte)
    (port : RxPort) : Prop :=
  ∃ cells, ReadyCells ds ready cells ∧ Mids ds mids ∧ RxRing ds (cells ++ mids) held port

-- All a read does to the card is to look at its clock.
theorem fsccUserReadFrame_clock {hw : Hardware H} {P : H → Prop}
    (hclock : ∀ s, P s → P (hw.keQuerySystemTime s).2) (bufLength : Nat) (port : RxPort) {s : H}
    (hs : P s) : P (fsccUserReadFrame hw bufLength port s).2.2 := by
  have hstep : ∀ st s, P s → P (readFrameStep hw bufLength st s).2.2 := by
    intro st s hs
    show P (appendTimestamp hw (moveData st) s).2
    rw [appendTimestamp]
    split
    · dsimp only
      split
      · exact hclock s hs
      · exact hs
    · exact hs
  have hloop : ∀ n st s, P s → P (readFrameLoop hw bufLength n st s).2 := by
    intro n
    induction n with
    | zero => exact fun _ _ hs ↦ hs
    | succ n ih =>
      intro st s hs
      have hnext := hstep st s hs
      rw [readFrameLoop]
      generalize readFrameStep hw bufLength st s = round at hnext
      obtain ⟨again, st', s'⟩ := round
      cases again with
      | false => exact hnext
      | true => exact ih st' s' hnext
  rw [fsccUserReadFrame]
  dsimp only
  split
  · exact hs
  · split
    · exact hs
    · exact hloop _ _ s hs

section WholeRead

variable {hw : Hardware H} {bufLength : Nat} {frame : StampedFrame} {s : H} {port : RxPort}
  {frames ready : List StampedFrame}

theorem fsccUserNextReadSize_ready {cells : List Cell} (hready : ReadyCells ds ready cells)
    (hmids : Mids ds mids) (h : RxRing ds (cells ++ mids) held port) :
    (ready = [] ∧ (fsccUserNextReadSize port).1 = false) ∨
      ∃ frame frames, ready = frame :: frames ∧
        fsccUserNextReadSize port = (true, frame.data.length) := by
  rw [fsccUserNextReadSize_ring h]
  cases hready with
  | nil => exact Or.inl ⟨rfl, readSize_mids hmids 0⟩
  | cons hframe hframes =>
    refine Or.inr ⟨_, _, rfl, ?_⟩
    rw [List.append_assoc, List.cons_append]
    exact readSize_frame hframe 0

theorem ReadyCells.head_bounds {cells : List Cell} (h : ReadyCells ds (frame :: frames) cells) :
    2 ≤ frame.data.length ∧ frame.data.length < 536870912 := by
  cases h with
  | cons hframe _ => exact ⟨hframe.two_le, hframe.length_lt⟩

theorem nextFrame_cases {cells : List Cell} (st : ReadLoop) (hready : ReadyCells ds frames cells)
    (hmids : Mids ds mids) (h : RxRing ds (cells ++ mids) held st.port)
    (hbytes : st.bytesInDescs = 0) (hout : st.outLength = st.out.length)
    (hle : st.outLength ≤ bufLength) (hbuf : bufLength < 4294967296) :
    nextFrame bufLength st = (false, st) ∨
      ∃ frame' frames' st', frames = frame' :: frames' ∧ st.port.rxMultiple = true ∧
        nextFrame bufLength st = (true, st') ∧ st'.port = st.port ∧ st'.out = st.out ∧
        FrameStart frame' bufLength st' := by
  rcases nextFrame_boundary bufLength hbytes with hstop | ⟨size, hmultiple, hsize, hfits, hnext⟩
  · exact Or.inl hstop
  · rcases fsccUserNextReadSize_ready hready hmids h with ⟨-, hnone⟩ | ⟨frame', frames', rfl, hsize'⟩
    · rw [hsize] at hnone
      cases hnone
    · obtain rfl : size = frame'.data.length := (Prod.mk.inj (hsize.symm.trans hsize')).2
      obtain ⟨htwo, hlt⟩ := hready.head_bounds
      rw [bufferRequirement_deliver htwo hlt, u32_sub_of_le hbuf hle] at hfits
      refine Or.inr ⟨frame', frames', _, rfl, hmultiple, hnext, rfl, rfl, rfl, rfl, rfl, hout, ?_, hbuf⟩
      show st.outLength + (deliver st.port frame').length ≤ bufLength
      omega

-- Induction over the finished frames; the rounds left cover every descriptor of theirs.
theorem readFrameLoop_ready (hw : Hardware H) (s : H) {cells : List Cell} (st : ReadLoop)
    (hready : ReadyCells ds (frame :: frames) cells) (hmids : Mids ds mids)
    (h : RxRing ds (cells ++ mids) held st.port) (hstart : FrameStart frame bufLength st)
    {n : Nat} (hn : cells.length ≤ n) :
    ∃ st' batch rest, readFrameLoop hw bufLength n st s = (st', s) ∧
      HoldsFrames ds rest mids held st'.port ∧ ReadKeeps st.port st'.port ∧
      st'.outLength = st'.out.length ∧ st'.outLength ≤ bufLength ∧
      frame :: frames = batch ++ rest ∧ batch ≠ [] ∧
      (st.port.rxMultiple = false → batch.length = 1) ∧
      st'.out = st.out ++ batch.flatMap (deliver st.port) := by
  generalize hframes : frame :: frames = all at hready
  induction hready generalizing frame frames st n with
  | nil => cases hframes
  | @cons _ _ mids₁ last rest hframe hrest ih =>
    obtain ⟨rfl, rfl⟩ := List.cons_eq_cons.mp hframes
    rw [List.append_assoc, List.cons_append] at h
    rw [List.length_append, List.length_cons] at hn
    obtain ⟨port', filled, hring, hkeeps, hloop⟩ := readFrameLoop_frame hw s hframe
      h hstart
    obtain ⟨m, rfl⟩ : ∃ m, n = mids₁.length + (m + 1) :=
      ⟨n - mids₁.length - 1, by omega⟩
    have hout : (frameTaken st port' filled frame).outLength =
        (frameTaken st port' filled frame).out.length := by
      simp only [frameTaken, List.length_append, hstart.outLength]
    rcases nextFrame_cases (frameTaken st port' filled frame) hrest hmids hring rfl hout
        hstart.fits hstart.bufLength_lt with hstop | ⟨frame', frames', st', rfl, hmultiple, hnext,
        hport, hsame, hstart'⟩
    · refine ⟨_, [frame], frames, by rw [hloop, hstop], ⟨rest, hrest, hmids, hring⟩, hkeeps, hout,
        hstart.fits, rfl, List.cons_ne_nil _ _, fun _ ↦ rfl, ?_⟩
      simp only [frameTaken, List.flatMap_cons, List.flatMap_nil, List.append_nil]
    · obtain ⟨st₂, batch, left, hrun, hholds, hkeeps₂, hlen₂, hle₂, hsplit, -, -, hout₂⟩ :=
        ih st' (n := m) (hport ▸ hring) hstart' (by omega) rfl
      have hport' : st'.port = port' := hport
      rw [hport'] at hkeeps₂ hout₂
      have hdeliver : deliver port' = deliver st.port := funext hkeeps.deliver
      refine ⟨st₂, frame :: batch, left, by rw [hloop, hnext]; exact hrun, hholds,
        hkeeps.trans hkeeps₂, hlen₂, hle₂, by rw [hsplit, List.cons_append],
        List.cons_ne_nil _ _, fun hsingle ↦ ?_, ?_⟩
      · have hset : port'.rxMultiple = true := hmultiple
        rw [hkeeps.rxMultiple, hsingle] at hset
        exact absurd hset Bool.false_ne_true
      · rw [hout₂, hsame, hdeliver, frameTaken, List.flatMap_cons, List.append_assoc]

-- The two reasons for which a read fails.
def Refused (port : RxPort) (bufLength : Nat) : Prop :=
  (fsccUserNextReadSize port).1 = false ∨
    bufLength < bufferRequirement port (fsccUserNextReadSize port).2

-- Seen from the frames in the ring: there is none, or the first one does not fit.
theorem Refused.pending {mids : List Cell} {held : List Byte} (hrefused : Refused port bufLength)
    (h : HoldsFrames ds ready mids held port) :
    ∀ frame ∈ ready.head?, bufLength < (deliver port frame).length := by
  obtain ⟨cells, hready, hmids, hring⟩ := h
  intro frame hframe
  rcases fsccUserNextReadSize_ready hready hmids hring with ⟨rfl, -⟩ | ⟨first, frames, rfl, hsize⟩
  · cases hframe
  · cases hframe
    obtain ⟨htwo, hlt⟩ := hready.head_bounds
    rw [Refused, hsize, bufferRequirement_deliver htwo hlt] at hrefused
    exact hrefused.resolve_left Bool.noConfusion

/-- What a call of `fscc_user_read_frame` does to a ring that holds `ready`: it fails and changes
nothing, or it takes a run of whole frames off the front. -/
theorem fsccUserReadFrame_spec (hw : Hardware H) (s : H) {mids : List Cell} {held : List Byte}
    (h : HoldsFrames ds ready mids held port) (hbuf : bufLength < 4294967296) :
    ∃ result port', fsccUserReadFrame hw bufLength port s = (result, port', s) ∧
      ReadKeeps port port' ∧
      ((Refused port bufLength ∧ result = ⟨.bufferTooSmall, [], 0⟩ ∧ port' = port) ∨
        (result.status = .success ∧ result.outLength = result.out.length ∧
          result.out.length ≤ bufLength ∧
          ∃ batch rest, ready = batch ++ rest ∧ batch ≠ [] ∧
            (port.rxMultiple = false → batch.length = 1) ∧
            result.out = batch.flatMap (deliver port) ∧ HoldsFrames ds rest mids held port')) := by
  obtain ⟨cells, hready, hmids, hring⟩ := h
  unfold fsccUserReadFrame
  rcases fsccUserNextReadSize_ready hready hmids hring with ⟨-, hnone⟩ | ⟨frame, frames, rfl, hsize⟩
  · refine ⟨_, port, ?_, ReadKeeps.refl port, Or.inl ⟨Or.inl hnone, rfl, rfl⟩⟩
    simp only [hnone, Bool.false_eq_true, not_false_eq_true, if_true]
  · obtain ⟨htwo, hlt⟩ := hready.head_bounds
    simp only [hsize, not_true_eq_false, if_false, bufferRequirement_deliver htwo hlt]
    by_cases hfits : (deliver port frame).length > bufLength
    · refine ⟨_, port, if_pos hfits, ReadKeeps.refl port, Or.inl ⟨Or.inr ?_, rfl, rfl⟩⟩
      rwa [hsize, bufferRequirement_deliver htwo hlt]
    · have hstart : FrameStart frame bufLength (readFrameStart port frame.data.length) :=
        ⟨rfl, rfl, rfl, rfl, by
          change 0 + (deliver port frame).length ≤ _
          omega, hbuf⟩
      have hcells : cells.length ≤ port.rxNum := by
        have hle := hring.cells_le
        rw [List.length_append] at hle
        omega
      obtain ⟨st', batch, rest, hrun, hholds, hkeeps, hlen, hle, hsplit, hne, hone, hout⟩ :=
        readFrameLoop_ready hw s (readFrameStart port frame.data.length) hready hmids hring
          hstart hcells
      refine ⟨⟨.success, st'.out, st'.outLength⟩, st'.port, ?_, hkeeps, Or.inr ⟨rfl, hlen,
        hlen ▸ hle, batch, rest, hsplit, hne, hone, hout, hholds⟩⟩
      rw [if_neg hfits, hrun]

end WholeRead

end FsccDriver

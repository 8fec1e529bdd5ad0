import FsccDriver.DmaRing
import Mathlib.Data.List.Forall2
import Mathlib.Data.List.Infix

/-!
# DmaReceive — reads of whole frames in DMA mode

A call is somewhere in a frame between two of its rounds.  As long as the rounds that are left reach
the end of that frame, it is handed over whole, whatever the engine fills meanwhile.
-/

namespace FsccDriver

open Words

variable {H : Type} {hw : Hardware H} {s : H} {ds gone : Nat} {port : RxPort} {call : ReadCall}
  {batch : List StampedFrame} {data : List Byte} {left rest : List Cell} {cell last : Cell}

/-! ## Between two rounds -/

/-- The call has handed over the frames `batch` and taken the descriptors of the first `gone` bytes of
the frame `data`; those of the others are `left` and `last`. -/
structure Reading (ds : Nat) (call : ReadCall) (port : RxPort) (batch : List StampedFrame)
    (data : List Byte) (gone : Nat) (left : List Cell) (last : Cell) : Prop where
  keeps : ReadKeeps call.port port
  full : Mids ds left
  total : last.total = some data.length
  nonempty : 0 < last.bytes.length
  rest : cellBytes left ++ last.bytes = data.drop gone
  two_le : 2 ≤ data.length
  length_lt : data.length < 536870912
  bytesInDescs : call.st.bytesInDescs = data.length - gone
  totalValidData : call.st.totalValidData = validLength call.port data.length - gone
  filledFrameSize : call.st.filledFrameSize = min gone (validLength call.port data.length)
  out : call.st.out = batch.flatMap (deliver call.port) ++
    data.take (min gone (validLength call.port data.length))
  outLength : call.st.outLength = call.st.out.length
  fits : (batch.flatMap (deliver call.port)).length + (validLength call.port data.length +
    if call.port.appendTimestamp then 8 else 0) ≤ call.bufLength
  bufLength_lt : call.bufLength < 4294967296
  rounds_le : call.rounds ≤ call.port.rxNum
  single : call.port.rxMultiple = false → batch = [] ∧ left.length + 1 ≤ call.rounds

theorem Reading.length (h : Reading ds call port batch data gone left last) :
    ds * left.length + last.bytes.length = data.length - gone := by
  have hlength := congrArg List.length h.rest
  rwa [List.length_append, h.full.bytes_length, List.length_drop] at hlength

theorem Reading.st_outLength (h : Reading ds call port batch data gone left last) :
    call.st.outLength = (batch.flatMap (deliver call.port)).length +
      min gone (validLength call.port data.length) := by
  have hle := validLength_le call.port data.length
  rw [h.outLength, h.out, List.length_append, List.length_take]
  omega

theorem Reading.same {port' : RxPort} (h : Reading ds call port batch data gone left last)
    (hkeeps : ReadKeeps port port') : Reading ds call port' batch data gone left last :=
  { h with keeps := h.keeps.trans hkeeps }

-- What has been moved and what this descriptor adds to it.
theorem take_moved (data : List Byte) (gone ds valid : Nat) :
    data.take (min gone valid) ++ ((data.drop gone).take ds).take (min ds (valid - gone)) =
      data.take (min (gone + ds) valid) := by
  by_cases hle : gone ≤ valid
  · have hmore : min (min ds (valid - gone)) ds = min ds (valid - gone) := by omega
    have hsum : min (gone + ds) valid = gone + min ds (valid - gone) := by omega
    rw [Nat.min_eq_left hle, List.take_take, hmore, hsum, List.take_add]
  · have hzero : min ds (valid - gone) = 0 := by omega
    rw [hzero, List.take_zero, List.append_nil]
    congr 1
    omega

variable (hw s) in
/-- A round over a full descriptor goes on with the rest of the frame. -/
theorem Reading.mid (h : Reading ds call port batch data gone (cell :: left) last)
    (hdesc : CellDesc cell port.userDesc) (hrounds : left.length + 2 ≤ call.rounds) :
    ∃ st, readFrameStep hw call.bufLength { call.st with port } s = (true, st, s) ∧
      st.port = releaseUserDesc port ∧
      Reading ds { call with rounds := call.rounds - 1, st } (releaseUserDesc port) batch data
        (gone + ds) left last := by
  obtain ⟨hnone, hfull⟩ := h.full.head
  have hlength := h.length
  rw [List.length_cons, Nat.mul_add_one] at hlength
  have hnonempty := h.nonempty
  have hlt := h.length_lt
  have hvalid := validLength_le call.port data.length
  have hout := h.st_outLength
  have hfits := h.fits
  have hbuf := h.bufLength_lt
  have hbytes := h.bytesInDescs
  have htotal := h.totalValidData
  have hfilled := h.filledFrameSize
  have hcell : cell.bytes = (data.drop gone).take ds := by
    rw [← h.rest, cellBytes_cons, List.append_assoc, List.take_left' hfull]
  refine ⟨_, readFrameStep_mid hdesc hnone hfull (by dsimp only; omega) (by dsimp only; omega)
    (by dsimp only; omega), rfl, ?_⟩
  refine ⟨h.keeps.trans (ReadKeeps.release port), h.full.tail, h.total, h.nonempty, ?_, h.two_le,
    h.length_lt, ?_, ?_, ?_, ?_, ?_, h.fits, h.bufLength_lt,
    Nat.le_trans (Nat.sub_le _ _) h.rounds_le, ?_⟩
  · rw [← List.drop_drop, ← h.rest, cellBytes_cons, List.append_assoc, List.drop_left' hfull]
  · show call.st.bytesInDescs - ds = data.length - (gone + ds)
    omega
  · show call.st.totalValidData - min ds call.st.totalValidData =
      validLength call.port data.length - (gone + ds)
    omega
  · show call.st.filledFrameSize + min ds call.st.totalValidData =
      min (gone + ds) (validLength call.port data.length)
    omega
  · show call.st.out ++ cell.bytes.take (min ds call.st.totalValidData) = _
    rw [h.out, htotal, hcell, List.append_assoc, take_moved]
  · show call.st.outLength + min ds call.st.totalValidData =
      (call.st.out ++ cell.bytes.take (min ds call.st.totalValidData)).length
    rw [List.length_append, List.length_take, h.outLength, hfull]
    omega
  · intro hsingle
    obtain ⟨hfirst, -⟩ := h.single hsingle
    refine ⟨hfirst, ?_⟩
    show left.length + 1 ≤ call.rounds - 1
    omega

variable (hw s) in
/-- The round over the last descriptor hands the frame over and leaves the reader at a boundary. -/
theorem Reading.ends (h : Reading ds call port batch data gone [] last)
    (hdesc : CellDesc last port.userDesc) :
    ∃ (frame : StampedFrame) (card : H) (st : ReadLoop), frame.data = data ∧
      st.port = releaseUserDesc port ∧ st.bytesInDescs = 0 ∧
      st.out = (batch ++ [frame]).flatMap (deliver call.port) ∧
      st.outLength = st.out.length ∧ st.out.length ≤ call.bufLength ∧
      readFrameStep hw call.bufLength { call.st with port } s =
        ((nextFrame call.bufLength st).1, (nextFrame call.bufLength st).2, card) := by
  have hlength := h.length
  rw [List.length_nil, Nat.mul_zero, Nat.zero_add] at hlength
  have hnonempty := h.nonempty
  have hvalid := validLength_le call.port data.length
  have hstOut := h.st_outLength
  have hfits := h.fits
  have hbuf := h.bufLength_lt
  have hbytes := h.bytesInDescs
  have htotal := h.totalValidData
  have hfilled := h.filledFrameSize
  have hstamped : port.appendTimestamp = call.port.appendTimestamp := h.keeps.appendTimestamp
  have hbytesLast : last.bytes = data.drop gone := by
    have hrest := h.rest
    rwa [cellBytes_nil, List.nil_append] at hrest
  have hstep : readFrameStep hw call.bufLength { call.st with port } s = _ :=
    readFrameStep_last hdesc h.total h.length_lt (by dsimp only; omega)
      (by dsimp only; omega) (by dsimp only; omega) (by dsimp only; omega) (by dsimp only; omega)
  obtain ⟨stamp, card, -, hstamp⟩ := appendTimestamp_end hw s
    (lastMove { call.st with port } last) rfl (by
      show call.st.outLength + call.st.totalValidData + (if port.appendTimestamp then 8 else 0) < _
      rw [hstamped]
      omega)
  rw [hstamp] at hstep
  have hdata : data.take (min gone (validLength call.port data.length)) ++
      last.bytes.take call.st.totalValidData =
        data.take (validLength call.port data.length) := by
    have hmoved := take_moved data gone (data.length - gone) (validLength call.port data.length)
    have hall : (data.drop gone).take (data.length - gone) = data.drop gone :=
      List.take_of_length_le (Nat.le_of_eq List.length_drop)
    have hleft : min (data.length - gone) (validLength call.port data.length - gone) =
        call.st.totalValidData := by omega
    have hend : min (gone + (data.length - gone)) (validLength call.port data.length) =
        validLength call.port data.length := by omega
    rwa [hall, hleft, hend, ← hbytesLast] at hmoved
  let frame : StampedFrame := ⟨data, stamp⟩
  let st : ReadLoop :=
    { port := releaseUserDesc port, bytesInDescs := 0, totalValidData := 0
      filledFrameSize := call.st.filledFrameSize + call.st.totalValidData
      outLength := call.st.outLength + call.st.totalValidData + if port.appendTimestamp then 8 else 0
      out := call.st.out ++ last.bytes.take call.st.totalValidData ++
        if port.appendTimestamp then timestampBytes stamp else [] }
  have hout : st.out = (batch ++ [frame]).flatMap (deliver call.port) := by
    show call.st.out ++ last.bytes.take call.st.totalValidData ++
      (if port.appendTimestamp then timestampBytes stamp else []) = _
    rw [h.out, hstamped, List.append_assoc, List.append_assoc, ← List.append_assoc (data.take _), hdata,
      List.flatMap_append, List.flatMap_singleton, deliver]
    rfl
  have houtLength : st.out.length = (batch.flatMap (deliver call.port)).length +
      (validLength call.port data.length + if call.port.appendTimestamp then 8 else 0) := by
    rw [hout, List.flatMap_append, List.flatMap_singleton, List.length_append, deliver_length]
  refine ⟨frame, card, st, rfl, rfl, rfl, hout, ?_, ?_, hstep⟩
  · rw [houtLength]
    show call.st.outLength + call.st.totalValidData + (if port.appendTimestamp then 8 else 0) = _
    rw [hstamped]
    omega
  · rw [houtLength]
    exact h.fits

/-! ## The next frame -/

-- The first round of a frame that fits into the buffer.
theorem Reading.begin {mids : List Cell} (hcells : DmaCells ds data mids last)
    (hkeeps : ReadKeeps call.port port)
    (hstart : call.st.bytesInDescs = data.length ∧
      call.st.totalValidData = validData call.port data.length ∧ call.st.filledFrameSize = 0)
    (hout : call.st.out = batch.flatMap (deliver call.port))
    (houtLength : call.st.outLength = call.st.out.length)
    (hfits : call.st.outLength + bufferRequirement call.port data.length ≤ call.bufLength)
    (hbuf : call.bufLength < 4294967296) (hrounds : call.rounds ≤ call.port.rxNum)
    (hsingle : call.port.rxMultiple = false → batch = [] ∧ mids.length + 1 ≤ call.rounds) :
    Reading ds call port batch data 0 mids last := by
  obtain ⟨hbytes, hvalid, hfilled⟩ := hstart
  rw [validData_le _ hcells.two_le hcells.length_lt] at hvalid
  rw [bufferRequirement_valid _ hcells.two_le hcells.length_lt, houtLength, hout] at hfits
  refine ⟨hkeeps, hcells.full, hcells.total, hcells.nonempty, ?_, hcells.two_le, hcells.length_lt, ?_,
    hvalid, ?_, ?_, houtLength, hfits, hbuf, hrounds, hsingle⟩
  · rw [hcells.bytes, List.drop_zero]
  · rw [hbytes, Nat.sub_zero]
  · rw [hfilled, Nat.zero_min]
  · rw [hout, Nat.zero_min, List.take_zero, List.append_nil]

-- A size that `fscc_user_next_read_size` returns is that of the first frame.
theorem nextReadSize_frame {ready : List (List Byte)} {cells mids : List Cell} {size : Nat}
    (h : HoldsCells (cells ++ mids) port) (hready : DmaReady ds ready cells) (hmids : Mids ds mids)
    (hsize : fsccUserNextReadSize port = (true, size)) :
    ∃ data ready' mids' last rest, ready = data :: ready' ∧ cells = mids' ++ last :: rest ∧
      size = data.length ∧ DmaCells ds data mids' last ∧ DmaReady ds ready' rest := by
  rw [fsccUserNextReadSize_cells h] at hsize
  cases hready with
  | nil =>
    rw [List.nil_append] at hsize
    have hnone := readSize_mids hmids 0
    rw [hsize] at hnone
    cases hnone
  | cons hcells hrest =>
    rw [List.append_assoc, List.cons_append, readSize_last hcells.full hcells.total] at hsize
    exact ⟨_, _, _, _, _, rfl, rfl, (Prod.mk.inj hsize).2.symm, hcells, hrest⟩

/-! ## What a read call may return -/

/-- What a read call of a ring may return: nothing, when no frame is ready or the first one does not
fit, or the frames `batch`, one unless `rx_multiple` is set, each as the settings of the port ask for
it. -/
inductive FrameRead.Returned (read : FrameRead) : List StampedFrame → Prop where
  | refused : Refused read.port read.bufLength → read.result = ⟨.bufferTooSmall, [], 0⟩ → read.Returned []
  | success {batch : List StampedFrame} : read.result.status = .success → batch ≠ [] →
      (read.port.rxMultiple = false → batch.length = 1) →
      read.result.out = batch.flatMap (deliver read.port) →
      read.result.outLength = read.result.out.length → read.Returned batch

/-- The reads handed over exactly the frames `frames`, in order. -/
def Delivered (reads : List FrameRead) (frames : List (List Byte)) : Prop :=
  ∃ batches : List (List StampedFrame), List.Forall₂ FrameRead.Returned reads batches ∧
    batches.flatten.map StampedFrame.data = frames

theorem Delivered.concat {reads : List FrameRead} {frames : List (List Byte)} {read : FrameRead}
    {batch : List StampedFrame} (h : Delivered reads frames) (hread : read.Returned batch) :
    Delivered (reads ++ [read]) (frames ++ batch.map StampedFrame.data) := by
  obtain ⟨batches, hall, hflat⟩ := h
  refine ⟨batches ++ [batch], List.rel_append hall (List.Forall₂.cons hread List.Forall₂.nil), ?_⟩
  rw [List.flatten_append, List.map_append, hflat, List.flatten_cons, List.flatten_nil,
    List.append_nil]

/-! ## The invariant of a run -/

/-- Nothing is pending between two calls; within one, the frames it has handed over and the frame it
is reading are. -/
inductive InCall (ds : Nat) (port : RxPort) : Option ReadCall → List Cell → List (List Byte) → Prop where
  | idle : InCall ds port none [] []
  | reading {call : ReadCall} {batch : List StampedFrame} {data : List Byte} {gone : Nat}
      {left : List Cell} {last : Cell} : Reading ds call port batch data gone left last →
      InCall ds port (some call) (left ++ [last]) (batch.map StampedFrame.data ++ [data])

/-- What was delivered, what the call has in hand, the frames that are ready behind it and the
engine's frame. -/
structure DmaHolds (ds : Nat) (s : DmaState H) (delivered : List (List Byte)) (front : List Cell)
    (pending ready : List (List Byte)) (cells mids : List Cell) : Prop where
  reads : Delivered s.reads delivered
  call : InCall ds s.port s.call front pending
  frames : DmaReady ds ready cells
  part : EngineHolds ds s.taken s.line mids
  engine : EngineAt s (front ++ (cells ++ mids))
  arrived : s.arrived = delivered ++ (pending ++ (ready ++ s.line))
  buffers : Buffers ds s.port
  line : ∀ frame ∈ s.line, 2 ≤ frame.length ∧ frame.length < 536870912

def DmaInvariant (ds : Nat) (s : DmaState H) : Prop :=
  ∃ delivered front pending ready cells mids,
    DmaHolds ds s delivered front pending ready cells mids

/-- The rounds that are left reach the end of the frame that is being read: its last descriptor is
among those that `fscc_user_next_read_size` would look at in as many rounds. -/
def RoundsReach (s : DmaState H) : DmaAction → Prop
  | .round => ∀ call ∈ s.call, s.port.rxMultiple = true →
      (nextReadSizeLoop s.port call.rounds s.port.userRxDesc 0).1 = true
  | _ => True

instance (s : DmaState H) : DecidablePred (RoundsReach s)
  | .round => inferInstanceAs (Decidable (∀ call ∈ s.call, s.port.rxMultiple = true →
      (nextReadSizeLoop s.port call.rounds s.port.userRxDesc 0).1 = true))
  | .arrive _ => inferInstanceAs (Decidable True)
  | .fill _ _ => inferInstanceAs (Decidable True)
  | .setOptions _ _ _ => inferInstanceAs (Decidable True)
  | .userReadFrame _ => inferInstanceAs (Decidable True)

section Steps

variable {s : DmaState H} {delivered pending ready : List (List Byte)}
  {front cells mids : List Cell}

theorem InCall.same {port' : RxPort} {call : Option ReadCall} (h : InCall ds port call front pending)
    (hkeeps : ReadKeeps port port') : InCall ds port' call front pending := by
  cases h with
  | idle => exact InCall.idle
  | reading h => exact InCall.reading (h.same hkeeps)

theorem InCall.of_none (h : InCall ds port none front pending) : front = [] ∧ pending = [] := by
  cases h with
  | idle => exact ⟨rfl, rfl⟩

theorem InCall.of_some (h : InCall ds port (some call) front pending) :
    ∃ batch data gone left last, front = left ++ [last] ∧
      pending = batch.map StampedFrame.data ++ [data] ∧
      Reading ds call port batch data gone left last := by
  cases h with
  | reading h => exact ⟨_, _, _, _, _, rfl, rfl, h⟩

theorem EngineHolds.arrive {taken : Nat} {line : List (List Byte)} (h : EngineHolds ds taken line mids)
    (frame : DmaInput) : EngineHolds ds taken (line ++ [frame.data]) mids := by
  refine ⟨h.full, fun hnil ↦ absurd hnil (by simp), fun first rest heq ↦ ?_, h.count⟩
  cases line with
  | nil =>
    obtain ⟨rfl, rfl⟩ := List.cons_eq_cons.mp heq
    have hmids := h.idle rfl
    have hcount := h.count
    rw [hmids, List.length_nil, Nat.mul_zero] at hcount
    rw [hmids, hcount, List.take_zero]
    exact ⟨Nat.lt_of_lt_of_le Nat.two_pos frame.two_le, rfl⟩
  | cons first' line =>
    obtain ⟨rfl, rfl⟩ := List.cons_eq_cons.mp heq
    exact h.part first' line rfl

theorem DmaHolds.arrive (h : DmaHolds ds s delivered front pending ready cells mids)
    (frame : DmaInput) : DmaHolds ds (s.arrive frame) delivered front pending ready cells mids := by
  refine ⟨h.reads, h.call, h.frames, h.part.arrive frame, ⟨h.engine.holds, h.engine.engine⟩, ?_,
    h.buffers, ?_⟩
  · show s.arrived ++ [frame.data] = delivered ++ (pending ++ (ready ++ (s.line ++ [frame.data])))
    rw [h.arrived]
    simp only [List.append_assoc]
  · exact List.forall_mem_append.mpr
      ⟨h.line, List.forall_mem_singleton.mpr ⟨frame.two_le, frame.length_lt⟩⟩

theorem DmaHolds.fill (h : DmaHolds ds s delivered front pending ready cells mids) (dataCount : Nat)
    (timestamp : BitVec 64) : DmaInvariant ds (s.fill dataCount timestamp) := by
  have hengine := h.engine
  rw [← List.append_assoc] at hengine
  obtain ⟨hkeeps, hbuffers, hmore⟩ := fill_cases hengine h.part h.buffers h.line dataCount timestamp
  have hreads : Delivered (s.fill dataCount timestamp).reads delivered := by
    rw [hkeeps.reads]
    exact h.reads
  have hcall : InCall ds (s.fill dataCount timestamp).port (s.fill dataCount timestamp).call front
      pending := by
    rw [hkeeps.call]
    exact h.call.same hkeeps.port
  have harrived := hkeeps.arrived.trans h.arrived
  rcases hmore with ⟨hline, mids', hengine', hpart⟩ | ⟨frame, last, hline, hcells, hengine', hpart⟩
  · refine ⟨delivered, front, pending, ready, cells, mids', hreads, hcall, h.frames, hpart, ?_, ?_,
      hbuffers, ?_⟩
    · rwa [List.append_assoc] at hengine'
    · rw [hline]
      exact harrived
    · rw [hline]
      exact h.line
  · refine ⟨delivered, front, pending, ready ++ [frame], cells ++ (mids ++ [last]), [], hreads, hcall,
      h.frames.concat hcells, hpart, ?_, ?_, hbuffers, ?_⟩
    · rwa [List.append_assoc, ← List.append_nil (mids ++ [last]), ← List.append_assoc cells] at hengine'
    · rw [harrived, hline, List.append_assoc ready]
      rfl
    · intro frame' hmem
      exact h.line frame' (hline ▸ List.mem_cons_of_mem _ hmem)

theorem DmaHolds.setOptions (h : DmaHolds ds s delivered front pending ready cells mids)
    (a b c : Bool) : DmaHolds ds (s.setOptions a b c) delivered front pending ready cells mids := by
  rw [DmaState.setOptions]
  have hcall := h.call
  cases hnone : s.call with
  | some call => exact h
  | none =>
    rw [hnone] at hcall
    cases hcall with
    | idle =>
      refine ⟨h.reads, ?_, h.frames, h.part, ⟨h.engine.holds, h.engine.engine⟩, h.arrived, h.buffers,
        h.line⟩
      exact InCall.idle

theorem DmaHolds.refused (h : DmaHolds ds s delivered front pending ready cells mids)
    {bufLength : Nat} (hrefused : Refused s.port bufLength) :
    DmaHolds ds { s with reads := s.reads ++ [⟨s.port, bufLength, .bufferTooSmall, [], 0⟩] }
      delivered front pending ready cells mids := by
  refine ⟨?_, h.call, h.frames, h.part, ⟨h.engine.holds, h.engine.engine⟩, h.arrived, h.buffers, h.line⟩
  have hread : FrameRead.Returned ⟨s.port, bufLength, .bufferTooSmall, [], 0⟩ [] :=
    FrameRead.Returned.refused hrefused rfl
  have hreads := h.reads.concat hread
  rwa [List.map_nil, List.append_nil] at hreads

theorem DmaHolds.enter (h : DmaHolds ds s delivered front pending ready cells mids)
    (bufLength : BitVec 32) : DmaInvariant ds (s.enter bufLength.toNat) := by
  rcases s.enter_cases bufLength.toNat with hsame | ⟨hrefused, hstep⟩ | ⟨size, hnone, hsize, hfits, hstep⟩
  · rw [hsame]
    exact ⟨_, _, _, _, _, _, h⟩
  · rw [hstep]
    exact ⟨_, _, _, _, _, _, h.refused hrefused⟩
  · have hcall := h.call
    rw [hnone] at hcall
    obtain ⟨rfl, rfl⟩ := hcall.of_none
    have hengine := h.engine
    rw [List.nil_append] at hengine
    obtain ⟨data, ready', mids', last, rest, rfl, rfl, rfl, hcells, hrest⟩ :=
      nextReadSize_frame hengine.holds h.frames h.part.full hsize
    rw [List.append_cons, List.append_assoc] at hengine
    have hroom := hengine.holds.fits
    rw [List.length_append, List.length_append, List.length_singleton] at hroom
    have hreading : Reading ds
        ⟨s.port, bufLength.toNat, s.port.rxNum, readFrameStart s.port data.length⟩ s.port [] data 0
        mids' last := by
      refine Reading.begin hcells (ReadKeeps.refl _) ⟨rfl, rfl, rfl⟩ rfl rfl ?_ bufLength.isLt
        (Nat.le_refl _) fun _ ↦ ⟨rfl, ?_⟩
      · show 0 + _ ≤ bufLength.toNat
        rwa [Nat.zero_add]
      · show mids'.length + 1 ≤ s.port.rxNum
        omega
    rw [hstep]
    exact ⟨delivered, mids' ++ [last], [data], ready', rest, mids, h.reads, InCall.reading hreading,
      hrest, h.part, ⟨hengine.holds, hengine.engine⟩, h.arrived, h.buffers, h.line⟩

-- Without `rx_multiple` there is nothing to check.
theorem Reading.reaches {call : ReadCall} {batch : List StampedFrame} {data : List Byte} {gone : Nat}
    {left behind : List Cell} {last : Cell} (h : Reading ds call port batch data gone left last)
    (hholds : HoldsCells ((left ++ [last]) ++ behind) port)
    (hreach : port.rxMultiple = true → (nextReadSizeLoop port call.rounds port.userRxDesc 0).1 = true) :
    left.length + 1 ≤ call.rounds := by
  by_cases hmultiple : port.rxMultiple = true
  · rw [← List.append_cons] at hholds
    exact nextReadSizeLoop_reaches hholds h.full (h.keeps.rxNum ▸ h.rounds_le) (hreach hmultiple)
  · have hsingle := Bool.eq_false_iff.mpr hmultiple
    rw [h.keeps.rxMultiple] at hsingle
    exact (h.single hsingle).2

theorem EngineAt.release {cell : Cell} (h : EngineAt s (cell :: cells)) {s' : DmaState H}
    (hport : s'.port = releaseUserDesc s.port) (hengine : s'.engineDesc = s.engineDesc) :
    EngineAt s' cells := by
  constructor
  · rw [hport]
    exact h.holds.release
  · rw [hengine, hport, h.engine]
    show _ = (Cyclic.next s.port.rxNum s.port.userRxDesc + cells.length) % s.port.rxNum
    rw [List.length_cons, Cyclic.add_mod_next h.holds.origin_lt]

-- A call that has handed over whole frames returns.
theorem DmaHolds.returns {call : ReadCall} {batch : List StampedFrame} {frame : StampedFrame}
    {st : ReadLoop} {card : H}
    (h : DmaHolds ds s delivered front (batch.map StampedFrame.data ++ [frame.data]) ready cells mids)
    (hengine : EngineAt { s with port := st.port } (cells ++ mids)) (hbuffers : Buffers ds st.port)
    (hsingle : call.port.rxMultiple = false → batch = [])
    (hout : st.out = (batch ++ [frame]).flatMap (deliver call.port))
    (houtLength : st.outLength = st.out.length) :
    DmaInvariant ds { s with
      port := st.port, card, call := none
      reads := s.reads ++ [⟨call.port, call.bufLength, .success, st.out, st.outLength⟩] } := by
  have hread : FrameRead.Returned ⟨call.port, call.bufLength, .success, st.out, st.outLength⟩
      (batch ++ [frame]) := by
    refine FrameRead.Returned.success rfl (List.append_ne_nil_of_right_ne_nil _ (List.cons_ne_nil _ _))
      (fun hoff ↦ ?_) hout houtLength
    rw [hsingle hoff]
    rfl
  refine ⟨_, [], [], ready, cells, mids, h.reads.concat hread, InCall.idle, h.frames, h.part,
    ⟨hengine.holds, hengine.engine⟩, ?_, hbuffers, h.line⟩
  show s.arrived = delivered ++ (batch ++ [frame]).map StampedFrame.data ++ (ready ++ s.line)
  rw [h.arrived, List.map_append]
  exact (List.append_assoc _ _ _).symm

-- The round over the last descriptor of a frame: the call returns, or it goes on with the next one.
theorem DmaHolds.ends {call : ReadCall} {batch : List StampedFrame} {data : List Byte} {gone : Nat}
    {last : Cell} (hcall : s.call = some call)
    (h : DmaHolds ds s delivered [last] (batch.map StampedFrame.data ++ [data]) ready cells mids)
    (hreading : Reading ds call s.port batch data gone [] last) : DmaInvariant ds (s.round hw) := by
  have hdesc := h.engine
  rw [List.singleton_append] at hdesc
  obtain ⟨frame, card, st, rfl, hport, hbytes, hout, houtLength, hle, hstep⟩ :=
    hreading.ends hw s.card hdesc.holds.userDesc
  have hkeeps : ReadKeeps call.port st.port := by
    rw [hport]
    exact hreading.keeps.trans (ReadKeeps.release s.port)
  have hbuffers : Buffers ds st.port := by
    rw [hport]
    exact h.buffers.release hdesc.holds.origin_lt
  have hengine : EngineAt { s with port := st.port } (cells ++ mids) := hdesc.release hport rfl
  have hsingle : call.port.rxMultiple = false → batch = [] := fun hoff ↦ (hreading.single hoff).1
  rw [DmaState.round, hcall]
  dsimp only
  rw [hstep]
  rcases nextFrame_boundary call.bufLength hbytes with hstop | ⟨size, hmultiple, hsize, hfits, hnext⟩
  · rw [hstop]
    dsimp only
    rw [if_neg fun hagain ↦ absurd hagain.1 Bool.false_ne_true]
    exact h.returns hengine hbuffers hsingle hout houtLength
  · rw [hnext]
    dsimp only
    by_cases hrounds : 1 < call.rounds
    · rw [if_pos ⟨rfl, hrounds⟩]
      rw [hkeeps.bufferRequirement, u32_sub_of_le hreading.bufLength_lt (houtLength ▸ hle)] at hfits
      obtain ⟨data, ready', mids', last', rest, rfl, rfl, rfl, hcells, hrest⟩ :=
        nextReadSize_frame hengine.holds h.frames h.part.full hsize
      rw [List.append_cons, List.append_assoc] at hengine
      let st' : ReadLoop := { st with
        bytesInDescs := data.length, totalValidData := validData st.port data.length
        filledFrameSize := 0 }
      have hreading' : Reading ds { call with rounds := call.rounds - 1, st := st' } st.port
          (batch ++ [frame]) data 0 mids' last' := by
        refine Reading.begin hcells hkeeps ⟨rfl, hkeeps.validData _, rfl⟩ hout houtLength ?_
          hreading.bufLength_lt (Nat.le_trans (Nat.sub_le _ _) hreading.rounds_le) fun hoff ↦ ?_
        · show st.outLength + bufferRequirement call.port data.length ≤ call.bufLength
          omega
        · rw [hkeeps.rxMultiple] at hmultiple
          exact absurd (hoff.symm.trans hmultiple) Bool.false_ne_true
      refine ⟨delivered, mids' ++ [last'], _, ready', rest, mids, h.reads, InCall.reading hreading',
        hrest, h.part, ⟨hengine.holds, hengine.engine⟩, ?_, hbuffers, h.line⟩
      show s.arrived = delivered ++
        ((batch ++ [frame]).map StampedFrame.data ++ [data] ++ (ready' ++ s.line))
      rw [h.arrived, List.map_append]
      simp
    · rw [if_neg fun hagain ↦ hrounds hagain.2]
      exact h.returns hengine hbuffers hsingle hout houtLength

theorem DmaHolds.round (h : DmaHolds ds s delivered front pending ready cells mids)
    (hreach : RoundsReach s .round) : DmaInvariant ds (s.round hw) := by
  cases hcall : s.call with
  | none =>
    rw [round_none hcall]
    exact ⟨_, _, _, _, _, _, h⟩
  | some call =>
    have hincall := h.call
    rw [hcall] at hincall
    obtain ⟨batch, data, gone, left, last, rfl, rfl, hreading⟩ := hincall.of_some
    have hrounds := hreading.reaches h.engine.holds (hreach call hcall)
    cases left with
    | nil => exact h.ends hcall hreading
    | cons cell left =>
      have hengine := h.engine
      rw [List.cons_append, List.cons_append] at hengine
      rw [List.length_cons] at hrounds
      obtain ⟨st, hstep, hport, hnext⟩ := hreading.mid hw s.card hengine.holds.userDesc hrounds
      rw [DmaState.round, hcall]
      dsimp only
      rw [hstep]
      dsimp only
      rw [if_pos ⟨rfl, by omega⟩, hport]
      have hengine' : EngineAt { s with port := releaseUserDesc s.port }
          ((left ++ [last]) ++ (cells ++ mids)) := hengine.release rfl rfl
      exact ⟨delivered, left ++ [last], _, ready, cells, mids, h.reads, InCall.reading hnext, h.frames,
        h.part, ⟨hengine'.holds, hengine'.engine⟩, h.arrived,
        h.buffers.release hengine.holds.origin_lt, h.line⟩

theorem DmaInvariant.step (h : DmaInvariant ds s) (action : DmaAction) (hreach : RoundsReach s action) :
    DmaInvariant ds (dmaStep hw s action) := by
  obtain ⟨delivered, front, pending, ready, cells, mids, h⟩ := h
  cases action with
  | arrive frame => exact ⟨_, _, _, _, _, _, h.arrive frame⟩
  | fill dataCount timestamp => exact h.fill dataCount timestamp
  | setOptions a b c => exact ⟨_, _, _, _, _, _, h.setOptions a b c⟩
  | userReadFrame bufLength => exact h.enter bufLength
  | round => exact h.round hreach

end Steps

/-! ## Reads of whole frames -/

/-- `user_rx_desc` is at the first descriptor of a frame: the ring from there on and the line hold the
frames `left`, the first of them from its first byte on. -/
def AtFrame (ds : Nat) (s : DmaState H) (left : List (List Byte)) : Prop :=
  ∃ ready cells mids, left = ready ++ s.line ∧ DmaReady ds ready cells ∧
    EngineHolds ds s.taken s.line mids ∧ EngineAt s (cells ++ mids)

theorem DmaInvariant.atFrame {s : DmaState H} (h : DmaInvariant ds s) :
    ∃ delivered left, Delivered s.reads delivered ∧ s.arrived = delivered ++ left ∧
      (s.call = none → AtFrame ds s left) := by
  obtain ⟨delivered, front, pending, ready, cells, mids, h⟩ := h
  refine ⟨delivered, _, h.reads, h.arrived, fun hnone ↦ ?_⟩
  have hcall := h.call
  rw [hnone] at hcall
  obtain ⟨rfl, rfl⟩ := hcall.of_none
  exact ⟨ready, cells, mids, rfl, h.frames, h.part, h.engine⟩

theorem Buffers.resetRx (h : Buffers ds port) : Buffers ds (resetRx port) := by
  intro i hi
  replace hi : i < port.rxNum := hi
  show DmaFrame.dataSize (if i < port.rxNum then _ else _) = ds ∧
    (DmaFrame.buffer (if i < port.rxNum then _ else _)).length = ds
  rw [if_pos hi]
  exact h i hi

theorem dmaStart_invariant (hpos : 0 < port.rxNum) (hbuffers : Buffers ds port) (card : H) :
    DmaInvariant ds (dmaStart port card) := by
  have hopen : ∀ k, DmaFrame.Unfinished (Cyclic.slot (resetRx port).rxDescriptors port.rxNum 0 k) := by
    intro k
    have hlt : (0 + k) % port.rxNum < port.rxNum := Nat.mod_lt _ hpos
    show DmaFrame.Unfinished (if (0 + k) % port.rxNum < port.rxNum then _ else _)
    rw [if_pos hlt]
    constructor
    · show descHiBit &&& descFeBit = 0
      decide
    · show descHiBit &&& descCstopBit = 0
      decide
  have hholds : HoldsCells [] (resetRx port) :=
    ⟨hpos, Nat.zero_le _, fun k hk ↦ absurd hk (Nat.not_lt_zero k), fun _ ↦ hopen _, fun k _ _ ↦ hopen k⟩
  refine ⟨[], [], [], [], [], [], ⟨[], List.Forall₂.nil, rfl⟩, InCall.idle, DmaReady.nil,
    ⟨Mids.nil, fun _ ↦ rfl, fun _ _ hcons ↦ (by cases hcons), rfl⟩,
    ⟨hholds, (Nat.zero_mod _).symm⟩, rfl, hbuffers.resetRx, fun _ hmem ↦ absurd hmem List.not_mem_nil⟩

/-- Reads in DMA mode: in every run in which each round finds the end of its frame within the rounds
that are left, the reads hand over a prefix of the frames, whole and in order, and between two calls
`user_rx_desc` is at the first descriptor of a frame. -/
theorem fscc_user_read_frame_whole (hw : Hardware H) (card : H) (hpos : 0 < port.rxNum)
    (hbuffers : Buffers ds port) (actions : List DmaAction)
    (hreach : Runs.Along RoundsReach (dmaStep hw) (dmaStart port card) actions) :
    let s := actions.foldl (dmaStep hw) (dmaStart port card)
    ∃ delivered left, Delivered s.reads delivered ∧ s.arrived = delivered ++ left ∧
      (s.call = none → AtFrame ds s left) :=
  (hreach.invariant (fun _ action hallowed h ↦ h.step action hallowed)
    (dmaStart_invariant hpos hbuffers card)).atFrame

def threeDescPort : RxPort :=
  { twoDescPort 4 with rxNum := 3, appendTimestamp := false, rxMultiple := true }

def shortInput : DmaInput := ⟨[1, 2], by decide, by decide⟩
def otherInput : DmaInput := ⟨[3, 4], by decide, by decide⟩
def longInput : DmaInput := ⟨[5, 6, 7, 8, 9, 10], by decide, by decide⟩

-- The frame of two descriptors is taken up with two rounds left.
theorem fscc_user_read_frame_whole_two :
    let s := [DmaAction.arrive shortInput, .arrive longInput, .fill 2 0, .fill 4 0, .fill 2 0,
      .userReadFrame 100, .round, .round, .round].foldl (dmaStep quietCard) (dmaStart threeDescPort ())
    ∃ delivered left, Delivered s.reads delivered ∧ s.arrived = delivered ++ left ∧
      (s.call = none → AtFrame 4 s left) :=
  fscc_user_read_frame_whole quietCard () (by decide) (fun _ _ ↦ ⟨rfl, List.length_replicate⟩)
    [.arrive shortInput, .arrive longInput, .fill 2 0, .fill 4 0, .fill 2 0, .userReadFrame 100, .round,
      .round, .round] (by decide)

theorem deliver_data {port : RxPort} (hstatus : port.appendStatus = true)
    (hstamp : port.appendTimestamp = false) (frame : StampedFrame) : deliver port frame = frame.data := by
  rw [deliver_eq, validLength, if_pos hstatus, List.take_length, hstamp]
  exact List.append_nil _

-- The engine ends the third frame behind the first round, so the loop takes it up with one round left.
theorem fscc_user_read_frame_not_whole :
    let s := [DmaAction.arrive shortInput, .arrive otherInput, .arrive longInput, .fill 2 0, .fill 2 0,
      .fill 4 0, .userReadFrame 100, .round, .fill 2 0, .round, .round].foldl (dmaStep quietCard)
        (dmaStart threeDescPort ())
    s.reads.map (fun read ↦ read.result.out) = [[1, 2, 3, 4, 5, 6, 7, 8]] ∧
      ¬ ∃ delivered left, Delivered s.reads delivered ∧ s.arrived = delivered ++ left ∧
        (s.call = none → AtFrame 4 s left) := by
  intro s
  refine ⟨by decide, ?_⟩
  rintro ⟨delivered, left, ⟨batches, hreads, hflat⟩, harrived, -⟩
  obtain ⟨read, hread⟩ : ∃ read, s.reads = [read] := List.length_eq_one_iff.mp (by decide)
  have hall : ∀ read ∈ s.reads, read.port.appendStatus = true ∧ read.port.appendTimestamp = false ∧
      read.result.out = [1, 2, 3, 4, 5, 6, 7, 8] := by decide
  obtain ⟨hstatus, hstamp, hout⟩ := hall read (hread ▸ List.mem_cons_self)
  rw [hread] at hreads
  obtain ⟨batch, _, hreturned, hnil, rfl⟩ := List.forall₂_cons_left_iff.mp hreads
  obtain rfl := List.forall₂_nil_left_iff.mp hnil
  cases hreturned with
  | refused _ hresult =>
    rw [hresult] at hout
    cases hout
  | success _ _ _ hdata _ =>
    -- No prefix of the frames has these eight bytes.
    have hparts : ∀ frames ∈ s.arrived.inits, frames.flatten ≠ [1, 2, 3, 4, 5, 6, 7, 8] := by decide
    refine hparts delivered ((List.mem_inits _ _).mpr ⟨left, harrived.symm⟩) ?_
    rw [funext (deliver_data hstatus hstamp)] at hdata
    rw [← hflat, ← hout, hdata, List.flatten_cons, List.flatten_nil, List.append_nil, List.flatMap]

end FsccDriver

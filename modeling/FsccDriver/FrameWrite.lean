import FsccDriver.WriteSpace

/-!
# FrameWrite — what one call of `fscc_user_write_frame` does to the ring

A frame that fits the free descriptors takes as many of them as it needs.  A frame that does not is
found out when the descriptors run out, and what has been filled by then stays in the ring.
-/

namespace FsccDriver

open Words

variable {H : Type} {hw : Hardware H} {port port' : TxPort} {ds : Nat}

-- All buffers have the same size.
def TxSized (ds : Nat) (port : TxPort) : Prop :=
  ∀ i < port.txNum, (port.txDescriptors i).dataSize = ds

section Loop

variable {buf : List Byte} {dataLength n : Nat} {st st' : WriteFrameLoop}

theorem FillsOne.sized (h : FillsOne buf dataLength st st') (hplain : TxPlain st.port)
    (hfree : st.port.Free st.port.userTxDesc) (hsized : TxSized ds st.port) :
    TxSized ds st'.port := by
  have hfills := h.fills hplain hfree
  intro i hi
  rw [hfills.txNum] at hi
  by_cases heq : i = st.port.userTxDesc
  · rw [heq, h.filled]
    exact hsized _ hplain.user_lt
  · rw [hfills.other i fun hmem ↦ heq (List.mem_singleton.mp hmem)]
    exact hsized i hi

/-- The `k`-th descriptor a call fills says how much it holds, and the first one how long the frame
is. -/
def SegmentAt (dataLength k : Nat) (desc : DmaFrame) : Prop :=
  desc.dataCount ≤ dataLength ∧ desc.control = segmentControl k dataLength desc.dataCount

-- Induction over the rounds: each takes `ds` bytes, the last one what is left.
theorem writeFrameLoop_segments (n : Nat) (h : RoomFor buf n st) (hsized : TxSized ds st.port)
    (hds : 0 < ds) :
    (filledDescs buf buf.length n st).length = (buf.length - st.outLength + ds - 1) / ds ∧
      ∀ k i, (filledDescs buf buf.length n st)[k]? = some i →
        SegmentAt buf.length (st.i + k)
          ((writeFrameLoop buf buf.length n st).port.txDescriptors i) := by
  induction n generalizing st with
  | zero => exact h.not_zero.elim
  | succ n ih =>
    obtain ⟨st', hone, hfree, hlen, hnext, hround⟩ := h.round
    have hout := h.unfinished
    have hsize : st.port.userDesc.dataSize = ds := hsized _ h.plain.user_lt
    rw [hsize] at hlen
    have hsegment : SegmentAt buf.length (st.i + 0) (segmentDesc buf buf.length st) := by
      refine ⟨?_, rfl⟩
      show segmentLength buf.length st ≤ buf.length
      omega
    rcases hround with ⟨hlast, hloop, hdescs⟩ | ⟨hroom, hloop, hdescs⟩
    · rw [hloop, hdescs]
      refine ⟨?_, fun k i hk ↦ ?_⟩
      · rw [List.length_singleton]
        symm
        rw [Nat.div_eq_iff hds]
        omega
      · obtain ⟨rfl, rfl⟩ : k = 0 ∧ i = st.port.userTxDesc := by
          cases k with
          | zero => exact ⟨rfl, (Option.some.inj hk).symm⟩
          | succ k => cases hk
        rwa [hone.filled]
    · rw [hloop, hdescs]
      obtain ⟨hcount, hsegments⟩ := ih hroom (hone.sized h.plain hfree hsized)
      have hrest := hroom.unfinished
      refine ⟨?_, fun k i hk ↦ ?_⟩
      · rw [List.length_cons, hcount, hnext, hlen, Nat.min_eq_right (by omega)]
        have hsplit : buf.length - st.outLength + ds - 1 =
            (buf.length - (st.outLength + ds) + ds - 1) + ds := by omega
        rw [hsplit, Nat.add_div_right _ hds]
      · cases k with
        | zero =>
          rw [← Option.some.inj hk, hone.kept h.plain hfree h.rounds]
          exact hsegment
        | succ k =>
          have hlater := hsegments k i hk
          rw [hone.i, Nat.add_assoc, Nat.add_comm 1 k] at hlater
          exact hlater

end Loop

/-! ## All or nothing -/

/-- The descriptors a frame needs. -/
def chunks (ds dataLength : Nat) : Nat := (dataLength + ds - 1) / ds

/-- The frame is in consecutive descriptors from `user_tx_desc` on, and nothing else has changed. -/
structure QueuedWhole (ds : Nat) (data : List Byte) (port port' : TxPort) : Prop where
  fits : chunks ds data.length ≤ port.txNum
  user : port'.userTxDesc = (port.userTxDesc + chunks ds data.length) % port.txNum
  free : ∀ k < chunks ds data.length, port.Free ((port.userTxDesc + k) % port.txNum)
  bytes : ((List.range (chunks ds data.length)).map fun k ↦
    descBytes (port'.txDescriptors ((port.userTxDesc + k) % port.txNum))).flatten = data
  first : (port'.txDescriptors port.userTxDesc).control = descHiBit ||| descFeBit ||| data.length
  later : ∀ k < chunks ds data.length, 0 < k →
    (port'.txDescriptors ((port.userTxDesc + k) % port.txNum)).control &&& descFeBit = 0 ∧
      (port'.txDescriptors ((port.userTxDesc + k) % port.txNum)).control &&& dmaMaxLength =
        (port'.txDescriptors ((port.userTxDesc + k) % port.txNum)).dataCount
  others : ∀ i, (∀ k < chunks ds data.length, i ≠ (port.userTxDesc + k) % port.txNum) →
    port'.txDescriptors i = port.txDescriptors i

structure Untouched (port port' : TxPort) : Prop where
  user : port'.userTxDesc = port.userTxDesc
  descs : ∀ i < port.txNum, (port'.txDescriptors i).control = (port.txDescriptors i).control ∧
    (port'.txDescriptors i).dataCount = (port.txDescriptors i).dataCount

/-- What a user expects of a call: the frame is queued whole if it fits, and otherwise nothing has
happened. -/
def AllOrNothing (ds : Nat) (data : List Byte) (port : TxPort) (result : WriteResult)
    (port' : TxPort) : Prop :=
  (data.length ≤ fsccUserGetTxSpace port →
      result = ⟨.success, data.length⟩ ∧ QueuedWhole ds data port port') ∧
    (fsccUserGetTxSpace port < data.length →
      result.status = .bufferTooSmall ∧ Untouched port port')

theorem segmentControl_later {k dataLength transmitLength : Nat} (hk : 0 < k)
    (hlt : transmitLength < 536870912) :
    segmentControl k dataLength transmitLength &&& descFeBit = 0 ∧
      segmentControl k dataLength transmitLength &&& dmaMaxLength = transmitLength := by
  have hcontrol : segmentControl k dataLength transmitLength = 536870912 + transmitLength := by
    rw [segmentControl, if_neg (Nat.pos_iff_ne_zero.mp hk), hi_or hlt]
  rw [hcontrol, and_dmaMaxLength]
  exact ⟨(and_descFeBit _).mpr (by omega), by omega⟩

variable (hw) in
theorem fsccUserWriteFrame_whole {data : List Byte} (card : H) (hplain : TxPlain port)
    (hsized : TxSized ds port) (hds : 0 < ds) (hpos : 0 < data.length)
    (hlt : data.length < 536870912) (hspace : data.length ≤ fsccUserGetTxSpace port) :
    (fsccUserWriteFrame hw data data.length port card).1 = ⟨.success, data.length⟩ ∧
      QueuedWhole ds data port (fsccUserWriteFrame hw data data.length port card).2.1 := by
  obtain ⟨hresult, hdescs, -, huser, -⟩ := fsccUserWriteFrame_loop hw data data.length port card
  let st : WriteFrameLoop := ⟨port, 0, 0, 0, .success⟩
  have hst : TxPlain st.port := hplain
  have hfills := writeFrameLoop_fills data data.length port.txNum hst
  obtain ⟨m, hm, hconsecutive, hend⟩ := filledDescs_eq data data.length port.txNum hst
  have hroom := RoomFor.start hplain (by omega) hpos hspace
  obtain ⟨hstatus, hout, hbytes⟩ := writeFrameLoop_whole port.txNum hroom
  obtain ⟨hcount, hsegments⟩ := writeFrameLoop_segments port.txNum hroom hsized hds
  have hchunks : m = chunks ds data.length := by
    rw [hconsecutive, List.length_map, List.length_range] at hcount
    exact hcount
  subst hchunks
  have hat : ∀ k < chunks ds data.length,
      SegmentAt data.length k ((writeFrameLoop data data.length port.txNum st).port.txDescriptors
        ((port.userTxDesc + k) % port.txNum)) := by
    intro k hk
    have hsegment := hsegments k ((port.userTxDesc + k) % port.txNum) (by
      rw [hconsecutive, List.getElem?_map, List.getElem?_range hk]
      rfl)
    rwa [show st.i + k = k from Nat.zero_add k] at hsegment
  have hfirst : 0 < chunks ds data.length := Nat.div_pos (by omega) hds
  have hcur : (port.userTxDesc + 0) % port.txNum = port.userTxDesc :=
    Nat.mod_eq_of_lt hplain.user_lt
  refine ⟨by rw [hresult, hstatus, hout], ?_⟩
  constructor
  case fits => exact hm
  case user => exact huser.trans hend
  case free =>
    intro k hk
    exact hfills.free _ (hconsecutive ▸ List.mem_map_of_mem (List.mem_range.mpr hk))
  case bytes =>
    rw [hconsecutive, List.map_map] at hbytes
    rw [hdescs]
    exact hbytes
  case first =>
    have hsegment := hat 0 hfirst
    rw [hcur] at hsegment
    rw [hdescs]
    exact hsegment.2
  case later =>
    intro k hk hk0
    obtain ⟨hle, hcontrol⟩ := hat k hk
    rw [hdescs, hcontrol]
    exact segmentControl_later hk0 (by omega)
  case others =>
    intro i hi
    rw [hdescs]
    apply hfills.other
    rw [hconsecutive]
    intro hmem
    obtain ⟨k, hk, heq⟩ := List.mem_map.mp hmem
    exact hi k (List.mem_range.mp hk) heq.symm

-- The first descriptor decides whether there is any space.
theorem fsccUserGetTxSpace_pos (hplain : TxPlain port) (hsized : TxSized ds port) (hds : 0 < ds) :
    0 < fsccUserGetTxSpace port ↔ port.Free port.userTxDesc := by
  have hsize : (port.txDescriptors port.userTxDesc).dataSize = ds := hsized _ hplain.user_lt
  rw [fsccUserGetTxSpace_turn hplain.user_lt, Cyclic.turn_eq_cons _ hplain.user_lt, freeSpace,
    TxPort.Free]
  split
  next hbusy => exact ⟨fun h ↦ absurd h (Nat.lt_irrefl 0), fun h ↦ absurd h hbusy⟩
  next hfree => exact ⟨fun _ ↦ not_not.mp hfree, fun _ ↦ by omega⟩

variable (hw) in
theorem fsccUserWriteFrame_untouched {data : List Byte} (card : H) (hplain : TxPlain port)
    (hbusy : ¬ port.Free port.userTxDesc) :
    (fsccUserWriteFrame hw data data.length port card).1.status = .bufferTooSmall ∧
      Untouched port (fsccUserWriteFrame hw data data.length port card).2.1 := by
  obtain ⟨hresult, hdescs, -, huser, -⟩ := fsccUserWriteFrame_loop hw data data.length port card
  obtain ⟨n, hn⟩ : ∃ n, port.txNum = n + 1 := Nat.exists_eq_succ_of_ne_zero (by
    have := hplain.user_lt
    omega)
  let st : WriteFrameLoop := ⟨port, 0, 0, 0, .success⟩
  have hloop : writeFrameLoop data data.length port.txNum st =
      { st with status := .bufferTooSmall } := by
    rw [hn, writeFrameLoop]
    rcases writeFrameStep_cases data data.length st with ⟨-, hstep⟩ | ⟨hfree, -⟩
    · rw [hstep]
    · exact absurd hfree hbusy
  rw [hloop] at hresult hdescs huser
  refine ⟨by rw [hresult], huser, fun i _ ↦ ?_⟩
  rw [hdescs]
  exact ⟨rfl, rfl⟩

variable (hw) in
-- The descriptor at `user_tx_desc` has been filled.
theorem fsccUserWriteFrame_touched {data : List Byte} (card : H) (hplain : TxPlain port)
    (hlt : data.length < 536870912) (hfree : port.Free port.userTxDesc) :
    ¬ Untouched port (fsccUserWriteFrame hw data data.length port card).2.1 := by
  obtain ⟨-, hdescs, -⟩ := fsccUserWriteFrame_loop hw data data.length port card
  obtain ⟨n, hn⟩ : ∃ n, port.txNum = n + 1 := Nat.exists_eq_succ_of_ne_zero (by
    have := hplain.user_lt
    omega)
  let st : WriteFrameLoop := ⟨port, 0, 0, 0, .success⟩
  have hst : TxPlain st.port := hplain
  have hmem : port.userTxDesc ∈ filledDescs data data.length port.txNum st := by
    rw [hn, filledDescs, if_neg (not_not.mpr hfree)]
    split <;> exact List.mem_cons_self
  have hpending := writeFrameLoop_pending port.txNum hst (by omega) (Nat.zero_le _) _ hmem
  intro huntouched
  apply hpending
  rw [TxPort.Free, ← hdescs, (huntouched.descs _ hplain.user_lt).1]
  exact hfree

/-- Queueing a frame is all or nothing exactly if the frame fits the free descriptors or there is no
free descriptor. -/
theorem fscc_user_write_frame_all_or_nothing (hw : Hardware H) (card : H) (data : List Byte)
    (hplain : TxPlain port) (hsized : TxSized ds port) (hds : 0 < ds) (hpos : 1 ≤ data.length)
    (hle : data.length ≤ 0x1fffffff) :
    let call := fsccUserWriteFrame hw data data.length port card
    AllOrNothing ds data port call.1 call.2.1 ↔
      data.length ≤ fsccUserGetTxSpace port ∨ fsccUserGetTxSpace port = 0 := by
  intro call
  have hspace := fsccUserGetTxSpace_pos hplain hsized hds
  constructor
  · rintro ⟨-, hnothing⟩
    by_contra hneither
    rw [not_or] at hneither
    have hfree := hspace.mp (Nat.pos_of_ne_zero hneither.2)
    exact fsccUserWriteFrame_touched hw card hplain (by omega) hfree
      (hnothing (Nat.lt_of_not_le hneither.1)).2
  · intro hcondition
    refine ⟨fun hfits ↦ fsccUserWriteFrame_whole hw card hplain hsized hds hpos (by omega) hfits,
      fun hshort ↦ ?_⟩
    have hnone : fsccUserGetTxSpace port = 0 := hcondition.resolve_left (Nat.not_le_of_lt hshort)
    exact fsccUserWriteFrame_untouched hw card hplain fun hfree ↦ by
      have := hspace.mpr hfree
      omega

/-- A free and a pending descriptor. -/
def halfFreePort : TxPort :=
  { twoBufferPort with
    txDescriptors := fun i ↦
      if i = 0 then ⟨descCstopBit, 0, 4, [0, 0, 0, 0], 0⟩
      else ⟨descHiBit ||| descFeBit ||| 4, 4, 4, [9, 9, 9, 9], 0⟩
    fifoTxDesc := 1 }

theorem halfFreePort_plain : TxPlain halfFreePort :=
  ⟨by decide, by decide, by decide⟩

theorem fscc_user_write_frame_all_or_nothing_half :
    let call := fsccUserWriteFrame quietCard [1, 2, 3] 3 halfFreePort ()
    AllOrNothing 4 [1, 2, 3] halfFreePort call.1 call.2.1 ↔
      3 ≤ fsccUserGetTxSpace halfFreePort ∨ fsccUserGetTxSpace halfFreePort = 0 :=
  fscc_user_write_frame_all_or_nothing quietCard () [1, 2, 3] halfFreePort_plain
    (by decide : ∀ i < 2, (halfFreePort.txDescriptors i).dataSize = 4) (by decide) (by decide)
    (by decide)

-- Eight bytes for one free descriptor: the call fails and leaves the first four in the ring.
theorem fscc_user_write_frame_half_queued :
    let call := fsccUserWriteFrame quietCard [1, 2, 3, 4, 5, 6, 7, 8] 8 halfFreePort ()
    ¬ AllOrNothing 4 [1, 2, 3, 4, 5, 6, 7, 8] halfFreePort call.1 call.2.1 := by
  intro call hboth
  have huntouched := (hboth.2 (by decide)).2
  exact absurd (huntouched.descs 0 (by decide)).1 (by decide)

end FsccDriver

import FsccDriver.Lib.Runs
import FsccDriver.WritePath

/-!
# WriteSpace — a write is queued whole

A write that fits the free descriptors when `fscc_user_write_frame` takes the lock is placed whole,
whatever the ring looks like.  What was free when the space was checked does not matter.
-/

namespace FsccDriver

open Words

variable {H : Type} {hw : Hardware H} {port : TxPort}

/-! ## Space and placing -/

/-- `fscc_user_get_tx_space` on a list of descriptors. -/
def freeSpace : List DmaFrame → Nat
  | [] => 0
  | desc :: descs =>
      if desc.control &&& descCstopBit ≠ descCstopBit then 0 else desc.dataSize + freeSpace descs

theorem getTxSpaceLoop_turn (port : TxPort) {n : Nat} (hn : n ≤ port.txNum) {cur : Nat}
    (hcur : cur < port.txNum) (space : Nat) :
    getTxSpaceLoop port n cur space =
      space + freeSpace ((Cyclic.turn port.txDescriptors port.txNum cur).take n) := by
  induction n generalizing cur space with
  | zero => rfl
  | succ n ih =>
    have htail : n ≤ (Cyclic.turn port.txDescriptors port.txNum cur).tail.length := by
      rw [List.length_tail, Cyclic.turn_length]
      omega
    rw [getTxSpaceLoop, Cyclic.turn_eq_cons _ hcur, List.take_succ_cons, freeSpace]
    by_cases hbusy : (port.txDescriptors cur).control &&& descCstopBit ≠ descCstopBit
    · rw [if_pos hbusy, if_pos hbusy]
      rfl
    · rw [if_neg hbusy, if_neg hbusy, ih (Nat.le_of_succ_le hn) (Cyclic.next_lt hcur),
        Cyclic.turn_next _ hcur, List.take_append_of_le_length htail, Nat.add_assoc]

theorem fsccUserGetTxSpace_turn (hcur : port.userTxDesc < port.txNum) :
    fsccUserGetTxSpace port =
      freeSpace (Cyclic.turn port.txDescriptors port.txNum port.userTxDesc) := by
  rw [fsccUserGetTxSpace, getTxSpaceLoop_turn port (Nat.le_refl _) hcur, Nat.zero_add,
    List.take_of_length_le (Nat.le_of_eq (Cyclic.turn_length _ _ _))]

/-- The bytes of a descriptor that count. -/
def descBytes (desc : DmaFrame) : List Byte := desc.buffer.take desc.dataCount

section Place

variable {buf : List Byte} {n : Nat} {st st' : WriteFrameLoop}

theorem segmentDesc_bytes (hle : st.outLength + segmentLength buf.length st ≤ buf.length) :
    descBytes (segmentDesc buf buf.length st) =
      (buf.drop st.outLength).take (segmentLength buf.length st) := by
  have hread := Bytes.read_length buf st.outLength (segmentLength buf.length st)
  have hhead := Bytes.write_take (Bytes.read buf st.outLength (segmentLength buf.length st))
    (Nat.zero_le st.port.userDesc.buffer.length)
  rw [hread, List.take_zero, List.nil_append, Nat.zero_add] at hhead
  exact hhead.trans (Bytes.read_eq_take_drop hle)

/-- The next `n` descriptors have room for what is left of the data. -/
structure RoomFor (buf : List Byte) (n : Nat) (st : WriteFrameLoop) : Prop where
  plain : TxPlain st.port
  rounds : n ≤ st.port.txNum
  length : buf.length < 4294967296
  unfinished : st.outLength < buf.length
  space : buf.length - st.outLength ≤
    freeSpace ((Cyclic.turn st.port.txDescriptors st.port.txNum st.port.userTxDesc).take n)

theorem RoomFor.start (hplain : TxPlain port) (hbuf : buf.length < 4294967296)
    (hpos : 0 < buf.length) (hspace : buf.length ≤ fsccUserGetTxSpace port) :
    RoomFor buf port.txNum ⟨port, 0, 0, 0, .success⟩ := by
  rw [fsccUserGetTxSpace_turn hplain.user_lt] at hspace
  refine ⟨hplain, Nat.le_refl _, hbuf, hpos, ?_⟩
  rw [List.take_of_length_le (Nat.le_of_eq (Cyclic.turn_length _ _ _))]
  exact hspace

theorem RoomFor.not_zero (h : RoomFor buf 0 st) : False := by
  have hspace := h.space
  rw [List.take_zero] at hspace
  exact Nat.not_le_of_lt (Nat.sub_pos_of_lt h.unfinished) hspace

/-- A round fills a free descriptor, and is the last one or leaves room for the rest. -/
theorem RoomFor.round (h : RoomFor buf (n + 1) st) :
    ∃ st', FillsOne buf buf.length st st' ∧ st.port.Free st.port.userTxDesc ∧
      segmentLength buf.length st = min (buf.length - st.outLength) st.port.userDesc.dataSize ∧
      st'.outLength = st.outLength + segmentLength buf.length st ∧
      (st'.outLength = buf.length ∧ writeFrameLoop buf buf.length (n + 1) st = st' ∧
          filledDescs buf buf.length (n + 1) st = [st.port.userTxDesc] ∨
        RoomFor buf n st' ∧
          writeFrameLoop buf buf.length (n + 1) st = writeFrameLoop buf buf.length n st' ∧
          filledDescs buf buf.length (n + 1) st =
            st.port.userTxDesc :: filledDescs buf buf.length n st') := by
  obtain ⟨hplain, hn, hbuf, hout, hspace⟩ := h
  rw [Cyclic.turn_eq_cons _ hplain.user_lt, List.take_succ_cons, freeSpace] at hspace
  rcases writeFrameStep_cases buf buf.length st with ⟨hbusy, -⟩ | ⟨hfree, st', hone, hstep⟩
  · have hnone : (st.port.txDescriptors st.port.userTxDesc).control &&& descCstopBit ≠ descCstopBit :=
      hbusy
    rw [if_pos hnone] at hspace
    exact absurd hspace (Nat.not_le_of_lt (Nat.sub_pos_of_lt hout))
  have hfills := hone.fills hplain hfree
  have hlen : segmentLength buf.length st =
      min (buf.length - st.outLength) st.port.userDesc.dataSize := by
    rw [segmentLength, u32_sub_of_le (by omega) (Nat.le_of_lt hout)]
  have hnext : st'.outLength = st.outLength + segmentLength buf.length st := by
    rw [hone.outLength, u32_add_of_lt (by omega)]
  refine ⟨st', hone, hfree, hlen, hnext, ?_⟩
  rw [filledDescs, writeFrameLoop, if_neg (not_not.mpr hfree), hstep]
  by_cases hlast : st'.outLength = buf.length
  · rw [decide_eq_false (not_not.mpr hlast)]
    exact Or.inl ⟨hlast, rfl, rfl⟩
  · rw [decide_eq_true hlast]
    refine Or.inr ⟨⟨hfills.plain, by rw [hfills.txNum]; omega, hbuf, by omega, ?_⟩, rfl, rfl⟩
    have hturn : Cyclic.turn st'.port.txDescriptors st'.port.txNum st'.port.userTxDesc =
        (Cyclic.turn st.port.txDescriptors st.port.txNum st.port.userTxDesc).tail ++
          [segmentDesc buf buf.length st] := by
      rw [hone.port]
      exact Cyclic.turn_update_next _ _ hplain.user_lt
    have htail : n ≤ (Cyclic.turn st.port.txDescriptors st.port.txNum
        st.port.userTxDesc).tail.length := by
      rw [List.length_tail, Cyclic.turn_length]
      omega
    have hcstop : (st.port.txDescriptors st.port.userTxDesc).control &&& descCstopBit =
        descCstopBit := hfree
    have hsize : st.port.userDesc.dataSize =
        (st.port.txDescriptors st.port.userTxDesc).dataSize := rfl
    rw [if_neg (not_not.mpr hcstop)] at hspace
    rw [hturn, List.take_append_of_le_length htail]
    omega

-- Induction over the rounds: each takes the first of the free descriptors ahead.
theorem writeFrameLoop_whole (n : Nat) (h : RoomFor buf n st) :
    (writeFrameLoop buf buf.length n st).status = st.status ∧
      (writeFrameLoop buf buf.length n st).outLength = buf.length ∧
      ((filledDescs buf buf.length n st).map fun i ↦
        descBytes ((writeFrameLoop buf buf.length n st).port.txDescriptors i)).flatten =
          buf.drop st.outLength := by
  induction n generalizing st with
  | zero => exact h.not_zero.elim
  | succ n ih =>
    obtain ⟨st', hone, hfree, hlen, hnext, hround⟩ := h.round
    have hout := h.unfinished
    have hbytes := segmentDesc_bytes (by omega : st.outLength + _ ≤ buf.length)
    rw [← hone.filled] at hbytes
    rcases hround with ⟨hlast, hloop, hdescs⟩ | ⟨hroom, hloop, hdescs⟩
    · rw [hloop, hdescs]
      refine ⟨hone.status, hlast, ?_⟩
      rw [List.map_singleton, List.flatten_singleton, hbytes, List.take_of_length_le]
      rw [List.length_drop]
      omega
    · rw [hloop, hdescs]
      obtain ⟨hstatus, hdone, hplaced⟩ := ih hroom
      refine ⟨hstatus.trans hone.status, hdone, ?_⟩
      have hkept := hone.kept (n := n) h.plain hfree h.rounds
      rw [← hone.filled] at hkept
      rw [List.map_cons, List.flatten_cons, hkept, hbytes, hplaced, hnext, ← List.drop_drop,
        List.take_append_drop]

end Place

/-- The call placed all bytes of its request in consecutive free descriptors. -/
structure Fill.Whole (fill : Fill) : Prop where
  result : fill.result = ⟨.success, fill.write.length⟩
  free : ∀ i ∈ fill.descs, fill.before.Free i
  consecutive : ∃ m ≤ fill.before.txNum, fill.descs =
    (List.range m).map fun k ↦ (fill.before.userTxDesc + k) % fill.before.txNum
  bytes : (fill.descs.map fun i ↦ descBytes (fill.after.txDescriptors i)).flatten = fill.write.data

-- `Length` is positive and fits a `UINT32`.
def Write.Fits (write : Write) : Prop := 0 < write.length ∧ write.length < 4294967296

variable {s : WriteState H} {write : Write}

variable (hw) in
theorem fillRecord_whole (hplain : TxPlain s.port) (hfits : write.Fits)
    (hspace : write.length ≤ fsccUserGetTxSpace s.port) : (s.fillRecord hw write).Whole := by
  have hlength : write.length32 = write.data.length := u32_of_nat hfits.2
  obtain ⟨hresult, hdescs, -⟩ := fsccUserWriteFrame_loop hw write.data write.length32 s.port s.card
  let st : WriteFrameLoop := ⟨s.port, 0, 0, 0, .success⟩
  have hst : TxPlain st.port := hplain
  have hfills := writeFrameLoop_fills write.data write.length32 s.port.txNum hst
  obtain ⟨m, hm, hconsecutive, -⟩ := filledDescs_eq write.data write.length32 s.port.txNum hst
  obtain ⟨hstatus, hout, hplaced⟩ := writeFrameLoop_whole s.port.txNum
    (RoomFor.start hplain hfits.2 hfits.1 hspace)
  rw [← hlength] at hstatus hout hplaced
  refine ⟨?_, hfills.free, ⟨m, hm, hconsecutive⟩, ?_⟩
  · show (fsccUserWriteFrame hw write.data write.length32 s.port s.card).1 = _
    rw [hresult, hstatus, hout, hlength]
    rfl
  · show (List.map (fun i ↦ descBytes
      ((fsccUserWriteFrame hw write.data write.length32 s.port s.card).2.1.txDescriptors i)) _).flatten
        = _
    rw [hdescs]
    exact hplaced

/-! ## Runs -/

/-- Whoever fills the ring finds room for its request; the card has a clock; and no purge cancels a
request that has been placed. -/
def SpaceAllowed (hw : Hardware H) (s : WriteState H) : WriteAction H → Prop
  | .evtIoWrite =>
      match s.writer with
      | some (.direct write) => write.length ≤ fsccUserGetTxSpace s.port →
          s.port.ignoreTimeout = false → (fsccPortTimedOut hw s.port.toRegPort s.card).1 = false
      | some (.checked write) => write.length ≤ fsccUserGetTxSpace s.port
      | _ => True
  | .requestWorker i =>
      match s.workers[i]? with
      | some (.retrieved write) => write.length ≤ fsccUserGetTxSpace s.port
      | _ => True
  | .purgeReturn => s.writeQueue2 = []
  | _ => True

-- A placed request, and the result `fscc_user_write_frame` gave for it.
def PlacedWith (fills : List Fill) (write : Write) (result : WriteResult) : Prop :=
  result = ⟨.success, write.length⟩ ∧ ∃ fill ∈ fills, fill.write = write

def WriterPc.Safe (fills : List Fill) : WriterPc → Prop
  | .entered _ => True
  | .direct write | .checked write => write.Fits
  | .filled write result => write.Fits ∧ PlacedWith fills write result

def WorkerPc.Safe (fills : List Fill) : WorkerPc → Prop
  | .entered | .done => True
  | .found write | .checked write | .retrieved write => write.Fits
  | .filled write result => PlacedWith fills write result

/-- A request that had passed its space check was placed, and succeeded with all its bytes. -/
def Answer.Good (fills : List Fill) (answer : Answer) : Prop :=
  answer.admitted = true → answer.status = .success ∧
    ∃ fill ∈ fills, fill.write.id = answer.id ∧ answer.information = fill.write.length

structure SpaceInvariant (s : WriteState H) : Prop where
  plain : TxPlain s.port
  queued : ∀ write ∈ s.blockingRequestQueue, write.Fits
  parked : ∀ write ∈ s.writeQueue2, write.Fits ∧ ∃ fill ∈ s.fills, fill.write = write
  writer : ∀ pc, s.writer = some pc → pc.Safe s.fills
  workers : ∀ pc ∈ s.workers, pc.Safe s.fills
  fills : ∀ fill ∈ s.fills, fill.Whole
  answers : ∀ answer ∈ s.answers, answer.Good s.fills

section Mono

variable {fills : List Fill} {fill : Fill} {result : WriteResult}

theorem PlacedWith.mono (h : PlacedWith fills write result) :
    PlacedWith (fills ++ [fill]) write result := by
  obtain ⟨hresult, record, hmem, heq⟩ := h
  exact ⟨hresult, record, List.mem_append_left _ hmem, heq⟩

theorem WriterPc.Safe.mono {pc : WriterPc} (h : pc.Safe fills) : pc.Safe (fills ++ [fill]) := by
  cases pc with
  | entered write => trivial
  | direct write => exact h
  | checked write => exact h
  | filled write result => exact ⟨h.1, h.2.mono⟩

theorem WorkerPc.Safe.mono {pc : WorkerPc} (h : pc.Safe fills) : pc.Safe (fills ++ [fill]) := by
  cases pc with
  | entered => trivial
  | found write => exact h
  | checked write => exact h
  | retrieved write => exact h
  | filled write result => exact PlacedWith.mono h
  | done => trivial

theorem Answer.Good.mono {answer : Answer} (h : answer.Good fills) : answer.Good (fills ++ [fill]) := by
  intro hadmitted
  obtain ⟨hstatus, record, hmem, heq⟩ := h hadmitted
  exact ⟨hstatus, record, List.mem_append_left _ hmem, heq⟩

end Mono

variable (hw) in
-- A fill that finds room keeps everything, and its request is placed.
theorem SpaceInvariant.fill (h : SpaceInvariant s) (hfits : write.Fits)
    (hspace : write.length ≤ fsccUserGetTxSpace s.port) :
    SpaceInvariant (s.fill hw write).2 ∧
      PlacedWith (s.fill hw write).2.fills write (s.fill hw write).1 := by
  have hwhole := fillRecord_whole hw h.plain hfits hspace
  obtain ⟨hresult, hfills⟩ := s.fill_fills hw write
  refine ⟨⟨(s.fillRecord_fills h.plain write).plain, h.queued, ?_, ?_, ?_, ?_, ?_⟩, ?_⟩
  · intro parked hparked
    obtain ⟨hparkedFits, record, hmem, heq⟩ := h.parked parked hparked
    exact ⟨hparkedFits, record, hfills ▸ List.mem_append_left _ hmem, heq⟩
  · intro pc hpc
    exact hfills ▸ (h.writer pc hpc).mono
  · intro pc hpc
    exact hfills ▸ (h.workers pc hpc).mono
  · rw [hfills]
    exact Threads.forall_append_one h.fills hwhole
  · intro answer hanswer
    exact hfills ▸ (h.answers answer hanswer).mono
  · refine ⟨hresult.trans hwhole.result, s.fillRecord hw write, ?_, rfl⟩
    rw [hfills]
    exact List.mem_append_right _ List.mem_cons_self

theorem SpaceInvariant.answer (h : SpaceInvariant s) {status : NtStatus} {information : Nat}
    {admitted : Bool} (hgood : Answer.Good s.fills ⟨write.id, status, information, admitted⟩) :
    SpaceInvariant (s.answer write status information admitted) :=
  ⟨h.plain, h.queued, h.parked, h.writer, h.workers, h.fills,
    Threads.forall_append_one h.answers hgood⟩

theorem SpaceInvariant.idle (h : SpaceInvariant s) : SpaceInvariant { s with writer := none } :=
  ⟨h.plain, h.queued, h.parked, fun _ hnone ↦ (by cases hnone), h.workers, h.fills, h.answers⟩

theorem SpaceInvariant.advance (h : SpaceInvariant s) {pc : WriterPc} (hsafe : pc.Safe s.fills) :
    SpaceInvariant { s with writer := some pc } := by
  refine ⟨h.plain, h.queued, h.parked, fun next hnext ↦ ?_, h.workers, h.fills, h.answers⟩
  rw [← Option.some.inj hnext]
  exact hsafe

-- Requests that were never admitted are answered as they are.
theorem good_unadmitted {fills : List Fill} {id information : Nat} {status : NtStatus} :
    Answer.Good fills ⟨id, status, information, false⟩ := fun h ↦ absurd h Bool.false_ne_true

theorem good_placed {fills : List Fill} {result : WriteResult} (h : PlacedWith fills write result) :
    Answer.Good fills ⟨write.id, result.status, result.outLength, true⟩ := by
  obtain ⟨rfl, fill, hmem, rfl⟩ := h
  exact fun _ ↦ ⟨rfl, fill, hmem, rfl, rfl⟩

theorem SpaceInvariant.evtIoWrite (h : SpaceInvariant s) {pc : WriterPc} (hpc : s.writer = some pc)
    (hallowed : SpaceAllowed hw s .evtIoWrite) : SpaceInvariant (s.evtIoWriteStep hw pc) := by
  have hsafe := h.writer pc hpc
  have hidle := h.idle
  rw [SpaceAllowed, hpc] at hallowed
  cases pc with
  | entered write =>
    rw [WriteState.evtIoWriteStep]
    dsimp only
    by_cases hzero : write.length = 0
    · rw [if_pos hzero]
      exact hidle.answer good_unadmitted
    rw [if_neg hzero]
    by_cases hlong : write.length > u32 ((s.txSize : Int) * s.port.txNum)
    · rw [if_pos hlong]
      exact hidle.answer good_unadmitted
    rw [if_neg hlong]
    have hfits : write.Fits :=
      ⟨Nat.pos_of_ne_zero hzero, Nat.lt_of_le_of_lt (Nat.le_of_not_lt hlong) (u32_lt _)⟩
    split
    · exact ⟨h.plain, Threads.forall_append_one h.queued hfits, h.parked, hidle.writer, h.workers,
        h.fills, h.answers⟩
    · exact h.advance hfits
  | direct write =>
    rw [WriteState.evtIoWriteStep]
    dsimp only
    by_cases hspace : fsccUserGetTxSpace s.port < write.length
    · rw [if_pos hspace]
      exact hidle.answer good_unadmitted
    rw [if_neg hspace]
    have hclock := hallowed (Nat.le_of_not_lt hspace)
    have hpass : ∀ card : H, SpaceInvariant { s with card, writer := some (.checked write) } := by
      intro card
      have hchecked : SpaceInvariant { s with writer := some (.checked write) } := h.advance hsafe
      exact ⟨h.plain, h.queued, h.parked, hchecked.writer, h.workers, h.fills, h.answers⟩
    by_cases hignore : s.port.ignoreTimeout = false
    · rw [if_pos hignore, hclock hignore]
      exact hpass _
    · rw [if_neg hignore]
      exact hpass _
  | checked write =>
    obtain ⟨hfill, hplaced⟩ := h.fill hw hsafe hallowed
    exact hfill.advance ⟨hsafe, hplaced⟩
  | filled write result =>
    obtain ⟨hfits, hplaced⟩ := hsafe
    rw [WriteState.evtIoWriteStep]
    dsimp only
    split
    · exact ⟨h.plain, h.queued, Threads.forall_append_one h.parked ⟨hfits, hplaced.2⟩,
        hidle.writer, h.workers, h.fills, h.answers⟩
    · exact hidle.answer (good_placed hplaced)

variable (hw) in
theorem SpaceInvariant.requestWorker (h : SpaceInvariant s) {pc : WorkerPc} (hsafe : pc.Safe s.fills)
    (hspace : ∀ write, pc = .retrieved write → write.length ≤ fsccUserGetTxSpace s.port) :
    SpaceInvariant (s.requestWorkerStep hw pc).2 ∧
      (s.requestWorkerStep hw pc).1.Safe (s.requestWorkerStep hw pc).2.fills ∧
      (s.requestWorkerStep hw pc).2.workers = s.workers := by
  cases pc with
  | entered =>
    rw [WriteState.requestWorkerStep]
    cases hqueue : s.blockingRequestQueue with
    | nil => exact ⟨h, trivial, rfl⟩
    | cons write writes =>
      have hfits : write.Fits := h.queued write (hqueue ▸ List.mem_cons_self)
      exact ⟨h, hfits, rfl⟩
  | found write =>
    rw [WriteState.requestWorkerStep]
    split
    · exact ⟨h, trivial, rfl⟩
    · exact ⟨h, hsafe, rfl⟩
  | checked write =>
    rw [WriteState.requestWorkerStep]
    split
    · exact ⟨⟨h.plain, fun w hw ↦ h.queued w (List.mem_of_mem_erase hw), h.parked, h.writer, h.workers,
        h.fills, h.answers⟩, hsafe, rfl⟩
    · exact ⟨h, trivial, rfl⟩
  | retrieved write =>
    obtain ⟨hfill, hplaced⟩ := h.fill hw hsafe (hspace write rfl)
    exact ⟨hfill, hplaced, rfl⟩
  | filled write result => exact ⟨h.answer (good_placed hsafe), trivial, rfl⟩
  | done => exact ⟨h, trivial, rfl⟩

theorem SpaceInvariant.same (h : SpaceInvariant s) {s' : WriteState H} (hplain : TxPlain s'.port)
    (hqueue : s'.blockingRequestQueue = s.blockingRequestQueue)
    (hparked : s'.writeQueue2 = s.writeQueue2) (hwriter : s'.writer = s.writer)
    (hworkers : s'.workers = s.workers) (hfills : s'.fills = s.fills)
    (hanswers : s'.answers = s.answers) : SpaceInvariant s' := by
  obtain ⟨-, hqueued, hpark, hwrite, hwork, hfill, hanswer⟩ := h
  refine ⟨hplain, hqueue ▸ hqueued, ?_, ?_, ?_, hfills ▸ hfill, ?_⟩
  · rw [hparked, hfills]
    exact hpark
  · rw [hwriter, hfills]
    exact hwrite
  · rw [hworkers, hfills]
    exact hwork
  · rw [hanswers, hfills]
    exact hanswer

theorem SpaceInvariant.step {action : WriteAction H} (hallowed : SpaceAllowed hw s action)
    (h : SpaceInvariant s) : SpaceInvariant (writeStep hw s action) := by
  cases action with
  | submit data =>
    rw [writeStep, WriteState.submit]
    have hnext : SpaceInvariant { s with nextId := s.nextId + 1 } :=
      h.same h.plain rfl rfl rfl rfl rfl rfl
    split
    · exact hnext.answer good_unadmitted
    · exact hnext.same h.plain rfl rfl rfl rfl rfl rfl
  | present =>
    rw [writeStep, WriteState.present]
    split
    next write _ _ _ =>
      have hentered : SpaceInvariant { s with writer := some (.entered write) } := h.advance trivial
      exact ⟨h.plain, h.queued, h.parked, hentered.writer, h.workers, h.fills, h.answers⟩
    · exact h
  | evtIoWrite =>
    rw [writeStep]
    cases hpc : s.writer with
    | none => exact h
    | some pc => exact h.evtIoWrite hpc hallowed
  | enqueueRequestDpc =>
    exact ⟨h.plain, h.queued, h.parked, h.writer, Threads.forall_append_one h.workers trivial,
      h.fills, h.answers⟩
  | requestWorker i =>
    rw [writeStep]
    rw [SpaceAllowed] at hallowed
    cases hpc : s.workers[i]? with
    | none => exact h
    | some pc =>
      have hsafe := h.workers pc (List.mem_of_getElem? hpc)
      rw [hpc] at hallowed
      obtain ⟨hnext, hnextSafe, hsame⟩ := h.requestWorker hw hsafe (by
        rintro write rfl
        exact hallowed)
      refine ⟨hnext.plain, hnext.queued, hnext.parked, hnext.writer, ?_, hnext.fills, hnext.answers⟩
      exact Threads.forall_set (hsame ▸ hnext.workers) hnextSafe
  | fifoWriteData tfcnt txcnt =>
    exact h.same (s.drain_pushes hw h.plain tfcnt txcnt).plain rfl rfl rfl rfl rfl rfl
  | setBlockingWrite value => exact h.same h.plain rfl rfl rfl rfl rfl rfl
  | setWaitOnWrite value => exact h.same h.plain rfl rfl rfl rfl rfl rfl
  | purgeReset card =>
    rw [writeStep, WriteState.purgeReset]
    split
    · exact h.same h.plain.reset rfl rfl rfl rfl rfl rfl
    · exact h
  | purgeStop =>
    rw [writeStep, WriteState.purgeStop]
    split
    · refine ⟨h.plain, h.queued, h.parked, h.writer, h.workers, h.fills, fun answer hanswer ↦ ?_⟩
      rcases List.mem_append.mp hanswer with hold | hnew
      · exact h.answers answer hold
      · obtain ⟨write, -, rfl⟩ := List.mem_map.mp hnew
        exact good_unadmitted
    · exact h
  | purgeReturn =>
    have hnone : s.writeQueue2 = [] := hallowed
    rw [writeStep, WriteState.purgeReturn]
    split
    · refine ⟨h.plain, h.queued, fun _ hmem ↦ absurd hmem List.not_mem_nil, h.writer, h.workers,
        h.fills, ?_⟩
      dsimp only
      rw [hnone, List.map_nil, List.append_nil]
      exact h.answers
    · exact h
  | send pieces => exact h.same h.plain rfl rfl rfl rfl rfl rfl
  | alls => exact h.same h.plain rfl rfl rfl rfl rfl rfl
  | setCard card => exact h.same h.plain rfl rfl rfl rfl rfl rfl
  | allsWorker =>
    rw [writeStep, WriteState.allsWorker]
    split
    · exact h
    split
    · refine ⟨h.plain, h.queued, fun _ hmem ↦ absurd hmem List.not_mem_nil, h.writer, h.workers,
        h.fills, fun answer hanswer ↦ ?_⟩
      rcases List.mem_append.mp hanswer with hold | hnew
      · exact h.answers answer hold
      · obtain ⟨write, hparked, rfl⟩ := List.mem_map.mp hnew
        obtain ⟨hfits, fill, hmem, rfl⟩ := h.parked write hparked
        exact fun _ ↦ ⟨rfl, fill, hmem, rfl, u32_of_nat hfits.2⟩
    · exact h.same h.plain rfl rfl rfl rfl rfl rfl

theorem writeStart_space (hslots : 0 < port.txNum)
    (hbuffer : ∀ i < port.txNum,
      (port.txDescriptors i).buffer.length = (port.txDescriptors i).dataSize)
    (txSize : Nat) (card : H) : SpaceInvariant (writeStart port txSize card) := by
  constructor
  case plain => exact resetTx_plain hslots hbuffer
  case writer => exact fun pc hpc ↦ by cases hpc
  all_goals exact fun _ hmem ↦ absurd hmem List.not_mem_nil

/-- As long as every write that gets the lock still finds room, every call of
`fscc_user_write_frame` places its request whole, and every request that had passed its space check
and is answered has been placed and succeeds. -/
theorem fscc_writes_queued_whole (hw : Hardware H) (txSize : Nat) (card : H)
    (hslots : 0 < port.txNum) (hbuffer : ∀ i < port.txNum,
      (port.txDescriptors i).buffer.length = (port.txDescriptors i).dataSize)
    (actions : List (WriteAction H))
    (hallowed : Runs.Along (SpaceAllowed hw) (writeStep hw) (writeStart port txSize card) actions) :
    let s := actions.foldl (writeStep hw) (writeStart port txSize card)
    (∀ fill ∈ s.fills, fill.Whole) ∧ ∀ answer ∈ s.answers, answer.Good s.fills := by
  have hend := hallowed.invariant (fun _ _ hallowed h ↦ h.step hallowed)
    (writeStart_space hslots hbuffer txSize card)
  exact ⟨hend.fills, hend.answers⟩

/-- `request_worker` takes a blocking write while `FsccEvtIoWrite` is between the checks of another one and
its turn; the ring has room for both. -/
def twoWritesOverlap : List (WriteAction Unit) :=
  [.setBlockingWrite true, .submit [1, 2, 3, 4], .present, .evtIoWrite, .setBlockingWrite false,
    .submit [5, 6, 7, 8], .present, .evtIoWrite, .enqueueRequestDpc, .requestWorker 0, .requestWorker 0,
    .evtIoWrite, .requestWorker 0, .requestWorker 0, .evtIoWrite, .requestWorker 0, .evtIoWrite]

theorem fscc_writes_queued_whole_overlapping :
    let s := twoWritesOverlap.foldl (writeStep quietCard) (writeStart twoBufferPort 4 ())
    (∀ fill ∈ s.fills, fill.Whole) ∧ ∀ answer ∈ s.answers, answer.Good s.fills :=
  fscc_writes_queued_whole quietCard 4 () (by decide) (fun _ _ ↦ rfl) twoWritesOverlap
    ⟨trivial, trivial, trivial, trivial, trivial, trivial, trivial, trivial, trivial, trivial, trivial,
      fun _ _ ↦ rfl, trivial, (by decide : 4 ≤ 8), (by decide : 4 ≤ 4), trivial, trivial, trivial⟩

-- A blocking write of four bytes takes the lock between the space check of a write of eight bytes and
-- its turn; the latter runs out of descriptors half way.
theorem fscc_writes_queued_in_part :
    let s := [WriteAction.setBlockingWrite true, .submit [1, 2, 3, 4], .present, .evtIoWrite,
      .setBlockingWrite false, .submit [1, 2, 3, 4, 5, 6, 7, 8], .present, .evtIoWrite, .evtIoWrite,
      .enqueueRequestDpc, .requestWorker 0, .requestWorker 0, .requestWorker 0, .requestWorker 0,
      .evtIoWrite, .evtIoWrite].foldl (writeStep quietCard) (writeStart twoBufferPort 4 ())
    ¬ ∀ answer ∈ s.answers, answer.admitted = true → answer.status = .success := by
  decide

end FsccDriver

import FsccDriver.WriteSpace
import FsccDriver.RingStore

/-!
# WriteAdmission — which writes reach the ring, and what the first descriptor says

`FsccEvtIoWrite` compares `Length` with a 32-bit product, and the first descriptor of a frame keeps
the length in the 29 bits below its flags.
-/

namespace FsccDriver

open Words

variable {H : Type} {hw : Hardware H}

/-- The port with the ring of `fscc_io_create_tx`. -/
def TxPort.withRing (port : TxPort) (ring : Store.Ring) : TxPort :=
  { port with
    txNum := ring.num
    txDescriptors := fun i ↦ ((ring.frame? i).map Store.Frame.toDmaFrame).getD (port.txDescriptors i)
    descPhysicalAddress := fun i ↦
      ((ring.frame? i).map Store.Frame.descPhysicalAddress).getD (port.descPhysicalAddress i) }

/-! ## The control word -/

/-- Of the flags HI and FE are set, and the other bits hold the length. -/
structure FrameControl (length control : Nat) : Prop where
  lt : control < 4294967296
  flags : control &&& not32 dmaMaxLength = descHiBit ||| descFeBit
  length : control &&& dmaMaxLength = length

/-- `fscc_fifo_write_data` takes the descriptor for the first one of a frame of this length. -/
def ReadsBack (hw : Hardware H) (length control : Nat) : Prop :=
  ∀ (tfcnt : Nat) (st : WriteDataLoop) (h : H), st.port.fifoDesc.control = control →
    tfcnt ≤ 255 → st.frameSize = 0 → sizeInFifo st.port.fifoDesc.dataCount ≤ st.fifoSpace →
    (writeDataStep hw tfcnt st h).1 = true ∧ (writeDataStep hw tfcnt st h).2.1.frameSize = length

theorem first_control {length : Nat} (hlength : length < 536870912) :
    descHiBit ||| descFeBit ||| length = 2684354560 + length := by
  have hor := Nat.two_pow_add_eq_or_of_lt (i := 29) hlength 5
  exact hor.symm

theorem frameControl_first {length : Nat} (hlength : length < 536870912) :
    FrameControl length (descHiBit ||| descFeBit ||| length) := by
  rw [first_control hlength]
  refine ⟨by omega, ?_, ?_⟩
  · have hmask : (2684354560 + length) &&& not32 dmaMaxLength =
        (2684354560 + length) / 536870912 * 536870912 :=
      and_not_low (i := 29) (by omega) (by decide)
    rw [hmask]
    show _ = 2684354560
    omega
  · rw [and_dmaMaxLength]
    omega

/-- The field has 29 bits. -/
theorem FrameControl.length_lt {length control : Nat} (h : FrameControl length control) :
    length < 536870912 := by
  have hlength := h.length
  rw [and_dmaMaxLength] at hlength
  omega

theorem FrameControl.readsBack {length control : Nat} (h : FrameControl length control) (hw : Hardware H) :
    ReadsBack hw length control := by
  intro tfcnt st card hcontrol htfcnt hsize hspace
  have hdiv : control / 536870912 = 5 := by
    have hflags := h.flags
    have hmask : control &&& not32 dmaMaxLength = control / 536870912 * 536870912 :=
      and_not_low (i := 29) h.lt (by decide)
    rw [hmask] at hflags
    have hvalue : descHiBit ||| descFeBit = 2684354560 := by decide
    omega
  have hcstop : ¬ control &&& descCstopBit = descCstopBit := by
    rw [and_descCstopBit_self]
    omega
  have hfe : control &&& descFeBit = descFeBit := by
    rw [and_descFeBit_self]
    omega
  rw [writeDataStep]
  dsimp only
  rw [hcontrol, if_neg hcstop, if_neg (by omega), if_neg (by omega), if_pos hfe]
  exact ⟨rfl, h.length⟩

/-! ## The property -/

/-- Exact admission for the writes of one length into a ring of a given capacity. -/
structure AdmitsExactly (hw : Hardware H) (capacity length : Nat) (s : WriteState H) : Prop where
  admitted : ∀ fill ∈ s.fills, fill.write.length = length → length ≤ capacity
  notRejected : ∀ write, s.writer = some (.entered write) → write.length = length → length ≤ capacity →
    (s.evtIoWriteStep hw (.entered write)).answers ≠ s.answers ++ [⟨write.id, .bufferTooSmall, 0, false⟩]
  stored : ∀ fill ∈ s.fills, fill.write.length = length → ∀ i, fill.descs.head? = some i →
    FrameControl length (fill.after.txDescriptors i).control ∧
      ReadsBack hw length (fill.after.txDescriptors i).control
  -- Until it is pushed a descriptor stays as the call has left it.
  kept : ∀ i < s.port.txNum, ¬ s.port.Free i → ∃ fill ∈ s.fills, i ∈ fill.descs ∧
    s.owner i = fill.write.id ∧ s.port.txDescriptors i = fill.after.txDescriptors i

/-! ## What the tests let through -/

/-- `Length` is positive and at most the product as `FsccEvtIoWrite` computes it. -/
def Admits (num size : Nat) (write : Write) : Prop :=
  0 < write.length ∧ write.length ≤ num * size % 4294967296

theorem u32_product (size num : Nat) : u32 ((size : Int) * num) = num * size % 4294967296 := by
  rw [← Int.natCast_mul, Nat.mul_comm num size]
  unfold u32
  omega

theorem txProduct {num size : Nat} {s : WriteState H} (hsize : s.txSize = size) (hnum : s.port.txNum = num) :
    u32 ((s.txSize : Int) * s.port.txNum) = num * size % 4294967296 := by
  rw [hsize, hnum]
  exact u32_product size num

theorem Admits.fits {num size : Nat} {write : Write} (h : Admits num size write) : write.Fits :=
  ⟨h.1, Nat.lt_of_le_of_lt h.2 (Nat.mod_lt _ (by decide))⟩

theorem Admits.le {num size : Nat} {write : Write} (h : Admits num size write) :
    write.length ≤ num * size := Nat.le_trans h.2 (Nat.mod_le _ _)

theorem Admits.num_pos {num size : Nat} {write : Write} (h : Admits num size write) : 0 < num := by
  rcases Nat.eq_zero_or_pos num with rfl | hnum
  · have hle := h.le
    rw [Nat.zero_mul] at hle
    exact absurd h.1 (Nat.not_lt_of_le hle)
  · exact hnum

/-- The first descriptor of the call carries the length of its request. -/
def Fill.First (fill : Fill) : Prop := ∀ i, fill.descs.head? = some i →
  (fill.after.txDescriptors i).control = descHiBit ||| descFeBit ||| fill.write.length

def WriterPc.Admitted (num size : Nat) : WriterPc → Prop
  | .direct write | .checked write => Admits num size write
  | .entered _ | .filled _ _ => True

def WorkerPc.Admitted (num size : Nat) : WorkerPc → Prop
  | .found write | .checked write | .retrieved write => Admits num size write
  | .entered | .filled _ _ | .done => True

-- A descriptor in use is as the call that filled it has left it.
def InUse (s : WriteState H) : Prop :=
  ∀ i < s.port.txNum, ¬ s.port.Free i → ∃ fill ∈ s.fills, i ∈ fill.descs ∧
    s.owner i = fill.write.id ∧ s.port.txDescriptors i = fill.after.txDescriptors i

structure AdmissionInvariant (num size : Nat) (s : WriteState H) : Prop where
  txSize : s.txSize = size
  txNum : s.port.txNum = num
  plain : 0 < num → TxPlain s.port
  queued : ∀ write ∈ s.blockingRequestQueue, Admits num size write
  writer : ∀ pc, s.writer = some pc → pc.Admitted num size
  workers : ∀ pc ∈ s.workers, pc.Admitted num size
  fills : ∀ fill ∈ s.fills, Admits num size fill.write ∧ fill.First
  inUse : InUse s

section Invariant

variable {num size : Nat} {s s' : WriteState H} {write : Write}

theorem writeFrameLoop_first {buf : List Byte} {dataLength n : Nat} {st : WriteFrameLoop}
    (hplain : TxPlain st.port) (hn : n ≤ st.port.txNum) {i : Nat}
    (hhead : (filledDescs buf dataLength n st).head? = some i) :
    (writeFrameLoop buf dataLength n st).port.txDescriptors i = segmentDesc buf dataLength st := by
  cases n with
  | zero => cases hhead
  | succ n =>
    rw [filledDescs] at hhead
    rw [writeFrameLoop]
    rcases writeFrameStep_cases buf dataLength st with ⟨hbusy, hstep⟩ | ⟨hfree, st', hone, hstep⟩
    · rw [if_pos hbusy] at hhead
      cases hhead
    · rw [if_neg (not_not.mpr hfree), hstep] at hhead
      rw [hstep]
      by_cases hlast : st'.outLength = dataLength
      · rw [decide_eq_false (not_not.mpr hlast)] at hhead ⊢
        rw [← Option.some.inj hhead]
        exact hone.filled
      · rw [decide_eq_true hlast] at hhead ⊢
        rw [← Option.some.inj hhead]
        exact hone.kept hplain hfree hn

variable (hw) in
theorem fillRecord_first (hplain : TxPlain s.port) (hfits : write.Fits) :
    (s.fillRecord hw write).First := by
  have hlength : write.length32 = write.length := u32_of_nat hfits.2
  obtain ⟨-, hdescs, -⟩ := fsccUserWriteFrame_loop hw write.data write.length32 s.port s.card
  let st : WriteFrameLoop := ⟨s.port, 0, 0, 0, .success⟩
  have hst : TxPlain st.port := hplain
  intro i hhead
  have hdesc := writeFrameLoop_first hst (Nat.le_refl _) hhead
  show ((fsccUserWriteFrame hw write.data write.length32 s.port s.card).2.1.txDescriptors i).control = _
  rw [hdescs, hdesc]
  show descHiBit ||| descFeBit ||| write.length32 = _
  rw [hlength]
  rfl

-- A step that leaves the ring, the queue and the threads alone.
theorem AdmissionInvariant.same (h : AdmissionInvariant num size s) (hsize : s'.txSize = s.txSize)
    (hport : s'.port = s.port) (hqueue : s'.blockingRequestQueue = s.blockingRequestQueue)
    (hwriter : s'.writer = s.writer) (hworkers : s'.workers = s.workers) (hfills : s'.fills = s.fills)
    (howner : s'.owner = s.owner) : AdmissionInvariant num size s' := by
  obtain ⟨hsize', hnum, hplain, hqueued, hwrite, hwork, hfill, hinUse⟩ := h
  refine ⟨hsize.trans hsize', hport ▸ hnum, hport ▸ hplain, hqueue ▸ hqueued, hwriter ▸ hwrite,
    hworkers ▸ hwork, hfills ▸ hfill, ?_⟩
  rw [InUse, hport, hfills, howner]
  exact hinUse

variable (hw) in
/-- A call of `fscc_user_write_frame` for an admitted request. -/
theorem AdmissionInvariant.fill (h : AdmissionInvariant num size s) (hadmits : Admits num size write) :
    AdmissionInvariant num size (s.fill hw write).2 := by
  have hplain := h.plain hadmits.num_pos
  have hfills : Fills s.port (s.fillRecord hw write).descs (s.fill hw write).2.port :=
    s.fillRecord_fills hplain write
  obtain ⟨-, hrecord⟩ := s.fill_fills hw write
  refine ⟨h.txSize, hfills.txNum.trans h.txNum, fun _ ↦ hfills.plain, h.queued, h.writer, h.workers, ?_, ?_⟩
  · rw [hrecord]
    exact Threads.forall_append_one h.fills ⟨hadmits, fillRecord_first hw hplain hadmits.fits⟩
  · intro i hi hpending
    rw [hrecord]
    by_cases hmem : i ∈ (s.fillRecord hw write).descs
    · exact ⟨_, List.mem_append_right _ List.mem_cons_self, hmem, if_pos hmem, rfl⟩
    · have hother := hfills.other i hmem
      rw [TxPort.Free, hother] at hpending
      rw [hfills.txNum] at hi
      obtain ⟨fill, hfill, hdescs, howner, hdesc⟩ := h.inUse i hi hpending
      exact ⟨fill, List.mem_append_left _ hfill, hdescs, (if_neg hmem).trans howner, hother.trans hdesc⟩

theorem AdmissionInvariant.idle (h : AdmissionInvariant num size s) :
    AdmissionInvariant num size { s with writer := none } :=
  ⟨h.txSize, h.txNum, h.plain, h.queued, fun _ hnone ↦ (by cases hnone), h.workers, h.fills, h.inUse⟩

theorem AdmissionInvariant.advance (h : AdmissionInvariant num size s) {pc : WriterPc}
    (hadmitted : pc.Admitted num size) : AdmissionInvariant num size { s with writer := some pc } := by
  refine ⟨h.txSize, h.txNum, h.plain, h.queued, fun next hnext ↦ ?_, h.workers, h.fills, h.inUse⟩
  rw [← Option.some.inj hnext]
  exact hadmitted

theorem AdmissionInvariant.evtIoWrite (h : AdmissionInvariant num size s) {pc : WriterPc}
    (hpc : s.writer = some pc) : AdmissionInvariant num size (s.evtIoWriteStep hw pc) := by
  have hadmitted := h.writer pc hpc
  have hidle := h.idle
  cases pc with
  | entered write =>
    rw [WriteState.evtIoWriteStep]
    dsimp only
    by_cases hzero : write.length = 0
    · rw [if_pos hzero]
      exact hidle.same rfl rfl rfl rfl rfl rfl rfl
    rw [if_neg hzero, txProduct h.txSize h.txNum]
    by_cases hlong : write.length > num * size % 4294967296
    · rw [if_pos hlong]
      exact hidle.same rfl rfl rfl rfl rfl rfl rfl
    rw [if_neg hlong]
    have hadmits : Admits num size write := ⟨Nat.pos_of_ne_zero hzero, Nat.le_of_not_lt hlong⟩
    split
    · exact ⟨h.txSize, h.txNum, h.plain, Threads.forall_append_one h.queued hadmits, hidle.writer,
        h.workers, h.fills, h.inUse⟩
    · exact h.advance hadmits
  | direct write =>
    obtain ⟨card, ⟨status, admitted, hstep⟩ | hstep⟩ := s.evtIoWriteStep_direct hw write
    · rw [hstep]
      exact hidle.same rfl rfl rfl rfl rfl rfl rfl
    · rw [hstep]
      have hchecked : AdmissionInvariant num size { s with writer := some (.checked write) } :=
        h.advance hadmitted
      exact hchecked.same rfl rfl rfl rfl rfl rfl rfl
  | checked write => exact (h.fill hw hadmitted).advance trivial
  | filled write result =>
    rw [WriteState.evtIoWriteStep]
    dsimp only
    split
    · exact hidle.same rfl rfl rfl rfl rfl rfl rfl
    · exact hidle.same rfl rfl rfl rfl rfl rfl rfl

variable (hw) in
theorem AdmissionInvariant.requestWorker (h : AdmissionInvariant num size s) {pc : WorkerPc}
    (hadmitted : pc.Admitted num size) :
    AdmissionInvariant num size (s.requestWorkerStep hw pc).2 ∧
      (s.requestWorkerStep hw pc).1.Admitted num size := by
  cases pc with
  | entered =>
    rw [WriteState.requestWorkerStep]
    cases hqueue : s.blockingRequestQueue with
    | nil => exact ⟨h, trivial⟩
    | cons write writes =>
      have hadmits : Admits num size write := h.queued write (hqueue ▸ List.mem_cons_self)
      exact ⟨h, hadmits⟩
  | found write =>
    rw [WriteState.requestWorkerStep]
    split
    · exact ⟨h, trivial⟩
    · exact ⟨h, hadmitted⟩
  | checked write =>
    rw [WriteState.requestWorkerStep]
    split
    · exact ⟨⟨h.txSize, h.txNum, h.plain, fun w hmem ↦ h.queued w (List.mem_of_mem_erase hmem), h.writer,
        h.workers, h.fills, h.inUse⟩, hadmitted⟩
    · exact ⟨h, trivial⟩
  | retrieved write => exact ⟨h.fill hw hadmitted, trivial⟩
  | filled write result => exact ⟨h.same rfl rfl rfl rfl rfl rfl rfl, trivial⟩
  | done => exact ⟨h, trivial⟩

variable (hw) in
/-- `fscc_fifo_write_data` frees what it pushes. -/
theorem AdmissionInvariant.drain (h : AdmissionInvariant num size s) (tfcnt txcnt : Nat) :
    AdmissionInvariant num size (s.drain hw tfcnt txcnt) := by
  rcases Nat.eq_zero_or_pos num with hzero | hnum
  · obtain ⟨-, hnum, -⟩ := writeDataLocked_loop hw tfcnt txcnt s.port s.card
    let st : WriteDataLoop := ⟨s.port, fifoSpace txcnt, 0, 0⟩
    have hst : st.port.txNum = num := h.txNum
    have hloop : (writeDataLoop hw tfcnt s.port.txNum st s.card).1.port.txNum = num :=
      writeDataLoop_invariant (P := fun port ↦ port.txNum = num) (fun _ hport _ ↦ hport)
        s.port.txNum s.card hst
    have hsame : (s.drain hw tfcnt txcnt).port.txNum = num := hnum.trans hloop
    refine ⟨h.txSize, hsame, fun hpos ↦ absurd hpos (by omega), h.queued, h.writer, h.workers, h.fills,
      fun i hi _ ↦ ?_⟩
    rw [hsame, hzero] at hi
    exact absurd hi (Nat.not_lt_zero i)
  · have hpushes := s.drain_pushes hw (h.plain hnum) tfcnt txcnt
    refine ⟨h.txSize, hpushes.txNum.trans h.txNum, fun _ ↦ hpushes.plain, h.queued, h.writer, h.workers,
      h.fills, fun i hi hpending ↦ ?_⟩
    obtain ⟨hnot, hbefore⟩ := hpushes.still_pending hpending
    rw [hpushes.txNum] at hi
    obtain ⟨fill, hfill, hdescs, howner, hdesc⟩ := h.inUse i hi hbefore
    exact ⟨fill, hfill, hdescs, howner, (hpushes.other i hnot).trans hdesc⟩

variable (hw) in
theorem AdmissionInvariant.step (h : AdmissionInvariant num size s) (action : WriteAction H) :
    AdmissionInvariant num size (writeStep hw s action) := by
  cases action with
  | submit data =>
    rw [writeStep]
    rcases s.submit_cases data with ⟨mark, -, hstep⟩ | ⟨-, hstep⟩
    all_goals
      rw [hstep]
      exact h.same rfl rfl rfl rfl rfl rfl rfl
  | present =>
    rw [writeStep]
    rcases s.present_cases with hstep | ⟨write, writes, -, -, hstep⟩
    · rwa [hstep]
    · rw [hstep]
      have hentered : AdmissionInvariant num size { s with writer := some (.entered write) } :=
        h.advance trivial
      exact hentered.same rfl rfl rfl rfl rfl rfl rfl
  | evtIoWrite =>
    rw [writeStep]
    cases hpc : s.writer with
    | none => exact h
    | some pc => exact h.evtIoWrite hpc
  | enqueueRequestDpc =>
    exact ⟨h.txSize, h.txNum, h.plain, h.queued, h.writer, Threads.forall_append_one h.workers trivial,
      h.fills, h.inUse⟩
  | requestWorker i =>
    rw [writeStep]
    cases hpc : s.workers[i]? with
    | none => exact h
    | some pc =>
      obtain ⟨hnext, hadmitted⟩ := h.requestWorker hw (h.workers pc (List.mem_of_getElem? hpc))
      refine ⟨hnext.txSize, hnext.txNum, hnext.plain, hnext.queued, hnext.writer, ?_, hnext.fills,
        hnext.inUse⟩
      exact Threads.forall_set hnext.workers hadmitted
  | fifoWriteData tfcnt txcnt => exact h.drain hw tfcnt txcnt
  | purgeReset card =>
    rw [writeStep]
    rcases s.purgeReset_cases card with hstep | ⟨-, hstep⟩
    · rwa [hstep]
    · rw [hstep]
      refine ⟨h.txSize, h.txNum, fun hpos ↦ (h.plain hpos).reset, h.queued, h.writer, h.workers, h.fills,
        fun i hi hpending ↦ ?_⟩
      have hfree : (resetTx s.port).Free i := resetTx_free hi
      exact absurd hfree hpending
  | purgeStop =>
    rw [writeStep]
    rcases s.purgeStop_cases with hstep | ⟨mark, -, hstep⟩
    · rwa [hstep]
    · rw [hstep]
      exact h.same rfl rfl rfl rfl rfl rfl rfl
  | purgeReturn =>
    rw [writeStep]
    rcases s.purgeReturn_cases with hstep | ⟨mark, -, -, hstep⟩
    · rwa [hstep]
    · rw [hstep]
      exact h.same rfl rfl rfl rfl rfl rfl rfl
  | allsWorker =>
    rw [writeStep]
    rcases s.allsWorker_cases with ⟨-, hstep⟩ | ⟨ids, -, ⟨-, hstep⟩ | ⟨-, hstep⟩⟩
    · rwa [hstep]
    all_goals
      rw [hstep]
      exact h.same rfl rfl rfl rfl rfl rfl rfl
  | setBlockingWrite value => exact h.same rfl rfl rfl rfl rfl rfl rfl
  | setWaitOnWrite value => exact h.same rfl rfl rfl rfl rfl rfl rfl
  | send pieces => exact h.same rfl rfl rfl rfl rfl rfl rfl
  | alls => exact h.same rfl rfl rfl rfl rfl rfl rfl
  | setCard card => exact h.same rfl rfl rfl rfl rfl rfl rfl

end Invariant

/-! ## The ring as it was created -/

/-- The buffers of the ring are all of one size. -/
structure SameSize (port : TxPort) (size : Nat) : Prop where
  dataSize : ∀ i < port.txNum, (port.txDescriptors i).dataSize = size
  buffer : ∀ i < port.txNum, (port.txDescriptors i).buffer.length = size

theorem fsccIoCreateTx_sameSize (port : TxPort) (al : Store.Allocator) (number size : BitVec 32)
    (heap : Store.Heap) :
    let ring := (Store.fsccIoCreateTx al number size heap).2.1
    SameSize (port.withRing ring) ring.size := by
  intro ring
  have hdesc : ∀ i < ring.num, ((port.withRing ring).txDescriptors i).dataSize = ring.size ∧
      ((port.withRing ring).txDescriptors i).buffer.length = ring.size := by
    intro i hi
    obtain ⟨frame, hframe, hsizes⟩ := Store.createRing_frame al (fun _ ↦ 0) heap number size hi
    have hentry : (port.withRing ring).txDescriptors i = frame.toDmaFrame :=
      congrArg (fun frame? ↦ (Option.map Store.Frame.toDmaFrame frame?).getD (port.txDescriptors i)) hframe
    rw [hentry]
    exact hsizes
  exact ⟨fun i hi ↦ (hdesc i hi).1, fun i hi ↦ (hdesc i hi).2⟩

section Created

variable {port : TxPort} {size : Nat}

-- Induction over the rounds: after a reset every descriptor counts.
theorem SameSize.getTxSpaceLoop (h : SameSize port size) (n : Nat) {cur : Nat} (hcur : cur < port.txNum)
    (space : Nat) : getTxSpaceLoop (resetTx port) n cur space = space + n * size := by
  induction n generalizing cur space with
  | zero => rw [FsccDriver.getTxSpaceLoop, Nat.zero_mul, Nat.add_zero]
  | succ n ih =>
    have hdesc : (resetTx port).txDescriptors cur = resetTxDesc (port.txDescriptors cur) := if_pos hcur
    have hfree : (resetTxDesc (port.txDescriptors cur)).control &&& descCstopBit = descCstopBit :=
      Nat.and_self _
    have hsize : (resetTxDesc (port.txDescriptors cur)).dataSize = size := h.dataSize cur hcur
    have hnext : Cyclic.next (resetTx port).txNum cur < port.txNum := Cyclic.next_lt hcur
    rw [FsccDriver.getTxSpaceLoop]
    rw [hdesc, if_neg (not_not.mpr hfree), hsize, ih hnext, Nat.succ_mul]
    omega

theorem SameSize.space (h : SameSize port size) (hslots : 0 < port.txNum) :
    fsccUserGetTxSpace (resetTx port) = port.txNum * size :=
  (h.getTxSpaceLoop port.txNum hslots 0).trans (Nat.zero_add _)

theorem writeStart_admission (h : SameSize port size) (card : H) :
    AdmissionInvariant port.txNum size (writeStart port size card) := by
  constructor
  case txSize => rfl
  case txNum => rfl
  case plain =>
    exact fun hslots ↦ resetTx_plain hslots fun i hi ↦ (h.buffer i hi).trans (h.dataSize i hi).symm
  case writer => exact fun pc hpc ↦ by cases hpc
  case inUse =>
    intro i hi hpending
    have hfree : (resetTx port).Free i := resetTx_free hi
    exact absurd hfree hpending
  all_goals exact fun _ hmem ↦ absurd hmem List.not_mem_nil

end Created

/-! ## When it is exact -/

section Exact

variable {num size length : Nat} {s : WriteState H} {write : Write} {port : TxPort}

/-- What fits the ring passes the 32-bit test and fits the field. -/
def ExactFor (capacity length : Nat) : Prop :=
  length ≤ capacity → length ≤ capacity % 4294967296 ∧ length < 536870912

variable (hw) in
-- What the first test does with a request that `Admits` does not exclude.
theorem entered_not_rejected (hsize : s.txSize = size) (hnum : s.port.txNum = num)
    (hle : write.length ≤ num * size % 4294967296) :
    (s.evtIoWriteStep hw (.entered write)).answers ≠
      s.answers ++ [⟨write.id, .bufferTooSmall, 0, false⟩] := by
  rw [WriteState.evtIoWriteStep]
  dsimp only
  rw [txProduct hsize hnum]
  by_cases hzero : write.length = 0
  · rw [if_pos hzero]
    intro hsame
    have hanswer := List.append_cancel_left hsame
    simp at hanswer
  rw [if_neg hzero, if_neg (Nat.not_lt_of_le hle)]
  have hquiet : s.answers ≠ s.answers ++ [⟨write.id, .bufferTooSmall, 0, false⟩] := by
    intro hsame
    have hlength := congrArg List.length hsame
    rw [List.length_append, List.length_singleton] at hlength
    omega
  split
  · exact hquiet
  · exact hquiet

theorem AdmissionInvariant.admitsExactly (h : AdmissionInvariant num size s)
    (hexact : ExactFor (num * size) length) : AdmitsExactly hw (num * size) length s := by
  constructor
  case admitted =>
    rintro fill hfill rfl
    exact (h.fills fill hfill).1.le
  case notRejected =>
    rintro write - rfl hle
    exact entered_not_rejected hw h.txSize h.txNum (hexact hle).1
  case stored =>
    rintro fill hfill rfl i hhead
    obtain ⟨hadmits, hfirst⟩ := h.fills fill hfill
    have hcontrol := frameControl_first (hexact hadmits.le).2
    rw [← hfirst i hhead] at hcontrol
    exact ⟨hcontrol, hcontrol.readsBack hw⟩
  case kept => exact h.inUse

variable (hw) in
theorem entered_rejected (hsize : s.txSize = size) (hnum : s.port.txNum = num)
    (hlong : num * size % 4294967296 < write.length) :
    (s.evtIoWriteStep hw (.entered write)).answers =
      s.answers ++ [⟨write.id, .bufferTooSmall, 0, false⟩] := by
  rw [WriteState.evtIoWriteStep]
  dsimp only
  rw [txProduct hsize hnum, if_neg (by omega), if_pos hlong]
  rfl

theorem filledDescs_head {buf : List Byte} {dataLength n : Nat} {st : WriteFrameLoop} (hn : 0 < n)
    (hfree : st.port.Free st.port.userTxDesc) :
    (filledDescs buf dataLength n st).head? = some st.port.userTxDesc := by
  obtain ⟨n, rfl⟩ := Nat.exists_eq_succ_of_ne_zero (Nat.ne_of_gt hn)
  rw [filledDescs, if_neg (not_not.mpr hfree)]
  split
  · rfl
  · rfl

variable (hw) in
theorem requestWorker_alone {pc pc' : WorkerPc} {s' : WriteState H} (hworkers : s.workers = [pc])
    (hstep : s.requestWorkerStep hw pc = (pc', s')) :
    writeStep hw s (.requestWorker 0) = { s' with workers := [pc'] } := by
  have hkeeps := (s.requestWorkerStep_keeps hw pc).workers
  rw [hstep, hworkers] at hkeeps
  have hset : s'.workers.set 0 pc' = [pc'] := by
    rw [hkeeps]
    rfl
  rw [writeStep, hworkers]
  show { (s.requestWorkerStep hw pc).2 with
    workers := (s.requestWorkerStep hw pc).2.workers.set 0 (s.requestWorkerStep hw pc).1 } = _
  rw [hstep, hset]

variable (hw) in
/-- A blocking request for which there is room goes into the ring. -/
theorem requestWorker_fills (hworkers : s.workers = [.entered])
    (hqueue : s.blockingRequestQueue = [write]) (hspace : write.length32 ≤ fsccUserGetTxSpace s.port) :
    ([WriteAction.requestWorker 0, .requestWorker 0, .requestWorker 0, .requestWorker 0].foldl
      (writeStep hw) s).fills = s.fills ++ [s.fillRecord hw write] := by
  let found : WriteState H := { s with workers := [.found write] }
  let checked : WriteState H := { found with workers := [.checked write] }
  have hmem : write ∈ s.blockingRequestQueue := hqueue ▸ List.mem_cons_self
  have hentered : writeStep hw s (.requestWorker 0) = found :=
    requestWorker_alone hw hworkers (by rw [WriteState.requestWorkerStep, hqueue])
  have hroom : found.requestWorkerStep hw (.found write) = (.checked write, found) :=
    if_neg (Nat.not_lt_of_le hspace)
  have hfound := requestWorker_alone (s := found) hw rfl hroom
  have hchecked := requestWorker_alone (s := checked) hw rfl (if_pos hmem)
  rw [List.foldl_cons, List.foldl_cons, List.foldl_cons, hentered, hfound, hchecked]
  rfl

/-- One write of `length` bytes on its way to `FsccEvtIoWrite`. -/
def enteringRun (blocking : Bool) (length : Nat) : List (WriteAction H) :=
  [.setBlockingWrite blocking, .submit (List.replicate length 0), .present]

def enteredState (port : TxPort) (size : Nat) (card : H) (blocking : Bool) (length : Nat) : WriteState H :=
  { writeStart port size card with
    blockingWrite := blocking, nextId := 1, writer := some (.entered ⟨0, List.replicate length 0⟩) }

theorem enteringRun_entered (hw : Hardware H) (port : TxPort) (size : Nat) (card : H) (blocking : Bool)
    (length : Nat) :
    (enteringRun blocking length).foldl (writeStep hw) (writeStart port size card) =
      enteredState port size card blocking length := rfl

/-- A blocking one on its way through `request_worker`. -/
def blockingRun (length : Nat) : List (WriteAction H) :=
  enteringRun true length ++ [.evtIoWrite, .enqueueRequestDpc, .requestWorker 0, .requestWorker 0,
    .requestWorker 0, .requestWorker 0]

theorem blockingRun_fills (hw : Hardware H) (h : SameSize port size) (card : H) (hpos : 0 < length)
    (hle : length ≤ port.txNum * size % 4294967296) :
    ∃ fill ∈ ((blockingRun length).foldl (writeStep hw) (writeStart port size card)).fills,
      fill.write.length = length ∧ fill.descs.head? = some 0 := by
  let write : Write := ⟨0, List.replicate length 0⟩
  have hlength : write.length = length := List.length_replicate
  have hadmits : Admits port.txNum size write := by
    rw [Admits, hlength]
    exact ⟨hpos, hle⟩
  have hspace : write.length32 ≤ fsccUserGetTxSpace (resetTx port) := by
    have hlength32 : write.length32 = write.length := u32_of_nat hadmits.fits.2
    rw [hlength32, h.space hadmits.num_pos]
    exact hadmits.le
  let forwarded : WriteState H :=
    { enteredState port size card true length with writer := none, blockingRequestQueue := [write] }
  have hforwarded : writeStep hw (enteredState port size card true length) .evtIoWrite = forwarded := by
    have hproduct := u32_product size port.txNum
    have hzero : write.length ≠ 0 := Nat.ne_of_gt hadmits.1
    have hshort : ¬ write.length > u32 ((size : Int) * port.txNum) := by
      rw [hproduct]
      exact Nat.not_lt_of_le hadmits.2
    exact (if_neg hzero).trans (if_neg hshort)
  let queued : WriteState H := { forwarded with workers := [.entered] }
  have hqueued : writeStep hw forwarded .enqueueRequestDpc = queued := rfl
  have hfills := requestWorker_fills (s := queued) hw rfl rfl hspace
  rw [blockingRun, List.foldl_append, enteringRun_entered, List.foldl_cons, hforwarded, List.foldl_cons,
    hqueued, hfills]
  refine ⟨_, List.mem_append_right _ List.mem_cons_self, hlength, ?_⟩
  exact filledDescs_head hadmits.num_pos (resetTx_free hadmits.num_pos)

variable (hw) in
/-- A length for which it is not exact shows it on its way in, or in the descriptor it gets. -/
theorem SameSize.exactFor (h : SameSize port size) (card : H)
    (hadmits : ∀ actions : List (WriteAction H), AdmitsExactly hw (port.txNum * size) length
      (actions.foldl (writeStep hw) (writeStart port size card))) :
    ExactFor (port.txNum * size) length := by
  intro hle
  have hmod : length ≤ port.txNum * size % 4294967296 := by
    by_contra hlong
    have hentered := hadmits (enteringRun false length)
    rw [enteringRun_entered] at hentered
    have hlength : (⟨0, List.replicate length 0⟩ : Write).length = length := List.length_replicate
    have hsize : (enteredState port size card false length).txSize = size := rfl
    have hnum : (enteredState port size card false length).port.txNum = port.txNum := rfl
    have hover := Nat.lt_of_not_le hlong
    rw [← hlength] at hover
    exact hentered.notRejected _ rfl hlength hle (entered_rejected hw hsize hnum hover)
  refine ⟨hmod, ?_⟩
  rcases Nat.eq_zero_or_pos length with rfl | hpos
  · decide
  obtain ⟨fill, hfill, hlength, hhead⟩ := blockingRun_fills hw h card hpos hmod
  obtain ⟨hcontrol, -⟩ := (hadmits (blockingRun length)).stored fill hfill hlength 0 hhead
  exact hcontrol.length_lt

end Exact

/-- Over the ring `fscc_io_create_tx` makes, the writes of one length are admitted exactly, and the
first descriptor of each says how long it is, if and only if a length that fits the ring is not above
the product modulo 2^32 and has 29 bits. -/
theorem fscc_write_admission_exact (hw : Hardware H) (port : TxPort) (card : H) (al : Store.Allocator)
    (number size : BitVec 32) (heap : Store.Heap) (length : Nat) :
    let ring := (Store.fsccIoCreateTx al number size heap).2.1
    let capacity := ring.num * ring.size
    (∀ actions : List (WriteAction H), AdmitsExactly hw capacity length
        (actions.foldl (writeStep hw) (writeStart (port.withRing ring) ring.size card))) ↔
      (length ≤ capacity → length ≤ capacity % 4294967296 ∧ length < 536870912) := by
  intro ring capacity
  have hsame : SameSize (port.withRing ring) ring.size := fsccIoCreateTx_sameSize port al number size heap
  constructor
  · exact hsame.exactFor hw card
  · intro hexact actions
    have hstart := writeStart_admission hsame card
    exact (Runs.invariant (fun _ action h ↦ h.step hw action) hstart actions).admitsExactly hexact

-- Two buffers of 2^28 bytes and a write that fills both: bit 29 of its length is the bit of HI, and the
-- length reads back as 0.
theorem fscc_write_admission_overflows_field :
    let ring := (Store.fsccIoCreateTx (Store.enoughFor 7) 2 0x10000000 ⟨0, []⟩).2.1
    ¬ ∀ actions : List (WriteAction Unit), AdmitsExactly quietCard (ring.num * ring.size) 0x20000000
        (actions.foldl (writeStep quietCard) (writeStart (twoBufferPort.withRing ring) ring.size ())) := by
  intro ring hadmits
  have hsame : SameSize (twoBufferPort.withRing ring) ring.size :=
    fsccIoCreateTx_sameSize twoBufferPort (Store.enoughFor 7) 2 0x10000000 ⟨0, []⟩
  have hnum : ring.num = 2 := rfl
  have hsize : ring.size = 0x10000000 := rfl
  have hexact : ExactFor (ring.num * ring.size) 0x20000000 := hsame.exactFor quietCard () hadmits
  rw [hnum, hsize] at hexact
  exact absurd (hexact (by decide)).2 (by decide)

end FsccDriver

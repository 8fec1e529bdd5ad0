import FsccDriver.CopyBounds

/-!
# RxShape — the finished descriptors of the receive ring

`RxShape ds finished port` says that the descriptors `finished`, from `user_rx_desc` on, are the ones
with CSTOP, and that the driver fills the one behind them.  No condition is put on the hardware.
-/

namespace FsccDriver

open Words

variable {H : Type} {hw : Hardware H} {ds : Nat} {port : RxPort} {desc : DmaFrame}
  {finished : List DmaFrame}

/-! ## Descriptors -/

structure StoppedDesc (ds : Nat) (item desc : DmaFrame) : Prop where
  item : desc = item
  dataSize : desc.dataSize = ds
  cstop : ¬ desc.control &&& descCstopBit = 0

-- Neither FE nor CSTOP, and a count that leaves room.
structure FillingDesc (ds : Nat) (desc : DmaFrame) : Prop where
  dataSize : desc.dataSize = ds
  control : desc.control < 1073741824
  count : desc.control &&& dmaMaxLength = 0 ∨ desc.control &&& dmaMaxLength < ds

structure ClearedDesc (ds : Nat) (desc : DmaFrame) : Prop where
  dataSize : desc.dataSize = ds
  control : desc.control < 1073741824
  count : desc.control &&& dmaMaxLength = 0

theorem ClearedDesc.toFilling (h : ClearedDesc ds desc) : FillingDesc ds desc :=
  ⟨h.dataSize, h.control, Or.inl h.count⟩

theorem unfinished_of_lt (h : desc.control < 1073741824) : desc.Unfinished := by
  constructor
  · rw [and_descFeBit]
    omega
  · rw [and_descCstopBit]
    omega

theorem StoppedDesc.not_unfinished {item : DmaFrame} (h : StoppedDesc ds item desc) :
    ¬ desc.Unfinished := fun hopen ↦ h.cstop hopen.2

/-! ## The ring -/

structure RxShape (ds : Nat) (finished : List DmaFrame) (port : RxPort) : Prop where
  holds : Cyclic.Holds (StoppedDesc ds) (FillingDesc ds) (ClearedDesc ds) finished port.rxDescriptors
    port.rxNum port.userRxDesc
  fifo : port.fifoRxDesc = (port.userRxDesc + finished.length) % port.rxNum

theorem RxShape.userDesc {rest : List DmaFrame} (h : RxShape ds (desc :: rest) port) :
    port.userDesc = desc ∧ StoppedDesc ds desc desc := by
  have hhead := h.holds.head
  have hitem : port.userDesc = desc := hhead.item
  exact ⟨hitem, rfl, hhead.item ▸ hhead.dataSize, hhead.item ▸ hhead.cstop⟩

theorem RxShape.userDesc_nil (h : RxShape ds [] port) : FillingDesc ds port.userDesc :=
  h.holds.cur_first

theorem RxShape.fifoDesc (h : RxShape ds finished port) (hlt : finished.length < port.rxNum) :
    FillingDesc ds port.fifoDesc := by
  have hcur := h.holds.cur hlt
  rwa [Cyclic.slot, ← h.fifo] at hcur

-- When the ring is full, `fifo_rx_desc` has caught up with `user_rx_desc`.
theorem RxShape.fifoDesc_full (h : RxShape ds finished port)
    (hfull : ¬ finished.length < port.rxNum) :
    port.fifoDesc.control &&& descCstopBit = descCstopBit := by
  have hlength : finished.length = port.rxNum :=
    Nat.le_antisymm h.holds.fits (Nat.le_of_not_lt hfull)
  cases finished with
  | nil => exact absurd (hlength ▸ h.holds.origin_lt) (Nat.not_lt_zero _)
  | cons desc rest =>
    have hcstop := h.holds.head.cstop
    rw [and_descCstopBit] at hcstop
    rw [RxPort.fifoDesc, h.fifo, hlength, Nat.add_mod_right, Nat.mod_eq_of_lt h.holds.origin_lt,
      and_descCstopBit_self]
    omega

-- The first finished descriptor goes back to the FIFO side.
theorem RxShape.release {rest : List DmaFrame} {freed : DmaFrame} (h : RxShape ds (desc :: rest) port)
    (hfreed : ClearedDesc ds freed) : RxShape ds rest (port.setUserDesc freed).nextUser := by
  refine ⟨h.holds.pop hfreed fun _ ↦ hfreed.toFilling, ?_⟩
  show port.fifoRxDesc = (Cyclic.next port.rxNum port.userRxDesc + rest.length) % port.rxNum
  rw [h.fifo, List.length_cons, Cyclic.add_mod_next h.holds.origin_lt]

theorem RxShape.finish (h : RxShape ds finished port) (hlt : finished.length < port.rxNum)
    (hdesc : StoppedDesc ds desc desc) :
    RxShape ds (finished ++ [desc]) (port.setFifoDesc desc).nextFifo := by
  have hholds := h.holds.push (FillingDesc ds) hlt hdesc fun _ ↦ ClearedDesc.toFilling
  rw [← h.fifo] at hholds
  refine ⟨hholds, ?_⟩
  show Cyclic.next port.rxNum port.fifoRxDesc = _
  rw [h.fifo, Cyclic.next_add_mod (Nat.lt_of_le_of_lt (Nat.zero_le _) hlt), List.length_append,
    List.length_singleton]
  rfl

theorem RxShape.fill (h : RxShape ds finished port) (hlt : finished.length < port.rxNum)
    (hdesc : FillingDesc ds desc) : RxShape ds finished (port.setFifoDesc desc) := by
  have hholds := h.holds.setCur hlt hdesc
  rw [← h.fifo] at hholds
  exact ⟨hholds, h.fifo⟩

theorem RxShape.setFrame (h : RxShape ds finished port) (size bytes : Int) :
    RxShape ds finished { port with rxFrameSize := size, rxBytesInFrame := bytes } :=
  ⟨h.holds, h.fifo⟩

theorem resetRx_shape (hslots : 0 < port.rxNum)
    (hsize : ∀ i < port.rxNum, (port.rxDescriptors i).dataSize = ds) : RxShape ds [] (resetRx port) := by
  have hempty : ∀ i < port.rxNum, ClearedDesc ds ((resetRx port).rxDescriptors i) := by
    intro i hi
    show ClearedDesc ds (if i < port.rxNum then _ else _)
    rw [if_pos hi]
    exact ⟨hsize i hi, (by decide : descHiBit < 1073741824), descHiBit_and_dmaMaxLength⟩
  exact ⟨.empty hslots (fun i hi ↦ (hempty i hi).toFilling) hempty, (Nat.zero_mod _).symm⟩

theorem RxShape.reset (h : RxShape ds finished port) :
    RxShape ds [] (resetRx port) := by
  apply resetRx_shape (Nat.lt_of_le_of_lt (Nat.zero_le _) h.holds.origin_lt)
  intro i hi
  rcases h.holds.cases_slot hi with ⟨k, hk, -, hbusy⟩ | ⟨-, -, hcur⟩ | hfree
  · exact hbusy.dataSize
  · exact hcur.dataSize
  · exact hfree.dataSize

/-! ## `fscc_fifo_read_data` -/

-- HI and the count leave FE alone as long as the buffer is shorter than three times HI.
theorem FillingDesc.fill_lt {r : Nat} (h : FillingDesc ds desc) (hds : ds < 1610612736)
    (hr : r ≤ u32 ((desc.dataSize : Int) - (desc.control &&& dmaMaxLength : Nat))) :
    desc.control + r < 2147483648 := by
  have hcontrol := h.control
  have hcount := h.count
  rw [and_dmaMaxLength] at hcount hr
  rw [h.dataSize] at hr
  by_cases hle : desc.control % 536870912 ≤ ds
  · rw [u32_sub_of_le (by omega) hle] at hr
    omega
  · have hzero : desc.control % 536870912 = 0 := by omega
    omega

theorem fifoFill_shape (h : RxShape ds finished port) (hds : ds < 1610612736)
    (hlt : finished.length < port.rxNum) {r : Nat}
    (hr : r ≤ u32 ((port.fifoDesc.dataSize : Int) - (port.fifoDesc.control &&& dmaMaxLength : Nat)))
    (s : H) : ∃ more, RxShape ds (finished ++ more) (fifoFill hw r port s).2.1 := by
  have hopen := h.fifoDesc hlt
  have hsum := hopen.fill_lt hds hr
  have hfinish : ∀ (port' : RxPort) control buffer timestamp, RxShape ds finished port' →
      port'.rxNum = port.rxNum → control &&& descCstopBit ≠ 0 →
      ∃ more, RxShape ds (finished ++ more) (port'.setFifoDesc { port.fifoDesc with
        control, dataCount := port.fifoDesc.dataSize, buffer, timestamp }).nextFifo := by
    intro port' control buffer timestamp h' hnum hstop
    exact ⟨_, h'.finish (hnum ▸ hlt) ⟨rfl, hopen.dataSize, hstop⟩⟩
  have hcontrol : u32 ((port.fifoDesc.control : Int) + r) = port.fifoDesc.control + r :=
    u32_add_of_lt (by omega)
  unfold fifoFill
  generalize fsccPortGetRegisterRep hw port.channel 0 fifoOffset r s = rep
  obtain ⟨data, s'⟩ := rep
  dsimp only
  rw [hcontrol]
  generalize port.fifoDesc.control + r = control at hsum
  by_cases hframe : port.rxFrameSize > 0 ∧ port.bytesAfter r ≥ port.rxFrameSize
  · simp only [if_pos hframe, if_pos (or_descCstopBit_ne_zero _ _)]
    exact hfinish _ _ _ _ (h.setFrame 0 0) rfl (or_descCstopBit_ne_zero _ _)
  · by_cases hfull : control &&& dmaMaxLength ≥ port.fifoDesc.dataSize
    · have hstop := or_descCstopBit_ne_zero (control &&& not32 dmaMaxLength) 0
      rw [Nat.or_zero] at hstop
      simp only [if_neg hframe, if_pos hfull, if_pos hstop]
      exact hfinish _ _ _ _ (h.setFrame _ _) rfl hstop
    · by_cases hstop : control &&& descCstopBit ≠ 0
      · simp only [if_neg hframe, if_neg hfull, if_pos hstop]
        exact hfinish _ _ _ _ (h.setFrame _ _) rfl hstop
      · simp only [if_neg hframe, if_neg hfull, if_neg hstop]
        rw [← List.append_nil finished] at h
        refine ⟨[], (h.setFrame _ _).fill (by rwa [List.append_nil]) ⟨hopen.dataSize, ?_, ?_⟩⟩
        · show control < 1073741824
          rw [ne_eq, not_not, and_descCstopBit] at hstop
          omega
        · right
          rw [← hopen.dataSize]
          exact Nat.lt_of_not_le hfull

theorem fifoReadStep_shape (h : RxShape ds finished port) (hds : ds < 1610612736)
    (s : H) : ∃ more, RxShape ds (finished ++ more) (fifoReadStep hw port s).2.1 := by
  rw [fifoReadStep]
  by_cases hlt : finished.length < port.rxNum
  · have hnot : ¬ port.fifoDesc.control &&& descCstopBit = descCstopBit := by
      have hcontrol := (h.fifoDesc hlt).control
      rw [and_descCstopBit_self]
      omega
    rw [if_neg hnot]
    obtain ⟨size, hport⟩ := receiveLength_port hw port s
    generalize receiveLength hw port s = received at hport
    obtain ⟨length, port', s'⟩ := received
    obtain rfl : port' = { port with rxFrameSize := size } := hport
    exact fifoFill_shape (h.setFrame size _) hds hlt (Nat.min_le_right _ _) s'
  · rw [if_pos (h.fifoDesc_full hlt)]
    exact ⟨[], (List.append_nil finished).symm ▸ h⟩

/-- Draining the FIFO only adds finished descriptors behind those that are there. -/
theorem fsccFifoReadData_shape (h : RxShape ds finished port) (hds : ds < 1610612736) (s : H) :
    ∃ more, RxShape ds (finished ++ more) (fsccFifoReadData hw port s).1 := by
  apply fifoReadLoop_invariant (P := fun port' _ ↦ ∃ more, RxShape ds (finished ++ more) port')
  · rintro port' s' ⟨more, h'⟩
    obtain ⟨more', h''⟩ := fifoReadStep_shape h' hds s'
    exact ⟨more ++ more', List.append_assoc finished more more' ▸ h''⟩
  · exact ⟨[], (List.append_nil finished).symm ▸ h⟩

/-! ## `fscc_user_read_frame` -/

theorem RxShape.ahead (h : RxShape ds finished port) :
    ∃ others, port.ahead = finished ++ others ∧ ∀ desc ∈ others, desc.Unfinished := by
  have hlength : port.ahead.length = port.rxNum := Cyclic.turn_length _ _ _
  have hget : ∀ k (hk : k < port.ahead.length),
      port.ahead[k] = Cyclic.slot port.rxDescriptors port.rxNum port.userRxDesc k :=
    fun _ hk ↦ Cyclic.turn_getElem hk
  have hfits := h.holds.fits
  refine ⟨port.ahead.drop finished.length, ?_, ?_⟩
  · conv_lhs => rw [← List.take_append_drop finished.length port.ahead]
    congr 1
    apply List.ext_getElem
    · rw [List.length_take, hlength, Nat.min_eq_left hfits]
    · intro k hk hk'
      rw [List.getElem_take, hget]
      exact (h.holds.busy k hk').item
  · intro desc hdesc
    obtain ⟨k, hk, rfl⟩ := List.mem_iff_getElem.mp hdesc
    rw [List.length_drop, hlength] at hk
    rw [List.getElem_drop, hget]
    rcases Nat.eq_zero_or_pos k with rfl | hpos
    · exact unfinished_of_lt (h.holds.cur (by omega)).control
    · exact unfinished_of_lt (h.holds.free _ (by omega) (by omega)).control

theorem RxShape.scan (h : RxShape ds finished port) {length : Nat}
    (hready : fsccUserNextReadSize port = (true, length)) : frameScan finished 0 = (true, length) := by
  obtain ⟨others, hahead, hothers⟩ := h.ahead
  rw [fsccUserNextReadSize_ahead h.holds.origin_lt, hahead] at hready
  exact frameScan_append hothers hready

theorem RxShape.stopped (h : RxShape ds finished port) : ∀ desc ∈ finished, ¬ desc.Unfinished := by
  intro desc hmem
  obtain ⟨k, hk, rfl⟩ := List.mem_iff_getElem.mp hmem
  have hbusy := h.holds.busy k hk
  exact hbusy.item ▸ hbusy.not_unfinished

theorem frameScan_ready {others : List DmaFrame} (hstopped : ∀ desc ∈ finished, ¬ desc.Unfinished)
    (hothers : ∀ desc ∈ others, desc.Unfinished) (bytes : Nat) :
    (frameScan (finished ++ others) bytes).1 = true ↔ ∃ desc ∈ finished, desc.EndsFrame := by
  induction finished generalizing bytes with
  | nil =>
    refine iff_of_false (fun htrue ↦ ?_) (fun ⟨_, hmem, _⟩ ↦ List.not_mem_nil hmem)
    cases others with
    | nil => cases htrue
    | cons desc others =>
      rw [List.nil_append, frameScan, if_pos (hothers desc List.mem_cons_self)] at htrue
      cases htrue
  | cons desc finished ih =>
    rw [List.cons_append, frameScan, if_neg (hstopped desc List.mem_cons_self)]
    by_cases hends : desc.EndsFrame
    · rw [if_pos hends]
      exact iff_of_true rfl ⟨desc, List.mem_cons_self, hends⟩
    · rw [if_neg hends, ih fun d hmem ↦ hstopped d (List.mem_cons_of_mem _ hmem)]
      simp [hends]

/-- A frame is ready when a descriptor with FE and CSTOP is among the finished ones. -/
theorem RxShape.ready_iff (h : RxShape ds finished port) :
    (fsccUserNextReadSize port).1 = true ↔ ∃ desc ∈ finished, desc.EndsFrame := by
  obtain ⟨others, hahead, hothers⟩ := h.ahead
  rw [fsccUserNextReadSize_ahead h.holds.origin_lt, hahead]
  exact frameScan_ready h.stopped hothers 0

theorem fsccFifoReadData_keepsReady (h : RxShape ds finished port) (hds : ds < 1610612736) (s : H)
    (hready : (fsccUserNextReadSize port).1 = true) :
    (fsccUserNextReadSize (fsccFifoReadData hw port s).1).1 = true := by
  obtain ⟨more, hmore⟩ : ∃ more, RxShape ds (finished ++ more) (fsccFifoReadData hw port s).1 :=
    fsccFifoReadData_shape h hds s
  obtain ⟨desc, hmem, hends⟩ := h.ready_iff.mp hready
  exact hmore.ready_iff.mpr ⟨desc, List.mem_append_left _ hmem, hends⟩

/-- The descriptors a read gives back, one by one: each while a frame is ready. -/
inductive Released : RxPort → RxPort → Prop where
  | refl (port : RxPort) : Released port port
  | head {port port' : RxPort} : (fsccUserNextReadSize port).1 = true →
      Released (releaseUserDesc port) port' → Released port port'

theorem frameScan_lt {descs : List DmaFrame} {bytes length : Nat}
    (h : frameScan descs bytes = (true, length)) : length < 536870912 := by
  induction descs generalizing bytes with
  | nil => cases h
  | cons desc descs ih =>
    rw [frameScan] at h
    split at h
    · cases h
    split at h
    · cases h
      rw [and_dmaMaxLength]
      exact Nat.mod_lt _ (by decide)
    · exact ih h

section Read

variable {bufLength : Nat} {st : ReadLoop} {s : H}

/-- A read on its way through a frame: the descriptor that ends the frame is still finished and ahead,
and what the driver has counted does not exceed the length in it. -/
structure ReadingShape (ds : Nat) (st : ReadLoop) : Prop where
  frame : ∃ finished bytes length, RxShape ds finished st.port ∧
    frameScan finished bytes = (true, length) ∧ st.filledFrameSize + st.bytesInDescs ≤ length

theorem appendTimestamp_port (hw : Hardware H) (st : ReadLoop) (s : H) :
    (appendTimestamp hw st s).1.port = st.port ∧
      (appendTimestamp hw st s).1.bytesInDescs = st.bytesInDescs ∧
      (appendTimestamp hw st s).1.filledFrameSize = st.filledFrameSize := by
  unfold appendTimestamp
  split
  · exact ⟨rfl, rfl, rfl⟩
  · exact ⟨rfl, rfl, rfl⟩

theorem nextFrame_port (bufLength : Nat) (st : ReadLoop) :
    (nextFrame bufLength st).2.port = st.port := by
  by_cases hzero : st.bytesInDescs = 0
  · rcases nextFrame_boundary bufLength hzero with hstop | ⟨size, -, -, -, hnext⟩
    · rw [hstop]
    · rw [hnext]
  · rw [nextFrame, if_neg hzero]

/-- A round gives one descriptor back, whatever it has copied. -/
theorem readFrameStep_port (hw : Hardware H) (bufLength : Nat) (st : ReadLoop) (s : H) :
    (readFrameStep hw bufLength st s).2.1.port = releaseUserDesc st.port := by
  rw [readFrameStep]
  dsimp only
  rw [nextFrame_port]
  exact congrArg releaseUserDesc (appendTimestamp_port hw (moveData st) s).1

variable (bufLength st) in
-- At a frame boundary the next frame, if there is one, lies in the finished descriptors.
theorem nextFrame_shape (h : RxShape ds finished st.port) (hzero : st.bytesInDescs = 0) :
    (nextFrame bufLength st).2.port = st.port ∧
      ((nextFrame bufLength st).1 = true → ReadingShape ds (nextFrame bufLength st).2) := by
  rcases nextFrame_boundary bufLength hzero with hstop | ⟨size, -, hsize, -, hnext⟩
  · rw [hstop]
    exact ⟨rfl, fun h ↦ absurd h Bool.false_ne_true⟩
  · rw [hnext]
    exact ⟨rfl, fun _ ↦ ⟨finished, 0, size, h, h.scan hsize, Nat.le_of_eq (Nat.zero_add size)⟩⟩

theorem clearedDesc_release (hsize : desc.dataSize = ds) :
    ClearedDesc ds { desc with timestamp := 0, control := descHiBit } :=
  ⟨hsize, (by decide : descHiBit < 1073741824), descHiBit_and_dmaMaxLength⟩

-- The descriptor that ends the frame uses up what is left to be counted.
theorem moveData_ends {length : Nat} (hends : st.port.userDesc.EndsFrame)
    (hlength : st.port.userDesc.control &&& dmaMaxLength = length)
    (hcount : st.filledFrameSize + st.bytesInDescs ≤ length) (hlt : length < 536870912) :
    (moveData st).bytesInDescs = 0 := by
  have hrest : plannedMoveSize st = u32 (((st.port.userDesc.control &&& dmaMaxLength : Nat) : Int) -
      st.filledFrameSize) := if_pos hends
  have hplanned : plannedMoveSize st = length - st.filledFrameSize := by
    rw [hrest, hlength]
    exact u32_sub_of_le (by omega) (by omega)
  show (if plannedMoveSize st > st.bytesInDescs then 0 else _) = 0
  rw [hplanned]
  split <;> omega

theorem moveData_mid {length : Nat} (hmid : ¬ st.port.userDesc.EndsFrame)
    (hcount : st.filledFrameSize + st.bytesInDescs ≤ length) (hlt : length < 536870912)
    (hleft : (moveData st).bytesInDescs ≠ 0) :
    (moveData st).filledFrameSize + (moveData st).bytesInDescs ≤ length := by
  have hplanned : plannedMoveSize st = st.port.userDesc.dataCount := if_neg hmid
  change (if plannedMoveSize st > st.bytesInDescs then 0 else _) ≠ 0 at hleft
  have hle : ¬ plannedMoveSize st > st.bytesInDescs := fun h ↦ hleft (if_pos h)
  have hreal : realMoveSize st ≤ plannedMoveSize st := by
    rw [realMoveSize]
    split <;> omega
  have hbytes : (moveData st).bytesInDescs = st.bytesInDescs - plannedMoveSize st := if_neg hle
  have hfill : (moveData st).filledFrameSize = st.filledFrameSize + realMoveSize st :=
    u32_add_of_lt (by omega)
  omega

theorem ReadingShape.ready (h : ReadingShape ds st) : (fsccUserNextReadSize st.port).1 = true := by
  obtain ⟨finished, bytes, length, hring, hscan, -⟩ := h
  have hnone : ∀ desc ∈ ([] : List DmaFrame), desc.Unfinished :=
    fun _ hmem ↦ absurd hmem List.not_mem_nil
  rw [hring.ready_iff, ← frameScan_ready hring.stopped hnone bytes, List.append_nil, hscan]

theorem RxShape.giveBack {rest : List DmaFrame} (h : RxShape ds (desc :: rest) port) :
    RxShape ds rest (releaseUserDesc port) := by
  obtain ⟨huser, hdesc⟩ := h.userDesc
  apply h.release
  rw [huser]
  exact clearedDesc_release hdesc.dataSize

variable (hw bufLength s) in
theorem ReadingShape.step (h : ReadingShape ds st) :
    (readFrameStep hw bufLength st s).2.1.port = releaseUserDesc st.port ∧
      ((readFrameStep hw bufLength st s).1 = true →
        ReadingShape ds (readFrameStep hw bufLength st s).2.1) := by
  obtain ⟨finished, bytes, length, hring, hscan, hcount⟩ := h
  have hlt := frameScan_lt hscan
  cases finished with
  | nil => cases hscan
  | cons desc rest =>
    obtain ⟨huser, hdesc⟩ := hring.userDesc
    obtain ⟨hport, hbytes, hfilled⟩ := appendTimestamp_port hw (moveData st) s
    rw [readFrameStep]
    generalize appendTimestamp hw (moveData st) s = stamped at hport hbytes hfilled
    obtain ⟨st₁, s₁⟩ := stamped
    dsimp only at hport hbytes hfilled ⊢
    have hport : st₁.port = st.port := hport
    rw [← hport] at hring ⊢
    have hrest := hring.giveBack
    by_cases hzero : st₁.bytesInDescs = 0
    · exact nextFrame_shape bufLength { st₁ with port := releaseUserDesc st₁.port } hrest hzero
    · have hgo : nextFrame bufLength { st₁ with port := releaseUserDesc st₁.port } =
          (true, { st₁ with port := releaseUserDesc st₁.port }) := if_neg hzero
      rw [hgo]
      refine ⟨rfl, fun _ ↦ ?_⟩
      rw [hbytes] at hzero
      rw [frameScan, if_neg hdesc.not_unfinished] at hscan
      by_cases hends : desc.EndsFrame
      · rw [if_pos hends] at hscan
        have hlength : desc.control &&& dmaMaxLength = length := congrArg Prod.snd hscan
        exact absurd (moveData_ends (huser ▸ hends) (huser ▸ hlength) hcount hlt) hzero
      · rw [if_neg hends] at hscan
        refine ⟨rest, _, length, hrest, hscan, ?_⟩
        show st₁.filledFrameSize + st₁.bytesInDescs ≤ length
        rw [hfilled, hbytes]
        exact moveData_mid (huser ▸ hends) hcount hlt hzero

variable (hw bufLength) in
-- Induction on the rounds that are left behind the first one.
theorem ReadingShape.loop (h : ReadingShape ds st) (n : Nat) (s : H) :
    Released (releaseUserDesc st.port) (readFrameLoop hw bufLength (n + 1) st s).1.port := by
  induction n generalizing st s with
  | zero =>
    obtain ⟨hport, -⟩ := h.step hw bufLength s
    rw [readFrameLoop]
    generalize readFrameStep hw bufLength st s = round at hport
    obtain ⟨again, st', s'⟩ := round
    rw [← hport]
    cases again with
    | false => exact Released.refl _
    | true => exact Released.refl _
  | succ n ih =>
    obtain ⟨hport, hnext⟩ := h.step hw bufLength s
    rw [readFrameLoop]
    generalize readFrameStep hw bufLength st s = round at hport hnext
    obtain ⟨again, st', s'⟩ := round
    rw [← hport]
    cases again with
    | false => exact Released.refl _
    | true => exact Released.head (hnext rfl).ready (ih (hnext rfl) s')

variable (hw bufLength s) in
/-- A read fails and changes nothing, or it gives back the first descriptor and maybe more. -/
theorem fsccUserReadFrame_released (h : RxShape ds finished port) :
    let (result, port', _) := fsccUserReadFrame hw bufLength port s
    (Refused port bufLength ∧ port' = port) ∨
      (result.status = .success ∧ (fsccUserNextReadSize port).1 = true ∧
        Released (releaseUserDesc port) port') := by
  unfold fsccUserReadFrame
  generalize hscan : fsccUserNextReadSize port = scan
  obtain ⟨ready, length⟩ := scan
  dsimp only
  cases ready with
  | false => exact Or.inl ⟨Or.inl (congrArg Prod.fst hscan), rfl⟩
  | true =>
    rw [if_neg (not_not.mpr rfl)]
    by_cases hlong : bufferRequirement port length > bufLength
    · rw [if_pos hlong]
      refine Or.inl ⟨Or.inr ?_, rfl⟩
      rw [hscan]
      exact hlong
    · rw [if_neg hlong]
      have hreading : ReadingShape ds (readFrameStart port length) :=
        ⟨finished, 0, length, h, h.scan hscan, Nat.le_of_eq (Nat.zero_add length)⟩
      obtain ⟨n, hn⟩ := Nat.exists_eq_succ_of_ne_zero
        (Nat.ne_of_gt (Nat.lt_of_le_of_lt (Nat.zero_le _) h.holds.origin_lt))
      rw [hn]
      exact Or.inr ⟨rfl, rfl, hreading.loop hw bufLength n s⟩

theorem Released.shape {port' : RxPort} (hreleased : Released port port')
    (h : RxShape ds finished port) :
    ∃ finished', RxShape ds finished' port' ∧ finished'.length ≤ finished.length ∧
      ReadKeeps port port' := by
  induction hreleased generalizing finished with
  | refl port => exact ⟨finished, h, Nat.le_refl _, ReadKeeps.refl port⟩
  | head hready _ ih =>
    cases finished with
    | nil =>
      obtain ⟨_, hmem, -⟩ := h.ready_iff.mp hready
      exact absurd hmem List.not_mem_nil
    | cons desc rest =>
      obtain ⟨finished', h', hle, hkeeps⟩ := ih h.giveBack
      exact ⟨finished', h', Nat.le_succ_of_le hle, (ReadKeeps.release _).trans hkeeps⟩

theorem fsccUserReadFrame_shape (h : ∃ finished, RxShape ds finished port) :
    ∃ finished, RxShape ds finished (fsccUserReadFrame hw bufLength port s).2.1 := by
  obtain ⟨finished, hring⟩ := h
  have hread := fsccUserReadFrame_released hw bufLength s hring
  generalize fsccUserReadFrame hw bufLength port s = read at hread
  obtain ⟨result, port', s'⟩ := read
  rcases hread with ⟨-, rfl⟩ | ⟨-, hready, hreleased⟩
  · exact ⟨finished, hring⟩
  · obtain ⟨finished', hring', -, -⟩ := (Released.head hready hreleased).shape hring
    exact ⟨finished', hring'⟩

variable (hw s) in
/-- A read that does not fail leaves the driver a descriptor to fill. -/
theorem fsccUserReadFrame_opens (h : RxShape ds finished port)
    (hready : (fsccUserNextReadSize port).1 = true)
    (hlarge : bufferRequirement port (fsccUserNextReadSize port).2 ≤ bufLength) :
    let (result, port', _) := fsccUserReadFrame hw bufLength port s
    result.status = .success ∧ ¬ port'.fifoDesc.control &&& descCstopBit = descCstopBit := by
  have hread := fsccUserReadFrame_released hw bufLength s h
  generalize fsccUserReadFrame hw bufLength port s = read at hread
  obtain ⟨result, port', s'⟩ := read
  rcases hread with ⟨hnone | hshort, -⟩ | ⟨hstatus, -, hreleased⟩
  · exact absurd (hready.symm.trans hnone) (by decide)
  · exact absurd hlarge (Nat.not_le_of_lt hshort)
  · refine ⟨hstatus, ?_⟩
    cases finished with
    | nil =>
      obtain ⟨_, hmem, -⟩ := h.ready_iff.mp hready
      exact absurd hmem List.not_mem_nil
    | cons desc rest =>
      obtain ⟨finished', h', hle, hkeeps⟩ := hreleased.shape h.giveBack
      have hroom : rest.length + 1 ≤ port.rxNum := h.holds.fits
      have hnum : port'.rxNum = port.rxNum := hkeeps.rxNum
      have hcontrol := (h'.fifoDesc (by omega)).control
      rw [and_descCstopBit_self]
      omega

end Read

/-! ## `fscc_user_read_stream` -/

section Stream

variable {bufLength : Nat} {st : StreamLoop}

variable (bufLength) in
theorem readStreamStep_shape (h : ∃ finished, RxShape ds finished st.port) :
    ∃ finished, RxShape ds finished (readStreamStep bufLength st).2.port := by
  obtain ⟨finished, h⟩ := h
  rw [readStreamStep]
  by_cases hopen : st.port.userDesc.control &&& descFeBit = 0 ∧
      st.port.userDesc.control &&& descCstopBit = 0
  · rw [if_pos hopen]
    exact ⟨finished, h⟩
  rw [if_neg hopen]
  cases finished with
  | nil => exact absurd (unfinished_of_lt h.userDesc_nil.control) hopen
  | cons desc rest =>
    obtain ⟨huser, hdesc⟩ := h.userDesc
    dsimp only
    by_cases hall : streamReceiveLength bufLength st = st.port.userDesc.dataCount
    · rw [if_pos hall]
      refine ⟨rest, h.release ⟨(congrArg DmaFrame.dataSize huser).trans hdesc.dataSize, ?_, ?_⟩⟩
      · show (if st.i % 2 ≠ 0 then descHiBit else 0) < 1073741824
        split <;> decide
      · show (if st.i % 2 ≠ 0 then descHiBit else 0) &&& dmaMaxLength = 0
        split <;> decide
    · rw [if_neg hall]
      have hhead : ∀ buffer dataCount, StoppedDesc ds
          { st.port.userDesc with buffer, dataCount } { st.port.userDesc with buffer, dataCount } := by
        intro buffer dataCount
        rw [huser]
        exact ⟨rfl, hdesc.dataSize, hdesc.cstop⟩
      exact ⟨_, h.holds.setHead (hhead _ _), h.fifo⟩

theorem readStreamLoop_shape (n : Nat) (h : ∃ finished, RxShape ds finished st.port) :
    ∃ finished, RxShape ds finished (readStreamLoop bufLength n st).port := by
  induction n generalizing st with
  | zero => exact h
  | succ n ih =>
    have hnext := readStreamStep_shape bufLength h
    rw [readStreamLoop]
    generalize readStreamStep bufLength st = round at hnext
    obtain ⟨again, st'⟩ := round
    cases again with
    | false => exact hnext
    | true => exact ih hnext

end Stream

/-! ## What the shape says of each descriptor -/

/-- The descriptors with CSTOP are those from `user_rx_desc` to just before `fifo_rx_desc`; the others
have neither FE nor CSTOP, and only the one being filled counts bytes, fewer than its size. -/
def RxSegment (port : RxPort) : Prop :=
  port.userRxDesc < port.rxNum ∧ port.fifoRxDesc < port.rxNum ∧
    ∃ m ≤ port.rxNum, port.fifoRxDesc = (port.userRxDesc + m) % port.rxNum ∧
      (∀ k < m, (Cyclic.slot port.rxDescriptors port.rxNum port.userRxDesc k).control &&&
        descCstopBit ≠ 0) ∧
      ∀ k, m ≤ k → k < port.rxNum →
        let desc := Cyclic.slot port.rxDescriptors port.rxNum port.userRxDesc k
        desc.Unfinished ∧ (desc.control &&& dmaMaxLength = 0 ∨
          k = m ∧ desc.control &&& dmaMaxLength < desc.dataSize)

theorem RxShape.segment (h : RxShape ds finished port) : RxSegment port := by
  refine ⟨h.holds.origin_lt, ?_, finished.length, h.holds.fits, h.fifo, ?_, ?_⟩
  · rw [h.fifo]
    exact Nat.mod_lt _ (Nat.lt_of_le_of_lt (Nat.zero_le _) h.holds.origin_lt)
  · intro k hk
    exact (h.holds.busy k hk).cstop
  · intro k hle hk
    rcases Nat.lt_or_eq_of_le hle with hlt | rfl
    · have hempty := h.holds.free k hlt hk
      exact ⟨unfinished_of_lt hempty.control, Or.inl hempty.count⟩
    · have hfilling := h.holds.cur hk
      refine ⟨unfinished_of_lt hfilling.control, hfilling.count.imp_right fun hlt ↦ ⟨rfl, ?_⟩⟩
      rw [hfilling.dataSize]
      exact hlt

end FsccDriver

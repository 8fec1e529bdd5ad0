import FsccDriver.FifoRoom

/-!
# TxDescs — which descriptors a call fills and which it pushes

Nothing is assumed of the ring but that its indices are in range and that its buffers have the size
they are said to have.
-/

namespace FsccDriver

open Words

variable {H : Type} {hw : Hardware H} {port port' : TxPort} {descs more : List Nat}

def TxPort.Free (port : TxPort) (i : Nat) : Prop :=
  (port.txDescriptors i).control &&& descCstopBit = descCstopBit

instance (port : TxPort) (i : Nat) : Decidable (port.Free i) :=
  inferInstanceAs (Decidable (_ = _))

structure TxPlain (port : TxPort) : Prop where
  user_lt : port.userTxDesc < port.txNum
  fifo_lt : port.fifoTxDesc < port.txNum
  buffer : ∀ i < port.txNum, (port.txDescriptors i).buffer.length = (port.txDescriptors i).dataSize

theorem TxPlain.same (h : TxPlain port) (hdescs : port'.txDescriptors = port.txDescriptors)
    (hnum : port'.txNum = port.txNum) (huser : port'.userTxDesc = port.userTxDesc)
    (hfifo : port'.fifoTxDesc = port.fifoTxDesc) : TxPlain port' := by
  constructor
  · rw [huser, hnum]
    exact h.user_lt
  · rw [hfifo, hnum]
    exact h.fifo_lt
  · rw [hdescs, hnum]
    exact h.buffer

/-! ## Filling -/

/-- The descriptors `writeFrameLoop` fills. -/
def filledDescs (buf : List Byte) (dataLength : Nat) : Nat → WriteFrameLoop → List Nat
  | 0, _ => []
  | n + 1, st =>
      if ¬ st.port.Free st.port.userTxDesc then []
      else
        match writeFrameStep buf dataLength st with
        | (true, st') => st.port.userTxDesc :: filledDescs buf dataLength n st'
        | (false, _) => [st.port.userTxDesc]

structure Fills (port : TxPort) (descs : List Nat) (port' : TxPort) : Prop where
  txNum : port'.txNum = port.txNum
  fifo : port'.fifoTxDesc = port.fifoTxDesc
  lt : ∀ i ∈ descs, i < port.txNum
  free : ∀ i ∈ descs, port.Free i
  other : ∀ i, i ∉ descs → port'.txDescriptors i = port.txDescriptors i
  plain : TxPlain port'

theorem Fills.none (h : TxPlain port) : Fills port [] port :=
  ⟨rfl, rfl, fun _ hi ↦ absurd hi List.not_mem_nil, fun _ hi ↦ absurd hi List.not_mem_nil,
    fun _ _ ↦ rfl, h⟩

theorem Fills.trans {port₁ : TxPort} (h : Fills port descs port₁) (h' : Fills port₁ more port') :
    Fills port (descs ++ more) port' := by
  refine ⟨h'.txNum.trans h.txNum, h'.fifo.trans h.fifo, ?_, ?_, ?_, h'.plain⟩
  · intro i hi
    rcases List.mem_append.mp hi with hold | hnew
    · exact h.lt i hold
    · exact h.txNum ▸ h'.lt i hnew
  · intro i hi
    by_cases hold : i ∈ descs
    · exact h.free i hold
    · have hfree := h'.free i ((List.mem_append.mp hi).resolve_left hold)
      rwa [TxPort.Free, h.other i hold] at hfree
  · intro i hi
    rw [List.mem_append, not_or] at hi
    exact (h'.other i hi.2).trans (h.other i hi.1)

theorem Fills.same {port₁ : TxPort} (h : Fills port descs port₁)
    (hdescs : port'.txDescriptors = port₁.txDescriptors) (hnum : port'.txNum = port₁.txNum)
    (huser : port'.userTxDesc = port₁.userTxDesc) (hfifo : port'.fifoTxDesc = port₁.fifoTxDesc) :
    Fills port descs port' :=
  ⟨hnum.trans h.txNum, hfifo.trans h.fifo, h.lt, h.free,
    fun i hi ↦ (congrFun hdescs i).trans (h.other i hi), h.plain.same hdescs hnum huser hfifo⟩

-- What was pending stays pending.
theorem Fills.pending_mono (h : Fills port descs port') {i : Nat} (hi : ¬ port.Free i) :
    ¬ port'.Free i := by
  rw [TxPort.Free, h.other i fun hmem ↦ hi (h.free i hmem)]
  exact hi

section Fill

variable {buf : List Byte} {dataLength n : Nat} {st st' : WriteFrameLoop}

def segmentLength (dataLength : Nat) (st : WriteFrameLoop) : Nat :=
  min (u32 ((dataLength : Int) - st.outLength)) st.port.userDesc.dataSize

/-- The descriptor as one round leaves it. -/
def segmentDesc (buf : List Byte) (dataLength : Nat) (st : WriteFrameLoop) : DmaFrame :=
  { st.port.userDesc with
    control := segmentControl st.i dataLength (segmentLength dataLength st)
    dataCount := segmentLength dataLength st
    buffer := Bytes.write st.port.userDesc.buffer 0
      (Bytes.read buf st.outLength (segmentLength dataLength st)) }

structure FillsOne (buf : List Byte) (dataLength : Nat) (st st' : WriteFrameLoop) : Prop where
  port : st'.port = (st.port.setUserDesc (segmentDesc buf dataLength st)).nextUser
  outLength : st'.outLength = u32 ((st.outLength : Int) + segmentLength dataLength st)
  status : st'.status = st.status
  i : st'.i = st.i + 1

variable (buf dataLength st) in
theorem writeFrameStep_cases :
    (¬ st.port.Free st.port.userTxDesc ∧
        writeFrameStep buf dataLength st = (false, { st with status := .bufferTooSmall })) ∨
      st.port.Free st.port.userTxDesc ∧ ∃ st', FillsOne buf dataLength st st' ∧
        writeFrameStep buf dataLength st = (decide (st'.outLength ≠ dataLength), st') := by
  by_cases hfree : st.port.Free st.port.userTxDesc
  · have hcstop : st.port.userDesc.control &&& descCstopBit = descCstopBit := hfree
    refine Or.inr ⟨hfree, { st with
      port := (st.port.setUserDesc (segmentDesc buf dataLength st)).nextUser
      i := st.i + 1
      outLength := u32 ((st.outLength : Int) + segmentLength dataLength st)
      startDesc := if st.startDesc = 0 then st.port.descPhysicalAddress st.port.userTxDesc
        else st.startDesc }, ⟨rfl, rfl, rfl, rfl⟩, ?_⟩
    exact if_neg (not_not.mpr hcstop)
  · exact Or.inl ⟨hfree, if_pos hfree⟩

theorem FillsOne.user (h : FillsOne buf dataLength st st') :
    st'.port.userTxDesc = Cyclic.next st.port.txNum st.port.userTxDesc := by
  rw [h.port]
  rfl

theorem FillsOne.filled (h : FillsOne buf dataLength st st') :
    st'.port.txDescriptors st.port.userTxDesc = segmentDesc buf dataLength st := by
  rw [h.port]
  exact Function.update_self _ _ _

theorem FillsOne.fills (h : FillsOne buf dataLength st st') (hplain : TxPlain st.port)
    (hfree : st.port.Free st.port.userTxDesc) :
    Fills st.port [st.port.userTxDesc] st'.port := by
  have hother : ∀ i ≠ st.port.userTxDesc,
      st'.port.txDescriptors i = st.port.txDescriptors i := by
    intro i hi
    rw [h.port]
    exact Function.update_of_ne hi _ _
  refine ⟨by rw [h.port]; rfl, by rw [h.port]; rfl, ?_, ?_, ?_, ?_, ?_, ?_⟩
  · intro i hi
    rw [List.mem_singleton.mp hi]
    exact hplain.user_lt
  · intro i hi
    rwa [List.mem_singleton.mp hi]
  · intro i hi
    exact hother i fun heq ↦ hi (List.mem_singleton.mpr heq)
  · rw [h.port]
    exact Cyclic.next_lt hplain.user_lt
  · rw [h.port]
    exact hplain.fifo_lt
  · intro i hi
    by_cases heq : i = st.port.userTxDesc
    · have hsize := hplain.buffer _ hplain.user_lt
      have hle : segmentLength dataLength st ≤ st.port.userDesc.dataSize := Nat.min_le_right _ _
      rw [heq, h.filled]
      refine (Bytes.write_length ?_).trans hsize
      rw [Bytes.read_length, Nat.zero_add]
      exact Nat.le_trans hle (Nat.le_of_eq hsize.symm)
    · rw [hother i heq]
      apply hplain.buffer
      rwa [h.port] at hi

variable (buf dataLength) in
-- Induction over the rounds, which take one free descriptor each.
theorem writeFrameLoop_fills (n : Nat) (hplain : TxPlain st.port) :
    Fills st.port (filledDescs buf dataLength n st) (writeFrameLoop buf dataLength n st).port := by
  induction n generalizing st with
  | zero => exact .none hplain
  | succ n ih =>
    rw [filledDescs, writeFrameLoop]
    rcases writeFrameStep_cases buf dataLength st with ⟨hbusy, hstep⟩ | ⟨hfree, st', hone, hstep⟩
    · rw [if_pos hbusy, hstep]
      exact .none hplain
    · have hfills := hone.fills hplain hfree
      rw [if_neg (not_not.mpr hfree), hstep]
      by_cases hlast : st'.outLength = dataLength
      · rw [decide_eq_false (not_not.mpr hlast)]
        exact hfills
      · rw [decide_eq_true hlast]
        exact hfills.trans (ih hfills.plain)

variable (buf dataLength) in
-- The descriptors follow one another.
theorem filledDescs_eq (n : Nat) (hplain : TxPlain st.port) :
    ∃ m ≤ n, filledDescs buf dataLength n st =
        (List.range m).map (fun k ↦ (st.port.userTxDesc + k) % st.port.txNum) ∧
      (writeFrameLoop buf dataLength n st).port.userTxDesc =
        (st.port.userTxDesc + m) % st.port.txNum := by
  have hzero : (st.port.userTxDesc + 0) % st.port.txNum = st.port.userTxDesc :=
    Nat.mod_eq_of_lt hplain.user_lt
  induction n generalizing st with
  | zero => exact ⟨0, Nat.le_refl 0, rfl, hzero.symm⟩
  | succ n ih =>
    rw [filledDescs, writeFrameLoop]
    rcases writeFrameStep_cases buf dataLength st with ⟨hbusy, hstep⟩ | ⟨hfree, st', hone, hstep⟩
    · rw [if_pos hbusy, hstep]
      exact ⟨0, Nat.zero_le _, rfl, hzero.symm⟩
    · have hfills := hone.fills hplain hfree
      rw [if_neg (not_not.mpr hfree), hstep]
      by_cases hlast : st'.outLength = dataLength
      · rw [decide_eq_false (not_not.mpr hlast)]
        refine ⟨1, Nat.le_add_left 1 n, ?_, hone.user.trans (Cyclic.next_eq_mod hplain.user_lt)⟩
        rw [List.range_one, List.map_singleton, hzero]
      · rw [decide_eq_true hlast]
        obtain ⟨m, hm, hdescs, hend⟩ := ih hfills.plain (Nat.mod_eq_of_lt hfills.plain.user_lt)
        rw [hone.user, hfills.txNum] at hdescs hend
        refine ⟨m + 1, Nat.succ_le_succ hm, ?_, hend.trans (Cyclic.add_mod_next hplain.user_lt m)⟩
        dsimp only
        rw [hdescs, List.range_succ_eq_map, List.map_cons, List.map_map, hzero]
        congr 1
        apply List.map_congr_left
        intro k _
        exact Cyclic.add_mod_next hplain.user_lt k

/-- The later rounds of a call do not come back to a descriptor it has filled. -/
theorem FillsOne.kept (h : FillsOne buf dataLength st st') (hplain : TxPlain st.port)
    (hfree : st.port.Free st.port.userTxDesc) (hn : n + 1 ≤ st.port.txNum) :
    (writeFrameLoop buf dataLength n st').port.txDescriptors st.port.userTxDesc =
      segmentDesc buf dataLength st := by
  have hfills := h.fills hplain hfree
  rw [← h.filled]
  apply (writeFrameLoop_fills buf dataLength n hfills.plain).other
  obtain ⟨m, hm, hdescs, -⟩ := filledDescs_eq buf dataLength n hfills.plain
  rw [hdescs]
  intro hmem
  obtain ⟨k, hk, heq⟩ := List.mem_map.mp hmem
  have hkm := List.mem_range.mp hk
  rw [h.user, hfills.txNum, Cyclic.add_mod_next hplain.user_lt] at heq
  exact Cyclic.add_mod_succ_ne hplain.user_lt (by omega) heq

-- A length below `2 ^ 30` leaves CSTOP clear.
theorem segmentControl_cstop {i dataLength transmitLength : Nat} (hlength : dataLength < 1073741824)
    (htransmit : transmitLength < 1073741824) :
    segmentControl i dataLength transmitLength &&& descCstopBit = 0 := by
  have hhi : descHiBit &&& descCstopBit = 0 := by decide
  have hfe : descFeBit &&& descCstopBit = 0 := by decide
  have hclear : ∀ n < 1073741824, n &&& descCstopBit = 0 := by
    intro n hn
    rw [and_descCstopBit, Nat.div_eq_of_lt hn]
  unfold segmentControl
  split
  · rw [Nat.and_or_distrib_right, Nat.and_or_distrib_right, hhi, hfe, hclear _ hlength]
    rfl
  · rw [Nat.and_or_distrib_right, hhi, hclear _ htransmit]
    rfl

theorem writeFrameLoop_pending (n : Nat) (hplain : TxPlain st.port) (hlength : dataLength < 1073741824)
    (hout : st.outLength ≤ dataLength) :
    ∀ i ∈ filledDescs buf dataLength n st, ¬ (writeFrameLoop buf dataLength n st).port.Free i := by
  induction n generalizing st with
  | zero => exact fun _ hi ↦ absurd hi List.not_mem_nil
  | succ n ih =>
    rw [filledDescs, writeFrameLoop]
    rcases writeFrameStep_cases buf dataLength st with ⟨hbusy, hstep⟩ | ⟨hfree, st', hone, hstep⟩
    · rw [if_pos hbusy]
      exact fun _ hi ↦ absurd hi List.not_mem_nil
    · have hfills := hone.fills hplain hfree
      have hrest : u32 ((dataLength : Int) - st.outLength) = dataLength - st.outLength :=
        u32_sub_of_le (by omega) hout
      have hlen : segmentLength dataLength st ≤ dataLength - st.outLength := by
        rw [segmentLength, hrest]
        exact Nat.min_le_left _ _
      have hnext : st'.outLength = st.outLength + segmentLength dataLength st := by
        rw [hone.outLength, u32_add_of_lt (by omega)]
      have hpending : ¬ st'.port.Free st.port.userTxDesc := by
        have hclear := segmentControl_cstop (i := st.i) hlength
          (show segmentLength dataLength st < 1073741824 by omega)
        rw [TxPort.Free, hone.filled]
        show ¬ segmentControl st.i dataLength (segmentLength dataLength st) &&& descCstopBit =
          descCstopBit
        rw [hclear]
        decide
      rw [if_neg (not_not.mpr hfree), hstep]
      by_cases hlast : st'.outLength = dataLength
      · rw [decide_eq_false (not_not.mpr hlast)]
        intro i hi
        rwa [List.mem_singleton.mp hi]
      · rw [decide_eq_true hlast]
        intro i hi
        rcases List.mem_cons.mp hi with rfl | hmem
        · exact (writeFrameLoop_fills buf dataLength n hfills.plain).pending_mono hpending
        · exact ih hfills.plain (by omega) i hmem

variable (hw buf dataLength) in
/-- `fscc_user_write_frame` changes the ring as its loop does. -/
theorem fsccUserWriteFrame_loop (port : TxPort) (card : H) :
    let st := writeFrameLoop buf dataLength port.txNum ⟨port, 0, 0, 0, .success⟩
    let call := fsccUserWriteFrame hw buf dataLength port card
    call.1 = ⟨st.status, st.outLength⟩ ∧ call.2.1.txDescriptors = st.port.txDescriptors ∧
      call.2.1.txNum = st.port.txNum ∧ call.2.1.userTxDesc = st.port.userTxDesc ∧
      call.2.1.fifoTxDesc = st.port.fifoTxDesc := by
  intro st
  rw [fsccUserWriteFrame]
  dsimp only
  split
  · split
    · exact ⟨rfl, rfl, rfl, rfl, rfl⟩
    · exact ⟨rfl, rfl, rfl, rfl, rfl⟩
  · exact ⟨rfl, rfl, rfl, rfl, rfl⟩

variable (hw buf dataLength) in
theorem fsccUserWriteFrame_fills (hplain : TxPlain port) (card : H) :
    Fills port (filledDescs buf dataLength port.txNum ⟨port, 0, 0, 0, .success⟩)
      (fsccUserWriteFrame hw buf dataLength port card).2.1 := by
  obtain ⟨-, hdescs, hnum, huser, hfifo⟩ := fsccUserWriteFrame_loop hw buf dataLength port card
  exact (writeFrameLoop_fills buf dataLength port.txNum hplain).same hdescs hnum huser hfifo

end Fill

/-! ## Pushing -/

/-- The descriptors `writeDataLoop` pushes. -/
def pushedDescs (hw : Hardware H) (tfcnt : Nat) : Nat → WriteDataLoop → H → List Nat
  | 0, _, _ => []
  | n + 1, st, h =>
      match writeDataStep hw tfcnt st h with
      | (true, st', h) => st.port.fifoTxDesc :: pushedDescs hw tfcnt n st' h
      | (false, _, _) => []

structure Pushes (port : TxPort) (descs : List Nat) (port' : TxPort) : Prop where
  txNum : port'.txNum = port.txNum
  user : port'.userTxDesc = port.userTxDesc
  lt : ∀ i ∈ descs, i < port.txNum
  pending : ∀ i ∈ descs, ¬ port.Free i
  freed : ∀ i ∈ descs, port'.Free i
  other : ∀ i, i ∉ descs → port'.txDescriptors i = port.txDescriptors i
  plain : TxPlain port'

theorem Pushes.none (h : TxPlain port) : Pushes port [] port :=
  ⟨rfl, rfl, fun _ hi ↦ absurd hi List.not_mem_nil, fun _ hi ↦ absurd hi List.not_mem_nil,
    fun _ hi ↦ absurd hi List.not_mem_nil, fun _ _ ↦ rfl, h⟩

theorem Pushes.trans {port₁ : TxPort} (h : Pushes port descs port₁) (h' : Pushes port₁ more port') :
    Pushes port (descs ++ more) port' := by
  refine ⟨h'.txNum.trans h.txNum, h'.user.trans h.user, ?_, ?_, ?_, ?_, h'.plain⟩
  · intro i hi
    rcases List.mem_append.mp hi with hold | hnew
    · exact h.lt i hold
    · exact h.txNum ▸ h'.lt i hnew
  · intro i hi
    by_cases hold : i ∈ descs
    · exact h.pending i hold
    · have hpending := h'.pending i ((List.mem_append.mp hi).resolve_left hold)
      rwa [TxPort.Free, h.other i hold] at hpending
  · intro i hi
    by_cases hnew : i ∈ more
    · exact h'.freed i hnew
    · have hfreed := h.freed i ((List.mem_append.mp hi).resolve_right hnew)
      rwa [TxPort.Free, ← h'.other i hnew] at hfreed
  · intro i hi
    rw [List.mem_append, not_or] at hi
    exact (h'.other i hi.2).trans (h.other i hi.1)

theorem Pushes.same {port₁ : TxPort} (h : Pushes port descs port₁)
    (hdescs : port'.txDescriptors = port₁.txDescriptors) (hnum : port'.txNum = port₁.txNum)
    (huser : port'.userTxDesc = port₁.userTxDesc) (hfifo : port'.fifoTxDesc = port₁.fifoTxDesc) :
    Pushes port descs port' :=
  ⟨hnum.trans h.txNum, huser.trans h.user, h.lt, h.pending,
    fun i hi ↦ (by rw [TxPort.Free, hdescs]; exact h.freed i hi),
    fun i hi ↦ (congrFun hdescs i).trans (h.other i hi), h.plain.same hdescs hnum huser hfifo⟩

-- What is pending behind the call was so before it and was not pushed.
theorem Pushes.still_pending (h : Pushes port descs port') {i : Nat} (hi : ¬ port'.Free i) :
    i ∉ descs ∧ ¬ port.Free i := by
  have hnot : i ∉ descs := fun hmem ↦ hi (h.freed i hmem)
  rw [TxPort.Free, h.other i hnot] at hi
  exact ⟨hnot, hi⟩

section Push

variable {st : WriteDataLoop} {tfcnt : Nat}

/-- The descriptor at `fifo_tx_desc` has been emptied. -/
def emptiedPort (port : TxPort) : TxPort :=
  (port.setFifoDesc { port.fifoDesc with dataCount := 0, control := descCstopBit }).nextFifo

variable (hw st tfcnt) in
theorem writeDataStep_cases (card : H) :
    writeDataStep hw tfcnt st card = (false, st, card) ∨
      ¬ st.port.Free st.port.fifoTxDesc ∧ ∃ st' card',
        writeDataStep hw tfcnt st card = (true, st', card') ∧ st'.port = emptiedPort st.port := by
  rw [writeDataStep]
  by_cases hfree : st.port.fifoDesc.control &&& descCstopBit = descCstopBit
  · exact Or.inl (if_pos hfree)
  rw [if_neg hfree]
  split
  · exact Or.inl rfl
  split
  · exact Or.inl rfl
  exact Or.inr ⟨hfree, _, _, rfl, rfl⟩

theorem emptiedPort_pushes (hplain : TxPlain port) (hpending : ¬ port.Free port.fifoTxDesc) :
    Pushes port [port.fifoTxDesc] (emptiedPort port) := by
  have hself : (emptiedPort port).txDescriptors port.fifoTxDesc =
      { port.fifoDesc with dataCount := 0, control := descCstopBit } := Function.update_self _ _ _
  have hother : ∀ i ≠ port.fifoTxDesc,
      (emptiedPort port).txDescriptors i = port.txDescriptors i :=
    fun i hi ↦ Function.update_of_ne hi _ _
  refine ⟨rfl, rfl, ?_, ?_, ?_, ?_, hplain.user_lt, Cyclic.next_lt hplain.fifo_lt, ?_⟩
  · intro i hi
    rw [List.mem_singleton.mp hi]
    exact hplain.fifo_lt
  · intro i hi
    rwa [List.mem_singleton.mp hi]
  · intro i hi
    rw [List.mem_singleton.mp hi, TxPort.Free, hself]
    exact Nat.and_self _
  · intro i hi
    exact hother i fun heq ↦ hi (List.mem_singleton.mpr heq)
  · intro i hi
    by_cases heq : i = port.fifoTxDesc
    · rw [heq, hself]
      exact hplain.buffer _ hplain.fifo_lt
    · rw [hother i heq]
      exact hplain.buffer i hi

variable (hw tfcnt) in
theorem writeDataLoop_pushes (n : Nat) (hplain : TxPlain st.port) (card : H) :
    Pushes st.port (pushedDescs hw tfcnt n st card) (writeDataLoop hw tfcnt n st card).1.port := by
  induction n generalizing st card with
  | zero => exact .none hplain
  | succ n ih =>
    rw [pushedDescs, writeDataLoop]
    rcases writeDataStep_cases hw st tfcnt card with hstop | ⟨hpending, st', card', hstep, hport⟩
    · rw [hstop]
      exact .none hplain
    · have hone := emptiedPort_pushes hplain hpending
      rw [← hport] at hone
      rw [hstep]
      exact hone.trans (ih hone.plain card')

/-- What every emptied descriptor preserves, the loop preserves. -/
theorem writeDataLoop_invariant {P : TxPort → Prop}
    (hempty : ∀ port, P port → ¬ port.Free port.fifoTxDesc → P (emptiedPort port)) (n : Nat)
    (card : H) (h : P st.port) : P (writeDataLoop hw tfcnt n st card).1.port := by
  induction n generalizing st card with
  | zero => exact h
  | succ n ih =>
    rw [writeDataLoop]
    rcases writeDataStep_cases hw st tfcnt card with hstop | ⟨hpending, st', card', hstep, hport⟩
    · rw [hstop]
      exact h
    · rw [hstep]
      exact ih card' (hport ▸ hempty st.port h hpending)

variable (hw tfcnt) in
theorem writeDataLocked_loop (txcnt : Nat) (port : TxPort) (card : H) :
    let st := (writeDataLoop hw tfcnt port.txNum ⟨port, fifoSpace txcnt, 0, 0⟩ card).1
    let port' := (writeDataLocked hw tfcnt txcnt port card).2.1
    port'.txDescriptors = st.port.txDescriptors ∧ port'.txNum = st.port.txNum ∧
      port'.userTxDesc = st.port.userTxDesc ∧ port'.fifoTxDesc = st.port.fifoTxDesc := by
  rw [writeDataLocked]
  dsimp only
  split
  · exact ⟨rfl, rfl, rfl, rfl⟩
  · exact ⟨rfl, rfl, rfl, rfl⟩

variable (hw tfcnt) in
theorem writeDataLocked_pushes (txcnt : Nat) (hplain : TxPlain port) (card : H) :
    Pushes port (pushedDescs hw tfcnt port.txNum ⟨port, fifoSpace txcnt, 0, 0⟩ card)
      (writeDataLocked hw tfcnt txcnt port card).2.1 := by
  obtain ⟨hdescs, hnum, huser, hfifo⟩ := writeDataLocked_loop hw tfcnt txcnt port card
  let st : WriteDataLoop := ⟨port, fifoSpace txcnt, 0, 0⟩
  have hst : TxPlain st.port := hplain
  exact (writeDataLoop_pushes hw tfcnt port.txNum hst card).same hdescs hnum huser hfifo

end Push

end FsccDriver

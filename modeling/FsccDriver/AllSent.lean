import FsccDriver.Lib.Runs
import FsccDriver.WriteSpace

/-!
# AllSent — `alls_worker` and the requests it completes

One ALLS interrupt completes everything in `write_queue2`.  The descriptors are pushed in the order in
which the requests were taken, so what is still pending belongs to the latest of them.
-/

namespace FsccDriver

open Words

variable {H : Type} {hw : Hardware H} {port : TxPort} {owner : Nat → Nat} {n : Nat}

/-! ## The ring in order -/

/-- The `n` descriptors from `fifo_tx_desc` on wait to be pushed, older requests first. -/
structure InOrder (owner : Nat → Nat) (n : Nat) (port : TxPort) : Prop where
  plain : TxPlain port
  le : n ≤ port.txNum
  user : port.userTxDesc = (port.fifoTxDesc + n) % port.txNum
  pending : ∀ k < n, ¬ port.Free ((port.fifoTxDesc + k) % port.txNum)
  free : ∀ k, n ≤ k → k < port.txNum → port.Free ((port.fifoTxDesc + k) % port.txNum)
  order : ∀ j k, j ≤ k → k < n →
    owner ((port.fifoTxDesc + j) % port.txNum) ≤ owner ((port.fifoTxDesc + k) % port.txNum)

theorem InOrder.exists_waiting (h : InOrder owner n port) {i : Nat} (hi : i < port.txNum)
    (hpending : ¬ port.Free i) : ∃ k < n, (port.fifoTxDesc + k) % port.txNum = i := by
  obtain ⟨k, hk, rfl⟩ := Cyclic.exists_slot h.plain.fifo_lt hi
  exact ⟨k, Nat.lt_of_not_le fun hle ↦ hpending (h.free k hle hk), rfl⟩

theorem InOrder.fifo_eq (h : InOrder owner n port) :
    (port.fifoTxDesc + 0) % port.txNum = port.fifoTxDesc := Nat.mod_eq_of_lt h.plain.fifo_lt

/-- The descriptor at `fifo_tx_desc` is the oldest. -/
theorem InOrder.first (h : InOrder owner n port) {i : Nat} (hi : i < port.txNum)
    (hpending : ¬ port.Free i) :
    ¬ port.Free port.fifoTxDesc ∧ owner port.fifoTxDesc ≤ owner i := by
  obtain ⟨k, hk, rfl⟩ := h.exists_waiting hi hpending
  have hhead := h.pending 0 (Nat.lt_of_le_of_lt (Nat.zero_le k) hk)
  have hle := h.order 0 k (Nat.zero_le k) hk
  rw [h.fifo_eq] at hhead hle
  exact ⟨hhead, hle⟩

-- What a call fills goes to the end.
theorem InOrder.fill (h : InOrder owner n port) {port' : TxPort} {id c : Nat} (hc : c ≤ port.txNum)
    (hfills : Fills port ((List.range c).map fun k ↦ (port.userTxDesc + k) % port.txNum) port')
    (huser : port'.userTxDesc = (port.userTxDesc + c) % port.txNum)
    (hpending : ∀ k < c, ¬ port'.Free ((port.userTxDesc + k) % port.txNum))
    (hlatest : ∀ i < port.txNum, ¬ port.Free i → owner i ≤ id) :
    InOrder (fun i ↦ if i ∈ (List.range c).map (fun k ↦ (port.userTxDesc + k) % port.txNum) then id
      else owner i) (n + c) port' := by
  have hslot : ∀ k, (port.userTxDesc + k) % port.txNum = (port.fifoTxDesc + (n + k)) % port.txNum := by
    intro k
    rw [h.user, Nat.mod_add_mod, Nat.add_assoc]
  have hmem : ∀ i, i ∈ (List.range c).map (fun k ↦ (port.userTxDesc + k) % port.txNum) ↔
      ∃ k < c, (port.fifoTxDesc + (n + k)) % port.txNum = i := by
    intro i
    simp only [List.mem_map, List.mem_range, hslot]
  -- The free descriptors end where the pending ones begin.
  have hfits : n + c ≤ port.txNum := by
    by_contra hmore
    have hle := h.le
    have hzero : n ≠ 0 := by
      rintro rfl
      omega
    have hwrapped := hfills.free _ ((hmem _).mpr ⟨port.txNum - n, by omega, rfl⟩)
    rw [Nat.add_sub_of_le h.le, Nat.add_mod_right, Nat.mod_eq_of_lt h.plain.fifo_lt] at hwrapped
    have hhead := h.pending 0 (Nat.pos_of_ne_zero hzero)
    rw [h.fifo_eq] at hhead
    exact hhead hwrapped
  have hold : ∀ k, k < n ∨ n + c ≤ k → k < port.txNum →
      (port.fifoTxDesc + k) % port.txNum ∉
        (List.range c).map fun k ↦ (port.userTxDesc + k) % port.txNum := by
    intro k hout hk hin
    obtain ⟨j, hj, heq⟩ := (hmem _).mp hin
    exact Cyclic.add_mod_ne hk (by omega) (by omega) heq
  have hnew : ∀ k, n ≤ k → k < n + c → (port.fifoTxDesc + k) % port.txNum ∈
      (List.range c).map fun k ↦ (port.userTxDesc + k) % port.txNum :=
    fun k hle hlt ↦ (hmem _).mpr ⟨k - n, by omega, by rw [Nat.add_sub_of_le hle]⟩
  refine ⟨hfills.plain, hfills.txNum ▸ hfits, ?_, ?_, ?_, ?_⟩
  · rw [huser, hfills.fifo, hfills.txNum, hslot c]
  · rw [hfills.fifo, hfills.txNum]
    intro k hk
    by_cases hkn : k < n
    · exact hfills.pending_mono (h.pending k hkn)
    · have hlater := hpending (k - n) (by omega)
      rwa [hslot, Nat.add_sub_of_le (Nat.le_of_not_lt hkn)] at hlater
  · rw [hfills.fifo, hfills.txNum]
    intro k hle hk
    rw [TxPort.Free, hfills.other _ (hold k (Or.inr hle) hk)]
    exact h.free k (by omega) hk
  · rw [hfills.fifo, hfills.txNum]
    intro j k hjk hk
    by_cases hkn : k < n
    · rw [if_neg (hold k (Or.inl hkn) (by omega)), if_neg (hold j (Or.inl (by omega)) (by omega))]
      exact h.order j k hjk hkn
    rw [if_pos (hnew k (Nat.le_of_not_lt hkn) hk)]
    by_cases hjn : j < n
    · rw [if_neg (hold j (Or.inl hjn) (by omega))]
      exact hlatest _ (Nat.mod_lt _ (by omega)) (h.pending j hjn)
    · rw [if_pos (hnew j (Nat.le_of_not_lt hjn) (by omega))]

-- What is pushed leaves at the front.
theorem InOrder.emptied (h : InOrder owner n port) (hpending : ¬ port.Free port.fifoTxDesc) :
    ∃ m, InOrder owner m (emptiedPort port) := by
  have hpushes := emptiedPort_pushes h.plain hpending
  obtain ⟨k, hk, -⟩ := h.exists_waiting h.plain.fifo_lt hpending
  obtain ⟨m, rfl⟩ : ∃ m, n = m + 1 := ⟨n - 1, by omega⟩
  have hslot : ∀ k, ((emptiedPort port).fifoTxDesc + k) % port.txNum =
      (port.fifoTxDesc + (k + 1)) % port.txNum := Cyclic.add_mod_next h.plain.fifo_lt
  have hle : m + 1 ≤ port.txNum := h.le
  refine ⟨m, hpushes.plain, Nat.le_of_succ_le h.le, h.user.trans (hslot m).symm, ?_, ?_, ?_⟩
  · intro k hk
    show ¬ (emptiedPort port).Free (((emptiedPort port).fifoTxDesc + k) % port.txNum)
    rw [hslot, TxPort.Free, hpushes.other]
    · exact h.pending (k + 1) (Nat.succ_lt_succ hk)
    · exact fun hmem ↦ Cyclic.add_mod_succ_ne h.plain.fifo_lt (by omega) (List.mem_singleton.mp hmem)
  · intro k hmk hk
    show (emptiedPort port).Free (((emptiedPort port).fifoTxDesc + k) % port.txNum)
    rw [hslot]
    by_cases hlast : k + 1 = port.txNum
    · rw [hlast, Nat.add_mod_right, Nat.mod_eq_of_lt h.plain.fifo_lt]
      exact hpushes.freed _ List.mem_cons_self
    · have hlt : k < port.txNum := hk
      rw [TxPort.Free, hpushes.other]
      · exact h.free (k + 1) (by omega) (by omega)
      · exact fun hmem ↦ Cyclic.add_mod_succ_ne h.plain.fifo_lt (by omega) (List.mem_singleton.mp hmem)
  · intro j k hjk hk
    show owner (((emptiedPort port).fifoTxDesc + j) % port.txNum) ≤
      owner (((emptiedPort port).fifoTxDesc + k) % port.txNum)
    rw [hslot, hslot]
    exact h.order (j + 1) (k + 1) (Nat.succ_le_succ hjk) (Nat.succ_lt_succ hk)

theorem InOrder.same {port' : TxPort} (h : InOrder owner n port)
    (hdescs : port'.txDescriptors = port.txDescriptors) (hnum : port'.txNum = port.txNum)
    (huser : port'.userTxDesc = port.userTxDesc) (hfifo : port'.fifoTxDesc = port.fifoTxDesc) :
    InOrder owner n port' := by
  have hfree : ∀ i, port'.Free i ↔ port.Free i := fun i ↦ by rw [TxPort.Free, TxPort.Free, hdescs]
  refine ⟨h.plain.same hdescs hnum huser hfifo, hnum ▸ h.le, ?_, ?_, ?_, ?_⟩
  · rw [huser, hfifo, hnum]
    exact h.user
  all_goals
    simp only [hfree, hfifo, hnum]
  · exact h.pending
  · exact h.free
  · exact h.order

theorem resetTx_inOrder {port : TxPort} (hslots : 0 < port.txNum)
    (hbuffer : ∀ i < port.txNum,
      (port.txDescriptors i).buffer.length = (port.txDescriptors i).dataSize) :
    InOrder owner 0 (resetTx port) :=
  ⟨resetTx_plain hslots hbuffer, Nat.zero_le _, (Nat.zero_mod _).symm,
    fun k hk ↦ absurd hk (Nat.not_lt_zero k), fun _ _ _ ↦ resetTx_free (Nat.mod_lt _ hslots),
    fun _ k _ hk ↦ absurd hk (Nat.not_lt_zero k)⟩

variable {s : WriteState H} {write : Write}

variable (hw) in
theorem InOrder.fillState (h : InOrder s.owner n s.port) (hlength : write.length < 1073741824)
    (hlatest : ∀ i < s.port.txNum, ¬ s.port.Free i → s.owner i ≤ write.id) :
    (∃ m, InOrder (s.fill hw write).2.owner m (s.fill hw write).2.port) ∧
      ∀ i ∈ (s.fillRecord hw write).descs, ¬ (s.fill hw write).2.port.Free i := by
  let st : WriteFrameLoop := ⟨s.port, 0, 0, 0, .success⟩
  have hst : TxPlain st.port := h.plain
  have hfills : Fills s.port (s.fillRecord hw write).descs (s.fill hw write).2.port :=
    s.fillRecord_fills h.plain write
  obtain ⟨-, hdescs, -, huser, -⟩ :=
    fsccUserWriteFrame_loop hw write.data write.length32 s.port s.card
  obtain ⟨c, hc, hconsecutive, hend⟩ := filledDescs_eq write.data write.length32 s.port.txNum hst
  have hshort : write.length32 < 1073741824 := by
    have hlength32 : write.length32 = write.length := u32_of_nat (by omega)
    rwa [hlength32]
  have hpending : ∀ i ∈ (s.fillRecord hw write).descs, ¬ (s.fill hw write).2.port.Free i := by
    intro i hi
    have hloop := writeFrameLoop_pending s.port.txNum hst hshort (Nat.zero_le _) i hi
    have hsame : (s.fill hw write).2.port.txDescriptors = _ := hdescs
    rwa [TxPort.Free, hsame]
  refine ⟨⟨n + c, ?_⟩, hpending⟩
  have hrecord : (s.fillRecord hw write).descs =
      (List.range c).map fun k ↦ (s.port.userTxDesc + k) % s.port.txNum := hconsecutive
  show InOrder (fun i ↦ if i ∈ (s.fillRecord hw write).descs then write.id else s.owner i) _ _
  rw [hrecord] at hfills hpending ⊢
  refine h.fill hc hfills (huser.trans hend) (fun k hk ↦ hpending _ ?_) hlatest
  exact List.mem_map_of_mem (List.mem_range.mpr hk)

variable (hw) in
theorem InOrder.drain (h : InOrder s.owner n s.port) (tfcnt txcnt : Nat) :
    ∃ m, InOrder s.owner m (s.drain hw tfcnt txcnt).port := by
  obtain ⟨hdescs, hnum, huser, hfifo⟩ := writeDataLocked_loop hw tfcnt txcnt s.port s.card
  let st : WriteDataLoop := ⟨s.port, fifoSpace txcnt, 0, 0⟩
  have hst : ∃ m, InOrder s.owner m st.port := ⟨n, h⟩
  have hloop : ∃ m, InOrder s.owner m (writeDataLoop hw tfcnt s.port.txNum st s.card).1.port :=
    writeDataLoop_invariant (P := fun port ↦ ∃ m, InOrder s.owner m port)
      (fun _ ⟨_, hport⟩ hpending ↦ hport.emptied hpending) s.port.txNum s.card hst
  obtain ⟨m, hm⟩ := hloop
  exact ⟨m, hm.same hdescs hnum huser hfifo⟩

/-! ## Requests in order -/

/-- The requests that are waiting, the oldest first. -/
def WriteState.line (s : WriteState H) : List Nat :=
  s.writeQueue2.map Write.id ++ ((s.writer.map fun pc ↦ pc.write.id).toList ++
    s.writeQueue.map Write.id)

/-- `FsccEvtIoWrite` has filled the ring for this request and not forwarded it yet. -/
def WriteState.Current (s : WriteState H) (id : Nat) : Prop :=
  ∃ write result, s.writer = some (.filled write result) ∧ write.id = id

structure AllsInvariant (s : WriteState H) : Prop where
  waiting : s.waitOnWrite = true
  direct : s.blockingWrite = false
  ring : ∃ n, InOrder s.owner n s.port
  line : s.line.Pairwise (· < ·)
  line_lt : ∀ id ∈ s.line, id < s.nextId
  owners : ∀ i < s.port.txNum, ¬ s.port.Free i →
    s.owner i ∈ s.writeQueue2.map Write.id ∨ s.Current (s.owner i)
  placed : ∀ fill ∈ s.fills, ∀ i ∈ fill.descs, (fill.write.id, i) ∈ s.pushed ∨
    i < s.port.txNum ∧ ¬ s.port.Free i ∧ s.owner i = fill.write.id
  parked : ∀ write ∈ s.writeQueue2, ∃ fill ∈ s.fills, fill.write = write
  filled : ∀ write result, s.writer = some (.filled write result) →
    ∃ fill ∈ s.fills, fill.write = write

-- A step on the queues before `fscc_user_write_frame`, or on the card.
theorem AllsInvariant.same (h : AllsInvariant s) {s' : WriteState H}
    (hwaiting : s'.waitOnWrite = s.waitOnWrite) (hdirect : s'.blockingWrite = s.blockingWrite)
    (hport : s'.port = s.port) (howner : s'.owner = s.owner) (hfills : s'.fills = s.fills)
    (hpushed : s'.pushed = s.pushed) (hparked : s'.writeQueue2 = s.writeQueue2)
    (hline : s'.line.Pairwise (· < ·)) (hlt : ∀ id ∈ s'.line, id < s'.nextId)
    (hwriter : ∀ write result,
      s'.writer = some (.filled write result) ↔ s.writer = some (.filled write result)) :
    AllsInvariant s' := by
  have hcurrent : ∀ id, s'.Current id ↔ s.Current id := fun id ↦ by
    rw [WriteState.Current, WriteState.Current]
    simp only [hwriter]
  refine ⟨hwaiting.trans h.waiting, hdirect.trans h.direct, ?_, hline, hlt, ?_, ?_, ?_, ?_⟩
  · rw [hport, howner]
    exact h.ring
  · rw [hport, howner, hparked]
    simp only [hcurrent]
    exact h.owners
  · rw [hport, howner, hfills, hpushed]
    exact h.placed
  · rw [hparked, hfills]
    exact h.parked
  · rw [hfills]
    exact fun write result hfilled ↦ h.filled write result ((hwriter write result).mp hfilled)

-- The same, when no request comes in.
theorem AllsInvariant.shorter (h : AllsInvariant s) {s' : WriteState H}
    (hwaiting : s'.waitOnWrite = s.waitOnWrite) (hdirect : s'.blockingWrite = s.blockingWrite)
    (hport : s'.port = s.port) (howner : s'.owner = s.owner) (hfills : s'.fills = s.fills)
    (hpushed : s'.pushed = s.pushed) (hparked : s'.writeQueue2 = s.writeQueue2)
    (hline : s'.line.Sublist s.line) (hnext : s'.nextId = s.nextId)
    (hwriter : ∀ write result,
      s'.writer = some (.filled write result) ↔ s.writer = some (.filled write result)) :
    AllsInvariant s' :=
  h.same hwaiting hdirect hport howner hfills hpushed hparked (h.line.sublist hline)
    (fun id hid ↦ hnext ▸ h.line_lt id (hline.subset hid)) hwriter

-- `fscc_user_write_frame` takes the request that is younger than everything in the ring.
theorem AllsInvariant.fill (h : AllsInvariant s) (hpc : s.writer = some (.checked write))
    (hlength : write.length < 1073741824) :
    AllsInvariant (s.evtIoWriteStep hw (.checked write)) := by
  obtain ⟨n, hring⟩ := h.ring
  have hnone : ∀ id, ¬ s.Current id := by
    rintro id ⟨write, result, hwriter, -⟩
    cases hpc.symm.trans hwriter
  have hwriter : s.line = s.writeQueue2.map Write.id ++ (write.id :: s.writeQueue.map Write.id) := by
    rw [WriteState.line, hpc]
    rfl
  have hline := h.line
  rw [hwriter, List.pairwise_append] at hline
  have howners : ∀ i < s.port.txNum, ¬ s.port.Free i → s.owner i ∈ s.writeQueue2.map Write.id :=
    fun i hi hpending ↦ (h.owners i hi hpending).resolve_right (hnone _)
  obtain ⟨hnext, hpending⟩ := hring.fillState hw hlength fun i hi hwaiting ↦
    Nat.le_of_lt (hline.2.2 _ (howners i hi hwaiting) _ List.mem_cons_self)
  have hfills : Fills s.port (s.fillRecord hw write).descs (s.fill hw write).2.port :=
    s.fillRecord_fills hring.plain write
  have hsame : ∀ i, i ∉ (s.fillRecord hw write).descs →
      (s.fill hw write).2.owner i = s.owner i ∧ ((s.fill hw write).2.port.Free i ↔ s.port.Free i) := by
    intro i hi
    refine ⟨if_neg hi, ?_⟩
    rw [TxPort.Free, TxPort.Free, hfills.other i hi]
  have hown : ∀ i ∈ (s.fillRecord hw write).descs, (s.fill hw write).2.owner i = write.id :=
    fun i hi ↦ if_pos hi
  let s' := s.evtIoWriteStep hw (.checked write)
  have hcurrent : s'.Current write.id := ⟨write, _, rfl, rfl⟩
  have hlast : s'.line = s.line := by
    rw [hwriter]
    rfl
  refine ⟨h.waiting, h.direct, hnext, ?_, ?_, ?_, ?_, ?_, ?_⟩
  · exact hlast ▸ h.line
  · exact hlast ▸ h.line_lt
  · intro i hi hwaiting
    by_cases hmem : i ∈ (s.fillRecord hw write).descs
    · exact Or.inr (show s'.Current ((s.fill hw write).2.owner i) from hown i hmem ▸ hcurrent)
    · obtain ⟨hsameOwner, hsameFree⟩ := hsame i hmem
      refine Or.inl (show (s.fill hw write).2.owner i ∈ _ from hsameOwner ▸ ?_)
      exact howners i (hfills.txNum ▸ hi) fun hfree ↦ hwaiting (hsameFree.mpr hfree)
  · intro fill hmem i hi
    rcases List.mem_append.mp hmem with hold | hnew
    · refine (h.placed fill hold i hi).imp_right ?_
      rintro ⟨hlt, hwaiting, howner⟩
      have hout : i ∉ (s.fillRecord hw write).descs := fun hin ↦ hwaiting (hfills.free i hin)
      obtain ⟨hsameOwner, hsameFree⟩ := hsame i hout
      exact ⟨hfills.txNum.symm ▸ hlt, fun hfree ↦ hwaiting (hsameFree.mp hfree),
        hsameOwner.trans howner⟩
    · rw [List.mem_singleton] at hnew
      subst hnew
      exact Or.inr ⟨hfills.txNum.symm ▸ hfills.lt i hi, hpending i hi, hown i hi⟩
  · intro parked hmem
    obtain ⟨fill, hfill, heq⟩ := h.parked parked hmem
    exact ⟨fill, List.mem_append_left _ hfill, heq⟩
  · intro filled result hfilled
    cases hfilled
    exact ⟨s.fillRecord hw write, List.mem_append_right _ List.mem_cons_self, rfl⟩

theorem line_eq {pc : WriterPc} (hpc : s.writer = some pc) :
    s.line = s.writeQueue2.map Write.id ++ (pc.write.id :: s.writeQueue.map Write.id) := by
  rw [WriteState.line, hpc]
  rfl

theorem AllsInvariant.forward (h : AllsInvariant s) {result : WriteResult}
    (hpc : s.writer = some (.filled write result)) :
    AllsInvariant (s.evtIoWriteStep hw (.filled write result)) := by
  have hstep : s.evtIoWriteStep hw (.filled write result) =
      { s with writer := none, writeQueue2 := s.writeQueue2 ++ [write] } := by
    rw [WriteState.evtIoWriteStep]
    exact if_pos h.waiting
  have hline : (s.evtIoWriteStep hw (.filled write result)).line = s.line := by
    rw [hstep, line_eq hpc, WriteState.line, List.map_append, List.append_assoc]
    rfl
  have hlast := h.line
  have hlt := h.line_lt
  rw [← hline] at hlast hlt
  rw [hstep] at hlast hlt ⊢
  refine ⟨h.waiting, h.direct, h.ring, hlast, hlt, ?_, h.placed, ?_, fun _ _ hnone ↦ by cases hnone⟩
  · intro i hi hpending
    refine Or.inl ?_
    rw [List.map_append, List.mem_append]
    rcases h.owners i hi hpending with hparked | ⟨write', result', hfilled, hid⟩
    · exact Or.inl hparked
    · cases hpc.symm.trans hfilled
      exact Or.inr (List.mem_singleton.mpr hid.symm)
  · exact Threads.forall_append_one h.parked (h.filled write result hpc)

variable (hw) in
theorem AllsInvariant.evtIoWrite (h : AllsInvariant s) {pc : WriterPc} (hpc : s.writer = some pc)
    (hlength : ∀ write, pc = .checked write → write.length < 1073741824) :
    AllsInvariant (s.evtIoWriteStep hw pc) := by
  -- Before the ring is filled, the request goes on or is answered.
  have hon : ∀ {s' : WriteState H} {next : WriterPc}, s'.writer = some next →
      next.write = pc.write → s'.writeQueue2 = s.writeQueue2 → s'.writeQueue = s.writeQueue →
      s'.line.Sublist s.line := by
    intro s' next hnext hwrite hparked hqueue
    rw [line_eq hnext, line_eq hpc, hwrite, hparked, hqueue]
  have hoff : ∀ {s' : WriteState H}, s'.writer = none → s'.writeQueue2 = s.writeQueue2 →
      s'.writeQueue = s.writeQueue → s'.line.Sublist s.line := by
    intro s' hnone hparked hqueue
    rw [line_eq hpc, WriteState.line, hnone, hparked, hqueue]
    exact (List.sublist_cons_self _ _).append_left _
  cases pc with
  | entered write =>
    have hnot : ∀ write' result, s.writer ≠ some (.filled write' result) :=
      fun _ _ hfilled ↦ by cases hpc.symm.trans hfilled
    rcases s.evtIoWriteStep_entered hw write with ⟨status, hstep⟩ | ⟨hblocking, -⟩ | hstep
    · rw [hstep]
      exact h.shorter rfl rfl rfl rfl rfl rfl rfl (hoff rfl rfl rfl) rfl
        fun _ _ ↦ iff_of_false (fun hnone ↦ by cases hnone) (hnot _ _)
    · exact absurd (h.direct.symm.trans hblocking.2.2) Bool.false_ne_true
    · rw [hstep]
      exact h.shorter rfl rfl rfl rfl rfl rfl rfl (hon rfl rfl rfl rfl) rfl
        fun _ _ ↦ iff_of_false (fun hnone ↦ by cases hnone) (hnot _ _)
  | direct write =>
    have hnot : ∀ write' result, s.writer ≠ some (.filled write' result) :=
      fun _ _ hfilled ↦ by cases hpc.symm.trans hfilled
    obtain ⟨card, ⟨status, admitted, hstep⟩ | hstep⟩ := s.evtIoWriteStep_direct hw write
    · rw [hstep]
      exact h.shorter rfl rfl rfl rfl rfl rfl rfl (hoff rfl rfl rfl) rfl
        fun _ _ ↦ iff_of_false (fun hnone ↦ by cases hnone) (hnot _ _)
    · rw [hstep]
      exact h.shorter rfl rfl rfl rfl rfl rfl rfl (hon rfl rfl rfl rfl) rfl
        fun _ _ ↦ iff_of_false (fun hnone ↦ by cases hnone) (hnot _ _)
  | checked write => exact h.fill hpc (hlength write rfl)
  | filled write result => exact h.forward hpc

variable (hw) in
theorem AllsInvariant.drain (h : AllsInvariant s) (tfcnt txcnt : Nat) :
    AllsInvariant (s.drain hw tfcnt txcnt) := by
  obtain ⟨n, hring⟩ := h.ring
  have hpushes := s.drain_pushes hw hring.plain tfcnt txcnt
  refine ⟨h.waiting, h.direct, hring.drain hw tfcnt txcnt, h.line, h.line_lt, ?_, ?_, h.parked,
    h.filled⟩
  · intro i hi hpending
    exact h.owners i (hpushes.txNum ▸ hi) (hpushes.still_pending hpending).2
  · intro fill hmem i hi
    rcases h.placed fill hmem i hi with hpushed | ⟨hlt, hpending, howner⟩
    · exact Or.inl (List.mem_append_left _ hpushed)
    by_cases hfree : (s.drain hw tfcnt txcnt).port.Free i
    · -- What is free now and was not before has been pushed.
      have hmoved : i ∈ pushedDescs hw tfcnt s.port.txNum ⟨s.port, fifoSpace txcnt, 0, 0⟩ s.card := by
        by_contra hout
        rw [TxPort.Free, hpushes.other i hout] at hfree
        exact hpending hfree
      refine Or.inl (List.mem_append_right _ (List.mem_map.mpr ⟨i, hmoved, ?_⟩))
      rw [howner]
    · exact Or.inr ⟨hpushes.txNum.symm ▸ hlt, hfree, howner⟩

/-! ## Runs -/

/-- The steps in FIFO mode with `wait_on_write` on. -/
inductive AllsAction (H : Type) where
  | submit (data : List Byte)
  | present
  | evtIoWrite
  | fifoWriteData (tfcnt txcnt : Nat)
  | send (pieces : Nat)
  | alls
  | setCard (card : H)
  | allsWorker

def AllsAction.action : AllsAction H → WriteAction H
  | .submit data => .submit data
  | .present => .present
  | .evtIoWrite => .evtIoWrite
  | .fifoWriteData tfcnt txcnt => .fifoWriteData tfcnt txcnt
  | .send pieces => .send pieces
  | .alls => .alls
  | .setCard card => .setCard card
  | .allsWorker => .allsWorker

def allsStep (hw : Hardware H) (s : WriteState H) (action : AllsAction H) : WriteState H :=
  writeStep hw s action.action

def allsStart (port : TxPort) (txSize : Nat) (card : H) : WriteState H :=
  { writeStart port txSize card with waitOnWrite := true }

/-- When `alls_worker` runs, the descriptor at `fifo_tx_desc` is free or belongs to the request that
has not been forwarded yet; and no length reaches the bits of the control word. -/
def AllsAllowed (s : WriteState H) : AllsAction H → Prop
  | .evtIoWrite => ∀ write, s.writer = some (.checked write) → write.length < 1073741824
  | .allsWorker => s.alls.isSome → s.port.Free s.port.fifoTxDesc ∨ s.Current (s.owner s.port.fifoTxDesc)
  | _ => True

-- Then nothing of a parked request is left in the ring.
theorem AllsInvariant.none_waiting (h : AllsInvariant s)
    (hfirst : s.port.Free s.port.fifoTxDesc ∨ s.Current (s.owner s.port.fifoTxDesc)) {i : Nat}
    (hi : i < s.port.txNum) (hpending : ¬ s.port.Free i) :
    s.owner i ∉ s.writeQueue2.map Write.id := by
  obtain ⟨n, hring⟩ := h.ring
  obtain ⟨hhead, hle⟩ := hring.first hi hpending
  obtain ⟨write, result, hpc, hid⟩ := hfirst.resolve_left hhead
  have hline := h.line
  rw [line_eq hpc, List.pairwise_append] at hline
  intro hmem
  have hlt : s.owner i < write.id := hline.2.2 _ hmem _ List.mem_cons_self
  rw [hid] at hlt
  exact absurd hle (Nat.not_le_of_lt hlt)

theorem AllsInvariant.allsWorker (h : AllsInvariant s)
    (hallowed : AllsAllowed s (.allsWorker : AllsAction H)) : AllsInvariant s.allsWorker := by
  rcases s.allsWorker_cases with ⟨-, hstep⟩ | ⟨ids, halls, ⟨-, hstep⟩ | ⟨hoff, -⟩⟩
  · rw [hstep]
    exact h
  · rw [hstep]
    have hfirst := hallowed (halls ▸ rfl)
    have hline : (List.Sublist (([] : List Nat) ++ _) s.line) := List.sublist_append_right _ _
    refine ⟨h.waiting, h.direct, h.ring, h.line.sublist hline, fun id hid ↦ h.line_lt id
      (hline.subset hid), ?_, h.placed, fun _ hmem ↦ absurd hmem List.not_mem_nil, h.filled⟩
    intro i hi hpending
    exact Or.inr ((h.owners i hi hpending).resolve_left (h.none_waiting hfirst hi hpending))
  · exact absurd (hoff.symm.trans h.waiting) Bool.false_ne_true

variable (hw) in
theorem AllsInvariant.step {action : AllsAction H} (hallowed : AllsAllowed s action)
    (h : AllsInvariant s) : AllsInvariant (allsStep hw s action) := by
  have hsame : ∀ write result,
      s.writer = some (.filled write result) ↔ s.writer = some (.filled write result) :=
    fun _ _ ↦ Iff.rfl
  have hrefl : s.line.Sublist s.line := List.Sublist.refl _
  cases action with
  | submit data =>
    show AllsInvariant (s.submit data)
    rcases s.submit_cases data with ⟨mark, -, hstep⟩ | ⟨-, hstep⟩
    · rw [hstep]
      exact h.same rfl rfl rfl rfl rfl rfl rfl h.line
        (fun id hid ↦ Nat.lt_succ_of_lt (h.line_lt id hid)) hsame
    · rw [hstep]
      have hline : WriteState.line { s with
          nextId := s.nextId + 1, writeQueue := s.writeQueue ++ [⟨s.nextId, data⟩] } =
          s.line ++ [s.nextId] := by
        simp only [WriteState.line, List.map_append, List.map_singleton, List.append_assoc]
      refine h.same rfl rfl rfl rfl rfl rfl rfl ?_ ?_ hsame
      · rw [hline, List.pairwise_append]
        refine ⟨h.line, List.pairwise_singleton _ _, fun id hid next hnext ↦ ?_⟩
        rw [List.mem_singleton.mp hnext]
        exact h.line_lt id hid
      · rw [hline]
        exact Threads.forall_append_one (fun id hid ↦ Nat.lt_succ_of_lt (h.line_lt id hid))
          (Nat.lt_succ_self _)
  | present =>
    show AllsInvariant s.present
    rcases s.present_cases with hstep | ⟨write, writes, hwriter, hqueue, hstep⟩
    · rw [hstep]
      exact h
    · rw [hstep]
      have hline : WriteState.line { s with
          writer := some (.entered write), writeQueue := writes } = s.line := by
        rw [WriteState.line, WriteState.line, hwriter, hqueue]
        rfl
      refine h.shorter rfl rfl rfl rfl rfl rfl rfl (hline ▸ hrefl) rfl fun _ _ ↦ ?_
      exact iff_of_false (fun hfilled ↦ by cases hfilled) fun hfilled ↦ by
        cases hwriter.symm.trans hfilled
  | evtIoWrite =>
    rw [allsStep, AllsAction.action, writeStep]
    cases hpc : s.writer with
    | none => exact h
    | some pc => exact h.evtIoWrite hw hpc fun write hchecked ↦ hallowed write (hchecked ▸ hpc)
  | fifoWriteData tfcnt txcnt => exact h.drain hw tfcnt txcnt
  | send pieces => exact h.shorter rfl rfl rfl rfl rfl rfl rfl hrefl rfl hsame
  | alls => exact h.shorter rfl rfl rfl rfl rfl rfl rfl hrefl rfl hsame
  | setCard card => exact h.shorter rfl rfl rfl rfl rfl rfl rfl hrefl rfl hsame
  | allsWorker => exact h.allsWorker hallowed

theorem allsStart_invariant (hslots : 0 < port.txNum)
    (hbuffer : ∀ i < port.txNum,
      (port.txDescriptors i).buffer.length = (port.txDescriptors i).dataSize)
    (txSize : Nat) (card : H) : AllsInvariant (allsStart port txSize card) := by
  have hfree : ∀ i < port.txNum, (resetTx port).Free i := fun i hi ↦ resetTx_free hi
  refine ⟨rfl, rfl, ⟨0, resetTx_inOrder hslots hbuffer⟩, List.Pairwise.nil,
    fun _ hmem ↦ absurd hmem List.not_mem_nil, fun i hi hpending ↦ absurd (hfree i hi) hpending,
    fun _ hmem ↦ absurd hmem List.not_mem_nil, fun _ hmem ↦ absurd hmem List.not_mem_nil,
    fun _ _ hnone ↦ by cases hnone⟩

/-- In every run in which nothing of a forwarded request is at the front of the ring whenever
`alls_worker` runs, each request it completes has been given to `fscc_user_write_frame`, and every
descriptor filled for it has been pushed. -/
theorem alls_worker_completes_pushed (hw : Hardware H) (txSize : Nat) (card : H)
    (hslots : 0 < port.txNum) (hbuffer : ∀ i < port.txNum,
      (port.txDescriptors i).buffer.length = (port.txDescriptors i).dataSize)
    (actions : List (AllsAction H))
    (hallowed : Runs.Along AllsAllowed (allsStep hw) (allsStart port txSize card)
      (actions ++ [.allsWorker])) :
    let s := actions.foldl (allsStep hw) (allsStart port txSize card)
    ∃ completed, (allsStep hw s .allsWorker).answers = s.answers ++ completed ∧
      ∀ answer ∈ completed, (∃ fill ∈ s.fills, fill.write.id = answer.id) ∧
        ∀ fill ∈ s.fills, fill.write.id = answer.id →
          ∀ i ∈ fill.descs, (fill.write.id, i) ∈ s.pushed := by
  intro s
  obtain ⟨hbefore, hworker, -⟩ := Runs.along_append.mp hallowed
  have h : AllsInvariant s := hbefore.invariant (fun _ _ hallowed h ↦ h.step hw hallowed)
    (allsStart_invariant hslots hbuffer txSize card)
  show ∃ completed, s.allsWorker.answers = s.answers ++ completed ∧ _
  rcases s.allsWorker_cases with ⟨-, hstep⟩ | ⟨ids, halls, ⟨-, hstep⟩ | ⟨-, hstep⟩⟩
  · rw [hstep]
    exact ⟨[], (List.append_nil _).symm, fun _ hmem ↦ absurd hmem List.not_mem_nil⟩
  · rw [hstep]
    refine ⟨_, rfl, fun answer hmem ↦ ?_⟩
    obtain ⟨write, hparked, rfl⟩ := List.mem_map.mp hmem
    obtain ⟨record, hrecord, rfl⟩ := h.parked write hparked
    refine ⟨⟨record, hrecord, rfl⟩, fun fill hfill hid i hi ↦ ?_⟩
    refine (h.placed fill hfill i hi).resolve_right fun ⟨hlt, hpending, howner⟩ ↦ ?_
    refine h.none_waiting (hworker (halls ▸ rfl)) hlt hpending ?_
    rw [howner]
    exact List.mem_map.mpr ⟨record.write, hparked, hid.symm⟩
  · rw [hstep]
    exact ⟨[], (List.append_nil _).symm, fun _ hmem ↦ absurd hmem List.not_mem_nil⟩

-- A write that is pushed and sent before ALLS is raised.
theorem alls_worker_completes_pushed_one :
    let s := [AllsAction.submit [1, 2, 3], .present, .evtIoWrite, .evtIoWrite, .evtIoWrite, .evtIoWrite,
      .fifoWriteData 0 0, .send 1, .alls].foldl (allsStep quietCard) (allsStart twoBufferPort 4 ())
    ∃ completed, (allsStep quietCard s .allsWorker).answers = s.answers ++ completed ∧
      ∀ answer ∈ completed, (∃ fill ∈ s.fills, fill.write.id = answer.id) ∧
        ∀ fill ∈ s.fills, fill.write.id = answer.id →
          ∀ i ∈ fill.descs, (fill.write.id, i) ∈ s.pushed :=
  alls_worker_completes_pushed quietCard 4 () (by decide) (fun _ _ ↦ rfl)
    [.submit [1, 2, 3], .present, .evtIoWrite, .evtIoWrite, .evtIoWrite, .evtIoWrite,
      .fifoWriteData 0 0, .send 1, .alls] (by
      refine ⟨trivial, trivial, ?_, ?_, ?_, ?_, trivial, trivial, trivial, fun _ ↦ Or.inl (by decide),
        trivial⟩
      case refine_3 =>
        intro write hchecked
        cases hchecked
        decide
      all_goals
        intro write hchecked
        cases hchecked)

-- The first write is sent and ALLS raised; before `alls_worker` runs, a second write is filled and
-- forwarded, and is completed although nothing of it has been pushed.
theorem alls_worker_completes_unpushed :
    let s := [AllsAction.submit [1, 2, 3], .present, .evtIoWrite, .evtIoWrite, .evtIoWrite, .evtIoWrite,
      .fifoWriteData 0 0, .send 1, .alls, .submit [4], .present, .evtIoWrite, .evtIoWrite, .evtIoWrite,
      .evtIoWrite].foldl (allsStep quietCard) (allsStart twoBufferPort 4 ())
    let s' := allsStep quietCard s .allsWorker
    (∃ answer ∈ s'.answers, answer.id = 1 ∧ answer.status = .success) ∧
      (∀ answer ∈ s.answers, answer.id ≠ 1) ∧
        ∃ fill ∈ s.fills, fill.write.id = 1 ∧ ¬ ∀ i ∈ fill.descs, (fill.write.id, i) ∈ s'.pushed := by
  decide

/-! ## Requests that stay behind -/

/-- `alls_worker` finds `wait_on_write` on, or nothing in `write_queue2` had been transmitted when its
ALLS interrupt was raised. -/
def ReleaseAllowed (s : WriteState H) : WriteAction H → Prop
  | .allsWorker =>
      s.waitOnWrite = true ∨ ∀ ids, s.alls = some ids → ∀ write ∈ s.writeQueue2, write.id ∉ ids
  | _ => True

/-- Behind `alls_worker` no request waits that had been transmitted when ALLS was raised. -/
def NoneStranded (hw : Hardware H) (s : WriteState H) : WriteAction H → Prop
  | .allsWorker => ∀ ids, s.alls = some ids →
      ∀ write ∈ (writeStep hw s .allsWorker).writeQueue2, write.id ∉ ids
  | _ => True

variable (hw) in
theorem releaseAllowed_iff (s : WriteState H) (action : WriteAction H) :
    ReleaseAllowed s action ↔ NoneStranded hw s action := by
  cases action
  case allsWorker =>
    show _ ↔ ∀ ids, s.alls = some ids → ∀ write ∈ s.allsWorker.writeQueue2, write.id ∉ ids
    rcases s.allsWorker_cases with ⟨hnone, -⟩ | ⟨ids, -, ⟨hon, hstep⟩ | ⟨hoff, hstep⟩⟩
    · refine iff_of_true (Or.inr fun ids halls ↦ ?_) fun ids halls ↦ ?_
      · cases hnone.symm.trans halls
      · cases hnone.symm.trans halls
    · refine iff_of_true (Or.inl hon) ?_
      rw [hstep]
      exact fun _ _ _ hmem ↦ absurd hmem List.not_mem_nil
    · rw [hstep]
      have hnot : s.waitOnWrite ≠ true := hoff ▸ Bool.false_ne_true
      exact ⟨fun h ↦ h.resolve_left hnot, Or.inr⟩
  all_goals exact Iff.rfl

/-- A run that remembers which requests had been transmitted at an ALLS interrupt whose `alls_worker`
has run. -/
structure ServedState (H : Type) where
  state : WriteState H
  served : List Nat

def servedStep (hw : Hardware H) (t : ServedState H) (action : WriteAction H) : ServedState H where
  state := writeStep hw t.state action
  served :=
    match action with
    | .allsWorker => t.served ++ t.state.alls.getD []
    | _ => t.served

def ServedState.NoneWaits (t : ServedState H) : Prop :=
  ∀ write ∈ t.state.writeQueue2, write.id ∉ t.served

/-- Moreover, `FsccEvtIoWrite` forwards no request behind the `alls_worker` that was to complete it. -/
def ForwardAllowed (t : ServedState H) : WriteAction H → Prop
  | .allsWorker => ReleaseAllowed t.state (.allsWorker : WriteAction H)
  | .evtIoWrite => ∀ write result, t.state.writer = some (.filled write result) →
      t.state.waitOnWrite = true → write.id ∉ t.served
  | _ => True

variable {t : ServedState H}

-- Only `alls_worker` and the forward can leave a served request in `write_queue2`.
theorem ServedState.noneWaits_step (h : t.NoneWaits) (action : WriteAction H) :
    (servedStep hw t action).NoneWaits ↔ ForwardAllowed t action := by
  have hsame : ∀ {t' : ServedState H}, t'.state.writeQueue2 = t.state.writeQueue2 →
      t'.served = t.served → t'.NoneWaits := by
    intro t' hqueue hserved
    rw [NoneWaits, hqueue, hserved]
    exact h
  cases action with
  | submit data =>
    refine iff_of_true (hsame ?_ rfl) trivial
    show (t.state.submit data).writeQueue2 = _
    rcases t.state.submit_cases data with ⟨mark, -, hstep⟩ | ⟨-, hstep⟩
    · rw [hstep]
      rfl
    · rw [hstep]
  | present =>
    refine iff_of_true (hsame ?_ rfl) trivial
    show t.state.present.writeQueue2 = _
    rcases t.state.present_cases with hstep | ⟨write, writes, -, -, hstep⟩
    all_goals rw [hstep]
  | evtIoWrite =>
    show (∀ write ∈ (writeStep hw t.state .evtIoWrite).writeQueue2, write.id ∉ t.served) ↔
      ∀ write result, t.state.writer = some (.filled write result) →
        t.state.waitOnWrite = true → write.id ∉ t.served
    rw [writeStep]
    cases hpc : t.state.writer with
    | none => exact iff_of_true h fun _ _ hnone ↦ by cases hnone
    | some pc =>
      dsimp only
      rcases t.state.evtIoWriteStep_parked hw pc with ⟨hqueue, hoff⟩ | ⟨write, result, rfl, hon, hqueue⟩
      · rw [hqueue]
        refine iff_of_true h fun write result hfilled hon ↦ ?_
        rw [hoff write result (Option.some.inj hfilled)] at hon
        cases hon
      · rw [hqueue]
        refine ⟨fun hall write' result' hfilled _ ↦ ?_, fun hnew ↦ ?_⟩
        · cases hfilled
          exact hall _ (List.mem_append_right _ List.mem_cons_self)
        · exact Threads.forall_append_one h (hnew write result rfl hon)
  | requestWorker i =>
    refine iff_of_true (hsame ?_ rfl) trivial
    show (writeStep hw t.state (.requestWorker i)).writeQueue2 = _
    rw [writeStep]
    cases hpc : t.state.workers[i]? with
    | none => rfl
    | some pc => exact (t.state.requestWorkerStep_keeps hw pc).parked
  | purgeReset card =>
    refine iff_of_true (hsame ?_ rfl) trivial
    show (t.state.purgeReset card).writeQueue2 = _
    rcases t.state.purgeReset_cases card with hstep | ⟨-, hstep⟩
    all_goals rw [hstep]
  | purgeStop =>
    refine iff_of_true (hsame ?_ rfl) trivial
    show t.state.purgeStop.writeQueue2 = _
    rcases t.state.purgeStop_cases with hstep | ⟨mark, -, hstep⟩
    all_goals rw [hstep]
  | purgeReturn =>
    refine iff_of_true ?_ trivial
    show ∀ write ∈ t.state.purgeReturn.writeQueue2, write.id ∉ t.served
    rcases t.state.purgeReturn_cases with hstep | ⟨mark, -, -, hstep⟩
    · rw [hstep]
      exact h
    · rw [hstep]
      exact fun _ hmem ↦ absurd hmem List.not_mem_nil
  | allsWorker =>
    show (∀ write ∈ t.state.allsWorker.writeQueue2, write.id ∉ t.served ++ t.state.alls.getD []) ↔
      ReleaseAllowed t.state (.allsWorker : WriteAction H)
    rw [releaseAllowed_iff hw]
    show _ ↔ ∀ ids, t.state.alls = some ids → ∀ write ∈ t.state.allsWorker.writeQueue2, write.id ∉ ids
    have hkept : ∀ write ∈ t.state.allsWorker.writeQueue2, write.id ∉ t.served := by
      rcases t.state.allsWorker_cases with ⟨-, hstep⟩ | ⟨ids, -, ⟨-, hstep⟩ | ⟨-, hstep⟩⟩
      · rw [hstep]
        exact h
      · rw [hstep]
        exact fun _ hmem ↦ absurd hmem List.not_mem_nil
      · rw [hstep]
        exact h
    simp only [List.mem_append, not_or]
    cases t.state.alls with
    | none =>
      exact iff_of_true (fun write hmem ↦ ⟨hkept write hmem, List.not_mem_nil⟩)
        fun ids hnone ↦ by cases hnone
    | some ids =>
      constructor
      · rintro hall _ ⟨⟩ write hmem
        exact (hall write hmem).2
      · exact fun hall write hmem ↦ ⟨hkept write hmem, hall ids rfl write hmem⟩
  | enqueueRequestDpc => exact iff_of_true (hsame rfl rfl) trivial
  | fifoWriteData tfcnt txcnt => exact iff_of_true (hsame rfl rfl) trivial
  | setBlockingWrite value => exact iff_of_true (hsame rfl rfl) trivial
  | setWaitOnWrite value => exact iff_of_true (hsame rfl rfl) trivial
  | send pieces => exact iff_of_true (hsame rfl rfl) trivial
  | alls => exact iff_of_true (hsame rfl rfl) trivial
  | setCard card => exact iff_of_true (hsame rfl rfl) trivial

/-- No transmitted request is left in `write_queue2` by any `alls_worker` of a run if and only if each
of them finds `wait_on_write` on or finds none there, whatever the writes, ioctls, workers and purges
in between.  None is there in any later state either if and only if, besides, none is forwarded
behind its `alls_worker`. -/
theorem alls_worker_strands_none (hw : Hardware H) (port : TxPort) (txSize : Nat) (card : H)
    (actions : List (WriteAction H)) :
    let s := writeStart port txSize card
    (Runs.Along ReleaseAllowed (writeStep hw) s actions ↔
        Runs.Along (NoneStranded hw) (writeStep hw) s actions) ∧
      (Runs.Along ForwardAllowed (servedStep hw) ⟨s, []⟩ actions ↔
        ∀ n, ((actions.take n).foldl (servedStep hw) ⟨s, []⟩).NoneWaits) := by
  intro s
  refine ⟨Runs.along_congr (releaseAllowed_iff hw), ?_⟩
  exact Runs.along_iff_always (fun _ h ↦ h)
    (fun t action h hallowed ↦ (ServedState.noneWaits_step h action).mpr hallowed)
    (fun t action h hnext ↦ (ServedState.noneWaits_step h action).mp hnext)
    fun _ hmem ↦ absurd hmem List.not_mem_nil

-- The write was parked while `wait_on_write` was on, and it is off when `alls_worker` looks.
theorem alls_worker_strands_one :
    let s := [WriteAction.setWaitOnWrite true, .submit [1, 2, 3], .present, .evtIoWrite, .evtIoWrite,
      .evtIoWrite, .evtIoWrite, .fifoWriteData 0 0, .send 1, .alls, .setWaitOnWrite false].foldl
        (writeStep quietCard) (writeStart twoBufferPort 4 ())
    s.alls = some [0] ∧
      (writeStep quietCard s .allsWorker).writeQueue2.map Write.id = [0] := by
  decide

end FsccDriver

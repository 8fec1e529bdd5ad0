import FsccDriver.WriteSpace

/-!
# TransmitPurge — what is left of the writes before a purge

`fscc_io_purge_tx` resets the ring and cancels what waits in `write_queue` and `write_queue2`.  Nothing
touches `blocking_request_queue`, and `FsccEvtIoWrite` may be in the middle of a request until
`write_queue` has been stopped.
-/

namespace FsccDriver

open Words

-- What an activation has taken out of the queue.
def WorkerPc.held : WorkerPc → Option Write
  | .retrieved write | .filled write _ => some write
  | .entered | .found _ | .checked _ | .done => none

variable {H : Type} {hw : Hardware H} {s : WriteState H} {m : Nat} {write : Write}

/-! ## What is not older than `m` -/

/-- No request below `m` waits for a `request_worker` or is in the ring. -/
structure Late (m : Nat) (s : WriteState H) : Prop where
  blocking : ∀ write ∈ s.blockingRequestQueue, m ≤ write.id
  workers : ∀ pc ∈ s.workers, ∀ write, pc.held = some write → m ≤ write.id
  owner : ∀ i < s.port.txNum, ¬ s.port.Free i → m ≤ s.owner i

theorem Late.same (h : Late m s) {s' : WriteState H}
    (hqueue : s'.blockingRequestQueue = s.blockingRequestQueue) (hworkers : s'.workers = s.workers)
    (hport : s'.port = s.port) (howner : s'.owner = s.owner) : Late m s' := by
  refine ⟨hqueue ▸ h.blocking, hworkers ▸ h.workers, ?_⟩
  rw [hport, howner]
  exact h.owner

variable (hw) in
theorem Late.fill (h : Late m s) (hplain : TxPlain s.port) (hle : m ≤ write.id) :
    Late m (s.fill hw write).2 := by
  have hfills : Fills s.port (s.fillRecord hw write).descs (s.fill hw write).2.port :=
    s.fillRecord_fills hplain write
  refine ⟨h.blocking, h.workers, fun i hi hpending ↦ ?_⟩
  show m ≤ if i ∈ (s.fillRecord hw write).descs then write.id else s.owner i
  by_cases hmem : i ∈ (s.fillRecord hw write).descs
  · rw [if_pos hmem]
    exact hle
  · rw [if_neg hmem]
    rw [TxPort.Free, hfills.other i hmem] at hpending
    exact h.owner i (hfills.txNum ▸ hi) hpending

theorem Late.evtIoWrite (h : Late m s) (hplain : TxPlain s.port) {pc : WriterPc}
    (hforward : ∀ write, pc = .entered write → s.ForwardsToBlocking write → m ≤ write.id)
    (hfill : ∀ write, pc = .checked write → m ≤ write.id) : Late m (s.evtIoWriteStep hw pc) := by
  cases pc with
  | entered write =>
    rcases s.evtIoWriteStep_entered hw write with ⟨status, hstep⟩ | ⟨hblocking, hstep⟩ | hstep
    · rw [hstep]
      exact h.same rfl rfl rfl rfl
    · rw [hstep]
      exact ⟨Threads.forall_append_one h.blocking (hforward write rfl hblocking), h.workers, h.owner⟩
    · rw [hstep]
      exact h.same rfl rfl rfl rfl
  | direct write =>
    obtain ⟨card, ⟨status, admitted, hstep⟩ | hstep⟩ := s.evtIoWriteStep_direct hw write
    · rw [hstep]
      exact h.same rfl rfl rfl rfl
    · rw [hstep]
      exact h.same rfl rfl rfl rfl
  | checked write => exact (h.fill hw hplain (hfill write rfl)).same rfl rfl rfl rfl
  | filled write result =>
    rw [WriteState.evtIoWriteStep]
    dsimp only
    split
    · exact h.same rfl rfl rfl rfl
    · exact h.same rfl rfl rfl rfl

variable (hw) in
theorem Late.requestWorker (h : Late m s) (hplain : TxPlain s.port) {pc : WorkerPc}
    (hheld : ∀ write, pc.held = some write → m ≤ write.id) :
    Late m (s.requestWorkerStep hw pc).2 ∧
      (∀ write, (s.requestWorkerStep hw pc).1.held = some write → m ≤ write.id) ∧
      (s.requestWorkerStep hw pc).2.workers = s.workers := by
  cases pc with
  | entered =>
    rw [WriteState.requestWorkerStep]
    split
    · exact ⟨h, fun _ hnone ↦ (by cases hnone), rfl⟩
    · exact ⟨h, fun _ hnone ↦ (by cases hnone), rfl⟩
  | found write =>
    rw [WriteState.requestWorkerStep]
    split
    · exact ⟨h, fun _ hnone ↦ (by cases hnone), rfl⟩
    · exact ⟨h, fun _ hnone ↦ (by cases hnone), rfl⟩
  | checked write =>
    rw [WriteState.requestWorkerStep]
    split
    next hmem =>
      refine ⟨⟨fun w hw ↦ h.blocking w (List.mem_of_mem_erase hw), h.workers, h.owner⟩,
        fun w hheld ↦ ?_, rfl⟩
      rw [← Option.some.inj hheld]
      exact h.blocking write hmem
    · exact ⟨h, fun _ hnone ↦ (by cases hnone), rfl⟩
  | retrieved write => exact ⟨h.fill hw hplain (hheld write rfl), hheld, rfl⟩
  | filled write result => exact ⟨h.same rfl rfl rfl rfl, fun _ hnone ↦ (by cases hnone), rfl⟩
  | done => exact ⟨h, fun _ hnone ↦ (by cases hnone), rfl⟩

variable (hw) in
theorem Late.drain (h : Late m s) (hplain : TxPlain s.port) (tfcnt txcnt : Nat) :
    Late m (s.drain hw tfcnt txcnt) := by
  have hpushes := s.drain_pushes hw hplain tfcnt txcnt
  refine ⟨h.blocking, h.workers, fun i hi hpending ↦ ?_⟩
  exact h.owner i (hpushes.txNum ▸ hi) (hpushes.still_pending hpending).2

/-- A request that has not been answered. -/
def WriteState.Alive (s : WriteState H) (write : Write) : Prop :=
  write ∈ s.writeQueue ∨ write ∈ s.blockingRequestQueue ∨ write ∈ s.writeQueue2 ∨
    (∃ pc, s.writer = some pc ∧ pc.write = write) ∨ ∃ pc ∈ s.workers, pc.held = some write

def WriteState.Answered (s : WriteState H) (id : Nat) : Prop := ∃ answer ∈ s.answers, answer.id = id

theorem WriteState.Answered.mono {id : Nat} (h : s.Answered id) {s' : WriteState H}
    (hanswers : s.answers <+: s'.answers) : s'.Answered id := by
  obtain ⟨answer, hmem, hid⟩ := h
  exact ⟨answer, hanswers.subset hmem, hid⟩

theorem answered_answer (s : WriteState H) (write : Write) (status : NtStatus) (information : Nat)
    (admitted : Bool) : (s.answer write status information admitted).Answered write.id :=
  ⟨_, List.mem_append_right _ List.mem_cons_self, rfl⟩

variable (hw) in
theorem alive_evtIoWrite {pc : WriterPc} (hpc : s.writer = some pc) (halive : s.Alive write) :
    (s.evtIoWriteStep hw pc).Answered write.id ∨ (s.evtIoWriteStep hw pc).Alive write := by
  have hkeeps := s.evtIoWriteStep_keeps hw pc
  rcases halive with hqueue | hblocking | hparked | ⟨pc', hpc', rfl⟩ | hheld
  · exact Or.inr (Or.inl (hkeeps.writeQueue ▸ hqueue))
  · exact Or.inr (Or.inr (Or.inl (hkeeps.blocking.subset hblocking)))
  · exact Or.inr (Or.inr (Or.inr (Or.inl (hkeeps.parked.subset hparked))))
  · obtain rfl : pc = pc' := Option.some.inj (hpc.symm.trans hpc')
    cases pc with
    | entered write =>
      rcases s.evtIoWriteStep_entered hw write with ⟨status, hstep⟩ | ⟨-, hstep⟩ | hstep
      · rw [hstep]
        exact Or.inl (answered_answer _ _ _ _ _)
      · rw [hstep]
        exact Or.inr (Or.inr (Or.inl (List.mem_append_right _ List.mem_cons_self)))
      · rw [hstep]
        exact Or.inr (Or.inr (Or.inr (Or.inr (Or.inl ⟨_, rfl, rfl⟩))))
    | direct write =>
      obtain ⟨card, ⟨status, admitted, hstep⟩ | hstep⟩ := s.evtIoWriteStep_direct hw write
      · rw [hstep]
        exact Or.inl (answered_answer _ _ _ _ _)
      · rw [hstep]
        exact Or.inr (Or.inr (Or.inr (Or.inr (Or.inl ⟨_, rfl, rfl⟩))))
    | checked write => exact Or.inr (Or.inr (Or.inr (Or.inr (Or.inl ⟨_, rfl, rfl⟩))))
    | filled write result =>
      rw [WriteState.evtIoWriteStep]
      dsimp only
      split
      · exact Or.inr (Or.inr (Or.inr (Or.inl (List.mem_append_right _ List.mem_cons_self))))
      · exact Or.inl (answered_answer _ _ _ _ _)
  · exact Or.inr (Or.inr (Or.inr (Or.inr (Or.inr (hkeeps.workers ▸ hheld)))))

variable (hw) in
theorem requestWorkerStep_blocking {pc : WorkerPc} (hpc : pc ≠ .checked write)
    (hmem : write ∈ s.blockingRequestQueue) :
    write ∈ (s.requestWorkerStep hw pc).2.blockingRequestQueue := by
  cases pc with
  | entered =>
    rw [WriteState.requestWorkerStep]
    split
    · exact hmem
    · exact hmem
  | found held =>
    rw [WriteState.requestWorkerStep]
    split
    · exact hmem
    · exact hmem
  | checked held =>
    have hne : write ≠ held := fun heq ↦ hpc (heq ▸ rfl)
    rw [WriteState.requestWorkerStep]
    split
    · exact (List.mem_erase_of_ne hne).mpr hmem
    · exact hmem
  | retrieved held => exact hmem
  | filled held result => exact hmem
  | done => exact hmem

variable (hw) in
-- A moving `request_worker` keeps what it holds until it has answered it.
theorem alive_requestWorker {i : Nat} {pc : WorkerPc} (hpc : s.workers[i]? = some pc)
    (halive : s.Alive write) :
    let next := s.requestWorkerStep hw pc
    let s' := { next.2 with workers := next.2.workers.set i next.1 }
    s'.Answered write.id ∨ s'.Alive write := by
  intro next s'
  have hkeeps := s.requestWorkerStep_keeps hw pc
  have hsame : next.2.workers = s.workers := hkeeps.workers
  have hmoved : next.1 ∈ next.2.workers.set i next.1 := hsame ▸ Threads.mem_set_self hpc _
  rcases halive with hqueue | hblocking | hparked | hwriter | ⟨pc', hmem, hheld⟩
  · exact Or.inr (Or.inl (hkeeps.writeQueue ▸ hqueue))
  · by_cases htaken : pc = .checked write
    · subst htaken
      have hnext : next = (.retrieved write,
          { s with blockingRequestQueue := s.blockingRequestQueue.erase write }) := if_pos hblocking
      refine Or.inr (Or.inr (Or.inr (Or.inr (Or.inr ⟨_, hmoved, ?_⟩))))
      rw [hnext]
      rfl
    · exact Or.inr (Or.inr (Or.inl (requestWorkerStep_blocking hw htaken hblocking)))
  · exact Or.inr (Or.inr (Or.inr (Or.inl (hkeeps.parked ▸ hparked))))
  · refine Or.inr (Or.inr (Or.inr (Or.inr (Or.inl ?_))))
    show ∃ pc, next.2.writer = some pc ∧ pc.write = write
    rw [hkeeps.writer]
    exact hwriter
  · rcases Threads.mem_set_or hmem i next.1 with hstill | hthis
    · rw [← hsame] at hstill
      exact Or.inr (Or.inr (Or.inr (Or.inr (Or.inr ⟨pc', hstill, hheld⟩))))
    · obtain rfl : pc = pc' := Option.some.inj (hpc.symm.trans hthis)
      cases pc with
      | retrieved held => exact Or.inr (Or.inr (Or.inr (Or.inr (Or.inr ⟨_, hmoved, hheld⟩))))
      | filled held result =>
        obtain rfl : held = write := Option.some.inj hheld
        exact Or.inl (answered_answer _ _ _ _ _)
      | entered => cases hheld
      | found held => cases hheld
      | checked held => cases hheld
      | done => cases hheld

/-- Every request is waiting somewhere or has been answered. -/
def WriteState.Accounted (s : WriteState H) : Prop :=
  ∀ id < s.nextId, s.Answered id ∨ ∃ write, s.Alive write ∧ write.id = id

theorem WriteState.Accounted.of_alive (h : s.Accounted) {s' : WriteState H}
    (hnext : s'.nextId = s.nextId) (hanswers : s.answers <+: s'.answers)
    (halive : ∀ write, s.Alive write → s'.Answered write.id ∨ s'.Alive write) : s'.Accounted := by
  intro id hid
  rcases h id (hnext ▸ hid) with hanswered | ⟨write, hwrite, rfl⟩
  · exact Or.inl (hanswered.mono hanswers)
  · exact (halive write hwrite).imp_right fun hstill ↦ ⟨write, hstill, rfl⟩

theorem WriteState.Accounted.same (h : s.Accounted) {s' : WriteState H}
    (hnext : s'.nextId = s.nextId) (hanswers : s'.answers = s.answers)
    (hqueue : s'.writeQueue = s.writeQueue)
    (hblocking : s'.blockingRequestQueue = s.blockingRequestQueue)
    (hparked : s'.writeQueue2 = s.writeQueue2) (hwriter : s'.writer = s.writer)
    (hworkers : s'.workers = s.workers) : s'.Accounted := by
  refine h.of_alive hnext (hanswers ▸ List.prefix_refl _) fun write halive ↦ Or.inr ?_
  rw [Alive, hqueue, hblocking, hparked, hwriter, hworkers]
  exact halive

-- Requests of a queue that is emptied are answered.
theorem answered_map {answers : List Answer} {queue : List Write} {f : Write → Answer}
    (hid : ∀ write, (f write).id = write.id) (hmem : write ∈ queue) {s' : WriteState H}
    (hanswers : s'.answers = answers ++ queue.map f) : s'.Answered write.id :=
  ⟨f write, hanswers ▸ List.mem_append_right _ (List.mem_map_of_mem hmem), hid write⟩

-- `write_queue2` is emptied and its requests are answered.
theorem WriteState.Accounted.emptied (h : s.Accounted) {s' : WriteState H} {f : Write → Answer}
    (hnext : s'.nextId = s.nextId) (hqueue : s'.writeQueue = s.writeQueue)
    (hblocking : s'.blockingRequestQueue = s.blockingRequestQueue) (hwriter : s'.writer = s.writer)
    (hworkers : s'.workers = s.workers) (hid : ∀ write, (f write).id = write.id)
    (hanswers : s'.answers = s.answers ++ s.writeQueue2.map f) : s'.Accounted := by
  refine h.of_alive hnext (hanswers ▸ List.prefix_append _ _) fun w halive ↦ ?_
  rcases halive with hmem | hwaiting | hparked | hothers
  · exact Or.inr (Or.inl (hqueue ▸ hmem))
  · exact Or.inr (Or.inr (Or.inl (hblocking ▸ hwaiting)))
  · exact Or.inl (answered_map hid hparked hanswers)
  · refine Or.inr (Or.inr (Or.inr (Or.inr ?_)))
    rw [hwriter, hworkers]
    exact hothers

variable (hw) in
theorem WriteState.Accounted.step (h : s.Accounted) (action : WriteAction H) :
    (writeStep hw s action).Accounted := by
  cases action with
  | submit data =>
    rw [writeStep]
    rcases s.submit_cases data with ⟨mark, -, hstep⟩ | ⟨-, hstep⟩
    · rw [hstep]
      intro id hid
      rcases Nat.lt_succ_iff_lt_or_eq.mp hid with hold | rfl
      · exact (h id hold).imp_left fun hanswered ↦ hanswered.mono (List.prefix_append _ _)
      · exact Or.inl (answered_answer _ ⟨s.nextId, data⟩ _ _ _)
    · rw [hstep]
      intro id hid
      rcases Nat.lt_succ_iff_lt_or_eq.mp hid with hold | rfl
      · refine (h id hold).imp_right ?_
        rintro ⟨write, halive, hid⟩
        exact ⟨write, halive.imp_left (List.mem_append_left _), hid⟩
      · exact Or.inr ⟨⟨s.nextId, data⟩, Or.inl (List.mem_append_right _ List.mem_cons_self), rfl⟩
  | present =>
    rw [writeStep]
    rcases s.present_cases with hstep | ⟨write, writes, hwriter, hqueue, hstep⟩
    · rw [hstep]
      exact h
    · rw [hstep]
      refine h.of_alive rfl (List.prefix_refl _) fun w halive ↦ Or.inr ?_
      rcases halive with hmem | hblocking | hparked | ⟨pc, hpc, -⟩ | hheld
      · rw [hqueue] at hmem
        rcases List.mem_cons.mp hmem with rfl | hlater
        · exact Or.inr (Or.inr (Or.inr (Or.inl ⟨_, rfl, rfl⟩)))
        · exact Or.inl hlater
      · exact Or.inr (Or.inl hblocking)
      · exact Or.inr (Or.inr (Or.inl hparked))
      · rw [hwriter] at hpc
        cases hpc
      · exact Or.inr (Or.inr (Or.inr (Or.inr hheld)))
  | evtIoWrite =>
    rw [writeStep]
    cases hpc : s.writer with
    | none => exact h
    | some pc =>
      have hkeeps := s.evtIoWriteStep_keeps hw pc
      exact h.of_alive hkeeps.nextId hkeeps.answers fun _ halive ↦ alive_evtIoWrite hw hpc halive
  | enqueueRequestDpc =>
    refine h.of_alive rfl (List.prefix_refl _) fun w halive ↦ Or.inr ?_
    rcases halive with hmem | hblocking | hparked | hwriter | ⟨pc, hpc, hheld⟩
    · exact Or.inl hmem
    · exact Or.inr (Or.inl hblocking)
    · exact Or.inr (Or.inr (Or.inl hparked))
    · exact Or.inr (Or.inr (Or.inr (Or.inl hwriter)))
    · exact Or.inr (Or.inr (Or.inr (Or.inr ⟨pc, List.mem_append_left _ hpc, hheld⟩)))
  | requestWorker i =>
    rw [writeStep]
    cases hpc : s.workers[i]? with
    | none => exact h
    | some pc =>
      have hkeeps := s.requestWorkerStep_keeps hw pc
      exact h.of_alive hkeeps.nextId hkeeps.answers fun _ halive ↦ alive_requestWorker hw hpc halive
  | fifoWriteData tfcnt txcnt => exact h.same rfl rfl rfl rfl rfl rfl rfl
  | setBlockingWrite value => exact h.same rfl rfl rfl rfl rfl rfl rfl
  | setWaitOnWrite value => exact h.same rfl rfl rfl rfl rfl rfl rfl
  | purgeReset card =>
    rw [writeStep]
    rcases s.purgeReset_cases card with hstep | ⟨-, hstep⟩
    · rw [hstep]
      exact h
    · rw [hstep]
      exact h.same rfl rfl rfl rfl rfl rfl rfl
  | purgeStop =>
    rw [writeStep]
    rcases s.purgeStop_cases with hstep | ⟨mark, -, hstep⟩
    · rw [hstep]
      exact h
    · rw [hstep]
      refine h.of_alive rfl (List.prefix_append _ _) fun w halive ↦ ?_
      rcases halive with hmem | hothers
      · exact Or.inl (answered_map (fun _ ↦ rfl) hmem rfl)
      · exact Or.inr (Or.inr hothers)
  | purgeReturn =>
    rw [writeStep]
    rcases s.purgeReturn_cases with hstep | ⟨mark, -, -, hstep⟩
    · rw [hstep]
      exact h
    · rw [hstep]
      exact h.emptied rfl rfl rfl rfl rfl (fun _ ↦ rfl) rfl
  | send pieces => exact h.same rfl rfl rfl rfl rfl rfl rfl
  | alls => exact h.same rfl rfl rfl rfl rfl rfl rfl
  | setCard card => exact h.same rfl rfl rfl rfl rfl rfl rfl
  | allsWorker =>
    rw [writeStep]
    rcases s.allsWorker_cases with ⟨-, hstep⟩ | ⟨ids, -, ⟨-, hstep⟩ | ⟨-, hstep⟩⟩
    · rw [hstep]
      exact h
    · rw [hstep]
      exact h.emptied rfl rfl rfl rfl rfl (fun _ ↦ rfl) rfl
    · rw [hstep]
      exact h.same rfl rfl rfl rfl rfl rfl rfl

/-! ## Behind a purge -/

/-- Every request below `m` has been answered, and none of its bytes is on the way. -/
structure Discarded (m : Nat) (s : WriteState H) : Prop extends Late m s where
  queue : ∀ write ∈ s.writeQueue, m ≤ write.id
  parked : ∀ write ∈ s.writeQueue2, m ≤ write.id
  writer : ∀ pc, s.writer = some pc → m ≤ pc.write.id
  answered : ∀ id < m, s.Answered id

/-- When the ring is reset, no request waits in `blocking_request_queue` or is in the hands of a
`request_worker`; and until the purge returns, `FsccEvtIoWrite` neither places nor forwards there a
request that had been submitted before. -/
def PurgeAllowed (s : WriteState H) : WriteAction H → Prop
  | .purgeReset _ =>
      s.purge = none → s.blockingRequestQueue = [] ∧ ∀ pc ∈ s.workers, pc.held = none
  | .evtIoWrite => ∀ purge, s.purge = some purge →
      (∀ write, s.writer = some (.entered write) → s.ForwardsToBlocking write →
        purge.mark ≤ write.id) ∧
      ∀ write, s.writer = some (.checked write) → purge.mark ≤ write.id
  | _ => True

structure PurgeInvariant (s : WriteState H) : Prop where
  plain : TxPlain s.port
  accounted : s.Accounted
  discarded : Discarded s.purged s
  purged_le : s.purged ≤ s.nextId
  late : ∀ purge, s.purge = some purge → Late purge.mark s
  marked : ∀ purge, s.purge = some purge → s.purged ≤ purge.mark ∧ purge.mark ≤ s.nextId
  stopped : ∀ mark, s.purge = some ⟨mark, true⟩ → s.writeQueue = []

theorem Discarded.same (h : Discarded m s) {s' : WriteState H} (hlate : Late m s')
    (hqueue : s'.writeQueue = s.writeQueue) (hparked : s'.writeQueue2 ⊆ s.writeQueue2)
    (hwriter : s'.writer = s.writer) (hanswers : s.answers <+: s'.answers) : Discarded m s' := by
  refine ⟨hlate, hqueue ▸ h.queue, fun write hmem ↦ h.parked write (hparked hmem), ?_,
    fun id hid ↦ (h.answered id hid).mono hanswers⟩
  rw [hwriter]
  exact h.writer

-- The request `FsccEvtIoWrite` is at stays the same, and only it can join the waiting ones.
theorem Discarded.evtIoWrite (h : Discarded m s) {pc : WriterPc} (hpc : s.writer = some pc)
    (hlate : Late m (s.evtIoWriteStep hw pc)) : Discarded m (s.evtIoWriteStep hw pc) := by
  have hkeeps := s.evtIoWriteStep_keeps hw pc
  have hid := h.writer pc hpc
  refine ⟨hlate, hkeeps.writeQueue ▸ h.queue, ?_, ?_,
    fun id hid ↦ (h.answered id hid).mono hkeeps.answers⟩
  · cases pc with
    | entered write =>
      rcases s.evtIoWriteStep_entered hw write with ⟨status, hstep⟩ | ⟨-, hstep⟩ | hstep
      all_goals
        rw [hstep]
        exact h.parked
    | direct write =>
      obtain ⟨card, ⟨status, admitted, hstep⟩ | hstep⟩ := s.evtIoWriteStep_direct hw write
      all_goals
        rw [hstep]
        exact h.parked
    | checked write => exact h.parked
    | filled write result =>
      rw [WriteState.evtIoWriteStep]
      dsimp only
      split
      · exact Threads.forall_append_one h.parked hid
      · exact h.parked
  · intro pc' hpc'
    cases pc with
    | entered write =>
      rcases s.evtIoWriteStep_entered hw write with ⟨status, hstep⟩ | ⟨-, hstep⟩ | hstep
      · rw [hstep] at hpc'
        cases hpc'
      · rw [hstep] at hpc'
        cases hpc'
      · rw [hstep] at hpc'
        cases hpc'
        exact hid
    | direct write =>
      obtain ⟨card, ⟨status, admitted, hstep⟩ | hstep⟩ := s.evtIoWriteStep_direct hw write
      · rw [hstep] at hpc'
        cases hpc'
      · rw [hstep] at hpc'
        cases hpc'
        exact hid
    | checked write =>
      cases hpc'
      exact hid
    | filled write result =>
      rw [WriteState.evtIoWriteStep] at hpc'
      dsimp only at hpc'
      split at hpc'
      · cases hpc'
      · cases hpc'

variable (hw) in
theorem PurgeInvariant.evtIoWrite (h : PurgeInvariant s) {pc : WriterPc} (hpc : s.writer = some pc)
    (hallowed : PurgeAllowed s (.evtIoWrite : WriteAction H)) :
    PurgeInvariant (s.evtIoWriteStep hw pc) := by
  have hkeeps := s.evtIoWriteStep_keeps hw pc
  have hid := h.discarded.writer pc hpc
  have hlate : Late s.purged (s.evtIoWriteStep hw pc) := by
    apply h.discarded.toLate.evtIoWrite h.plain
    · rintro write rfl -
      exact hid
    · rintro write rfl
      exact hid
  refine ⟨?_, ?_, ?_, ?_, ?_, ?_, ?_⟩
  · exact s.evtIoWriteStep_plain h.plain pc
  · exact h.accounted.of_alive hkeeps.nextId hkeeps.answers fun _ halive ↦
      alive_evtIoWrite hw hpc halive
  · rw [hkeeps.purged]
    exact h.discarded.evtIoWrite hpc hlate
  · rw [hkeeps.purged, hkeeps.nextId]
    exact h.purged_le
  · intro purge hpurge
    rw [hkeeps.purge] at hpurge
    obtain ⟨hforward, hfill⟩ := hallowed purge hpurge
    apply (h.late purge hpurge).evtIoWrite h.plain
    · rintro write rfl hblocking
      exact hforward write hpc hblocking
    · rintro write rfl
      exact hfill write hpc
  · rw [hkeeps.purge, hkeeps.purged, hkeeps.nextId]
    exact h.marked
  · rw [hkeeps.purge, hkeeps.writeQueue]
    exact h.stopped

variable (hw) in
theorem PurgeInvariant.requestWorker (h : PurgeInvariant s) {i : Nat} {pc : WorkerPc}
    (hpc : s.workers[i]? = some pc) :
    PurgeInvariant (writeStep hw s (.requestWorker i)) := by
  have hkeeps := s.requestWorkerStep_keeps hw pc
  have hmem := List.mem_of_getElem? hpc
  have hstep : writeStep hw s (.requestWorker i) = { (s.requestWorkerStep hw pc).2 with
      workers := (s.requestWorkerStep hw pc).2.workers.set i (s.requestWorkerStep hw pc).1 } := by
    rw [writeStep, hpc]
  have hmoved : ∀ m, Late m s → Late m (writeStep hw s (.requestWorker i)) := by
    intro m hlate
    obtain ⟨hnext, hheld, hsame⟩ := hlate.requestWorker hw h.plain (hlate.workers pc hmem)
    rw [hstep]
    exact ⟨hnext.blocking, Threads.forall_set hnext.workers hheld, hnext.owner⟩
  have haccounted := h.accounted.step hw (.requestWorker i)
  have hlate := hmoved _ h.discarded.toLate
  have hmarks := fun purge hpurge ↦ hmoved _ (h.late purge hpurge)
  rw [hstep] at haccounted hlate hmarks ⊢
  refine ⟨s.requestWorkerStep_plain h.plain pc, haccounted, ?_, ?_, ?_, ?_, ?_⟩
  · show Discarded (s.requestWorkerStep hw pc).2.purged _
    rw [hkeeps.purged]
    exact h.discarded.same hlate hkeeps.writeQueue (fun _ hmem ↦ hkeeps.parked ▸ hmem)
      hkeeps.writer hkeeps.answers
  · show (s.requestWorkerStep hw pc).2.purged ≤ (s.requestWorkerStep hw pc).2.nextId
    rw [hkeeps.purged, hkeeps.nextId]
    exact h.purged_le
  · intro purge hpurge
    exact hmarks purge (hkeeps.purge ▸ hpurge)
  · intro purge hpurge
    show (s.requestWorkerStep hw pc).2.purged ≤ _ ∧ _ ≤ (s.requestWorkerStep hw pc).2.nextId
    rw [hkeeps.purged, hkeeps.nextId]
    exact h.marked purge (hkeeps.purge ▸ hpurge)
  · intro mark hpurge
    exact hkeeps.writeQueue.trans (h.stopped mark (hkeeps.purge ▸ hpurge))

-- A step that gives no request a place it did not have.
theorem PurgeInvariant.same (h : PurgeInvariant s) {s' : WriteState H} (haccounted : s'.Accounted)
    (hplain : TxPlain s'.port) (hlate : ∀ m, Late m s → Late m s')
    (hqueue : s'.writeQueue = s.writeQueue) (hparked : s'.writeQueue2 ⊆ s.writeQueue2)
    (hwriter : s'.writer = s.writer) (hanswers : s.answers <+: s'.answers) (hpurge : s'.purge = s.purge)
    (hpurged : s'.purged = s.purged) (hnext : s'.nextId = s.nextId) : PurgeInvariant s' := by
  refine ⟨hplain, haccounted, ?_, ?_, ?_, ?_, ?_⟩
  · rw [hpurged]
    exact h.discarded.same (hlate _ h.discarded.toLate) hqueue hparked hwriter hanswers
  · rw [hpurged, hnext]
    exact h.purged_le
  · rw [hpurge]
    exact fun purge hmark ↦ hlate _ (h.late purge hmark)
  · rw [hpurge, hpurged, hnext]
    exact h.marked
  · rw [hpurge, hqueue]
    exact h.stopped

theorem PurgeInvariant.purgeReset (h : PurgeInvariant s) {card : H}
    (haccounted : (s.purgeReset card).Accounted) (hallowed : PurgeAllowed s (.purgeReset card)) :
    PurgeInvariant (s.purgeReset card) := by
  rcases s.purgeReset_cases card with hstep | ⟨hpurge, hstep⟩
  · rw [hstep]
    exact h
  rw [hstep] at haccounted ⊢
  obtain ⟨hempty, hheld⟩ := hallowed hpurge
  -- Nothing is left in the ring, whoever it belonged to.
  have hlate : ∀ m, Late m { s with
      port := resetTx s.port, card := card, inFifo := [], purge := some ⟨s.nextId, false⟩ } := by
    intro m
    refine ⟨?_, fun pc hpc write hwrite ↦ ?_, fun i hi hpending ↦ ?_⟩
    · show ∀ write ∈ s.blockingRequestQueue, m ≤ write.id
      rw [hempty]
      exact fun _ hmem ↦ absurd hmem List.not_mem_nil
    · rw [hheld pc hpc] at hwrite
      cases hwrite
    · have hfree : (resetTx s.port).Free i := resetTx_free hi
      exact absurd hfree hpending
  refine ⟨h.plain.reset, haccounted, ?_, h.purged_le, fun _ _ ↦ hlate _, ?_, ?_⟩
  · exact h.discarded.same (hlate _) rfl (List.Subset.refl _) rfl (List.prefix_refl _)
  · intro purge hmark
    rw [← Option.some.inj hmark]
    exact ⟨h.purged_le, Nat.le_refl _⟩
  · intro mark hmark
    cases hmark

theorem PurgeInvariant.purgeStop (h : PurgeInvariant s) (haccounted : s.purgeStop.Accounted) :
    PurgeInvariant s.purgeStop := by
  rcases s.purgeStop_cases with hstep | ⟨mark, hpurge, hstep⟩
  · rw [hstep]
    exact h
  rw [hstep] at haccounted ⊢
  have hlate := h.late _ hpurge
  have hmarked := h.marked _ hpurge
  refine ⟨h.plain, haccounted, ⟨h.discarded.toLate.same rfl rfl rfl rfl, ?_, h.discarded.parked,
    h.discarded.writer, ?_⟩, h.purged_le, ?_, ?_, fun _ _ ↦ rfl⟩
  · exact fun _ hmem ↦ absurd hmem List.not_mem_nil
  · exact fun id hid ↦ (h.discarded.answered id hid).mono (List.prefix_append _ _)
  · intro purge hmark
    rw [← Option.some.inj hmark]
    exact hlate.same rfl rfl rfl rfl
  · intro purge hmark
    rw [← Option.some.inj hmark]
    exact hmarked

-- What had been submitted before the reset has nowhere left to wait.
theorem PurgeInvariant.purgeReturn (h : PurgeInvariant s) (haccounted : s.purgeReturn.Accounted) :
    PurgeInvariant s.purgeReturn := by
  rcases s.purgeReturn_cases with hstep | ⟨mark, hpurge, hwriter, hstep⟩
  · rw [hstep]
    exact h
  rw [hstep] at haccounted ⊢
  have hlate : Late mark s := h.late _ hpurge
  have hqueue := h.stopped mark hpurge
  have hle : mark ≤ s.nextId := (h.marked _ hpurge).2
  refine ⟨h.plain, haccounted, ⟨hlate.same rfl rfl rfl rfl, ?_, ?_, ?_, ?_⟩, hle, ?_, ?_, ?_⟩
  · show ∀ write ∈ s.writeQueue, mark ≤ write.id
    rw [hqueue]
    exact fun _ hmem ↦ absurd hmem List.not_mem_nil
  · exact fun _ hmem ↦ absurd hmem List.not_mem_nil
  · intro pc hpc
    cases hwriter.symm.trans hpc
  · intro id hid
    rcases haccounted id (Nat.lt_of_lt_of_le hid hle) with hanswered | ⟨write, halive, rfl⟩
    · exact hanswered
    rcases halive with hmem | hblocking | hparked | ⟨pc, hpc, -⟩ | ⟨pc, hpc, hheld⟩
    · exact absurd (hqueue ▸ hmem) List.not_mem_nil
    · exact absurd (hlate.blocking write hblocking) (Nat.not_le_of_lt hid)
    · exact absurd hparked List.not_mem_nil
    · cases hwriter.symm.trans hpc
    · exact absurd (hlate.workers pc hpc write hheld) (Nat.not_le_of_lt hid)
  · intro purge hnone
    cases hnone
  · intro purge hnone
    cases hnone
  · intro mark hnone
    cases hnone

theorem PurgeInvariant.submit (h : PurgeInvariant s) (data : List Byte)
    (haccounted : (s.submit data).Accounted) :
    PurgeInvariant (s.submit data) := by
  have hmarked : ∀ purge, s.purge = some purge → s.purged ≤ purge.mark ∧ purge.mark ≤ s.nextId + 1 :=
    fun purge hpurge ↦ (h.marked purge hpurge).imp_right Nat.le_succ_of_le
  have hle := Nat.le_succ_of_le h.purged_le
  rcases s.submit_cases data with ⟨mark, hpurge, hstep⟩ | ⟨hpurge, hstep⟩
  · rw [hstep] at haccounted ⊢
    exact ⟨h.plain, haccounted, h.discarded.same (h.discarded.toLate.same rfl rfl rfl rfl) rfl
      (List.Subset.refl _) rfl (List.prefix_append _ _), hle, fun purge hpurge ↦ (h.late purge hpurge).same rfl rfl rfl rfl,
      hmarked, h.stopped⟩
  · rw [hstep] at haccounted ⊢
    refine ⟨h.plain, haccounted, ⟨h.discarded.toLate.same rfl rfl rfl rfl, ?_, h.discarded.parked,
      h.discarded.writer, h.discarded.answered⟩, hle,
      fun purge hpurge ↦ (h.late purge hpurge).same rfl rfl rfl rfl, hmarked, ?_⟩
    · exact Threads.forall_append_one h.discarded.queue h.purged_le
    · intro mark hstopped
      exact absurd hstopped (hpurge mark)

theorem PurgeInvariant.present (h : PurgeInvariant s) (haccounted : s.present.Accounted) :
    PurgeInvariant s.present := by
  rcases s.present_cases with hstep | ⟨write, writes, hwriter, hqueue, hstep⟩
  · rw [hstep]
    exact h
  rw [hstep] at haccounted ⊢
  have hqueued := h.discarded.queue
  rw [hqueue] at hqueued
  refine ⟨h.plain, haccounted, ⟨h.discarded.toLate.same rfl rfl rfl rfl, ?_, h.discarded.parked,
    ?_, h.discarded.answered⟩, h.purged_le,
    fun purge hpurge ↦ (h.late purge hpurge).same rfl rfl rfl rfl, h.marked, ?_⟩
  · exact fun w hw ↦ hqueued w (List.mem_cons_of_mem _ hw)
  · intro pc hpc
    rw [← Option.some.inj hpc]
    exact hqueued write List.mem_cons_self
  · intro mark hpurge
    cases hqueue.symm.trans (h.stopped mark hpurge)

-- A step on the card or the settings.
theorem PurgeInvariant.quiet (h : PurgeInvariant s) {s' : WriteState H} (haccounted : s'.Accounted)
    (hport : s'.port = s.port) (howner : s'.owner = s.owner)
    (hblocking : s'.blockingRequestQueue = s.blockingRequestQueue) (hworkers : s'.workers = s.workers)
    (hqueue : s'.writeQueue = s.writeQueue) (hparked : s'.writeQueue2 ⊆ s.writeQueue2)
    (hwriter : s'.writer = s.writer) (hanswers : s.answers <+: s'.answers) (hpurge : s'.purge = s.purge)
    (hpurged : s'.purged = s.purged) (hnext : s'.nextId = s.nextId) : PurgeInvariant s' :=
  h.same haccounted (hport ▸ h.plain) (fun _ hlate ↦ hlate.same hblocking hworkers hport howner) hqueue
    hparked hwriter hanswers hpurge hpurged hnext

variable (hw) in
theorem PurgeInvariant.step {action : WriteAction H} (hallowed : PurgeAllowed s action)
    (h : PurgeInvariant s) : PurgeInvariant (writeStep hw s action) := by
  have haccounted := h.accounted.step hw action
  have hrefl : s.writeQueue2 ⊆ s.writeQueue2 := List.Subset.refl _
  have hsame : s.answers <+: s.answers := List.prefix_refl _
  cases action with
  | submit data => exact h.submit data haccounted
  | present => exact h.present haccounted
  | evtIoWrite =>
    rw [writeStep]
    cases hpc : s.writer with
    | none => exact h
    | some pc => exact h.evtIoWrite hw hpc hallowed
  | enqueueRequestDpc =>
    refine h.same haccounted h.plain (fun m hlate ↦ ⟨hlate.blocking, ?_, hlate.owner⟩) rfl hrefl rfl
      hsame rfl rfl rfl
    exact Threads.forall_append_one hlate.workers fun _ hnone ↦ (by cases hnone)
  | requestWorker i =>
    cases hpc : s.workers[i]? with
    | none =>
      rw [writeStep, hpc]
      exact h
    | some pc => exact h.requestWorker hw hpc
  | fifoWriteData tfcnt txcnt =>
    exact h.same haccounted (s.drain_pushes hw h.plain tfcnt txcnt).plain
      (fun m hlate ↦ hlate.drain hw h.plain tfcnt txcnt) rfl hrefl rfl hsame rfl rfl rfl
  | setBlockingWrite value =>
    exact h.quiet haccounted rfl rfl rfl rfl rfl hrefl rfl hsame rfl rfl rfl
  | setWaitOnWrite value =>
    exact h.quiet haccounted rfl rfl rfl rfl rfl hrefl rfl hsame rfl rfl rfl
  | purgeReset card => exact h.purgeReset haccounted hallowed
  | purgeStop => exact h.purgeStop haccounted
  | purgeReturn => exact h.purgeReturn haccounted
  | send pieces => exact h.quiet haccounted rfl rfl rfl rfl rfl hrefl rfl hsame rfl rfl rfl
  | alls => exact h.quiet haccounted rfl rfl rfl rfl rfl hrefl rfl hsame rfl rfl rfl
  | setCard card => exact h.quiet haccounted rfl rfl rfl rfl rfl hrefl rfl hsame rfl rfl rfl
  | allsWorker =>
    rw [writeStep] at haccounted ⊢
    rcases s.allsWorker_cases with ⟨-, hstep⟩ | ⟨ids, -, ⟨-, hstep⟩ | ⟨-, hstep⟩⟩
    · rw [hstep]
      exact h
    · rw [hstep] at haccounted ⊢
      exact h.quiet haccounted rfl rfl rfl rfl rfl (List.nil_subset _) rfl (List.prefix_append _ _) rfl
        rfl rfl
    · rw [hstep] at haccounted ⊢
      exact h.quiet haccounted rfl rfl rfl rfl rfl hrefl rfl hsame rfl rfl rfl

theorem writeStart_purge {port : TxPort} (hslots : 0 < port.txNum)
    (hbuffer : ∀ i < port.txNum,
      (port.txDescriptors i).buffer.length = (port.txDescriptors i).dataSize)
    (txSize : Nat) (card : H) : PurgeInvariant (writeStart port txSize card) := by
  have hnot : ∀ {P : Write → Prop}, ∀ write ∈ ([] : List Write), P write :=
    fun _ hmem ↦ absurd hmem List.not_mem_nil
  refine ⟨resetTx_plain hslots hbuffer, fun id hid ↦ absurd hid (Nat.not_lt_zero id), ⟨⟨hnot, ?_, ?_⟩,
    hnot, hnot, ?_, fun id hid ↦ absurd hid (Nat.not_lt_zero id)⟩, Nat.le_refl 0, ?_, ?_, ?_⟩
  · exact fun _ hmem ↦ absurd hmem List.not_mem_nil
  · exact fun _ _ _ ↦ Nat.zero_le _
  · exact fun _ hnone ↦ by cases hnone
  · exact fun _ hnone ↦ by cases hnone
  · exact fun _ hnone ↦ by cases hnone
  · exact fun _ hnone ↦ by cases hnone

/-! ## What comes later -/

/-- Between the two states nothing was placed or pushed for a request below `m`. -/
structure OnlyLater (m : Nat) (s s' : WriteState H) : Prop where
  fills : ∃ more, s'.fills = s.fills ++ more ∧ ∀ fill ∈ more, m ≤ fill.write.id
  pushed : ∃ more, s'.pushed = s.pushed ++ more ∧ ∀ piece ∈ more, m ≤ piece.1

theorem OnlyLater.same {s' : WriteState H} (hfills : s'.fills = s.fills)
    (hpushed : s'.pushed = s.pushed) : OnlyLater m s s' := by
  constructor
  · exact ⟨[], hfills.trans (List.append_nil _).symm, fun _ hmem ↦ absurd hmem List.not_mem_nil⟩
  · exact ⟨[], hpushed.trans (List.append_nil _).symm, fun _ hmem ↦ absurd hmem List.not_mem_nil⟩

theorem OnlyLater.trans {s₁ s₂ : WriteState H} (h : OnlyLater m s s₁) (h' : OnlyLater m s₁ s₂) :
    OnlyLater m s s₂ := by
  obtain ⟨⟨fills, hfills, hlater⟩, ⟨pushed, hpushed, hlate⟩⟩ := h
  obtain ⟨⟨fills', hfills', hlater'⟩, ⟨pushed', hpushed', hlate'⟩⟩ := h'
  constructor
  · refine ⟨fills ++ fills', by rw [hfills', hfills, List.append_assoc], fun fill hmem ↦ ?_⟩
    exact (List.mem_append.mp hmem).elim (hlater fill) (hlater' fill)
  · refine ⟨pushed ++ pushed', by rw [hpushed', hpushed, List.append_assoc], fun piece hmem ↦ ?_⟩
    exact (List.mem_append.mp hmem).elim (hlate piece) (hlate' piece)

variable (hw) in
-- Whoever fills the ring has a request the last purge does not concern, and nothing older is in it.
theorem PurgeInvariant.onlyLater (h : PurgeInvariant s) (hle : m ≤ s.purged)
    (action : WriteAction H) : OnlyLater m s (writeStep hw s action) := by
  have hmore : ∀ {s' : WriteState H} {write : Write}, m ≤ write.id → s'.pushed = s.pushed →
      s'.fills = s.fills ++ [s.fillRecord hw write] → OnlyLater m s s' := by
    intro s' write hid hpushed hfills
    refine ⟨⟨_, hfills, fun fill hmem ↦ ?_⟩, ⟨[], hpushed.trans (List.append_nil _).symm,
      fun _ hmem ↦ absurd hmem List.not_mem_nil⟩⟩
    rw [List.mem_singleton.mp hmem]
    exact hid
  cases action with
  | submit data =>
    rw [writeStep]
    rcases s.submit_cases data with ⟨mark, -, hstep⟩ | ⟨-, hstep⟩
    all_goals
      rw [hstep]
      exact .same rfl rfl
  | present =>
    rw [writeStep]
    rcases s.present_cases with hstep | ⟨write, writes, -, -, hstep⟩
    all_goals
      rw [hstep]
      exact .same rfl rfl
  | evtIoWrite =>
    rw [writeStep]
    cases hpc : s.writer with
    | none => exact .same rfl rfl
    | some pc =>
      have hpushed := (s.evtIoWriteStep_keeps hw pc).pushed
      rcases s.evtIoWriteStep_fills hw pc with hsame | ⟨write, rfl, hfills⟩
      · exact .same hsame hpushed
      · exact hmore (Nat.le_trans hle (h.discarded.writer _ hpc)) hpushed hfills
  | requestWorker i =>
    rw [writeStep]
    cases hpc : s.workers[i]? with
    | none => exact .same rfl rfl
    | some pc =>
      have hpushed := (s.requestWorkerStep_keeps hw pc).pushed
      rcases s.requestWorkerStep_fills hw pc with hsame | ⟨write, rfl, hfills⟩
      · exact .same hsame hpushed
      · have hid := h.discarded.workers _ (List.mem_of_getElem? hpc) write rfl
        exact hmore (Nat.le_trans hle hid) hpushed hfills
  | fifoWriteData tfcnt txcnt =>
    have hpushes := s.drain_pushes hw h.plain tfcnt txcnt
    refine ⟨⟨[], (List.append_nil _).symm, fun _ hmem ↦ absurd hmem List.not_mem_nil⟩,
      ⟨_, rfl, fun piece hmem ↦ ?_⟩⟩
    obtain ⟨i, hi, rfl⟩ := List.mem_map.mp hmem
    exact Nat.le_trans hle (h.discarded.owner i (hpushes.lt i hi) (hpushes.pending i hi))
  | purgeReset card =>
    rw [writeStep]
    rcases s.purgeReset_cases card with hstep | ⟨-, hstep⟩
    all_goals
      rw [hstep]
      exact .same rfl rfl
  | purgeStop =>
    rw [writeStep]
    rcases s.purgeStop_cases with hstep | ⟨mark, -, hstep⟩
    all_goals
      rw [hstep]
      exact .same rfl rfl
  | purgeReturn =>
    rw [writeStep]
    rcases s.purgeReturn_cases with hstep | ⟨mark, -, -, hstep⟩
    all_goals
      rw [hstep]
      exact .same rfl rfl
  | allsWorker =>
    rw [writeStep]
    rcases s.allsWorker_cases with ⟨-, hstep⟩ | ⟨ids, -, ⟨-, hstep⟩ | ⟨-, hstep⟩⟩
    all_goals
      rw [hstep]
      exact .same rfl rfl
  | enqueueRequestDpc => exact .same rfl rfl
  | setBlockingWrite value => exact .same rfl rfl
  | setWaitOnWrite value => exact .same rfl rfl
  | send pieces => exact .same rfl rfl
  | alls => exact .same rfl rfl
  | setCard card => exact .same rfl rfl

-- Purges only add to what has been purged.
theorem PurgeInvariant.purged_mono (h : PurgeInvariant s) (action : WriteAction H) :
    s.purged ≤ (writeStep hw s action).purged := by
  have hsame : ∀ {s' : WriteState H}, s'.purged = s.purged → s.purged ≤ s'.purged :=
    fun heq ↦ Nat.le_of_eq heq.symm
  cases action with
  | submit data =>
    rw [writeStep]
    rcases s.submit_cases data with ⟨mark, -, hstep⟩ | ⟨-, hstep⟩
    · rw [hstep]
      exact hsame rfl
    · rw [hstep]
  | present =>
    rw [writeStep]
    rcases s.present_cases with hstep | ⟨write, writes, -, -, hstep⟩
    all_goals
      rw [hstep]
  | evtIoWrite =>
    rw [writeStep]
    cases hpc : s.writer with
    | none => exact Nat.le_refl _
    | some pc => exact hsame (s.evtIoWriteStep_keeps hw pc).purged
  | requestWorker i =>
    rw [writeStep]
    cases hpc : s.workers[i]? with
    | none => exact Nat.le_refl _
    | some pc => exact hsame (s.requestWorkerStep_keeps hw pc).purged
  | purgeReset card =>
    rw [writeStep]
    rcases s.purgeReset_cases card with hstep | ⟨-, hstep⟩
    all_goals
      rw [hstep]
  | purgeStop =>
    rw [writeStep]
    rcases s.purgeStop_cases with hstep | ⟨mark, -, hstep⟩
    all_goals
      rw [hstep]
  | purgeReturn =>
    rw [writeStep]
    rcases s.purgeReturn_cases with hstep | ⟨mark, hpurge, -, hstep⟩
    · rw [hstep]
    · rw [hstep]
      exact (h.marked _ hpurge).1
  | allsWorker =>
    rw [writeStep]
    rcases s.allsWorker_cases with ⟨-, hstep⟩ | ⟨ids, -, ⟨-, hstep⟩ | ⟨-, hstep⟩⟩
    all_goals
      rw [hstep]
  | enqueueRequestDpc => exact Nat.le_refl _
  | fifoWriteData tfcnt txcnt => exact Nat.le_refl _
  | setBlockingWrite value => exact Nat.le_refl _
  | setWaitOnWrite value => exact Nat.le_refl _
  | send pieces => exact Nat.le_refl _
  | alls => exact Nat.le_refl _
  | setCard card => exact Nat.le_refl _

/-- A state behind the purge that has discarded everything below `mark` and ended in `s₁`. -/
structure BehindPurge (mark : Nat) (s₁ s : WriteState H) : Prop extends PurgeInvariant s where
  le : mark ≤ s.purged
  later : OnlyLater mark s₁ s

theorem BehindPurge.step {s₁ : WriteState H} {action : WriteAction H}
    (hallowed : PurgeAllowed s action) (h : BehindPurge m s₁ s) :
    BehindPurge m s₁ (writeStep hw s action) :=
  ⟨h.toPurgeInvariant.step hw hallowed, Nat.le_trans h.le (h.purged_mono action),
    h.later.trans (h.onlyLater hw h.le action)⟩

/-- When a purge returns that no blocking write was in the way of, every request submitted before its
reset has been answered, and whatever happens later, nothing more is placed or pushed for them. -/
theorem fscc_io_purge_tx_discards (hw : Hardware H) {port : TxPort} (txSize : Nat) (card : H)
    (hslots : 0 < port.txNum) (hbuffer : ∀ i < port.txNum,
      (port.txDescriptors i).buffer.length = (port.txDescriptors i).dataSize)
    (before after : List (WriteAction H))
    (hallowed : Runs.Along PurgeAllowed (writeStep hw) (writeStart port txSize card)
      (before ++ .purgeReturn :: after)) :
    let s := before.foldl (writeStep hw) (writeStart port txSize card)
    let s₁ := writeStep hw s .purgeReturn
    ∀ mark, s.purge = some ⟨mark, true⟩ → s.writer = none →
      (∀ id < mark, s₁.Answered id) ∧ OnlyLater mark s₁ (after.foldl (writeStep hw) s₁) := by
  intro s s₁ mark hpurge hwriter
  obtain ⟨hbefore, hreturn, hafter⟩ := Runs.along_append.mp hallowed
  have hs : PurgeInvariant s := hbefore.invariant (fun _ _ hallowed h ↦ h.step hw hallowed)
    (writeStart_purge hslots hbuffer txSize card)
  have hs₁ : PurgeInvariant s₁ := hs.step hw hreturn
  have hpurged : s₁.purged = mark := by
    show s.purgeReturn.purged = mark
    rw [WriteState.purgeReturn, hpurge, hwriter]
  refine ⟨hpurged ▸ hs₁.discarded.answered, ?_⟩
  have hstart : BehindPurge mark s₁ s₁ := ⟨hs₁, Nat.le_of_eq hpurged.symm, .same rfl rfl⟩
  have hend := hafter.invariant (fun _ _ hallowed h ↦ BehindPurge.step hallowed h) hstart
  exact hend.later

-- A write that waits for its last byte is cancelled by the purge; another one follows.
theorem fscc_io_purge_tx_discards_parked :
    let s := [WriteAction.setWaitOnWrite true, .submit [1, 2, 3], .present, .evtIoWrite, .evtIoWrite,
      .evtIoWrite, .evtIoWrite, .purgeReset (), .purgeStop].foldl (writeStep quietCard)
        (writeStart twoBufferPort 4 ())
    let s₁ := writeStep quietCard s .purgeReturn
    ∀ mark, s.purge = some ⟨mark, true⟩ → s.writer = none → (∀ id < mark, s₁.Answered id) ∧
      OnlyLater mark s₁ ([WriteAction.submit [4], .present, .evtIoWrite, .evtIoWrite, .evtIoWrite,
        .fifoWriteData 0 0].foldl (writeStep quietCard) s₁) :=
  fscc_io_purge_tx_discards quietCard 4 () (by decide) (fun _ _ ↦ rfl)
    [.setWaitOnWrite true, .submit [1, 2, 3], .present, .evtIoWrite, .evtIoWrite, .evtIoWrite,
      .evtIoWrite, .purgeReset (), .purgeStop]
    [.submit [4], .present, .evtIoWrite, .evtIoWrite, .evtIoWrite, .fifoWriteData 0 0] (by
      refine ⟨trivial, trivial, trivial, ?_, ?_, ?_, ?_, ?_, trivial, trivial, trivial, trivial, ?_, ?_,
        ?_, trivial, trivial⟩
      case refine_5 => exact fun _ ↦ ⟨rfl, fun _ hmem ↦ absurd hmem List.not_mem_nil⟩
      all_goals exact fun _ hnone ↦ by cases hnone)

-- A blocking write is still in `blocking_request_queue` when the purge returns: it has not been
-- answered, and is placed and pushed afterwards.
theorem fscc_io_purge_tx_keeps_blocking :
    let s := [WriteAction.setBlockingWrite true, .submit [1, 2, 3], .present, .evtIoWrite,
      .purgeReset (), .purgeStop].foldl (writeStep quietCard) (writeStart twoBufferPort 4 ())
    let s₁ := writeStep quietCard s .purgeReturn
    let s₂ := [WriteAction.enqueueRequestDpc, .requestWorker 0, .requestWorker 0, .requestWorker 0,
      .requestWorker 0, .fifoWriteData 0 0].foldl (writeStep quietCard) s₁
    s.purge = some ⟨1, true⟩ ∧ s.writer.isNone ∧
      (¬ ∀ id < 1, ∃ answer ∈ s₁.answers, answer.id = id) ∧
      s₂.fills.map (fun fill ↦ fill.write.id) = [0] ∧ s₁.fills.length = 0 ∧
      s₂.pushed = s₁.pushed ++ [(0, 0)] := by
  decide

end FsccDriver

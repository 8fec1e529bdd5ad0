import FsccDriver.Lib.Threads
import FsccDriver.TxDescs

/-!
# WritePath — what happens to a write request

`FsccEvtIoWrite` takes the requests of `write_queue` one after the other.  `request_worker` takes the
blocking ones, in as many activations as there are; `alls_worker` completes those that wait for their
last byte.  Each retrieval, each space check and each section under a lock is one step.
-/

namespace FsccDriver

open Words

variable {H : Type}

/-! ## Requests -/

structure Write where
  id : Nat
  data : List Byte
  deriving DecidableEq

-- `Length` is a `size_t`, which `fscc_user_write_frame` is given as a `UINT32`.
def Write.length (write : Write) : Nat := write.data.length
def Write.length32 (write : Write) : Nat := u32 write.length

-- `admitted` says that the request had passed its space check.
structure Answer where
  id : Nat
  status : NtStatus
  information : Nat
  admitted : Bool

/-- `FsccEvtIoWrite` on its way through a request. -/
inductive WriterPc where
  | entered (write : Write)
  | direct (write : Write)
  | checked (write : Write)
  | filled (write : Write) (result : WriteResult)

def WriterPc.write : WriterPc → Write
  | .entered write | .direct write | .checked write | .filled write _ => write

/-- An activation of `request_worker`. -/
inductive WorkerPc where
  | entered
  | found (write : Write)
  | checked (write : Write)
  | retrieved (write : Write)
  | filled (write : Write) (result : WriteResult)
  | done

-- One call of `fscc_user_write_frame`, with the ring on both sides of it.
structure Fill where
  write : Write
  before : TxPort
  after : TxPort
  descs : List Nat
  result : WriteResult

/-- `fscc_io_purge_tx` between the reset of the ring and its return.  `mark` is the first request that
had not been submitted by then. -/
structure Purge where
  mark : Nat
  stopped : Bool
  deriving DecidableEq

/-- The port and its write queues.  `owner` says whose bytes a descriptor was filled with last;
`pushed`, `inFifo` and `sent` name a piece by its request and its descriptor. -/
structure WriteState (H : Type) where
  port : TxPort
  card : H
  txSize : Nat
  blockingWrite : Bool
  waitOnWrite : Bool
  writeQueue : List Write
  blockingRequestQueue : List Write
  writeQueue2 : List Write
  writer : Option WriterPc
  workers : List WorkerPc
  purge : Option Purge
  -- What was completely transmitted at the ALLS interrupt whose `alls_worker` is still to run.
  alls : Option (List Nat)
  nextId : Nat
  owner : Nat → Nat
  fills : List Fill
  pushed : List (Nat × Nat)
  inFifo : List (Nat × Nat)
  sent : List (Nat × Nat)
  answers : List Answer
  -- Everything below was submitted before the last purge that has returned.
  purged : Nat

namespace WriteState

def answer (s : WriteState H) (write : Write) (status : NtStatus) (information : Nat)
    (admitted : Bool) : WriteState H :=
  { s with answers := s.answers ++ [⟨write.id, status, information, admitted⟩] }

/-- `fscc_user_write_frame` for one request. -/
def fill (hw : Hardware H) (s : WriteState H) (write : Write) : WriteResult × WriteState H :=
  let (result, port, card) := fsccUserWriteFrame hw write.data write.length32 s.port s.card
  let descs := filledDescs write.data write.length32 s.port.txNum ⟨s.port, 0, 0, 0, .success⟩
  (result, { s with
    port, card
    owner := fun i ↦ if i ∈ descs then write.id else s.owner i
    fills := s.fills ++ [⟨write, s.port, port, descs, result⟩] })

-- The record `fill` keeps of it.
def fillRecord (hw : Hardware H) (s : WriteState H) (write : Write) : Fill where
  write := write
  before := s.port
  after := (fsccUserWriteFrame hw write.data write.length32 s.port s.card).2.1
  descs := filledDescs write.data write.length32 s.port.txNum ⟨s.port, 0, 0, 0, .success⟩
  result := (fsccUserWriteFrame hw write.data write.length32 s.port s.card).1

theorem fill_fills (hw : Hardware H) (s : WriteState H) (write : Write) :
    (s.fill hw write).1 = (s.fillRecord hw write).result ∧
      (s.fill hw write).2.fills = s.fills ++ [s.fillRecord hw write] := ⟨rfl, rfl⟩

theorem fillRecord_fills {hw : Hardware H} {s : WriteState H} (hplain : TxPlain s.port)
    (write : Write) : Fills s.port (s.fillRecord hw write).descs (s.fill hw write).2.port :=
  fsccUserWriteFrame_fills hw write.data write.length32 hplain s.card

/-! ## `FsccEvtIoWrite` -/

def evtIoWriteStep (hw : Hardware H) (s : WriteState H) : WriterPc → WriteState H
  | .entered write =>
      let s := { s with writer := none }
      if write.length = 0 then s.answer write .success write.length false
      else if write.length > u32 ((s.txSize : Int) * s.port.txNum) then
        s.answer write .bufferTooSmall 0 false
      else if s.blockingWrite then
        { s with blockingRequestQueue := s.blockingRequestQueue ++ [write] }
      else { s with writer := some (.direct write) }
  | .direct write =>
      let s := { s with writer := none }
      if fsccUserGetTxSpace s.port < write.length then s.answer write .bufferTooSmall 0 false
      else
        -- Checks to make sure there is a clock present.
        let (timedOut, card) :=
          if s.port.ignoreTimeout = false then fsccPortTimedOut hw s.port.toRegPort s.card
          else (false, s.card)
        let s := { s with card }
        if timedOut then s.answer write .ioTimeout 0 true
        else { s with writer := some (.checked write) }
  | .checked write =>
      let (result, s) := s.fill hw write
      { s with writer := some (.filled write result) }
  | .filled write result =>
      let s := { s with writer := none }
      if s.waitOnWrite then { s with writeQueue2 := s.writeQueue2 ++ [write] }
      else s.answer write result.status result.outLength true

/-- The tests of `FsccEvtIoWrite` send the request to `blocking_request_queue`. -/
def ForwardsToBlocking (s : WriteState H) (write : Write) : Prop :=
  write.length ≠ 0 ∧ ¬ write.length > u32 ((s.txSize : Int) * s.port.txNum) ∧ s.blockingWrite = true

-- What becomes of a request in the first step, and in the step behind it.
theorem evtIoWriteStep_entered (hw : Hardware H) (s : WriteState H) (write : Write) :
    (∃ status, s.evtIoWriteStep hw (.entered write) =
        { s with writer := none }.answer write status 0 false) ∨
      s.ForwardsToBlocking write ∧ s.evtIoWriteStep hw (.entered write) =
        { s with writer := none, blockingRequestQueue := s.blockingRequestQueue ++ [write] } ∨
      s.evtIoWriteStep hw (.entered write) = { s with writer := some (.direct write) } := by
  rw [evtIoWriteStep]
  dsimp only
  by_cases hzero : write.length = 0
  · rw [if_pos hzero, hzero]
    exact Or.inl ⟨_, rfl⟩
  rw [if_neg hzero]
  by_cases hlong : write.length > u32 ((s.txSize : Int) * s.port.txNum)
  · rw [if_pos hlong]
    exact Or.inl ⟨_, rfl⟩
  rw [if_neg hlong]
  by_cases hblocking : s.blockingWrite = true
  · rw [if_pos hblocking]
    exact Or.inr (Or.inl ⟨⟨hzero, hlong, hblocking⟩, rfl⟩)
  · rw [if_neg hblocking]
    exact Or.inr (Or.inr rfl)

theorem evtIoWriteStep_direct (hw : Hardware H) (s : WriteState H) (write : Write) :
    ∃ card, (∃ status admitted, s.evtIoWriteStep hw (.direct write) =
        { s with card, writer := none }.answer write status 0 admitted) ∨
      s.evtIoWriteStep hw (.direct write) = { s with card, writer := some (.checked write) } := by
  rw [evtIoWriteStep]
  dsimp only
  by_cases hspace : fsccUserGetTxSpace s.port < write.length
  · rw [if_pos hspace]
    exact ⟨s.card, Or.inl ⟨_, _, rfl⟩⟩
  rw [if_neg hspace]
  generalize (if s.port.ignoreTimeout = false then fsccPortTimedOut hw s.port.toRegPort s.card
    else (false, s.card)) = clock
  obtain ⟨timedOut, card⟩ := clock
  cases timedOut with
  | true => exact ⟨card, Or.inl ⟨_, _, rfl⟩⟩
  | false => exact ⟨card, Or.inr rfl⟩

/-- What `FsccEvtIoWrite` leaves alone: requests only join the other queues. -/
structure WriterKeeps (s s' : WriteState H) : Prop where
  writeQueue : s'.writeQueue = s.writeQueue
  blocking : s.blockingRequestQueue <+: s'.blockingRequestQueue
  parked : s.writeQueue2 <+: s'.writeQueue2
  workers : s'.workers = s.workers
  purge : s'.purge = s.purge
  purged : s'.purged = s.purged
  nextId : s'.nextId = s.nextId
  pushed : s'.pushed = s.pushed
  answers : s.answers <+: s'.answers

theorem evtIoWriteStep_keeps (hw : Hardware H) (s : WriteState H) (pc : WriterPc) :
    s.WriterKeeps (s.evtIoWriteStep hw pc) := by
  have hsame : ∀ {α : Type} (l : List α), l <+: l := fun l ↦ List.prefix_refl l
  cases pc with
  | entered write =>
    rcases s.evtIoWriteStep_entered hw write with ⟨status, hstep⟩ | ⟨-, hstep⟩ | hstep
    · rw [hstep]
      exact ⟨rfl, hsame _, hsame _, rfl, rfl, rfl, rfl, rfl, List.prefix_append _ _⟩
    · rw [hstep]
      exact ⟨rfl, List.prefix_append _ _, hsame _, rfl, rfl, rfl, rfl, rfl, hsame _⟩
    · rw [hstep]
      exact ⟨rfl, hsame _, hsame _, rfl, rfl, rfl, rfl, rfl, hsame _⟩
  | direct write =>
    obtain ⟨card, ⟨status, admitted, hstep⟩ | hstep⟩ := s.evtIoWriteStep_direct hw write
    · rw [hstep]
      exact ⟨rfl, hsame _, hsame _, rfl, rfl, rfl, rfl, rfl, List.prefix_append _ _⟩
    · rw [hstep]
      exact ⟨rfl, hsame _, hsame _, rfl, rfl, rfl, rfl, rfl, hsame _⟩
  | checked write => exact ⟨rfl, hsame _, hsame _, rfl, rfl, rfl, rfl, rfl, hsame _⟩
  | filled write result =>
    rw [evtIoWriteStep]
    dsimp only
    split
    · exact ⟨rfl, hsame _, List.prefix_append _ _, rfl, rfl, rfl, rfl, rfl, hsame _⟩
    · exact ⟨rfl, hsame _, hsame _, rfl, rfl, rfl, rfl, rfl, List.prefix_append _ _⟩

theorem evtIoWriteStep_plain {hw : Hardware H} {s : WriteState H} (hplain : TxPlain s.port)
    (pc : WriterPc) : TxPlain (s.evtIoWriteStep hw pc).port := by
  cases pc with
  | entered write =>
    rcases s.evtIoWriteStep_entered hw write with ⟨status, hstep⟩ | ⟨-, hstep⟩ | hstep
    all_goals
      rw [hstep]
      exact hplain
  | direct write =>
    obtain ⟨card, ⟨status, admitted, hstep⟩ | hstep⟩ := s.evtIoWriteStep_direct hw write
    all_goals
      rw [hstep]
      exact hplain
  | checked write => exact (s.fillRecord_fills hplain write).plain
  | filled write result =>
    rw [evtIoWriteStep]
    dsimp only
    split
    all_goals exact hplain

theorem evtIoWriteStep_fills (hw : Hardware H) (s : WriteState H) (pc : WriterPc) :
    (s.evtIoWriteStep hw pc).fills = s.fills ∨ ∃ write, pc = .checked write ∧
      (s.evtIoWriteStep hw pc).fills = s.fills ++ [s.fillRecord hw write] := by
  cases pc with
  | entered write =>
    rcases s.evtIoWriteStep_entered hw write with ⟨status, hstep⟩ | ⟨-, hstep⟩ | hstep
    all_goals
      rw [hstep]
      exact Or.inl rfl
  | direct write =>
    obtain ⟨card, ⟨status, admitted, hstep⟩ | hstep⟩ := s.evtIoWriteStep_direct hw write
    all_goals
      rw [hstep]
      exact Or.inl rfl
  | checked write => exact Or.inr ⟨write, rfl, rfl⟩
  | filled write result =>
    rw [evtIoWriteStep]
    dsimp only
    split
    all_goals exact Or.inl rfl

theorem evtIoWriteStep_parked (hw : Hardware H) (s : WriteState H) (pc : WriterPc) :
    (s.evtIoWriteStep hw pc).writeQueue2 = s.writeQueue2 ∧
        (∀ write result, pc = .filled write result → s.waitOnWrite = false) ∨
      ∃ write result, pc = .filled write result ∧ s.waitOnWrite = true ∧
        (s.evtIoWriteStep hw pc).writeQueue2 = s.writeQueue2 ++ [write] := by
  cases pc with
  | entered write =>
    refine Or.inl ⟨?_, fun _ _ hfilled ↦ by cases hfilled⟩
    rcases s.evtIoWriteStep_entered hw write with ⟨status, hstep⟩ | ⟨-, hstep⟩ | hstep
    · rw [hstep]
      rfl
    · rw [hstep]
    · rw [hstep]
  | direct write =>
    refine Or.inl ⟨?_, fun _ _ hfilled ↦ by cases hfilled⟩
    obtain ⟨card, ⟨status, admitted, hstep⟩ | hstep⟩ := s.evtIoWriteStep_direct hw write
    · rw [hstep]
      rfl
    · rw [hstep]
  | checked write => exact Or.inl ⟨rfl, fun _ _ hfilled ↦ by cases hfilled⟩
  | filled write result =>
    rw [evtIoWriteStep]
    dsimp only
    cases s.waitOnWrite with
    | false => exact Or.inl ⟨rfl, fun _ _ _ ↦ rfl⟩
    | true => exact Or.inr ⟨write, result, rfl, rfl, rfl⟩

/-! ## `request_worker` -/

def requestWorkerStep (hw : Hardware H) (s : WriteState H) : WorkerPc → WorkerPc × WriteState H
  | .entered =>
      match s.blockingRequestQueue with
      | [] => (.done, s)
      | write :: _ => (.found write, s)
  | .found write =>
      if fsccUserGetTxSpace s.port < write.length32 then (.done, s) else (.checked write, s)
  -- Another activation may have been faster.
  | .checked write =>
      if write ∈ s.blockingRequestQueue then
        (.retrieved write, { s with blockingRequestQueue := s.blockingRequestQueue.erase write })
      else (.done, s)
  | .retrieved write =>
      let (result, s) := s.fill hw write
      (.filled write result, s)
  | .filled write result => (.done, s.answer write result.status result.outLength true)
  | .done => (.done, s)

structure WorkerKeeps (s s' : WriteState H) : Prop where
  writeQueue : s'.writeQueue = s.writeQueue
  parked : s'.writeQueue2 = s.writeQueue2
  writer : s'.writer = s.writer
  workers : s'.workers = s.workers
  purge : s'.purge = s.purge
  purged : s'.purged = s.purged
  nextId : s'.nextId = s.nextId
  pushed : s'.pushed = s.pushed
  answers : s.answers <+: s'.answers

theorem requestWorkerStep_keeps (hw : Hardware H) (s : WriteState H) (pc : WorkerPc) :
    s.WorkerKeeps (s.requestWorkerStep hw pc).2 := by
  have hsame : s.WorkerKeeps s := ⟨rfl, rfl, rfl, rfl, rfl, rfl, rfl, rfl, List.prefix_refl _⟩
  cases pc with
  | entered =>
    rw [requestWorkerStep]
    split
    · exact hsame
    · exact hsame
  | found write =>
    rw [requestWorkerStep]
    split
    · exact hsame
    · exact hsame
  | checked write =>
    rw [requestWorkerStep]
    split
    · exact ⟨rfl, rfl, rfl, rfl, rfl, rfl, rfl, rfl, List.prefix_refl _⟩
    · exact hsame
  | retrieved write => exact ⟨rfl, rfl, rfl, rfl, rfl, rfl, rfl, rfl, List.prefix_refl _⟩
  | filled write result =>
    exact ⟨rfl, rfl, rfl, rfl, rfl, rfl, rfl, rfl, List.prefix_append _ _⟩
  | done => exact hsame

theorem requestWorkerStep_fills (hw : Hardware H) (s : WriteState H) (pc : WorkerPc) :
    (s.requestWorkerStep hw pc).2.fills = s.fills ∨ ∃ write, pc = .retrieved write ∧
      (s.requestWorkerStep hw pc).2.fills = s.fills ++ [s.fillRecord hw write] := by
  cases pc with
  | entered =>
    rw [requestWorkerStep]
    split
    all_goals exact Or.inl rfl
  | found write =>
    rw [requestWorkerStep]
    split
    all_goals exact Or.inl rfl
  | checked write =>
    rw [requestWorkerStep]
    split
    all_goals exact Or.inl rfl
  | retrieved write => exact Or.inr ⟨write, rfl, rfl⟩
  | filled write result => exact Or.inl rfl
  | done => exact Or.inl rfl

theorem requestWorkerStep_plain {hw : Hardware H} {s : WriteState H} (hplain : TxPlain s.port)
    (pc : WorkerPc) : TxPlain (s.requestWorkerStep hw pc).2.port := by
  cases pc with
  | retrieved write => exact (s.fillRecord_fills hplain write).plain
  | entered =>
    rw [requestWorkerStep]
    split
    all_goals exact hplain
  | found write =>
    rw [requestWorkerStep]
    split
    all_goals exact hplain
  | checked write =>
    rw [requestWorkerStep]
    split
    all_goals exact hplain
  | filled write result => exact hplain
  | done => exact hplain

/-! ## `fscc_fifo_write_data`, `alls_worker` and `fscc_io_purge_tx` -/

-- The section under the lock, whatever TFCNT and TXCNT were read as before it.
def drain (hw : Hardware H) (s : WriteState H) (tfcnt txcnt : Nat) : WriteState H :=
  let descs := pushedDescs hw tfcnt s.port.txNum ⟨s.port, fifoSpace txcnt, 0, 0⟩ s.card
  let pieces := descs.map fun i ↦ (s.owner i, i)
  let (_, port, card) := writeDataLocked hw tfcnt txcnt s.port s.card
  { s with port, card, pushed := s.pushed ++ pieces, inFifo := s.inFifo ++ pieces }

/-- The requests whose every piece the card has sent. -/
def transmitted (s : WriteState H) : List Nat :=
  (s.fills.filter fun fill ↦
    decide (fill.result.status = .success) && decide (∀ i ∈ fill.descs, (fill.write.id, i) ∈ s.sent)).map
      fun fill ↦ fill.write.id

def allsWorker (s : WriteState H) : WriteState H :=
  match s.alls with
  | none => s
  | some _ =>
      if s.waitOnWrite then
        { s with
          alls := none, writeQueue2 := []
          answers := s.answers ++ s.writeQueue2.map fun write ↦
            ⟨write.id, .success, write.length32, true⟩ }
      else { s with alls := none }

theorem drain_pushes (hw : Hardware H) {s : WriteState H} (hplain : TxPlain s.port)
    (tfcnt txcnt : Nat) :
    Pushes s.port (pushedDescs hw tfcnt s.port.txNum ⟨s.port, fifoSpace txcnt, 0, 0⟩ s.card)
      (s.drain hw tfcnt txcnt).port :=
  writeDataLocked_pushes hw tfcnt txcnt hplain s.card

-- `fscc_io_reset_tx` also empties the FIFO of the card.
def purgeReset (s : WriteState H) (card : H) : WriteState H :=
  match s.purge with
  | none => { s with port := resetTx s.port, card, inFifo := [], purge := some ⟨s.nextId, false⟩ }
  | some _ => s

-- `write_queue` is stopped, and what waits in it is cancelled.
def purgeStop (s : WriteState H) : WriteState H :=
  match s.purge with
  | some ⟨mark, false⟩ =>
      { s with
        purge := some ⟨mark, true⟩, writeQueue := []
        answers := s.answers ++ s.writeQueue.map fun write ↦ ⟨write.id, .failed, 0, false⟩ }
  | _ => s

-- Once `FsccEvtIoWrite` is through with its request, `write_queue2` is cancelled, and both queues start
-- again.
def purgeReturn (s : WriteState H) : WriteState H :=
  match s.purge, s.writer with
  | some ⟨mark, true⟩, none =>
      { s with
        purge := none, purged := mark, writeQueue2 := []
        answers := s.answers ++ s.writeQueue2.map fun write ↦ ⟨write.id, .failed, 0, true⟩ }
  | _, _ => s

theorem purgeReset_cases (s : WriteState H) (card : H) :
    s.purgeReset card = s ∨ s.purge = none ∧ s.purgeReset card =
      { s with port := resetTx s.port, card, inFifo := [], purge := some ⟨s.nextId, false⟩ } := by
  rw [purgeReset]
  split
  next hpurge => exact Or.inr ⟨hpurge, rfl⟩
  · exact Or.inl rfl

theorem purgeStop_cases (s : WriteState H) :
    s.purgeStop = s ∨ ∃ mark, s.purge = some ⟨mark, false⟩ ∧ s.purgeStop =
      { s with
        purge := some ⟨mark, true⟩, writeQueue := []
        answers := s.answers ++ s.writeQueue.map fun write ↦ ⟨write.id, .failed, 0, false⟩ } := by
  rw [purgeStop]
  split
  next mark hpurge => exact Or.inr ⟨mark, hpurge, rfl⟩
  · exact Or.inl rfl

theorem purgeReturn_cases (s : WriteState H) :
    s.purgeReturn = s ∨ ∃ mark, s.purge = some ⟨mark, true⟩ ∧ s.writer = none ∧ s.purgeReturn =
      { s with
        purge := none, purged := mark, writeQueue2 := []
        answers := s.answers ++ s.writeQueue2.map fun write ↦ ⟨write.id, .failed, 0, true⟩ } := by
  rw [purgeReturn]
  split
  next mark hpurge hwriter => exact Or.inr ⟨mark, hpurge, hwriter, rfl⟩
  · exact Or.inl rfl

theorem allsWorker_cases (s : WriteState H) :
    (s.alls = none ∧ s.allsWorker = s) ∨ ∃ ids, s.alls = some ids ∧
      (s.waitOnWrite = true ∧ s.allsWorker =
        { s with
          alls := none, writeQueue2 := []
          answers := s.answers ++ s.writeQueue2.map fun write ↦
            ⟨write.id, .success, write.length32, true⟩ } ∨
        s.waitOnWrite = false ∧ s.allsWorker = { s with alls := none }) := by
  rw [allsWorker]
  cases s.alls with
  | none => exact Or.inl ⟨rfl, rfl⟩
  | some ids =>
    cases s.waitOnWrite with
    | false => exact Or.inr ⟨ids, rfl, Or.inr ⟨rfl, rfl⟩⟩
    | true => exact Or.inr ⟨ids, rfl, Or.inl ⟨rfl, rfl⟩⟩

end WriteState

/-! ## Runs -/

inductive WriteAction (H : Type) where
  | submit (data : List Byte)
  | present
  | evtIoWrite
  | enqueueRequestDpc
  | requestWorker (i : Nat)
  | fifoWriteData (tfcnt txcnt : Nat)
  | setBlockingWrite (value : Bool)
  | setWaitOnWrite (value : Bool)
  | purgeReset (card : H)
  | purgeStop
  | purgeReturn
  -- The card sends, raises ALLS, and its registers change.
  | send (pieces : Nat)
  | alls
  | setCard (card : H)
  | allsWorker

def WriteState.submit (s : WriteState H) (data : List Byte) : WriteState H :=
  let write : Write := ⟨s.nextId, data⟩
  let s := { s with nextId := s.nextId + 1 }
  match s.purge with
  | some ⟨_, true⟩ => s.answer write .failed 0 false
  | _ => { s with writeQueue := s.writeQueue ++ [write] }

def WriteState.present (s : WriteState H) : WriteState H :=
  match s.writer, s.writeQueue with
  | none, write :: writes => { s with writer := some (.entered write), writeQueue := writes }
  | _, _ => s

theorem WriteState.submit_cases (s : WriteState H) (data : List Byte) :
    (∃ mark, s.purge = some ⟨mark, true⟩ ∧ s.submit data =
        { s with nextId := s.nextId + 1 }.answer ⟨s.nextId, data⟩ .failed 0 false) ∨
      (∀ mark, s.purge ≠ some ⟨mark, true⟩) ∧ s.submit data =
        { s with nextId := s.nextId + 1, writeQueue := s.writeQueue ++ [⟨s.nextId, data⟩] } := by
  rw [submit]
  split
  next mark hpurge => exact Or.inl ⟨mark, hpurge, rfl⟩
  next hpurge => exact Or.inr ⟨hpurge, rfl⟩

theorem WriteState.present_cases (s : WriteState H) :
    s.present = s ∨ ∃ write writes, s.writer = none ∧ s.writeQueue = write :: writes ∧
      s.present = { s with writer := some (.entered write), writeQueue := writes } := by
  rw [present]
  split
  next write writes hwriter hqueue => exact Or.inr ⟨write, writes, hwriter, hqueue, rfl⟩
  · exact Or.inl rfl

def writeStep (hw : Hardware H) (s : WriteState H) : WriteAction H → WriteState H
  | .submit data => s.submit data
  | .present => s.present
  | .evtIoWrite =>
      match s.writer with
      | some pc => s.evtIoWriteStep hw pc
      | none => s
  | .enqueueRequestDpc => { s with workers := s.workers ++ [.entered] }
  | .requestWorker i =>
      match s.workers[i]? with
      | some pc =>
          let (pc, s) := s.requestWorkerStep hw pc
          { s with workers := s.workers.set i pc }
      | none => s
  | .fifoWriteData tfcnt txcnt => s.drain hw tfcnt txcnt
  | .setBlockingWrite value => { s with blockingWrite := value }
  | .setWaitOnWrite value => { s with waitOnWrite := value }
  | .purgeReset card => s.purgeReset card
  | .purgeStop => s.purgeStop
  | .purgeReturn => s.purgeReturn
  | .send pieces =>
      { s with inFifo := s.inFifo.drop pieces, sent := s.sent ++ s.inFifo.take pieces }
  | .alls => { s with alls := some s.transmitted }
  | .setCard card => { s with card }
  | .allsWorker => s.allsWorker

theorem resetTx_plain {port : TxPort} (hslots : 0 < port.txNum)
    (hbuffer : ∀ i < port.txNum,
      (port.txDescriptors i).buffer.length = (port.txDescriptors i).dataSize) :
    TxPlain (resetTx port) := by
  refine ⟨hslots, hslots, fun i hi ↦ ?_⟩
  have hdesc : (resetTx port).txDescriptors i = resetTxDesc (port.txDescriptors i) := if_pos hi
  rw [hdesc]
  exact hbuffer i hi

theorem TxPlain.reset {port : TxPort} (h : TxPlain port) : TxPlain (resetTx port) :=
  resetTx_plain (Nat.lt_of_le_of_lt (Nat.zero_le _) h.user_lt) h.buffer

theorem resetTx_free {port : TxPort} {i : Nat} (hi : i < port.txNum) : (resetTx port).Free i := by
  have hdesc : (resetTx port).txDescriptors i = resetTxDesc (port.txDescriptors i) := if_pos hi
  rw [TxPort.Free, hdesc]
  exact Nat.and_self _

/-- A port that has just been purged and has no requests. -/
def writeStart (port : TxPort) (txSize : Nat) (card : H) : WriteState H where
  port := resetTx port
  card := card
  txSize := txSize
  blockingWrite := false
  waitOnWrite := false
  writeQueue := []
  blockingRequestQueue := []
  writeQueue2 := []
  writer := none
  workers := []
  purge := none
  alls := none
  nextId := 0
  owner := fun _ ↦ 0
  fills := []
  pushed := []
  inFifo := []
  sent := []
  answers := []
  purged := 0

end FsccDriver

import FsccDriver.Registers

/-!
# Isr — the interrupt routine and the worker that tells the listeners (`isr.c`)

The listeners are the pending `FSCC_TRACK_INTERRUPTS` requests of `isr_queue`.  What the framework
does with a queue is a parameter: `Wdf.Documented` says how its calls answer while nothing is
cancelled.
-/

namespace FsccDriver

variable {H Q : Type}

/-! ## Interrupt bits (`port.h`) -/

def rfs : BitVec 32 := 0x00000001
def rft : BitVec 32 := 0x00000002
def rfe : BitVec 32 := 0x00000004
def rfo : BitVec 32 := 0x00000008
def rdo : BitVec 32 := 0x00000010
def drHi : BitVec 32 := 0x00000400
def drFe : BitVec 32 := 0x00001000
def tft : BitVec 32 := 0x00010000
def alls : BitVec 32 := 0x00020000
def tdu : BitVec 32 := 0x00040000

/-! ## `fscc_isr` -/

inductive Dpc where
  | timestamp
  | processRead
  | iframe
  | oframe
  | alls
  | isrAlert
  deriving DecidableEq

structure IsrPort extends RegPort where
  lastIsrValue : BitVec 32

def enqueueIf (isrValue bits : BitVec 32) (dpc : Dpc) : List Dpc :=
  if isrValue &&& bits ≠ 0 then [dpc] else []

-- The DPCs an interrupt enqueues, in order.
def isrDpcs (usingDma : Bool) (isrValue : BitVec 32) : List Dpc :=
  (if usingDma then
    enqueueIf isrValue rfe .timestamp ++
      enqueueIf isrValue (drHi ||| drFe ||| rft ||| rfs ||| rfe) .processRead
  else
    enqueueIf isrValue (rfe ||| rft ||| rfs ||| rfo ||| rdo) .iframe ++
      enqueueIf isrValue (tft ||| tdu ||| FsccDriver.alls) .oframe) ++
  enqueueIf isrValue FsccDriver.alls .alls ++ [.isrAlert]

structure IsrResult where
  handled : Bool
  isrValue : BitVec 32
  enqueued : List Dpc

def fsccIsr (hw : Hardware H) (port : IsrPort) (h : H) : IsrResult × IsrPort × H :=
  let (isrValue, h) := fsccPortGetRegister hw port.channel 0 isrOffset h
  if isrValue = 0 then (⟨false, isrValue, []⟩, port, h)
  else
    (⟨true, isrValue, isrDpcs (fsccPortUsesDma port.toRegPort) isrValue⟩,
      { port with lastIsrValue := port.lastIsrValue ||| isrValue }, h)

/-! ## The queue of listeners -/

structure TrackRequest where
  handle : Nat
  inputBuffer : List Byte
  outputBufferLength : Nat
  deriving DecidableEq

def TrackRequest.mask (request : TrackRequest) : BitVec 32 := Bytes.wordAt request.inputBuffer 0

/-- The calls of the framework that `isr_alert_worker` makes. -/
structure Wdf (Q : Type) where
  ioQueueFindRequest : Q → Option TrackRequest → NtStatus × Option TrackRequest
  ioQueueRetrieveFoundRequest : Q → TrackRequest → NtStatus × Q
  requestRetrieveInputBuffer : TrackRequest → Nat → NtStatus
  requestRetrieveOutputBuffer : TrackRequest → Nat → NtStatus

def foundRequest : List TrackRequest → NtStatus × Option TrackRequest
  | [] => (.noMoreEntries, none)
  | request :: _ => (.success, some request)

/-- The documented behaviour of a queue that holds `requests`: a search starts at the head or behind
a request it found before, a request that is found can be taken out, and a buffer is handed out if
it is long enough. -/
structure Wdf.Documented (wdf : Wdf Q) (requests : Q → List TrackRequest) : Prop where
  find_head : ∀ queue, wdf.ioQueueFindRequest queue none = foundRequest (requests queue)
  find_behind : ∀ queue before request after, requests queue = before ++ request :: after →
    wdf.ioQueueFindRequest queue (some request) = foundRequest after
  retrieve : ∀ queue before request after, requests queue = before ++ request :: after →
    ∃ queue', wdf.ioQueueRetrieveFoundRequest queue request = (.success, queue') ∧
      requests queue' = before ++ after
  input : ∀ request length, wdf.requestRetrieveInputBuffer request length = .success ↔
    length ≤ request.inputBuffer.length
  output : ∀ request length, wdf.requestRetrieveOutputBuffer request length = .success ↔
    length ≤ request.outputBufferLength

/-! ## `isr_alert_worker` -/

-- A request that was completed, and the `matches` it returned.
structure Completion where
  request : TrackRequest
  matched : BitVec 32
  deriving DecidableEq

structure AlertScan (Q : Type) where
  queue : Q
  prevTagRequest : Option TrackRequest
  completed : List Completion

-- The second half of a round, with a request in hand.
def isrAlertRequest (wdf : Wdf Q) (isrValue : BitVec 32) (scan : AlertScan Q)
    (tagRequest : TrackRequest) : Bool × AlertScan Q :=
  if wdf.requestRetrieveInputBuffer tagRequest 4 ≠ .success then (false, scan)
  else if wdf.requestRetrieveOutputBuffer tagRequest 4 ≠ .success then (false, scan)
  else if isrValue &&& tagRequest.mask ≠ 0 then
    let (status, queue) := wdf.ioQueueRetrieveFoundRequest scan.queue tagRequest
    -- It has disappeared from the queue, so the search starts again.
    if status = .notFound then (true, { scan with queue, prevTagRequest := none })
    else if status ≠ .success then (false, { scan with queue, prevTagRequest := none })
    else (true, ⟨queue, none, scan.completed ++ [⟨tagRequest, isrValue &&& tagRequest.mask⟩]⟩)
  else (true, { scan with prevTagRequest := some tagRequest })

/-- One round of the loop; `false` leaves it. -/
def isrAlertStep (wdf : Wdf Q) (isrValue : BitVec 32) (scan : AlertScan Q) : Bool × AlertScan Q :=
  let (status, tagRequest) := wdf.ioQueueFindRequest scan.queue scan.prevTagRequest
  if status = .noMoreEntries then (false, scan)
  else if status = .notFound then (true, { scan with prevTagRequest := none })
  else if status ≠ .success then (false, scan)
  else match tagRequest with
    | some tagRequest => isrAlertRequest wdf isrValue scan tagRequest
    | none => (false, scan)

-- Nothing bounds the number of rounds, so the loop may run out of fuel.
def isrAlertLoop (wdf : Wdf Q) (isrValue : BitVec 32) : Nat → AlertScan Q → Option (AlertScan Q)
  | 0, _ => none
  | fuel + 1, scan =>
      match isrAlertStep wdf isrValue scan with
      | (true, scan) => isrAlertLoop wdf isrValue fuel scan
      | (false, scan) => some scan

def isrAlertWorker (wdf : Wdf Q) (fuel : Nat) (port : IsrPort) (queue : Q) :
    Option (IsrPort × AlertScan Q) :=
  (isrAlertLoop wdf port.lastIsrValue fuel ⟨queue, none, []⟩).map fun scan ↦
    ({ port with lastIsrValue := 0 }, scan)

end FsccDriver

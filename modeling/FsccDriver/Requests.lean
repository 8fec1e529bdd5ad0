import FsccDriver.Defines
import FsccDriver.Lib.Bytes
import FsccDriver.Lib.Calls
import Mathlib.Logic.Function.Basic

/-!
# Requests — the calls of the framework that deal with requests

A request that was delivered is with the driver until the driver forwards it to one of its manual
queues or completes it.  What a call returns is up to `Outcome`; the queues, the completions and the
references follow the documented behaviour.
-/

namespace FsccDriver

open Calls (Program)

/-! ## Requests and queues -/

-- `length` is the length in the parameters of a read or a write.
structure Request where
  handle : Nat
  length : Nat
  buffer : List Byte
  deriving DecidableEq

inductive ManualQueue where
  | readQueue2
  | writeQueue2
  | blockingRequestQueue
  | isrQueue
  deriving DecidableEq

def manualQueues : List ManualQueue := [.readQueue2, .writeQueue2, .blockingRequestQueue, .isrQueue]

/-! ## The calls -/

-- The last two are no calls of the framework: an access to a buffer that was retrieved, and the
-- allocation of pool memory.
inductive RequestCall where
  | ioQueueRetrieveNextRequest (queue : ManualQueue)
  | ioQueueFindRequest (queue : ManualQueue) (tagRequest : Option Request)
  | ioQueueRetrieveFoundRequest (queue : ManualQueue) (request : Request)
  | ioQueuePurgeSynchronously (queue : ManualQueue)
  | objectDereference (request : Request)
  | requestForwardToIoQueue (request : Request) (queue : ManualQueue)
  | requestGetParameters (request : Request)
  | requestRetrieveInputBuffer (request : Request) (length : Nat)
  | requestRetrieveOutputBuffer (request : Request) (length : Nat)
  | requestComplete (request : Request) (status : NtStatus) (information : Nat)
  | accessBuffer (request : Request)
  | exAllocatePool

def RequestCall.Answer : RequestCall → Type
  | .ioQueueRetrieveNextRequest _ => Except NtStatus Request
  | .ioQueueFindRequest _ _ => Except NtStatus Request
  | .ioQueueRetrieveFoundRequest _ _ => NtStatus
  | .ioQueuePurgeSynchronously _ => Unit
  | .objectDereference _ => Unit
  | .requestForwardToIoQueue _ _ => NtStatus
  | .requestGetParameters _ => Nat
  | .requestRetrieveInputBuffer _ _ => NtStatus
  | .requestRetrieveOutputBuffer _ _ => NtStatus
  | .requestComplete _ _ _ => Unit
  | .accessBuffer _ => List Byte
  | .exAllocatePool => Bool

abbrev Handler (α : Type) := Program RequestCall RequestCall.Answer α

def wdfIoQueueRetrieveNextRequest (queue : ManualQueue) : Handler (Except NtStatus Request) :=
  .make (RequestCall.ioQueueRetrieveNextRequest queue)

def wdfIoQueueFindRequest (queue : ManualQueue) (tagRequest : Option Request) :
    Handler (Except NtStatus Request) :=
  .make (RequestCall.ioQueueFindRequest queue tagRequest)

def wdfIoQueueRetrieveFoundRequest (queue : ManualQueue) (request : Request) : Handler NtStatus :=
  .make (RequestCall.ioQueueRetrieveFoundRequest queue request)

def wdfIoQueuePurgeSynchronously (queue : ManualQueue) : Handler Unit :=
  .make (RequestCall.ioQueuePurgeSynchronously queue)

def wdfObjectDereference (request : Request) : Handler Unit := .make (RequestCall.objectDereference request)

def wdfRequestForwardToIoQueue (request : Request) (queue : ManualQueue) : Handler NtStatus :=
  .make (RequestCall.requestForwardToIoQueue request queue)

def wdfRequestGetParameters (request : Request) : Handler Nat := .make (RequestCall.requestGetParameters request)

def wdfRequestRetrieveInputBuffer (request : Request) (length : Nat) : Handler NtStatus :=
  .make (RequestCall.requestRetrieveInputBuffer request length)

def wdfRequestRetrieveOutputBuffer (request : Request) (length : Nat) : Handler NtStatus :=
  .make (RequestCall.requestRetrieveOutputBuffer request length)

def wdfRequestCompleteWithInformation (request : Request) (status : NtStatus) (information : Nat) :
    Handler Unit :=
  .make (RequestCall.requestComplete request status information)

def wdfRequestComplete (request : Request) (status : NtStatus) : Handler Unit :=
  wdfRequestCompleteWithInformation request status 0

def accessBuffer (request : Request) : Handler (List Byte) := .make (RequestCall.accessBuffer request)

def exAllocatePool : Handler Bool := .make RequestCall.exAllocatePool

/-! ## The framework -/

/-- What the framework keeps of the requests: the manual queues, and the requests it has completed. -/
structure Queues where
  queue : ManualQueue → List Request
  completed : List Request

namespace Queues

def setQueue (q : Queues) (queue : ManualQueue) (requests : List Request) : Queues :=
  { q with queue := Function.update q.queue queue requests }

-- A request that is cancelled is completed by the framework.
def cancel (q : Queues) (requests : List Request) : Queues where
  queue := fun queue ↦ (q.queue queue).filter (· ∉ requests)
  completed := q.completed ++ manualQueues.flatMap fun queue ↦ (q.queue queue).filter (· ∈ requests)

def complete (q : Queues) (request : Request) : Queues :=
  { q with completed := q.completed ++ [request] }

def remove (q : Queues) (queue : ManualQueue) (request : Request) : Queues :=
  q.setQueue queue ((q.queue queue).erase request)

def forward (q : Queues) (request : Request) (queue : ManualQueue) : Queues :=
  q.setQueue queue (q.queue queue ++ [request])

def purge (q : Queues) (queue : ManualQueue) : Queues :=
  { q.setQueue queue [] with completed := q.completed ++ q.queue queue }

end Queues

/-- What a call may answer, and what it does to the queues.  A failure is any failure, and a call may
fail for reasons of its own. -/
inductive Answers : (c : RequestCall) → c.Answer → Queues → Queues → Prop where
  | retrieved {queue request requests q} : q.queue queue = request :: requests →
      Answers (.ioQueueRetrieveNextRequest queue) (.ok request) q (q.setQueue queue requests)
  | notRetrieved {queue status q} : Answers (.ioQueueRetrieveNextRequest queue) (.error status) q q
  -- A request that is found stays where it is.
  | found {queue tagRequest request q} : request ∈ q.queue queue →
      Answers (.ioQueueFindRequest queue tagRequest) (.ok request) q q
  | notFound {queue tagRequest status q} :
      Answers (.ioQueueFindRequest queue tagRequest) (.error status) q q
  | foundRetrieved {queue request q} : request ∈ q.queue queue →
      Answers (.ioQueueRetrieveFoundRequest queue request) NtStatus.success q (q.remove queue request)
  | foundNotRetrieved {queue request q} {status : NtStatus} : status ≠ .success →
      Answers (.ioQueueRetrieveFoundRequest queue request) status q q
  | purged {queue q} : Answers (.ioQueuePurgeSynchronously queue) () q (q.purge queue)
  | dereferenced {request q} : Answers (.objectDereference request) () q q
  | forwarded {request queue q} :
      Answers (.requestForwardToIoQueue request queue) NtStatus.success q (q.forward request queue)
  | notForwarded {request queue q} {status : NtStatus} : status ≠ .success →
      Answers (.requestForwardToIoQueue request queue) status q q
  | parameters {request q} : Answers (.requestGetParameters request) request.length q q
  | inputBuffer {request length status q} :
      Answers (.requestRetrieveInputBuffer request length) status q q
  | outputBuffer {request length status q} :
      Answers (.requestRetrieveOutputBuffer request length) status q q
  | completed {request status information q} :
      Answers (.requestComplete request status information) () q (q.complete request)
  | accessed {request buffer q} : Answers (.accessBuffer request) buffer q q
  | allocated {allocated q} : Answers .exAllocatePool allocated q q

/-- The framework as the driver sees it.  `cancel` is not a call of the driver: the framework cancels
requests that wait in a queue whenever it likes. -/
structure Framework (W : Type) where
  queues : W → Queues
  respond : (c : RequestCall) → W → c.Answer × W
  cancel : List Request → W → W

structure Framework.Documented {W : Type} (wdf : Framework W) : Prop where
  respond : ∀ c w, Answers c (wdf.respond c w).1 (wdf.queues w) (wdf.queues (wdf.respond c w).2)
  cancel : ∀ requests w, wdf.queues (wdf.cancel requests w) = (wdf.queues w).cancel requests

/-! ## A framework whose answers are given -/

/-- What is not decided by the queues: the requests that are cancelled before the call, and the status,
where a failure is any failure. -/
structure Outcome where
  cancelled : List Request
  status : NtStatus

/-- `unmatched` counts the dereferences of a request that had no reference to drop. -/
structure World extends Queues where
  outcomes : Nat → Outcome
  references : Request → Nat
  unmatched : Nat

namespace World

def next (w : World) : World := { w with outcomes := fun n ↦ w.outcomes (n + 1) }

def setQueue (w : World) (queue : ManualQueue) (requests : List Request) : World :=
  { w with toQueues := w.toQueues.setQueue queue requests }

def cancel (w : World) (requests : List Request) : World :=
  { w with toQueues := w.toQueues.cancel requests }

/-- The queues as a call finds them. -/
def look (w : World) : World := w.next.cancel (w.outcomes 0).cancelled

def reference (w : World) (request : Request) : World :=
  { w with references := Function.update w.references request (w.references request + 1) }

def dereference (w : World) (request : Request) : World :=
  if w.references request = 0 then { w with unmatched := w.unmatched + 1 }
  else { w with references := Function.update w.references request (w.references request - 1) }

def complete (w : World) (request : Request) : World :=
  { w with toQueues := w.toQueues.complete request }

-- The requests a search looks at: all of them, or those behind the one it found before.
def searched (requests : List Request) : Option Request → Except NtStatus (List Request)
  | none => .ok requests
  | some tagRequest =>
      if tagRequest ∈ requests then .ok (requests.dropWhile (· ≠ tagRequest)).tail
      else .error .notFound

def findRequest (w : World) (queue : ManualQueue) (tagRequest : Option Request) :
    Except NtStatus Request × World :=
  match searched (w.queue queue) tagRequest with
  | .error status => (.error status, w)
  | .ok [] => (.error .noMoreEntries, w)
  | .ok (request :: _) => (.ok request, w.reference request)

def retrieveNext (w : World) (queue : ManualQueue) : Except NtStatus Request × World :=
  match w.queue queue with
  | [] => (.error .noMoreEntries, w)
  | request :: requests => (.ok request, w.setQueue queue requests)

def remove (w : World) (queue : ManualQueue) (request : Request) : World :=
  { w with toQueues := w.toQueues.remove queue request }

def retrieveFound (w : World) (queue : ManualQueue) (request : Request) : NtStatus × World :=
  if request ∈ w.queue queue then (.success, w.remove queue request)
  else (.notFound, w)

def forward (w : World) (request : Request) (queue : ManualQueue) : World :=
  { w with toQueues := w.toQueues.forward request queue }

def purge (w : World) (queue : ManualQueue) : World :=
  { w with toQueues := w.toQueues.purge queue }

-- A call that is asked to fail fails before it does anything.
def answer (w : World) (status : NtStatus) : (c : RequestCall) → c.Answer × World
  | .ioQueueRetrieveNextRequest queue =>
      if status ≠ .success then (.error status, w) else w.retrieveNext queue
  | .ioQueueFindRequest queue tagRequest =>
      if status ≠ .success then (.error status, w) else w.findRequest queue tagRequest
  | .ioQueueRetrieveFoundRequest queue request =>
      if status ≠ .success then (status, w) else w.retrieveFound queue request
  | .ioQueuePurgeSynchronously queue => ((), w.purge queue)
  | .objectDereference request => ((), w.dereference request)
  | .requestForwardToIoQueue request queue =>
      if status ≠ .success then (status, w) else (.success, w.forward request queue)
  | .requestGetParameters request => (request.length, w)
  | .requestRetrieveInputBuffer _ _ => (status, w)
  | .requestRetrieveOutputBuffer _ _ => (status, w)
  | .requestComplete request _ _ => ((), w.complete request)
  | .accessBuffer request => (request.buffer, w)
  | .exAllocatePool => (decide (status = .success), w)

/-- How the framework answers; requests may have been cancelled since the last call. -/
def respond (c : RequestCall) (w : World) : c.Answer × World :=
  w.look.answer (w.outcomes 0).status c

/-! ## What the calls return -/

variable {w : World} {queue : ManualQueue}

theorem searched_mem {requests found : List Request} {tagRequest : Option Request}
    (h : searched requests tagRequest = .ok found) : ∀ request ∈ found, request ∈ requests := by
  intro request hmem
  cases tagRequest with
  | none =>
    rw [searched] at h
    exact (Except.ok.inj h) ▸ hmem
  | some tagRequest =>
    rw [searched] at h
    split at h
    · rw [← Except.ok.inj h] at hmem
      exact (List.dropWhile_suffix _).mem (List.mem_of_mem_tail hmem)
    · cases h

theorem find_cases (w : World) (status : NtStatus) (queue : ManualQueue)
    (tagRequest : Option Request) :
    (∃ failure, w.answer status (.ioQueueFindRequest queue tagRequest) = (.error failure, w)) ∨
    ∃ request, w.answer status (.ioQueueFindRequest queue tagRequest) =
        (.ok request, w.reference request) ∧ request ∈ w.queue queue := by
  by_cases hfails : status ≠ .success
  · exact Or.inl ⟨_, if_pos hfails⟩
  · have hrun : w.answer status (.ioQueueFindRequest queue tagRequest) =
        w.findRequest queue tagRequest := if_neg hfails
    rw [hrun, findRequest]
    cases hsearched : searched (w.queue queue) tagRequest with
    | error status => exact Or.inl ⟨status, rfl⟩
    | ok found =>
      cases found with
      | nil => exact Or.inl ⟨_, rfl⟩
      | cons request found =>
        exact Or.inr ⟨request, rfl, searched_mem hsearched request List.mem_cons_self⟩

theorem retrieveNext_cases (w : World) (status : NtStatus) (queue : ManualQueue) :
    (∃ failure, w.answer status (.ioQueueRetrieveNextRequest queue) = (.error failure, w)) ∨
    ∃ request requests, w.queue queue = request :: requests ∧
      w.answer status (.ioQueueRetrieveNextRequest queue) =
        (.ok request, w.setQueue queue requests) := by
  by_cases hfails : status ≠ .success
  · exact Or.inl ⟨_, if_pos hfails⟩
  · have hrun : w.answer status (.ioQueueRetrieveNextRequest queue) = w.retrieveNext queue :=
      if_neg hfails
    rw [hrun, retrieveNext]
    cases hqueue : w.queue queue with
    | nil => exact Or.inl ⟨_, rfl⟩
    | cons request requests => exact Or.inr ⟨request, requests, rfl, rfl⟩

theorem retrieveFound_cases (w : World) (status : NtStatus) (queue : ManualQueue)
    (request : Request) :
    (∃ failure, failure ≠ .success ∧
      w.answer status (.ioQueueRetrieveFoundRequest queue request) = (failure, w)) ∨
    request ∈ w.queue queue ∧ w.answer status (.ioQueueRetrieveFoundRequest queue request) =
      (.success, w.remove queue request) := by
  by_cases hfails : status ≠ .success
  · exact Or.inl ⟨_, hfails, if_pos hfails⟩
  · have hrun : w.answer status (.ioQueueRetrieveFoundRequest queue request) =
        w.retrieveFound queue request := if_neg hfails
    rw [hrun, retrieveFound]
    by_cases hmem : request ∈ w.queue queue
    · rw [if_pos hmem]
      exact Or.inr ⟨hmem, rfl⟩
    · rw [if_neg hmem]
      exact Or.inl ⟨.notFound, (fun h ↦ by cases h), rfl⟩

theorem forward_cases (w : World) (status : NtStatus) (request : Request) (queue : ManualQueue) :
    (∃ failure, failure ≠ .success ∧
      w.answer status (.requestForwardToIoQueue request queue) = (failure, w)) ∨
    w.answer status (.requestForwardToIoQueue request queue) = (.success, w.forward request queue) := by
  by_cases hfails : status ≠ .success
  · exact Or.inl ⟨_, hfails, if_pos hfails⟩
  · exact Or.inr (if_neg hfails)

theorem dereference_queues (w : World) (request : Request) :
    (w.dereference request).toQueues = w.toQueues := by
  unfold dereference
  split <;> rfl

theorem answers (w : World) (status : NtStatus) (c : RequestCall) :
    Answers c (w.answer status c).1 w.toQueues (w.answer status c).2.toQueues := by
  cases c with
  | ioQueueRetrieveNextRequest queue =>
    rcases w.retrieveNext_cases status queue with ⟨_, hrun⟩ | ⟨request, requests, hqueue, hrun⟩ <;>
      rw [hrun]
    · exact Answers.notRetrieved
    · exact Answers.retrieved hqueue
  | ioQueueFindRequest queue tagRequest =>
    rcases w.find_cases status queue tagRequest with ⟨_, hrun⟩ | ⟨request, hrun, hmem⟩ <;> rw [hrun]
    · exact Answers.notFound
    · exact Answers.found hmem
  | ioQueueRetrieveFoundRequest queue request =>
    rcases w.retrieveFound_cases status queue request with ⟨_, hfails, hrun⟩ | ⟨hmem, hrun⟩ <;>
      rw [hrun]
    · exact Answers.foundNotRetrieved hfails
    · exact Answers.foundRetrieved hmem
  | ioQueuePurgeSynchronously queue => exact Answers.purged
  | objectDereference request =>
    show Answers (.objectDereference request) () w.toQueues (w.dereference request).toQueues
    rw [dereference_queues]
    exact Answers.dereferenced
  | requestForwardToIoQueue request queue =>
    rcases w.forward_cases status request queue with ⟨_, hfails, hrun⟩ | hrun <;> rw [hrun]
    · exact Answers.notForwarded hfails
    · exact Answers.forwarded
  | requestGetParameters request => exact Answers.parameters
  | requestRetrieveInputBuffer request length => exact Answers.inputBuffer
  | requestRetrieveOutputBuffer request length => exact Answers.outputBuffer
  | requestComplete request status information => exact Answers.completed
  | accessBuffer request => exact Answers.accessed
  | exAllocatePool => exact Answers.allocated

/-- The cancellations apart, a call takes the next outcome. -/
def framework : Framework World where
  queues := toQueues
  respond := fun c w ↦ w.next.answer (w.outcomes 0).status c
  cancel := fun requests w ↦ w.cancel requests

theorem framework_documented : framework.Documented :=
  ⟨fun c w ↦ w.next.answers (w.outcomes 0).status c, fun _ _ ↦ rfl⟩

end World

/-! ## How a handler goes on after a call -/

section Post

open World (respond)
open Calls.Program (Post)

variable {β : Type} {w : World} {queue : ManualQueue} {request : Request}
  {R : Option β → World → Prop}

theorem post_findRequest {tagRequest : Option Request} {f : Except NtStatus Request → Handler β}
    (herror : ∀ status, (respond (.ioQueueFindRequest queue tagRequest) w).1 = .error status →
      Post respond (f (.error status)) R w.look)
    (hok : ∀ request, (respond (.ioQueueFindRequest queue tagRequest) w).1 = .ok request →
      request ∈ w.look.queue queue → Post respond (f (.ok request)) R (w.look.reference request)) :
    Post respond (wdfIoQueueFindRequest queue tagRequest >>= f) R w := by
  show Post respond (f (respond (.ioQueueFindRequest queue tagRequest) w).1) R
    (respond (.ioQueueFindRequest queue tagRequest) w).2
  rcases w.look.find_cases (w.outcomes 0).status queue tagRequest with
    ⟨status, hrun⟩ | ⟨request, hrun, hmem⟩
  · rw [respond, hrun]
    exact herror status (congrArg Prod.fst hrun)
  · rw [respond, hrun]
    exact hok request (congrArg Prod.fst hrun) hmem

theorem post_retrieveFoundRequest {f : NtStatus → Handler β}
    (herror : ∀ status, status ≠ .success → Post respond (f status) R w.look)
    (hok : request ∈ w.look.queue queue →
      Post respond (f .success) R (w.look.remove queue request)) :
    Post respond (wdfIoQueueRetrieveFoundRequest queue request >>= f) R w := by
  show Post respond (f (respond (.ioQueueRetrieveFoundRequest queue request) w).1) R
    (respond (.ioQueueRetrieveFoundRequest queue request) w).2
  rcases w.look.retrieveFound_cases (w.outcomes 0).status queue request with
    ⟨status, hfails, hrun⟩ | ⟨hmem, hrun⟩
  · rw [respond, hrun]
    exact herror status hfails
  · rw [respond, hrun]
    exact hok hmem

theorem post_retrieveInputBuffer {length : Nat} {f : NtStatus → Handler β} :
    Post respond (wdfRequestRetrieveInputBuffer request length >>= f) R w ↔
      Post respond (f (w.outcomes 0).status) R w.look := Iff.rfl

theorem post_retrieveOutputBuffer {length : Nat} {f : NtStatus → Handler β} :
    Post respond (wdfRequestRetrieveOutputBuffer request length >>= f) R w ↔
      Post respond (f (w.outcomes 0).status) R w.look := Iff.rfl

theorem post_accessBuffer {f : List Byte → Handler β} :
    Post respond (accessBuffer request >>= f) R w ↔
      Post respond (f request.buffer) R w.look := Iff.rfl

theorem post_dereference {f : Unit → Handler β} :
    Post respond (wdfObjectDereference request >>= f) R w ↔
      Post respond (f ()) R (w.look.dereference request) := Iff.rfl

theorem post_complete {status : NtStatus} {information : Nat} {f : Unit → Handler β} :
    Post respond (wdfRequestCompleteWithInformation request status information >>= f) R w ↔
      Post respond (f ()) R (w.look.complete request) := Iff.rfl

end Post

end FsccDriver

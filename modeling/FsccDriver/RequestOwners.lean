import FsccDriver.Lib.Protocol
import FsccDriver.Lib.Runs
import FsccDriver.RequestHandlers
import Mathlib.Data.List.Count

/-!
# RequestOwners — what the handlers do with the requests in their hands

A request that was delivered is completed, or it waits in one of the manual queues, or a handler has it
in its hands.  `rules` says what a handler may do with the requests it has; each handler follows it,
whatever the calls answer.
-/

namespace FsccDriver.Handlers

open Words
open Calls (Program)

variable {H : Type} {hw : Hardware H}

/-! ## Runs of the handlers, one after the other -/

structure System (H : Type) where
  driver : Driver H
  world : World
  delivered : List Request

/-- A request that is delivered to a handler, a worker that is scheduled, requests that are cancelled
while they wait, or whatever else happens to the port. -/
inductive SystemEvent (H : Type) where
  | evtIoRead (request : Request)
  | evtIoWrite (request : Request)
  | evtIoDeviceControl (request : Request) (ioControlCode : IoControlCode)
  | processRead
  | allsWorker (rounds : Nat)
  | requestWorker
  | isrAlertWorker (rounds : Nat)
  | cancel (requests : List Request)
  | others (driver : Driver H)

-- The handler of an event, and the request it is given.
def SystemEvent.handler (hw : Hardware H) (d : Driver H) :
    SystemEvent H → Option Request × Handler (Driver H)
  | .evtIoRead request => (some request, do fsccEvtIoRead request; pure d)
  | .evtIoWrite request => (some request, fsccEvtIoWrite hw d request)
  | .evtIoDeviceControl request ioControlCode =>
      (some request, fsccEvtIoDeviceControl hw d request ioControlCode)
  | .processRead => (none, fsccProcessRead hw d)
  | .allsWorker rounds => (none, do Handlers.allsWorker rounds d; pure d)
  | .requestWorker => (none, Handlers.requestWorker hw d)
  | .isrAlertWorker rounds => (none, Handlers.isrAlertWorker rounds d)
  | .cancel _ => (none, pure d)
  | .others driver => (none, pure driver)

def System.handle (s : System H) (outcomes : Nat → Outcome) (handler : Handler (Driver H)) :
    System H :=
  let (driver, world) := handler.run World.respond { s.world with outcomes }
  { s with driver := driver.getD s.driver, world }

/-- A handler runs to its end in a step, and what its calls return is part of the step; `RequestThreads`
has the handlers side by side.  A request is only delivered once. -/
def systemStep (hw : Hardware H) (s : System H) (step : SystemEvent H × (Nat → Outcome)) :
    System H :=
  match step.1, step.1.handler hw s.driver with
  | .cancel requests, _ => { s with world := s.world.cancel requests }
  | _, (none, handler) => s.handle step.2 handler
  | _, (some request, handler) =>
      if request ∈ s.delivered then s
      else { s with delivered := s.delivered ++ [request] }.handle step.2 handler

def systemStart (driver : Driver H) (outcomes : Nat → Outcome) : System H where
  driver := driver
  world :=
    { outcomes, queue := fun _ ↦ [], completed := [], references := fun _ ↦ 0, unmatched := 0 }
  delivered := []

/-! ## Where a request is -/

def inQueues (q : Queues) (request : Request) : Nat :=
  (manualQueues.map fun queue ↦ (q.queue queue).count request).sum

/-- A request is completed exactly once, or it is once in one queue and nowhere else. -/
def AnsweredOrQueued (q : Queues) (request : Request) : Prop :=
  (q.completed.count request = 1 ∧ ∀ queue, request ∉ q.queue queue) ∨
    q.completed.count request = 0 ∧ ∃ queue, (q.queue queue).count request = 1 ∧
      ∀ queue' ≠ queue, request ∉ q.queue queue'

-- Everywhere the framework has it.
def placed (q : Queues) (request : Request) : Nat := q.completed.count request + inQueues q request

section Placed

variable {q : Queues} {request : Request} {queue : ManualQueue}

theorem inQueues_setQueue (q : Queues) (queue : ManualQueue) (requests : List Request)
    (request : Request) :
    inQueues (q.setQueue queue requests) request + (q.queue queue).count request =
      inQueues q request + requests.count request := by
  cases queue <;>
  · simp only [inQueues, manualQueues, Queues.setQueue, List.map_cons, List.map_nil,
      List.sum_cons, List.sum_nil, Function.update_self, ne_eq, reduceCtorEq, not_false_eq_true,
      Function.update_of_ne]
    omega

theorem count_le_inQueues (q : Queues) (queue : ManualQueue) (request : Request) :
    (q.queue queue).count request ≤ inQueues q request := by
  cases queue <;>
  · simp only [inQueues, manualQueues, List.map_cons, List.map_nil, List.sum_cons, List.sum_nil]
    omega

theorem exists_queue_of_inQueues (h : 0 < inQueues q request) : ∃ queue, request ∈ q.queue queue := by
  by_contra hnone
  have hzero : ∀ queue, (q.queue queue).count request = 0 :=
    fun queue ↦ List.count_eq_zero.mpr fun hmem ↦ hnone ⟨queue, hmem⟩
  simp only [inQueues, manualQueues, List.map_cons, List.map_nil, hzero] at h
  exact absurd h (by decide)

-- What is cancelled moves from the queues to the completions.
theorem placed_cancel (q : Queues) (requests : List Request) (request : Request) :
    placed (q.cancel requests) request = placed q request := by
  show (q.completed ++ manualQueues.flatMap fun queue ↦ (q.queue queue).filter (· ∈ requests)).count
      request + (manualQueues.map fun queue ↦
        ((q.queue queue).filter (· ∉ requests)).count request).sum = _
  rw [List.count_append, List.count_flatMap]
  by_cases hcancelled : request ∈ requests
  · have hin : ∀ queue, ((q.queue queue).filter (· ∈ requests)).count request =
        (q.queue queue).count request := fun queue ↦ List.count_filter (by simpa using hcancelled)
    have hout : ∀ queue, ((q.queue queue).filter (· ∉ requests)).count request = 0 := by
      intro queue
      apply List.count_eq_zero.mpr
      intro hmem
      simpa [hcancelled] using List.of_mem_filter hmem
    simp only [placed, inQueues, manualQueues, List.map_cons, List.map_nil, List.sum_cons,
      List.sum_nil, Function.comp_apply, hin, hout]
    omega
  · have hin : ∀ queue, ((q.queue queue).filter (· ∈ requests)).count request = 0 := by
      intro queue
      apply List.count_eq_zero.mpr
      intro hmem
      simpa [hcancelled] using List.of_mem_filter hmem
    have hout : ∀ queue, ((q.queue queue).filter (· ∉ requests)).count request =
        (q.queue queue).count request := fun queue ↦ List.count_filter (by simpa using hcancelled)
    simp only [placed, inQueues, manualQueues, List.map_cons, List.map_nil, List.sum_cons,
      List.sum_nil, Function.comp_apply, hin, hout]
    omega

end Placed

/-! ## The rules -/

/-- The requests that a handler was given or has taken out of a queue, and those that it has found and
not dropped its reference on. -/
structure Hands where
  held : List Request
  found : List Request

namespace Hands

def take (hands : Hands) (request : Request) : Hands := { hands with held := request :: hands.held }

def giveUp (hands : Hands) (request : Request) : Hands :=
  { hands with held := hands.held.erase request }

def after (hands : Hands) : (c : RequestCall) → c.Answer → Hands
  | .ioQueueRetrieveNextRequest _, (.ok request : Except NtStatus Request) => hands.take request
  | .ioQueueFindRequest _ _, (.ok request : Except NtStatus Request) =>
      { hands with found := request :: hands.found }
  | .ioQueueRetrieveFoundRequest _ request, (status : NtStatus) =>
      if status = .success then hands.take request else hands
  | .objectDereference request, _ => { hands with found := hands.found.erase request }
  | .requestForwardToIoQueue request _, (status : NtStatus) =>
      if status = .success then hands.giveUp request else hands
  | .requestComplete request _ _, _ => hands.giveUp request
  | _, _ => hands

end Hands

-- The request a call uses, whose handle has to be good for more than a search.
def RequestCall.uses : RequestCall → Option Request
  | .requestForwardToIoQueue request _ => some request
  | .requestGetParameters request => some request
  | .requestRetrieveInputBuffer request _ => some request
  | .requestRetrieveOutputBuffer request _ => some request
  | .requestComplete request _ _ => some request
  | .accessBuffer request => some request
  | _ => none

/-- A handler answers or forwards only what it has in its hands; it uses that and what it has found. -/
def rules : Calls.Protocol Hands RequestCall RequestCall.Answer where
  allowed hands
    | .requestForwardToIoQueue request _ => request ∈ hands.held
    | .requestComplete request _ _ => request ∈ hands.held
    | c => ∀ request ∈ RequestCall.uses c, request ∈ hands.held ∨ request ∈ hands.found
  after := Hands.after

theorem rules_uses {hands : Hands} {c : RequestCall} (h : rules.allowed hands c) :
    ∀ request ∈ RequestCall.uses c, request ∈ hands.held ∨ request ∈ hands.found := by
  intro request huses
  cases c with
  | requestForwardToIoQueue request' _ => exact Option.some.inj huses ▸ Or.inl h
  | requestComplete request' _ _ => exact Option.some.inj huses ▸ Or.inl h
  | _ => exact h request huses

/-! ## Nothing is lost, nothing comes twice -/

section Accounts

variable {delivered : List Request} {held : Request → Nat} {q q' : Queues} {request : Request}
  {c : RequestCall} {answer : c.Answer} {hands : Hands}

theorem count_take (hands : Hands) (request request' : Request) :
    (hands.take request).held.count request' =
      hands.held.count request' + if request == request' then 1 else 0 := List.count_cons

theorem count_giveUp (hmem : request ∈ hands.held) (request' : Request) :
    (hands.giveUp request).held.count request' + (if request == request' then 1 else 0) =
      hands.held.count request' := by
  rw [(List.perm_cons_erase hmem).count_eq request', List.count_cons]
  rfl

/-- A call moves requests between the framework and the hands of the handler. -/
theorem placed_answers (h : Answers c answer q q') (hallowed : rules.allowed hands c)
    (request : Request) :
    placed q' request + (hands.after c answer).held.count request =
      placed q request + hands.held.count request := by
  cases h with
  | @retrieved queue taken requests _ hqueue =>
    have hset := inQueues_setQueue q queue requests request
    rw [hqueue, List.count_cons] at hset
    show q.completed.count request + inQueues (q.setQueue queue requests) request +
      (hands.take taken).held.count request = _
    rw [count_take, Handlers.placed]
    omega
  | @foundRetrieved queue taken _ hmem =>
    have hset := inQueues_setQueue q queue ((q.queue queue).erase taken) request
    have hperm := (List.perm_cons_erase hmem).count_eq request
    rw [List.count_cons] at hperm
    show q.completed.count request + inQueues (q.setQueue queue _) request +
      (hands.take taken).held.count request = _
    rw [count_take, Handlers.placed]
    omega
  | foundNotRetrieved hfails =>
    show _ + (if _ then _ else hands).held.count request = _
    rw [if_neg hfails]
  | @purged queue _ =>
    have hset := inQueues_setQueue q queue [] request
    rw [List.count_nil] at hset
    show (q.completed ++ q.queue queue).count request + inQueues (q.setQueue queue []) request +
      hands.held.count request = _
    rw [List.count_append, Handlers.placed]
    omega
  | @forwarded given queue _ =>
    have hset := inQueues_setQueue q queue (q.queue queue ++ [given]) request
    have hgiven := count_giveUp (show given ∈ hands.held from hallowed) request
    rw [List.count_append, List.count_cons, List.count_nil] at hset
    show q.completed.count request + inQueues (q.setQueue queue _) request +
      (hands.giveUp given).held.count request = _
    rw [Handlers.placed]
    omega
  | notForwarded hfails =>
    show _ + (if _ then _ else hands).held.count request = _
    rw [if_neg hfails]
  | @completed given _ _ _ =>
    have hgiven := count_giveUp (show given ∈ hands.held from hallowed) request
    show (q.completed ++ [given]).count request + inQueues q request +
      (hands.giveUp given).held.count request = _
    rw [List.count_append, List.count_cons, List.count_nil, Handlers.placed]
    omega
  | _ => rfl

/-- Each request that was delivered is in one place: with the framework, or in the hands that `held`
counts. -/
structure Accounts (delivered : List Request) (held : Request → Nat) (q : Queues) : Prop where
  nodup : delivered.Nodup
  total : ∀ request, placed q request + held request = delivered.count request

theorem Accounts.once (h : Accounts delivered held q) (request : Request) :
    placed q request + held request ≤ 1 := by
  rw [h.total]
  exact List.nodup_iff_count.mp h.nodup request

theorem Accounts.cancel (h : Accounts delivered held q) (requests : List Request) :
    Accounts delivered held (q.cancel requests) :=
  ⟨h.nodup, fun request ↦ by rw [placed_cancel, h.total]⟩

theorem Accounts.answers (h : Accounts delivered (hands.held.count ·) q) (hanswers : Answers c answer q q')
    (hallowed : rules.allowed hands c) :
    Accounts delivered ((hands.after c answer).held.count ·) q' :=
  ⟨h.nodup, fun request ↦ by rw [placed_answers hanswers hallowed, h.total]⟩

theorem nodup_concat (h : delivered.Nodup) (hnew : request ∉ delivered) :
    (delivered ++ [request]).Nodup :=
  List.nodup_append.mpr ⟨h, List.pairwise_singleton _ request,
    fun _ ha _ hb hab ↦ hnew (List.mem_singleton.mp hb ▸ hab ▸ ha)⟩

/-- With nothing in hand, every request that was delivered is answered or waits. -/
theorem Accounts.answeredOrQueued (h : Accounts delivered (fun _ ↦ 0) q)
    (hdelivered : request ∈ delivered) : AnsweredOrQueued q request := by
  have hone : q.completed.count request + inQueues q request = 1 := by
    have htotal : q.completed.count request + inQueues q request + 0 = _ := h.total request
    have hle := List.nodup_iff_count.mp h.nodup request
    have hpos : 0 < delivered.count request := List.count_pos_iff.mpr hdelivered
    omega
  by_cases hcompleted : q.completed.count request = 1
  · refine Or.inl ⟨hcompleted, fun queue hmem ↦ ?_⟩
    have hle := count_le_inQueues q queue request
    have hpos : 0 < (q.queue queue).count request := List.count_pos_iff.mpr hmem
    omega
  · obtain ⟨queue, hmem⟩ := exists_queue_of_inQueues (show 0 < inQueues q request by omega)
    have hle := count_le_inQueues q queue request
    have hpos : 0 < (q.queue queue).count request := List.count_pos_iff.mpr hmem
    refine Or.inr ⟨by omega, queue, by omega, fun queue' hne hmem' ↦ ?_⟩
    have hset := inQueues_setQueue q queue [] request
    have hle' := count_le_inQueues (q.setQueue queue []) queue' request
    have hother : (q.setQueue queue []).queue queue' = q.queue queue' := Function.update_of_ne hne _ _
    have hpos' : 0 < (q.queue queue').count request := List.count_pos_iff.mpr hmem'
    rw [List.count_nil] at hset
    rw [hother] at hle'
    omega

end Accounts

/-! ## The handlers -/

section HandlerRules

variable {request : Request} {found : List Request} {d : Driver H}
  {others : Nat → Driver H → Driver H}

/-- The handler follows the rules and leaves nothing in its hands. -/
abbrev Settles {α : Type} (handler : Handler α) (hands : Hands) : Prop :=
  handler.Follows rules (fun _ hands ↦ hands.held = []) hands

theorem follows_retrieveFound {α : Type} {hands : Hands} {queue : ManualQueue}
    {f : NtStatus → Handler α} (hfails : ∀ status, status ≠ .success → Settles (f status) hands)
    (hok : Settles (f .success) (hands.take request)) :
    Settles (wdfIoQueueRetrieveFoundRequest queue request >>= f) hands := by
  refine ⟨fun _ huses ↦ absurd huses (Option.not_mem_none _), fun (status : NtStatus) ↦ ?_⟩
  show Settles (f status) (if status = .success then hands.take request else hands)
  by_cases hstatus : status = .success
  · rw [if_pos hstatus, hstatus]
    exact hok
  · rw [if_neg hstatus]
    exact hfails status hstatus

theorem follows_forward {α : Type} {hands : Hands} {queue : ManualQueue} {f : NtStatus → Handler α}
    (hheld : request ∈ hands.held) (hfails : ∀ status, status ≠ .success → Settles (f status) hands)
    (hok : Settles (f .success) (hands.giveUp request)) :
    Settles (wdfRequestForwardToIoQueue request queue >>= f) hands := by
  refine ⟨hheld, fun (status : NtStatus) ↦ ?_⟩
  show Settles (f status) (if status = .success then hands.giveUp request else hands)
  by_cases hstatus : status = .success
  · rw [if_pos hstatus, hstatus]
    exact hok
  · rw [if_neg hstatus]
    exact hfails status hstatus

-- Every completion of a handler, with the request in its hands.
theorem settles_complete {α : Type} (status : NtStatus) (information : Nat) (r : α) : Settles (do
      wdfRequestCompleteWithInformation request status information
      pure r) ⟨[request], found⟩ :=
  ⟨List.mem_cons_self, fun _ ↦ List.erase_cons_head _ _⟩

-- A request that is forwarded, or completed where that fails.
theorem settles_forward (queue : ManualQueue) (d : Driver H) : Settles (do
      let status ← wdfRequestForwardToIoQueue request queue
      if status ≠ .success then
        wdfRequestComplete request status
        pure d
      else pure d) ⟨[request], found⟩ := by
  apply follows_forward List.mem_cons_self
  · intro status hfails
    rw [if_pos hfails]
    exact settles_complete status 0 d
  · exact List.erase_cons_head _ _

-- A call that only looks at the request changes nothing in the hands.
theorem uses_held {hands : Hands} {c : RequestCall} (h : request ∈ hands.held)
    (huses : RequestCall.uses c = some request) :
    ∀ request' ∈ RequestCall.uses c, request' ∈ hands.held ∨ request' ∈ hands.found := by
  intro request' hmem
  rw [huses] at hmem
  exact Or.inl (Option.some.inj hmem ▸ h)

theorem uses_found {hands : Hands} {c : RequestCall} (h : request ∈ hands.found)
    (huses : RequestCall.uses c = some request) :
    ∀ request' ∈ RequestCall.uses c, request' ∈ hands.held ∨ request' ∈ hands.found := by
  intro request' hmem
  rw [huses] at hmem
  exact Or.inr (Option.some.inj hmem ▸ h)

theorem uses_none {hands : Hands} {c : RequestCall} (huses : RequestCall.uses c = none) :
    ∀ request' ∈ RequestCall.uses c, request' ∈ hands.held ∨ request' ∈ hands.found := by
  intro request' hmem
  rw [huses] at hmem
  cases hmem

theorem fsccEvtIoRead_settles : Settles (fsccEvtIoRead request) ⟨[request], []⟩ := by
  unfold fsccEvtIoRead
  apply Program.Follows.ite
  · exact fun _ ↦ settles_complete _ _ ()
  intro _
  apply follows_forward List.mem_cons_self
  · intro status hfails
    rw [if_pos hfails]
    exact settles_complete status 0 ()
  · exact List.erase_cons_head _ _

theorem fsccProcessReadAmong_settles : Settles (fsccProcessReadAmong hw others d) ⟨[], []⟩ := by
  unfold fsccProcessReadAmong
  apply Program.Follows.ite
  · exact fun _ ↦ rfl
  intro _
  apply Program.Follows.ite
  · exact fun _ ↦ rfl
  refine fun _ ↦ ⟨uses_none rfl, ?_⟩
  rintro (status | request)
  · exact rfl
  refine ⟨uses_held List.mem_cons_self rfl, fun length ↦ ⟨uses_held List.mem_cons_self rfl,
    fun (status : NtStatus) ↦ ?_⟩⟩
  apply Program.Follows.ite
  · exact fun _ ↦ settles_complete _ 0 d
  refine fun _ ↦ ⟨uses_held List.mem_cons_self rfl, fun data ↦ ?_⟩
  apply Program.Follows.ite
  · exact fun _ ↦ settles_complete _ 0 _
  · exact fun _ ↦ settles_complete _ _ _

theorem fsccEvtIoWriteAmong_settles :
    Settles (fsccEvtIoWriteAmong hw others d request) ⟨[request], []⟩ := by
  unfold fsccEvtIoWriteAmong
  apply Program.Follows.ite
  · exact fun _ ↦ settles_complete _ _ d
  intro _
  apply Program.Follows.ite
  · exact fun _ ↦ settles_complete _ 0 d
  intro _
  apply Program.Follows.ite
  · exact fun _ ↦ settles_forward .blockingRequestQueue d
  intro _
  apply Program.Follows.ite
  · exact fun _ ↦ settles_complete _ 0 d
  intro _
  dsimp only
  apply Program.Follows.ite
  · exact fun _ ↦ settles_complete _ 0 _
  refine fun _ ↦ ⟨uses_held List.mem_cons_self rfl, fun (status : NtStatus) ↦ ?_⟩
  apply Program.Follows.ite
  · exact fun _ ↦ settles_complete _ 0 _
  refine fun _ ↦ ⟨uses_held List.mem_cons_self rfl, fun data ↦ ?_⟩
  apply Program.Follows.ite
  · exact fun _ ↦ settles_forward .writeQueue2 _
  · exact fun _ ↦ settles_complete _ _ _

-- Induction over the rounds; nothing is in hand between two of them.
theorem allsLoop_settles (rounds : Nat) : Settles (allsLoop rounds) ⟨[], []⟩ := by
  induction rounds with
  | zero => exact rfl
  | succ rounds ih =>
    refine ⟨uses_none rfl, ?_⟩
    rintro (status | request)
    · exact rfl
    refine ⟨uses_held List.mem_cons_self rfl, fun length ↦ ⟨List.mem_cons_self, fun _ ↦ ?_⟩⟩
    show Settles (allsLoop rounds) ⟨[request].erase request, []⟩
    rw [List.erase_cons_head]
    exact ih

theorem allsWorker_settles (rounds : Nat) (d : Driver H) : Settles (allsWorker rounds d) ⟨[], []⟩ := by
  unfold allsWorker
  exact Program.Follows.ite (fun _ ↦ allsLoop_settles rounds) fun _ ↦ rfl

theorem requestWorkerAmong_settles : Settles (requestWorkerAmong hw others d) ⟨[], []⟩ := by
  unfold requestWorkerAmong
  refine ⟨uses_none rfl, ?_⟩
  rintro (status | tagRequest)
  · exact rfl
  apply Program.Follows.ite
  · exact fun _ ↦ rfl
  intro _
  apply follows_retrieveFound
  · intro status hfails
    refine ⟨uses_none rfl, fun _ ↦ ?_⟩
    show Settles (if status ≠ .success then _ else _) _
    rw [if_pos hfails]
    exact rfl
  refine ⟨uses_none rfl, fun _ ↦ ⟨uses_held List.mem_cons_self rfl, fun (status : NtStatus) ↦ ?_⟩⟩
  apply Program.Follows.ite
  · exact fun _ ↦ settles_complete _ 0 _
  · exact fun _ ↦ ⟨uses_held List.mem_cons_self rfl, fun data ↦ settles_complete _ _ _⟩

-- The reference on `prevTagRequest` is dropped, whatever else was found.
theorem follows_dereferencePrev {α : Type} {f : Unit → Handler α} (tagRequest : Option Request)
    (prevTagRequest : Option Request) (hnext : Settles (f ()) ⟨[], tagRequest.toList⟩) :
    Settles (Driver.dereferencePrev prevTagRequest >>= f)
      ⟨[], tagRequest.toList ++ prevTagRequest.toList⟩ := by
  cases prevTagRequest with
  | none =>
    show Settles (f ()) ⟨[], tagRequest.toList ++ []⟩
    rwa [List.append_nil]
  | some prevTagRequest =>
    refine ⟨uses_none rfl, fun _ ↦ ?_⟩
    show Settles (f ()) ⟨[], (tagRequest.toList ++ [prevTagRequest]).erase prevTagRequest⟩
    have herase : (tagRequest.toList ++ [prevTagRequest]).erase prevTagRequest = tagRequest.toList := by
      cases tagRequest with
      | none => exact List.erase_cons_head _ _
      | some tagRequest =>
        by_cases hsame : tagRequest = prevTagRequest
        · subst hsame
          exact List.erase_cons_head _ _
        · show (tagRequest :: [prevTagRequest]).erase prevTagRequest = [tagRequest]
          rw [List.erase_cons_tail (by simpa using hsame), List.erase_cons_head]
    rwa [herase]

/-- What `isr_alert_worker` has found it only uses; it answers what it has taken out of the queue. -/
theorem alertLoop_settles (isrValue : BitVec 32) (rounds : Nat) (prevTagRequest : Option Request) :
    Settles (alertLoop isrValue rounds prevTagRequest) ⟨[], prevTagRequest.toList⟩ := by
  induction rounds generalizing prevTagRequest with
  | zero => exact rfl
  | succ rounds ih =>
    refine ⟨uses_none rfl, ?_⟩
    rintro (status | tagRequest)
    · apply follows_dereferencePrev none prevTagRequest
      apply Program.Follows.ite
      · exact fun _ ↦ rfl
      · exact fun _ ↦ Program.Follows.ite (fun _ ↦ ih none) fun _ ↦ rfl
    apply follows_dereferencePrev (some tagRequest) prevTagRequest
    refine ⟨uses_found List.mem_cons_self rfl, fun (status : NtStatus) ↦ ?_⟩
    apply Program.Follows.ite
    · exact fun _ ↦ ⟨uses_none rfl, fun _ ↦ rfl⟩
    refine fun _ ↦ ⟨uses_found List.mem_cons_self rfl, fun (status : NtStatus) ↦ ?_⟩
    apply Program.Follows.ite
    · exact fun _ ↦ ⟨uses_none rfl, fun _ ↦ rfl⟩
    refine fun _ ↦ ⟨uses_found List.mem_cons_self rfl, fun mask ↦ ?_⟩
    apply Program.Follows.ite
    · intro _
      have hagain : Settles (alertLoop isrValue rounds none) ⟨[], [tagRequest].erase tagRequest⟩ := by
        rw [List.erase_cons_head]
        exact ih none
      apply follows_retrieveFound
      · refine fun status hfails ↦ ⟨uses_none rfl, fun _ ↦ ?_⟩
        apply Program.Follows.ite
        · exact fun _ ↦ hagain
        · exact fun _ ↦ Program.Follows.ite (fun _ ↦ rfl) fun hok ↦ absurd hfails hok
      · refine ⟨uses_none rfl, fun _ ↦ ⟨uses_held List.mem_cons_self rfl, fun _ ↦
          ⟨List.mem_cons_self, fun _ ↦ ?_⟩⟩⟩
        show Settles (alertLoop isrValue rounds none)
          ⟨[tagRequest].erase tagRequest, [tagRequest].erase tagRequest⟩
        rw [List.erase_cons_head]
        exact ih none
    · exact fun _ ↦ ih (some tagRequest)

theorem isrAlertWorker_settles (rounds : Nat) (d : Driver H) :
    Settles (isrAlertWorker rounds d) ⟨[], []⟩ :=
  (alertLoop_settles d.lastIsrValue rounds none).bind (fun _ _ h ↦ h) fun _ h ↦ h

/-- The handler comes to its end and still has the request in its hands. -/
abbrev Keeps {α : Type} (request : Request) (handler : Handler α) : Prop :=
  handler.Follows rules (fun result hands ↦ result.isSome = true ∧ hands = ⟨[request], []⟩)
    ⟨[request], []⟩

theorem withInput_keeps {length : Nat} {body : Handler (ControlResult H)} (hbody : Keeps request body) :
    Keeps request (withInput request length d body) :=
  ⟨uses_held List.mem_cons_self rfl, fun (_ : NtStatus) ↦
    Program.Follows.ite (fun _ ↦ ⟨rfl, rfl⟩) fun _ ↦ hbody⟩

theorem withOutput_keeps {length : Nat} {body : Handler (ControlResult H)} (hbody : Keeps request body) :
    Keeps request (withOutput request length d body) :=
  ⟨uses_held List.mem_cons_self rfl, fun (_ : NtStatus) ↦
    Program.Follows.ite (fun _ ↦ ⟨rfl, rfl⟩) fun _ ↦ hbody⟩

-- A body that reads or fills the buffer.
theorem keeps_access {f : List Byte → Handler (ControlResult H)}
    (hf : ∀ buffer, Keeps request (f buffer)) : Keeps request (accessBuffer request >>= f) :=
  ⟨uses_held List.mem_cons_self rfl, hf⟩

theorem ioControl_keeps (ioControlCode : IoControlCode) :
    Keeps request (ioControl hw d request ioControlCode) := by
  cases ioControlCode with
  | getRegisters => exact withInput_keeps (withOutput_keeps (keeps_access fun _ ↦ ⟨rfl, rfl⟩))
  | setRegisters =>
    refine withInput_keeps (keeps_access fun buffer ↦ ?_)
    generalize fsccPortSetRegisters hw (registersAt buffer) d.registers d.card = result
    exact ⟨rfl, rfl⟩
  | purgeTx => exact ⟨uses_none rfl, fun _ ↦ ⟨rfl, rfl⟩⟩
  | purgeRx => exact ⟨uses_none rfl, fun _ ↦ ⟨rfl, rfl⟩⟩
  | setClockBits => exact withInput_keeps (keeps_access fun _ ↦ ⟨uses_none rfl, fun _ ↦ ⟨rfl, rfl⟩⟩)
  | setTxModifiers => exact withInput_keeps (keeps_access fun _ ↦ ⟨rfl, rfl⟩)
  | get option => exact withOutput_keeps (keeps_access fun _ ↦ ⟨rfl, rfl⟩)
  | getTxModifiers => exact withOutput_keeps (keeps_access fun _ ↦ ⟨rfl, rfl⟩)
  | _ => exact ⟨rfl, rfl⟩

theorem fsccEvtIoDeviceControl_settles (ioControlCode : IoControlCode) :
    Settles (fsccEvtIoDeviceControl hw d request ioControlCode) ⟨[request], []⟩ := by
  unfold fsccEvtIoDeviceControl
  apply Program.Follows.ite
  · exact fun _ ↦ settles_forward .isrQueue d
  · intro _
    refine (ioControl_keeps ioControlCode).bind (fun result hands h ↦ ?_) fun hands h ↦ ?_
    · rw [h.2]
      exact settles_complete _ _ _
    · exact absurd h.1 Bool.false_ne_true

end HandlerRules

/-! ## Every run of handlers that run alone -/

section Runs

variable {s : System H}

def System.Settled (s : System H) : Prop := Accounts s.delivered (fun _ ↦ 0) s.world.toQueues

theorem Accounts.respond {delivered : List Request} {hands : Hands} (c : RequestCall) (w : World)
    (hallowed : rules.allowed hands c) (h : Accounts delivered (hands.held.count ·) w.toQueues) :
    Accounts delivered ((hands.after c (World.respond c w).1).held.count ·)
      (World.respond c w).2.toQueues :=
  Accounts.answers (h.cancel (w.outcomes 0).cancelled) (w.look.answers (w.outcomes 0).status c) hallowed

theorem System.handle_settled (hands : Hands) {outcomes : Nat → Outcome} {handler : Handler (Driver H)}
    (h : Accounts s.delivered (hands.held.count ·) s.world.toQueues) (hhandler : Settles handler hands) :
    (s.handle outcomes handler).Settled := by
  have hcall : ∀ (hands : Hands) c (w : World), rules.allowed hands c →
      Accounts s.delivered (hands.held.count ·) w.toQueues →
      Accounts s.delivered ((hands.after c (World.respond c w).1).held.count ·)
        (World.respond c w).2.toQueues := fun _ c w hallowed h ↦ h.respond c w hallowed
  obtain ⟨hands', hempty, haccounts⟩ := Program.Follows.post hcall hhandler
    (show Accounts s.delivered (hands.held.count ·) { s.world with outcomes }.toQueues from h)
  refine ⟨haccounts.nodup, fun request ↦ ?_⟩
  have htotal := haccounts.total request
  rw [hempty] at htotal
  exact htotal

theorem System.Settled.handle (h : s.Settled) {outcomes : Nat → Outcome}
    {handler : Handler (Driver H)} (hhandler : Settles handler ⟨[], []⟩) :
    (s.handle outcomes handler).Settled :=
  System.handle_settled ⟨[], []⟩ h hhandler

theorem System.Settled.deliver (h : s.Settled) {request : Request} {outcomes : Nat → Outcome}
    {handler : Handler (Driver H)} (hhandler : Settles handler ⟨[request], []⟩) :
    (if request ∈ s.delivered then s
      else { s with delivered := s.delivered ++ [request] }.handle outcomes handler).Settled := by
  split
  · exact h
  next hnew =>
    refine System.handle_settled ⟨[request], []⟩ ⟨nodup_concat h.nodup hnew, fun request' ↦ ?_⟩
      hhandler
    show placed s.world.toQueues request' + [request].count request' = (s.delivered ++ _).count request'
    rw [List.count_append, ← h.total request', Nat.add_zero]

theorem System.Settled.step (h : s.Settled) (step : SystemEvent H × (Nat → Outcome)) :
    (systemStep hw s step).Settled := by
  obtain ⟨event, outcomes⟩ := step
  cases event with
  | evtIoRead request =>
    exact h.deliver (fsccEvtIoRead_settles.bind (fun _ _ h ↦ h) fun _ h ↦ h)
  | evtIoWrite request => exact h.deliver fsccEvtIoWriteAmong_settles
  | evtIoDeviceControl request ioControlCode =>
    exact h.deliver (fsccEvtIoDeviceControl_settles ioControlCode)
  | processRead => exact h.handle fsccProcessReadAmong_settles
  | allsWorker rounds =>
    exact h.handle ((allsWorker_settles rounds s.driver).bind (fun _ _ h ↦ h) fun _ h ↦ h)
  | requestWorker => exact h.handle requestWorkerAmong_settles
  | isrAlertWorker rounds => exact h.handle (isrAlertWorker_settles rounds s.driver)
  | cancel requests => exact Accounts.cancel h requests
  | others driver => exact h.handle rfl

end Runs

end FsccDriver.Handlers

import FsccDriver.Lib.Fifo
import FsccDriver.PortWorkers
import FsccDriver.RequestRefs

/-!
# RequestOrder — requests are served in the order they came

The manual queues give the driver the request that waits longest, and the driver never puts one back.
Only `isr_queue` is searched: its requests wait for different interrupts.
-/

namespace FsccDriver.Handlers

open Calls (Program)
open Fifo (Behind)

variable {H : Type} {hw : Hardware H} {queue : ManualQueue} {a b : Request} {w w' : World}

/-! ## One call -/

/-- `b` is not cancelled, and as long as `a` waits, which it does only once, `b` waits behind it. -/
structure Waits (queue : ManualQueue) (a b : Request) (w : World) : Prop where
  spared : ∀ n, b ∉ (w.outcomes n).cancelled
  once : (w.queue queue).count a ≤ 1
  behind : Behind a b (w.queue queue)

theorem Waits.same (h : Waits queue a b w) (hqueue : w'.queue queue = w.queue queue)
    (houtcomes : w'.outcomes = w.outcomes) : Waits queue a b w' := by
  refine ⟨?_, ?_, ?_⟩
  · rw [houtcomes]
    exact h.spared
  · rw [hqueue]
    exact h.once
  · rw [hqueue]
    exact h.behind

theorem Waits.next (h : Waits queue a b w) : Waits queue a b w.next :=
  ⟨fun n ↦ h.spared (n + 1), h.once, h.behind⟩

theorem Waits.dereference (h : Waits queue a b w) (request : Request) :
    Waits queue a b (w.dereference request) := by
  unfold World.dereference
  split <;> exact h.same rfl rfl

theorem Waits.cancel (h : Waits queue a b w) {requests : List Request} (hb : b ∉ requests) :
    Waits queue a b (w.cancel requests) := by
  refine ⟨h.spared, ?_, h.behind.filter (by simpa using hb)⟩
  exact (List.filter_sublist.count_le a).trans h.once

theorem Waits.look (h : Waits queue a b w) : Waits queue a b w.look := h.next.cancel (h.spared 0)

theorem Waits.setQueue (h : Waits queue a b w) {queue' : ManualQueue} {requests : List Request}
    (hset : queue' = queue → requests.count a ≤ 1 ∧ Behind a b requests) :
    Waits queue a b (w.setQueue queue' requests) := by
  by_cases hsame : queue' = queue
  · obtain ⟨honce, hbehind⟩ := hset hsame
    subst hsame
    have hqueue : (w.setQueue queue' requests).queue queue' = requests := Function.update_self _ _ _
    refine ⟨h.spared, ?_, ?_⟩
    · rw [hqueue]
      exact honce
    · rw [hqueue]
      exact hbehind
  · exact h.same (Function.update_of_ne (Ne.symm hsame) _ _) rfl

theorem Waits.leave (h : Waits queue a b w) {request : Request} {requests : List Request}
    (hqueue : w.queue queue = request :: requests) : requests.count a ≤ 1 ∧ Behind a b requests := by
  have honce := h.once
  have hbehind := h.behind
  rw [hqueue] at honce hbehind
  rw [List.count_cons] at honce
  refine ⟨by omega, hbehind.leave fun hmem hsame ↦ ?_⟩
  have hpos : 0 < requests.count a := List.count_pos_iff.mpr hmem
  rw [if_pos (beq_iff_eq.mpr hsame)] at honce
  omega

theorem Waits.retrieveNext (h : Waits queue a b w) (queue' : ManualQueue) :
    Waits queue a b (w.retrieveNext queue').2 := by
  rw [World.retrieveNext]
  cases hqueue : w.queue queue' with
  | nil => exact h
  | cons request requests =>
    refine h.setQueue fun hsame ↦ ?_
    subst hsame
    exact h.leave hqueue

theorem Waits.forward (h : Waits queue a b w) {request : Request} (hnew : request ≠ a)
    (queue' : ManualQueue) : Waits queue a b (w.forward request queue') := by
  refine h.setQueue fun hsame ↦ ?_
  subst hsame
  refine ⟨?_, h.behind.join hnew⟩
  rw [List.count_append, List.count_singleton, if_neg fun heq ↦ hnew (beq_iff_eq.mp heq)]
  exact h.once

theorem Waits.purge (h : Waits queue a b w) (queue' : ManualQueue) :
    Waits queue a b (w.purge queue') := by
  have hempty : Waits queue a b (w.setQueue queue' []) :=
    h.setQueue fun _ ↦ ⟨Nat.zero_le 1, fun hmem ↦ absurd hmem List.not_mem_nil⟩
  exact hempty.same rfl rfl

theorem Waits.findRequest (h : Waits queue a b w) (queue' : ManualQueue) (tagRequest : Option Request) :
    Waits queue a b (w.findRequest queue' tagRequest).2 := by
  rw [World.findRequest]
  cases World.searched (w.queue queue') tagRequest with
  | error status => exact h
  | ok found =>
    cases found with
    | nil => exact h
    | cons request found => exact h.same rfl rfl

/-- The calls that leave the order of a queue alone: nothing is taken out of its middle, and `a` is
not put into it again. -/
def Orderly (queue : ManualQueue) (a : Request) : RequestCall → Prop
  | .ioQueueRetrieveFoundRequest queue' _ => queue' ≠ queue
  | .requestForwardToIoQueue request _ => request ≠ a
  | _ => True

theorem Waits.answer (h : Waits queue a b w) (status : NtStatus) {c : RequestCall}
    (hc : Orderly queue a c) : Waits queue a b (w.answer status c).2 := by
  have hite : ∀ {α : Type} {c : Prop} [Decidable c] {p q : α × World}, Waits queue a b p.2 →
      Waits queue a b q.2 → Waits queue a b (if c then p else q).2 := by
    intro α c _ p q hp hq
    split
    · exact hp
    · exact hq
  cases c with
  | ioQueueRetrieveNextRequest queue' => exact hite h (h.retrieveNext queue')
  | ioQueueFindRequest queue' tagRequest => exact hite h (h.findRequest queue' tagRequest)
  | ioQueueRetrieveFoundRequest queue' request =>
    have hother : queue' ≠ queue := hc
    refine hite h ?_
    unfold World.retrieveFound
    exact hite (h.setQueue fun hsame ↦ absurd hsame hother) h
  | ioQueuePurgeSynchronously queue' => exact h.purge queue'
  | objectDereference request => exact h.dereference request
  | requestForwardToIoQueue request queue' => exact hite h (h.forward hc queue')
  | requestComplete request _ _ => exact h.same rfl rfl
  | _ => exact h

theorem Waits.respond (c : RequestCall) (w : World) (hc : Orderly queue a c) (h : Waits queue a b w) :
    Waits queue a b (World.respond c w).2 := h.look.answer _ hc

/-! ## The handlers -/

section Handlers

variable {d : Driver H} {request : Request}

-- What a handler does with a request in its hands.
theorem complete_orderly {α : Type} (request : Request) (status : NtStatus) (information : Nat)
    (r : α) : (do
      wdfRequestCompleteWithInformation request status information
      pure r : Handler α).Only (Orderly queue a) := ⟨trivial, fun _ ↦ trivial⟩

theorem forward_orderly (hnew : request ≠ a) (queue' : ManualQueue) (d : Driver H) : (do
    let status ← wdfRequestForwardToIoQueue request queue'
    if status ≠ .success then
      wdfRequestComplete request status
      pure d
    else pure d : Handler (Driver H)).Only (Orderly queue a) := by
  refine ⟨hnew, fun (status : NtStatus) ↦ ?_⟩
  exact Program.Only.ite (fun _ ↦ ⟨trivial, fun _ ↦ trivial⟩) fun _ ↦ trivial

theorem fsccEvtIoRead_orderly (hnew : request ≠ a) :
    (fsccEvtIoRead request).Only (Orderly queue a) := by
  unfold fsccEvtIoRead
  apply Program.Only.ite
  · exact fun _ ↦ ⟨trivial, fun _ ↦ trivial⟩
  · refine fun _ ↦ ⟨hnew, fun (status : NtStatus) ↦ ?_⟩
    exact Program.Only.ite (fun _ ↦ ⟨trivial, fun _ ↦ trivial⟩) fun _ ↦ trivial

theorem fsccEvtIoWrite_orderly (hnew : request ≠ a) :
    (fsccEvtIoWrite hw d request).Only (Orderly queue a) := by
  unfold fsccEvtIoWrite
  apply Program.Only.ite
  · exact fun _ ↦ complete_orderly request _ _ d
  intro _
  apply Program.Only.ite
  · exact fun _ ↦ complete_orderly request _ _ d
  intro _
  apply Program.Only.ite
  · exact fun _ ↦ forward_orderly hnew .blockingRequestQueue d
  intro _
  apply Program.Only.ite
  · exact fun _ ↦ complete_orderly request _ _ d
  intro _
  apply Program.Only.ite
  · exact fun _ ↦ complete_orderly request _ _ _
  refine fun _ ↦ ⟨trivial, fun (status : NtStatus) ↦ ?_⟩
  apply Program.Only.ite
  · exact fun _ ↦ complete_orderly request _ _ _
  refine fun _ ↦ ⟨trivial, fun data ↦ ?_⟩
  apply Program.Only.ite
  · exact fun _ ↦ forward_orderly hnew .writeQueue2 _
  · exact fun _ ↦ complete_orderly request _ _ _

theorem fsccProcessRead_orderly : (fsccProcessRead hw d).Only (Orderly queue a) := by
  unfold fsccProcessRead
  apply Program.Only.ite
  · exact fun _ ↦ trivial
  intro _
  apply Program.Only.ite
  · exact fun _ ↦ trivial
  refine fun _ ↦ ⟨trivial, ?_⟩
  rintro (status | request)
  · exact trivial
  refine ⟨trivial, fun length ↦ ⟨trivial, fun (status : NtStatus) ↦ ?_⟩⟩
  apply Program.Only.ite
  · exact fun _ ↦ complete_orderly request _ _ d
  refine fun _ ↦ ⟨trivial, fun data ↦ ?_⟩
  apply Program.Only.ite
  · exact fun _ ↦ complete_orderly request _ _ _
  · exact fun _ ↦ complete_orderly request _ _ _

theorem allsLoop_orderly (rounds : Nat) : (allsLoop rounds).Only (Orderly queue a) := by
  induction rounds with
  | zero => exact trivial
  | succ rounds ih =>
    refine ⟨trivial, ?_⟩
    rintro (status | request)
    · exact trivial
    · exact ⟨trivial, fun _ ↦ ⟨trivial, fun _ ↦ ih⟩⟩

theorem allsWorker_orderly (rounds : Nat) (d : Driver H) :
    (allsWorker rounds d).Only (Orderly queue a) := by
  unfold allsWorker
  exact Program.Only.ite (fun _ ↦ allsLoop_orderly rounds) fun _ ↦ trivial

theorem dereferencePrev_orderly (prevTagRequest : Option Request) :
    (Driver.dereferencePrev prevTagRequest).Only (Orderly queue a) := by
  cases prevTagRequest with
  | none => exact trivial
  | some prevTagRequest => exact ⟨trivial, fun _ ↦ trivial⟩

-- `isr_alert_worker` takes what it finds out of the middle, but only of `isr_queue`.
theorem alertLoop_orderly (hqueue : queue ≠ .isrQueue) (isrValue : BitVec 32) (rounds : Nat)
    (prevTagRequest : Option Request) :
    (alertLoop isrValue rounds prevTagRequest).Only (Orderly queue a) := by
  induction rounds generalizing prevTagRequest with
  | zero => exact trivial
  | succ rounds ih =>
    refine ⟨trivial, fun found ↦ (dereferencePrev_orderly prevTagRequest).bind fun _ ↦ ?_⟩
    rcases found with status | tagRequest
    · apply Program.Only.ite
      · exact fun _ ↦ trivial
      · exact fun _ ↦ Program.Only.ite (fun _ ↦ ih none) fun _ ↦ trivial
    refine ⟨trivial, fun (status : NtStatus) ↦ ?_⟩
    apply Program.Only.ite
    · exact fun _ ↦ ⟨trivial, fun _ ↦ trivial⟩
    refine fun _ ↦ ⟨trivial, fun (status : NtStatus) ↦ ?_⟩
    apply Program.Only.ite
    · exact fun _ ↦ ⟨trivial, fun _ ↦ trivial⟩
    refine fun _ ↦ ⟨trivial, fun mask ↦ ?_⟩
    apply Program.Only.ite
    · refine fun _ ↦ ⟨hqueue.symm, fun (status : NtStatus) ↦ ⟨trivial, fun _ ↦ ?_⟩⟩
      apply Program.Only.ite
      · exact fun _ ↦ ih none
      intro _
      apply Program.Only.ite
      · exact fun _ ↦ trivial
      · exact fun _ ↦ ⟨trivial, fun _ ↦ ⟨trivial, fun _ ↦ ih none⟩⟩
    · exact fun _ ↦ ih (some tagRequest)

theorem withInput_orderly {length : Nat} {body : Handler (ControlResult H)}
    (hbody : body.Only (Orderly queue a)) :
    (withInput request length d body).Only (Orderly queue a) :=
  ⟨trivial, fun (_ : NtStatus) ↦ Program.Only.ite (fun _ ↦ trivial) fun _ ↦ hbody⟩

theorem withOutput_orderly {length : Nat} {body : Handler (ControlResult H)}
    (hbody : body.Only (Orderly queue a)) :
    (withOutput request length d body).Only (Orderly queue a) :=
  ⟨trivial, fun (_ : NtStatus) ↦ Program.Only.ite (fun _ ↦ trivial) fun _ ↦ hbody⟩

theorem ioControl_orderly (code : IoControlCode) :
    (ioControl hw d request code).Only (Orderly queue a) := by
  cases code with
  | getRegisters => exact withInput_orderly (withOutput_orderly ⟨trivial, fun _ ↦ trivial⟩)
  | setRegisters => exact withInput_orderly ⟨trivial, fun _ ↦ trivial⟩
  | purgeTx => exact ⟨trivial, fun _ ↦ trivial⟩
  | purgeRx => exact ⟨trivial, fun _ ↦ trivial⟩
  | setClockBits => exact withInput_orderly ⟨trivial, fun _ ↦ ⟨trivial, fun _ ↦ trivial⟩⟩
  | setTxModifiers => exact withInput_orderly ⟨trivial, fun _ ↦ trivial⟩
  | get option => exact withOutput_orderly ⟨trivial, fun _ ↦ trivial⟩
  | getTxModifiers => exact withOutput_orderly ⟨trivial, fun _ ↦ trivial⟩
  | enable option => exact trivial
  | disable option => exact trivial
  | trackInterrupts => exact trivial
  | unknown => exact trivial

theorem fsccEvtIoDeviceControl_orderly (hnew : request ≠ a) (code : IoControlCode) :
    (fsccEvtIoDeviceControl hw d request code).Only (Orderly queue a) := by
  unfold fsccEvtIoDeviceControl
  apply Program.Only.ite
  · exact fun _ ↦ forward_orderly hnew .isrQueue d
  · exact fun _ ↦ (ioControl_orderly code).bind fun _ ↦ ⟨trivial, fun _ ↦ trivial⟩

/-- The handler leaves the order of the queue as it was. -/
abbrev KeepsOrder {α : Type} (queue : ManualQueue) (a b : Request) (handler : Handler α) : Prop :=
  ∀ w, Waits queue a b w → Program.Post World.respond handler (fun _ w' ↦ Waits queue a b w') w

theorem keepsOrder_of_only {α : Type} {handler : Handler α} (h : handler.Only (Orderly queue a)) :
    KeepsOrder queue a b handler :=
  fun _ hw ↦ h.post Waits.respond hw

theorem findRequest_first {request : Request} (h :
    (World.respond (.ioQueueFindRequest queue none) w).1 = .ok request) :
    ∃ requests, w.look.queue queue = request :: requests := by
  have hanswer : (if (w.outcomes 0).status ≠ .success then (.error (w.outcomes 0).status, w.look)
      else w.look.findRequest queue none : Except NtStatus Request × World).1 = .ok request := h
  by_cases hfails : (w.outcomes 0).status ≠ .success
  · rw [if_pos hfails] at hanswer
    cases hanswer
  · rw [if_neg hfails, World.findRequest, World.searched] at hanswer
    cases hqueue : w.look.queue queue with
    | nil =>
      rw [hqueue] at hanswer
      cases hanswer
    | cons request' requests =>
      rw [hqueue] at hanswer
      obtain rfl := Except.ok.inj hanswer
      exact ⟨requests, rfl⟩

-- A cancellation may come in between, but nobody gets in front of the first one.
theorem Waits.removeFirst {queue' : ManualQueue} {request : Request} {requests : List Request}
    (h : Waits queue a b w.look) (hfirst : w.queue queue' = request :: requests)
    (hmem : request ∈ w.look.queue queue') :
    Waits queue a b (w.look.remove queue' request) := by
  have hlook : w.look.queue queue' =
      (request :: requests).filter (· ∉ (w.outcomes 0).cancelled) := by
    rw [← hfirst]
    rfl
  rw [hlook] at hmem
  have hkept := (List.mem_filter.mp hmem).2
  rw [List.filter_cons, if_pos hkept] at hlook
  refine h.setQueue fun hsame ↦ ?_
  subst hsame
  rw [hlook, List.erase_cons_head]
  exact h.leave hlook

/-- `request_worker` takes out the request it has found, which is still the first one. -/
theorem requestWorker_keepsOrder : KeepsOrder queue a b (requestWorker hw d) := by
  intro w h
  unfold requestWorker
  apply post_findRequest
  · exact fun _ _ ↦ h.look
  intro tagRequest hfound _
  obtain ⟨requests, hfirst⟩ := findRequest_first hfound
  have h₁ : Waits queue a b (w.look.reference tagRequest) := h.look.same rfl rfl
  apply Program.Post.ite
  · exact fun _ ↦ h₁
  intro _
  apply post_retrieveFoundRequest
  · intro status hfails
    rw [post_dereference, if_pos hfails]
    exact h₁.look.look.dereference tagRequest
  intro hmem
  have h₂ := (h₁.look.removeFirst hfirst hmem).look
  rw [post_dereference, if_neg (by decide)]
  refine Program.Only.post Waits.respond ?_ (h₂.dereference tagRequest)
  refine ⟨trivial, fun (status : NtStatus) ↦ ?_⟩
  apply Program.Only.ite
  · exact fun _ ↦ complete_orderly tagRequest _ _ d
  · exact fun _ ↦ ⟨trivial, fun _ ↦ complete_orderly tagRequest _ _ _⟩

end Handlers

/-! ## Every run -/

/-- The request is not cancelled at this step, neither by itself nor when a call looks at its queue. -/
def Spares (request : Request) (step : PortEvent H × (Nat → Outcome)) : Prop :=
  (∀ requests, step.1 = .cancel requests → request ∉ requests) ∧
    ∀ n, request ∉ (step.2 n).cancelled

structure InOrder (queue : ManualQueue) (a b : Request) (s : System H) : Prop where
  settled : s.Settled
  delivered : a ∈ s.delivered
  behind : Behind a b (s.world.queue queue)

section Runs

variable {s : System H}

theorem System.Settled.count_le (h : s.Settled) (queue : ManualQueue) (request : Request) :
    (s.world.queue queue).count request ≤ 1 := by
  have honce := Accounts.once h request
  have hle := count_le_inQueues s.world.toQueues queue request
  rw [placed] at honce
  omega

theorem System.Settled.mem_delivered (h : s.Settled) {queue : ManualQueue} {request : Request}
    (hmem : request ∈ s.world.queue queue) : request ∈ s.delivered := by
  have htotal := h.total request
  have hle := count_le_inQueues s.world.toQueues queue request
  rw [placed] at htotal
  have hpos : 0 < (s.world.queue queue).count request := List.count_pos_iff.mpr hmem
  exact List.count_pos_iff.mp (by omega)

theorem systemStep_mem_delivered (hw : Hardware H) (s : System H)
    (step : SystemEvent H × (Nat → Outcome)) {request : Request} (hmem : request ∈ s.delivered) :
    request ∈ (systemStep hw s step).delivered := by
  obtain ⟨event, outcomes⟩ := step
  rcases event with request' | request' | ⟨request', code⟩ | _ | rounds | _ | rounds | requests | driver
  case evtIoRead | evtIoWrite | evtIoDeviceControl =>
    show request ∈ (if request' ∈ s.delivered then s
      else ({ s with delivered := s.delivered ++ [request'] } : System H).handle outcomes _).delivered
    split
    · exact hmem
    · exact List.mem_append_left _ hmem
  all_goals exact hmem

theorem InOrder.step (h : InOrder queue a b s) (hqueue : queue ≠ .isrQueue)
    (step : SystemEvent H × (Nat → Outcome))
    (hcancel : ∀ requests, step.1 = .cancel requests → b ∉ requests)
    (hlooks : ∀ n, b ∉ (step.2 n).cancelled) : InOrder queue a b (systemStep hw s step) := by
  refine ⟨h.settled.step step, systemStep_mem_delivered hw s step h.delivered, ?_⟩
  obtain ⟨event, outcomes⟩ := step
  have hstart : Waits queue a b { s.world with outcomes } :=
    ⟨hlooks, h.settled.count_le queue a, h.behind⟩
  have hhandle : ∀ {s' : System H} {handler : Handler (Driver H)}, s'.world = s.world →
      KeepsOrder queue a b handler → Behind a b ((s'.handle outcomes handler).world.queue queue) := by
    intro s' handler hsame hkeeps
    have hpost := hkeeps { s'.world with outcomes } (hsame ▸ hstart)
    exact Waits.behind hpost
  have hdeliver : ∀ {request : Request} {handler : Handler (Driver H)},
      (request ≠ a → handler.Only (Orderly queue a)) →
      Behind a b ((if request ∈ s.delivered then s
        else { s with delivered := s.delivered ++ [request] }.handle outcomes handler).world.queue
          queue) := by
    intro request handler honly
    split
    · exact h.behind
    next hfresh =>
      exact hhandle rfl (keepsOrder_of_only (honly fun hsame ↦ hfresh (hsame ▸ h.delivered)))
  cases event with
  | evtIoRead request =>
    exact hdeliver fun hnew ↦ (fsccEvtIoRead_orderly hnew).bind fun _ ↦ trivial
  | evtIoWrite request => exact hdeliver fsccEvtIoWrite_orderly
  | evtIoDeviceControl request code => exact hdeliver fun hnew ↦ fsccEvtIoDeviceControl_orderly hnew code
  | processRead => exact hhandle rfl (keepsOrder_of_only fsccProcessRead_orderly)
  | allsWorker rounds =>
    exact hhandle rfl (keepsOrder_of_only ((allsWorker_orderly rounds s.driver).bind fun _ ↦ trivial))
  | requestWorker => exact hhandle rfl requestWorker_keepsOrder
  | isrAlertWorker rounds =>
    exact hhandle rfl (keepsOrder_of_only
      ((alertLoop_orderly hqueue s.driver.lastIsrValue rounds none).bind fun _ ↦ trivial))
  | cancel requests =>
    exact (hstart.cancel (hcancel requests rfl)).behind
  | others driver => exact h.behind

-- Only a cancellation is an event that cancels.
theorem PortEvent.event_cancel {d : Driver H} {event : PortEvent H} {requests : List Request}
    (h : event.event hw d = .cancel requests) : event = .cancel requests := by
  cases event with
  | cancel requests' => exact congrArg PortEvent.cancel (SystemEvent.cancel.inj h)
  | dpc queued rounds =>
    cases queued with
    | request => cases h
    | interrupt dpc => cases dpc <;> cases h
  | _ => cases h

theorem InOrder.run (hw : Hardware H) (hqueue : queue ≠ .isrQueue)
    {steps : List (PortEvent H × (Nat → Outcome))} (hspared : ∀ step ∈ steps, Spares b step)
    (h : InOrder queue a b s) : InOrder queue a b (steps.foldl (portStep hw) s) := by
  induction steps generalizing s with
  | nil => exact h
  | cons step steps ih =>
    obtain ⟨hcancel, hlooks⟩ := hspared step List.mem_cons_self
    refine ih (fun step' hmem ↦ hspared step' (List.mem_cons_of_mem step hmem)) ?_
    exact h.step hqueue _ (fun requests hevent ↦ hcancel requests (PortEvent.event_cancel hevent)) hlooks

theorem portRun_settled (hw : Hardware H) (driver : Driver H) (outcomes : Nat → Outcome)
    (steps : List (PortEvent H × (Nat → Outcome))) :
    (steps.foldl (portStep hw) (systemStart driver outcomes)).Settled := by
  have hstart : (systemStart driver outcomes).Settled := by
    refine ⟨List.nodup_nil, fun request ↦ ?_⟩
    simp only [placed, systemStart, inQueues, manualQueues, List.map_cons, List.map_nil, List.count_nil]
    rfl
  exact Runs.invariant (fun _ _ h ↦ h.step _) hstart steps

end Runs

/-- Requests are not overtaken: in every run, from any state of it on, a request that waits behind
another one in `read_queue2`, `write_queue2` or `blocking_request_queue` waits behind it for as long as
that one does, unless it is cancelled. -/
theorem fscc_requests_not_overtaken (hw : Hardware H) (driver : Driver H) (outcomes : Nat → Outcome)
    (hqueue : queue ≠ .isrQueue) (steps more : List (PortEvent H × (Nat → Outcome)))
    (hspared : ∀ step ∈ more, Spares b step) :
    let s := steps.foldl (portStep hw) (systemStart driver outcomes)
    let s' := more.foldl (portStep hw) s
    [a, b].Sublist (s.world.queue queue) → a ∈ s'.world.queue queue →
      [a, b].Sublist (s'.world.queue queue) := by
  intro s s' hbehind hwaits
  have hsettled := portRun_settled hw driver outcomes steps
  have hstart : InOrder queue a b s :=
    ⟨hsettled, hsettled.mem_delivered (hbehind.subset List.mem_cons_self), fun _ ↦ hbehind⟩
  exact (hstart.run hw hqueue hspared).behind hwaits

def byteWrite (handle : Nat) : Request := ⟨handle, 1, [7]⟩

-- Nothing is cancelled by the way, and every call succeeds.
def callsSucceed : Nat → Outcome := fun _ ↦ ⟨[], .success⟩

def freeTxDesc : DmaFrame := ⟨descCstopBit, 4, 4, [0, 0, 0, 0], 0⟩

def threeWrites : List (PortEvent Unit × (Nat → Outcome)) :=
  [(.evtIoWrite (byteWrite 0), callsSucceed), (.evtIoWrite (byteWrite 1), callsSucceed),
    (.evtIoWrite (byteWrite 2), callsSucceed)]

-- The ring gets room for the first write; a fourth one comes and is cancelled.
def firstServed : List (PortEvent Unit × (Nat → Outcome)) :=
  [(.hardware fullDriver.rx.rxDescriptors (fun _ ↦ freeTxDesc) (), callsSucceed),
    (.dpc .request 0, callsSucceed), (.evtIoWrite (byteWrite 3), callsSucceed),
    (.cancel [byteWrite 3], callsSucceed)]

theorem fscc_requests_not_overtaken_served :
    let s := threeWrites.foldl (portStep quietCard) (systemStart fullDriver callsSucceed)
    let s' := firstServed.foldl (portStep quietCard) s
    byteWrite 0 ∈ s'.world.completed ∧
      [byteWrite 1, byteWrite 2].Sublist (s'.world.queue .blockingRequestQueue) := by
  have hspared : ∀ step ∈ firstServed, Spares (byteWrite 2) step := by
    have hlooks : ∀ n, byteWrite 2 ∉ (callsSucceed n).cancelled := fun _ ↦ List.not_mem_nil
    have hcancel : ∀ requests, PortEvent.cancel [byteWrite 3] = (.cancel requests : PortEvent Unit) →
        byteWrite 2 ∉ requests := by
      intro requests hevent
      rw [← PortEvent.cancel.inj hevent]
      decide
    simp only [firstServed, List.forall_mem_cons]
    exact ⟨⟨fun _ h ↦ (by cases h), hlooks⟩, ⟨fun _ h ↦ (by cases h), hlooks⟩,
      ⟨fun _ h ↦ (by cases h), hlooks⟩, ⟨hcancel, hlooks⟩, fun _ hmem ↦ absurd hmem List.not_mem_nil⟩
  exact ⟨by decide, fscc_requests_not_overtaken quietCard fullDriver callsSucceed (by decide) threeWrites
    firstServed hspared (by decide) (by decide)⟩

end FsccDriver.Handlers

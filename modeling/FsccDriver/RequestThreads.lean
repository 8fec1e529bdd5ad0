import FsccDriver.RequestOwners
import FsccDriver.RequestRefs
import Mathlib.Algebra.Order.BigOperators.Group.List

/-!
# RequestThreads — the handlers side by side

Nothing makes the handlers wait for each other: each goes on from one call to the next while others do
the same, and the framework may cancel a request that waits between any two calls.  A request that
`isr_alert_worker` has found, but not taken out of its queue, can be gone before it looks at it.
-/

namespace FsccDriver.Handlers

open Calls (Program Thread)

variable {W H : Type} {wdf : Framework W} {hw : Hardware H}

/-! ## Runs of threads -/

/-- The handlers that begin, each in a thread of its own. -/
inductive Activation where
  | evtIoRead (request : Request)
  | evtIoWrite (request : Request)
  | evtIoDeviceControl (request : Request) (ioControlCode : IoControlCode)
  | processRead
  | allsWorker (rounds : Nat)
  | requestWorker
  | isrAlertWorker (rounds : Nat)

-- The handler, and the request it is given.
def Activation.handler (hw : Hardware H) (others : Nat → Driver H → Driver H) (d : Driver H) :
    Activation → Option Request × Handler (Driver H)
  | .evtIoRead request => (some request, do fsccEvtIoRead request; pure d)
  | .evtIoWrite request => (some request, fsccEvtIoWriteAmong hw others d request)
  | .evtIoDeviceControl request ioControlCode =>
      (some request, fsccEvtIoDeviceControl hw d request ioControlCode)
  | .processRead => (none, fsccProcessReadAmong hw others d)
  | .allsWorker rounds => (none, do Handlers.allsWorker rounds d; pure d)
  | .requestWorker => (none, requestWorkerAmong hw others d)
  | .isrAlertWorker rounds => (none, Handlers.isrAlertWorker rounds d)

abbrev HandlerThread (H : Type) := Thread Hands RequestCall RequestCall.Answer (Driver H)

/-- `late` counts the uses of a request that had been completed. -/
structure ThreadState (W H : Type) where
  world : W
  delivered : List Request
  threads : List (HandlerThread H)
  late : Nat

/-- A handler begins, on the port as it finds it and with what the others make of it afterwards; a
thread makes its next call; or requests that wait are cancelled. -/
inductive ThreadAction (H : Type) where
  | enter (activation : Activation) (driver : Driver H) (others : Nat → Driver H → Driver H)
  | call (i : Nat)
  | cancel (requests : List Request)

def usesCompleted (q : Queues) (c : RequestCall) : Bool :=
  (RequestCall.uses c).any fun request ↦ decide (request ∈ q.completed)

-- A request is only delivered once.
def threadStep (wdf : Framework W) (hw : Hardware H) (s : ThreadState W H) :
    ThreadAction H → ThreadState W H
  | .enter activation driver others =>
      let (given, handler) := activation.handler hw others driver
      if given.any fun request ↦ decide (request ∈ s.delivered) then s
      else
        { s with
          delivered := s.delivered ++ given.toList
          threads := s.threads ++ [⟨⟨given.toList, []⟩, handler⟩] }
  | .call i =>
      let moved := Calls.move Hands.after wdf.respond s.threads i s.world
      let late := (Calls.calling s.threads i).any fun called ↦
        usesCompleted (wdf.queues s.world) called.2
      { s with threads := moved.1, world := moved.2, late := if late then s.late + 1 else s.late }
  | .cancel requests => { s with world := wdf.cancel requests s.world }

def threadStart (world : W) : ThreadState W H := ⟨world, [], [], 0⟩

/-- No request is completed twice.  While no thread has a call to make, each request that was delivered
is completed or waits in one queue; the others are nowhere. -/
structure Accounted (wdf : Framework W) (s : ThreadState W H) : Prop where
  once : ∀ request, (wdf.queues s.world).completed.count request ≤ 1
  settled : (∀ thread ∈ s.threads, thread.program.nextCall = none) →
    ∀ request ∈ s.delivered, AnsweredOrQueued (wdf.queues s.world) request
  strangers : ∀ request ∉ s.delivered, request ∉ (wdf.queues s.world).completed ∧
    ∀ queue, request ∉ (wdf.queues s.world).queue queue

/-- And none has been used after its completion. -/
structure Answered (wdf : Framework W) (s : ThreadState W H) : Prop extends Accounted wdf s where
  inTime : s.late = 0

/-- A thread that uses a request it has found, and not taken out of its queue, finds it in its place:
it still waits, or another thread has it in its hands. -/
def FoundInPlace (wdf : Framework W) (s : ThreadState W H) : ThreadAction H → Prop
  | .call i => ∀ called ∈ Calls.calling s.threads i, ∀ request ∈ RequestCall.uses called.2,
      request ∉ called.1.held →
        (∃ queue ∈ manualQueues, request ∈ (wdf.queues s.world).queue queue) ∨
          ∃ thread ∈ s.threads, request ∈ thread.hands.held
  | _ => True

instance (s : ThreadState W H) : (action : ThreadAction H) → Decidable (FoundInPlace wdf s action)
  | .call i => inferInstanceAs (Decidable (∀ called ∈ Calls.calling s.threads i,
      ∀ request ∈ RequestCall.uses called.2, request ∉ called.1.held →
        (∃ queue ∈ manualQueues, request ∈ (wdf.queues s.world).queue queue) ∨
          ∃ thread ∈ s.threads, request ∈ thread.hands.held))
  | .enter _ _ _ => isTrue trivial
  | .cancel _ => isTrue trivial

/-! ## The invariant -/

def heldBy (threads : List (HandlerThread H)) (request : Request) : Nat :=
  (threads.map fun thread ↦ thread.hands.held.count request).sum

theorem heldBy_concat (threads : List (HandlerThread H)) (thread : HandlerThread H)
    (request : Request) :
    heldBy (threads ++ [thread]) request = heldBy threads request + thread.hands.held.count request := by
  rw [heldBy, List.map_append, List.sum_append, List.map_singleton, List.sum_singleton]
  rfl

theorem count_le_heldBy {threads : List (HandlerThread H)} {thread : HandlerThread H}
    (hthread : thread ∈ threads) (request : Request) :
    thread.hands.held.count request ≤ heldBy threads request :=
  List.le_sum_of_mem (List.mem_map_of_mem hthread)

theorem exists_thread_of_heldBy {threads : List (HandlerThread H)} {request : Request}
    (h : 0 < heldBy threads request) : ∃ thread ∈ threads, request ∈ thread.hands.held := by
  by_contra hnone
  have hzero : heldBy threads request = 0 := by
    refine List.sum_eq_zero fun n hn ↦ ?_
    obtain ⟨thread, hthread, rfl⟩ := List.mem_map.mp hn
    exact List.count_eq_zero.mpr fun hmem ↦ hnone ⟨thread, hthread, hmem⟩
  omega

/-- Every request is in one place, every thread follows the rules, and what a thread has found was
delivered. -/
structure Running (wdf : Framework W) (s : ThreadState W H) : Prop where
  accounts : Accounts s.delivered (heldBy s.threads) (wdf.queues s.world)
  settles : ∀ thread ∈ s.threads, Settles thread.program thread.hands
  found : ∀ thread ∈ s.threads, ∀ request ∈ thread.hands.found, request ∈ s.delivered

section Running

variable {s : ThreadState W H} {request : Request} {delivered : List Request}
  {held : Request → Nat} {q q' : Queues}

theorem Accounts.mem_delivered (h : Accounts delivered held q) {queue : ManualQueue}
    (hmem : request ∈ q.queue queue) : request ∈ delivered := by
  have htotal := h.total request
  have hle := count_le_inQueues q queue request
  have hpos : 0 < (q.queue queue).count request := List.count_pos_iff.mpr hmem
  rw [placed] at htotal
  exact List.count_pos_iff.mp (by omega)

theorem Accounts.waiting_not_completed (h : Accounts delivered held q) {queue : ManualQueue}
    (hmem : request ∈ q.queue queue) : request ∉ q.completed := by
  intro hcompleted
  have honce := h.once request
  have hle := count_le_inQueues q queue request
  have hpos : 0 < (q.queue queue).count request := List.count_pos_iff.mpr hmem
  have hpos' : 0 < q.completed.count request := List.count_pos_iff.mpr hcompleted
  rw [placed] at honce
  omega

theorem Accounts.held_not_completed (h : Accounts delivered held q) (hheld : 0 < held request) :
    request ∉ q.completed := by
  intro hcompleted
  have honce := h.once request
  have hpos : 0 < q.completed.count request := List.count_pos_iff.mpr hcompleted
  rw [placed] at honce
  omega

theorem Activation.settles (hw : Hardware H) (activation : Activation)
    (others : Nat → Driver H → Driver H) (d : Driver H) :
    Settles (activation.handler hw others d).2 ⟨(activation.handler hw others d).1.toList, []⟩ := by
  cases activation with
  | evtIoRead request => exact fsccEvtIoRead_settles.bind (fun _ _ h ↦ h) fun _ h ↦ h
  | evtIoWrite request => exact fsccEvtIoWriteAmong_settles
  | evtIoDeviceControl request ioControlCode => exact fsccEvtIoDeviceControl_settles ioControlCode
  | processRead => exact fsccProcessReadAmong_settles
  | allsWorker rounds => exact (allsWorker_settles rounds d).bind (fun _ _ h ↦ h) fun _ h ↦ h
  | requestWorker => exact requestWorkerAmong_settles
  | isrAlertWorker rounds => exact isrAlertWorker_settles rounds d

theorem Running.enter (h : Running wdf s) (activation : Activation) (driver : Driver H)
    (others : Nat → Driver H → Driver H) :
    Running wdf (threadStep wdf hw s (.enter activation driver others)) := by
  have hsettles := activation.settles hw others driver
  rw [threadStep]
  generalize activation.handler hw others driver = entry at hsettles
  obtain ⟨given, handler⟩ := entry
  dsimp only
  split
  · exact h
  next hnew =>
    refine ⟨⟨?_, fun request ↦ ?_⟩, Threads.forall_append_one h.settles hsettles,
      Threads.forall_append_one ?_ fun _ hmem ↦ absurd hmem List.not_mem_nil⟩
    · cases given with
      | none => exact (List.append_nil s.delivered).symm ▸ h.accounts.nodup
      | some request => exact nodup_concat h.accounts.nodup (by simpa using hnew)
    · rw [heldBy_concat, List.count_append, ← h.accounts.total request, Nat.add_assoc]
    · exact fun thread hthread request hmem ↦ List.mem_append_left _ (h.found thread hthread request hmem)

theorem Running.cancel (h : Running wdf s) (hwdf : wdf.Documented) (requests : List Request) :
    Running wdf (threadStep wdf hw s (.cancel requests)) := by
  refine ⟨?_, h.settles, h.found⟩
  show Accounts s.delivered (heldBy s.threads) (wdf.queues (wdf.cancel requests s.world))
  rw [hwdf.cancel]
  exact h.accounts.cancel requests

-- What a call adds to the requests that were found waits in a queue.
theorem found_after {hands : Hands} {c : RequestCall} {answer : c.Answer}
    (hanswers : Answers c answer q q') :
    ∀ request ∈ (hands.after c answer).found,
      request ∈ hands.found ∨ ∃ queue, request ∈ q.queue queue := by
  intro request hmem
  cases hanswers with
  | @found queue _ _ _ hfound =>
    rcases List.mem_cons.mp hmem with rfl | hold
    · exact Or.inr ⟨queue, hfound⟩
    · exact Or.inl hold
  | @foundNotRetrieved queue request' _ status hfails =>
    have hsame : hands.after (.ioQueueRetrieveFoundRequest queue request') status = hands := if_neg hfails
    exact Or.inl (hsame ▸ hmem)
  | @notForwarded request' queue _ status hfails =>
    have hsame : hands.after (.requestForwardToIoQueue request' queue) status = hands := if_neg hfails
    exact Or.inl (hsame ▸ hmem)
  | dereferenced => exact Or.inl (List.mem_of_mem_erase hmem)
  | _ => exact Or.inl hmem

theorem Running.call (h : Running wdf s) (hwdf : wdf.Documented) (i : Nat) :
    Running wdf (threadStep wdf hw s (.call i)) := by
  have hsettles := Calls.move_follows wdf.respond h.settles i s.world
  rcases Calls.move_cases Hands.after wdf.respond s.threads i s.world with
    ⟨-, hmove⟩ | ⟨hands, c, next, hthread, -, hmove⟩
  · rw [threadStep, hmove]
    exact ⟨h.accounts, h.settles, h.found⟩
  · have hmem := List.mem_of_getElem? hthread
    have hanswers := hwdf.respond c s.world
    have hallowed : rules.allowed hands c := (h.settles _ hmem).1
    rw [show rules.after = Hands.after from rfl, hmove] at hsettles
    rw [threadStep, hmove]
    refine ⟨⟨h.accounts.nodup, fun request ↦ ?_⟩, hsettles, Threads.forall_set h.found ?_⟩
    · have hplaced := placed_answers hanswers hallowed request
      have hset := Threads.sum_set (fun thread : HandlerThread H ↦ thread.hands.held.count request)
        hthread ⟨hands.after c (wdf.respond c s.world).1, next (wdf.respond c s.world).1⟩
      have htotal := h.accounts.total request
      show placed (wdf.queues (wdf.respond c s.world).2) request + heldBy (s.threads.set i _) request =
        s.delivered.count request
      rw [heldBy] at htotal ⊢
      dsimp only at hset
      omega
    · intro request hfound
      rcases found_after hanswers request hfound with hold | ⟨queue, hqueue⟩
      · exact h.found _ hmem request hold
      · exact h.accounts.mem_delivered hqueue

theorem Running.step (h : Running wdf s) (hwdf : wdf.Documented) (action : ThreadAction H) :
    Running wdf (threadStep wdf hw s action) := by
  cases action with
  | enter activation driver others => exact h.enter activation driver others
  | call i => exact h.call hwdf i
  | cancel requests => exact h.cancel hwdf requests

theorem threadRun_running (hwdf : wdf.Documented) (hw : Hardware H) {world : W}
    (hstart : wdf.queues world = ⟨fun _ ↦ [], []⟩) (actions : List (ThreadAction H)) :
    Running wdf (actions.foldl (threadStep wdf hw) (threadStart world)) := by
  refine Runs.invariant (fun _ action h ↦ h.step hwdf action) ?_ actions
  refine ⟨⟨List.nodup_nil, fun request ↦ ?_⟩, fun _ hmem ↦ absurd hmem List.not_mem_nil,
    fun _ hmem ↦ absurd hmem List.not_mem_nil⟩
  show placed (wdf.queues world) request + 0 = 0
  rw [hstart]
  rfl

/-! ## What the condition is for -/

theorem Running.accounted (h : Running wdf s) : Accounted wdf s := by
  refine ⟨fun request ↦ ?_, fun hended request hdelivered ↦ ?_, fun request hstranger ↦ ?_⟩
  · have honce := h.accounts.once request
    rw [placed] at honce
    omega
  · have hnone : ∀ request, heldBy s.threads request = 0 := by
      intro request
      refine List.sum_eq_zero fun n hn ↦ ?_
      obtain ⟨thread, hthread, rfl⟩ := List.mem_map.mp hn
      have hempty : thread.hands.held = [] :=
        (h.settles thread hthread).ended (Q := fun hands : Hands ↦ hands.held = []) (hended thread hthread)
      rw [hempty, List.count_nil]
    exact Accounts.answeredOrQueued ⟨h.accounts.nodup, fun request ↦ by
      rw [← h.accounts.total request, hnone]⟩ hdelivered
  · have htotal := h.accounts.total request
    rw [placed, List.count_eq_zero.mpr hstranger] at htotal
    exact ⟨List.count_eq_zero.mp (by omega),
      fun queue hmem ↦ hstranger (h.accounts.mem_delivered hmem)⟩

-- What a thread uses has not been completed, as long as it finds it in its place.
theorem Running.call_inTime (h : Running wdf s) {i : Nat} (hinTime : s.late = 0)
    (hplace : FoundInPlace wdf s (.call i)) : (threadStep wdf hw s (.call i)).late = 0 := by
  show (if _ = true then s.late + 1 else s.late) = 0
  rw [if_neg, hinTime]
  rw [Option.any_eq_true]
  rintro ⟨⟨hands, c⟩, hcalling, hlate⟩
  obtain ⟨request, huses, hcompleted⟩ := (Option.any_eq_true _ _).mp hlate
  refine absurd (of_decide_eq_true hcompleted) ?_
  by_cases hheld : request ∈ hands.held
  · obtain ⟨thread, hthread, rfl, -⟩ := Calls.mem_of_calling hcalling
    have hle := count_le_heldBy hthread request
    have hpos : 0 < thread.hands.held.count request := List.count_pos_iff.mpr hheld
    exact h.accounts.held_not_completed (by omega)
  · rcases hplace (hands, c) hcalling request huses hheld with
      ⟨queue, -, hqueue⟩ | ⟨thread, hthread, hmem⟩
    · exact h.accounts.waiting_not_completed hqueue
    · have hle := count_le_heldBy hthread request
      have hpos : 0 < thread.hands.held.count request := List.count_pos_iff.mpr hmem
      exact h.accounts.held_not_completed (by omega)

theorem Running.step_inTime (h : Running wdf s) (hinTime : s.late = 0) {action : ThreadAction H}
    (hplace : FoundInPlace wdf s action) : (threadStep wdf hw s action).late = 0 := by
  cases action with
  | enter activation driver others =>
    rw [threadStep]
    dsimp only
    split <;> exact hinTime
  | call i => exact h.call_inTime hinTime hplace
  | cancel requests => exact hinTime

-- A request that was found and is not in its place has been completed.
theorem Running.inPlace (h : Running wdf s) {action : ThreadAction H} (hinTime : s.late = 0)
    (hafter : (threadStep wdf hw s action).late = 0) : FoundInPlace wdf s action := by
  cases action with
  | enter activation driver others => trivial
  | cancel requests => trivial
  | call i =>
    rintro ⟨hands, c⟩ hcalling request huses hheld
    obtain ⟨thread, hthread, rfl, hc⟩ := Calls.mem_of_calling hcalling
    have hfound : request ∈ thread.hands.found :=
      (rules_uses ((h.settles thread hthread).allowed hc) request huses).resolve_left hheld
    have hnot : request ∉ (wdf.queues s.world).completed := by
      intro hcompleted
      have hlate : (Calls.calling s.threads i).any (fun called ↦
          usesCompleted (wdf.queues s.world) called.2) = true :=
        (Option.any_eq_true _ _).mpr ⟨_, hcalling, (Option.any_eq_true _ _).mpr
          ⟨request, huses, decide_eq_true hcompleted⟩⟩
      have hone : (if _ = true then s.late + 1 else s.late) = 0 := hafter
      rw [if_pos hlate] at hone
      omega
    have htotal := h.accounts.total request
    have hpos : 0 < s.delivered.count request :=
      List.count_pos_iff.mpr (h.found thread hthread request hfound)
    rw [placed, List.count_eq_zero.mpr hnot] at htotal
    by_cases hqueued : 0 < inQueues (wdf.queues s.world) request
    · obtain ⟨queue, hqueue⟩ := exists_queue_of_inQueues hqueued
      exact Or.inl ⟨queue, by cases queue <;> decide, hqueue⟩
    · exact Or.inr (exists_thread_of_heldBy (by omega))

end Running

/-- Whatever is cancelled and whatever fails, no request is lost or completed twice. -/
theorem fscc_requests_accounted (hwdf : wdf.Documented) (hw : Hardware H) {world : W}
    (hstart : wdf.queues world = ⟨fun _ ↦ [], []⟩) (actions : List (ThreadAction H)) :
    Accounted wdf (actions.foldl (threadStep wdf hw) (threadStart world)) :=
  (threadRun_running hwdf hw hstart actions).accounted

/-- Every request is answered exactly once and none is used after its completion if and only if every
request that a thread has found, and not taken out of its queue, is in its place whenever the thread
uses it. -/
theorem fscc_requests_answered_once_iff (hwdf : wdf.Documented) (hw : Hardware H) {world : W}
    (hstart : wdf.queues world = ⟨fun _ ↦ [], []⟩) (actions : List (ThreadAction H)) :
    Runs.Along (FoundInPlace wdf) (threadStep wdf hw) (threadStart world) actions ↔
      ∀ n, Answered wdf ((actions.take n).foldl (threadStep wdf hw) (threadStart world)) :=
  Runs.along_iff_always
    (fun (s : ThreadState W H) (h : Running wdf s ∧ s.late = 0) ↦ ⟨h.1.accounted, h.2⟩)
    (fun _ _ h hplace ↦ ⟨h.1.step hwdf _, h.1.step_inTime h.2 hplace⟩)
    (fun _ _ h hafter ↦ h.1.inPlace h.2 hafter.inTime) ⟨threadRun_running hwdf hw hstart [], rfl⟩

/-! ### Two passes of `isr_alert_worker` -/

def idleWorld : World where
  outcomes := fun _ ↦ ⟨[], .success⟩
  queue := fun _ ↦ []
  completed := []
  references := fun _ ↦ 0
  unmatched := 0

-- Waits for the interrupt of bit 0.
def trackRequest (handle : Nat) : Request := ⟨handle, 0, [1, 0, 0, 0]⟩

-- The handlers begin on one port, and the others leave it as it is.
def enterOn (activation : Activation) : ThreadAction Unit :=
  .enter activation { fullDriver with lastIsrValue := 1 } fun _ d ↦ d

def tracking (request : Request) (i : Nat) : List (ThreadAction Unit) :=
  [enterOn (.evtIoDeviceControl request .trackInterrupts), .call i]

-- Both passes find the first request, and one of them looks at it in the hands of the other.
def overlappingPasses : List (ThreadAction Unit) :=
  tracking (trackRequest 0) 0 ++ tracking (trackRequest 1) 1 ++
    [enterOn (.isrAlertWorker 3), enterOn (.isrAlertWorker 3), .call 2, .call 3, .call 2,
      .cancel [trackRequest 1], .call 2, .call 2, .call 2, .call 2, .call 3, .call 3, .call 3,
      .call 2, .call 2, .call 3, .call 3, .call 2, .call 3]

theorem fscc_requests_answered_once_overlapping :
    Answered World.framework
      (overlappingPasses.foldl (threadStep World.framework quietCard) (threadStart idleWorld)) := by
  have hstart : World.framework.queues idleWorld = ⟨fun _ ↦ [], []⟩ := rfl
  have halways := (fscc_requests_answered_once_iff World.framework_documented quietCard hstart
    overlappingPasses).mp (by decide)
  have hlast := halways overlappingPasses.length
  rwa [List.take_length] at hlast

/-- A request that is cancelled between the search that finds it and the look at its buffer: the worker
uses it after its completion. -/
theorem fscc_request_used_after_cancel :
    ¬ ∀ actions : List (ThreadAction Unit), Answered World.framework
      (actions.foldl (threadStep World.framework quietCard) (threadStart idleWorld)) := by
  intro hclaim
  have hanswered := hclaim (tracking (trackRequest 0) 0 ++
    [enterOn (.isrAlertWorker 1), .call 1, .cancel [trackRequest 0], .call 1])
  exact absurd hanswered.inTime (by decide)

end FsccDriver.Handlers

import FsccDriver.Isr
import Mathlib.Data.List.Nodup
import Mathlib.Data.List.TakeWhile
import Mathlib.Tactic.Ring

/-!
# TrackInterrupts — which listeners a pass of `isr_alert_worker` serves

The pass walks over the listeners that do not match and starts again behind each one it serves; the
first listener with a short buffer ends it.
-/

namespace FsccDriver

variable {Q : Type} {wdf : Wdf Q} {requests : Q → List TrackRequest} {isrValue : BitVec 32}
  {before after : List TrackRequest} {request : TrackRequest}

namespace TrackRequest

/-- Both buffers hold an `unsigned`. -/
def wellFormed (request : TrackRequest) : Bool :=
  4 ≤ request.inputBuffer.length ∧ 4 ≤ request.outputBufferLength

def shares (isrValue : BitVec 32) (request : TrackRequest) : Bool :=
  isrValue &&& request.mask ≠ 0

def completion (isrValue : BitVec 32) (request : TrackRequest) : Completion :=
  ⟨request, isrValue &&& request.mask⟩

end TrackRequest

open TrackRequest

/-- Every well-formed matching request is completed once, with the bits it asked for, and the
well-formed others stay queued in their order. -/
structure ServesListeners (isrValue : BitVec 32) (before after : List TrackRequest)
    (completed : List Completion) : Prop where
  completes : completed.Perm
    ((before.filter fun r ↦ r.wellFormed && r.shares isrValue).map (completion isrValue))
  keeps : (after.filter fun r ↦ r.wellFormed && !r.shares isrValue) =
    before.filter fun r ↦ r.wellFormed && !r.shares isrValue

/-! ## What a pass does -/

-- The part of the queue in front of the first short buffer.
def reached (queued : List TrackRequest) : List TrackRequest := queued.takeWhile wellFormed

def served (isrValue : BitVec 32) (queued : List TrackRequest) : List Completion :=
  ((reached queued).filter (shares isrValue)).map (completion isrValue)

def left (isrValue : BitVec 32) (queued : List TrackRequest) : List TrackRequest :=
  (reached queued).filter (fun r ↦ !r.shares isrValue) ++ queued.dropWhile wellFormed

-- The scan goes past well-formed requests that do not match.
def PassedOver (isrValue : BitVec 32) (before : List TrackRequest) : Prop :=
  ∀ r ∈ before, r.wellFormed ∧ ¬ r.shares isrValue

theorem PassedOver.reached (h : PassedOver isrValue before) :
    reached (before ++ after) = before ++ FsccDriver.reached after :=
  List.takeWhile_append_of_pos fun r hr ↦ (h r hr).1

variable (after) in
theorem PassedOver.served (h : PassedOver isrValue before) :
    served isrValue (before ++ after) = FsccDriver.served isrValue after := by
  have hnone : before.filter (shares isrValue) = [] :=
    List.filter_eq_nil_iff.mpr fun r hr ↦ (h r hr).2
  rw [FsccDriver.served, h.reached, List.filter_append, hnone, List.nil_append, FsccDriver.served]

variable (after) in
theorem PassedOver.left (h : PassedOver isrValue before) :
    left isrValue (before ++ after) = before ++ FsccDriver.left isrValue after := by
  have hall : before.filter (fun r ↦ !r.shares isrValue) = before := by
    apply List.filter_eq_self.mpr
    intro r hr
    rw [Bool.eq_false_of_not_eq_true (h r hr).2]
    rfl
  have hdrop : (before ++ after).dropWhile wellFormed = after.dropWhile wellFormed :=
    List.dropWhile_append_of_pos fun r hr ↦ (h r hr).1
  rw [FsccDriver.left, h.reached, List.filter_append, hall, hdrop, List.append_assoc,
    FsccDriver.left]

theorem reached_cons (hwell : request.wellFormed) :
    reached (request :: after) = request :: reached after := List.takeWhile_cons_of_pos hwell

theorem served_match (hwell : request.wellFormed) (hshares : request.shares isrValue) :
    served isrValue (request :: after) =
      request.completion isrValue :: served isrValue after := by
  rw [served, reached_cons hwell, List.filter_cons_of_pos hshares, List.map_cons, served]

theorem left_match (hwell : request.wellFormed) (hshares : request.shares isrValue) :
    left isrValue (request :: after) = left isrValue after := by
  have hkept : (!request.shares isrValue) = false := by
    rw [hshares]
    rfl
  rw [left, reached_cons hwell, List.filter_cons, hkept, if_neg Bool.false_ne_true,
    List.dropWhile_cons_of_pos hwell, left]

theorem reached_short (hshort : ¬ request.wellFormed) : reached (request :: after) = [] :=
  List.takeWhile_cons_of_neg hshort

theorem served_short (hshort : ¬ request.wellFormed) : served isrValue (request :: after) = [] := by
  rw [served, reached_short hshort]
  rfl

theorem left_short (hshort : ¬ request.wellFormed) :
    left isrValue (request :: after) = request :: after := by
  rw [left, reached_short hshort, List.dropWhile_cons_of_neg hshort]
  rfl

/-! ## One round -/

section Round

variable {scan : AlertScan Q} {queue : Q} {completed : List Completion}

-- The scan has passed over `before` and holds the last request of it.
theorem find_ahead (hwdf : wdf.Documented requests) (hqueue : requests queue = before ++ after) :
    wdf.ioQueueFindRequest queue before.getLast? = foundRequest after := by
  rcases List.eq_nil_or_concat before with rfl | ⟨front, last, rfl⟩
  · rw [List.getLast?_nil, hwdf.find_head, hqueue, List.nil_append]
  · rw [List.concat_eq_append] at hqueue ⊢
    rw [List.getLast?_concat]
    exact hwdf.find_behind queue front last after (by rw [hqueue, List.append_assoc]; rfl)

theorem isrAlertStep_end (hwdf : wdf.Documented requests) (hqueue : requests queue = before) :
    isrAlertStep wdf isrValue ⟨queue, before.getLast?, completed⟩ =
      (false, ⟨queue, before.getLast?, completed⟩) := by
  have hqueue' : requests queue = before ++ [] := by rw [hqueue, List.append_nil]
  rw [isrAlertStep, find_ahead hwdf hqueue']
  rfl

theorem isrAlertStep_request (hwdf : wdf.Documented requests)
    (hqueue : requests queue = before ++ request :: after) :
    isrAlertStep wdf isrValue ⟨queue, before.getLast?, completed⟩ =
      isrAlertRequest wdf isrValue ⟨queue, before.getLast?, completed⟩ request := by
  rw [isrAlertStep, find_ahead hwdf hqueue]
  rfl

theorem isrAlertRequest_short (hwdf : wdf.Documented requests) (hshort : ¬ request.wellFormed) :
    isrAlertRequest wdf isrValue scan request = (false, scan) := by
  rw [isrAlertRequest]
  by_cases hinput : wdf.requestRetrieveInputBuffer request 4 = .success
  · have houtput : wdf.requestRetrieveOutputBuffer request 4 ≠ .success := by
      intro houtput
      apply hshort
      exact decide_eq_true ⟨(hwdf.input request 4).mp hinput, (hwdf.output request 4).mp houtput⟩
    rw [if_neg (not_not.mpr hinput), if_pos houtput]
  · rw [if_pos hinput]

theorem isrAlertRequest_wellFormed (hwdf : wdf.Documented requests) (hwell : request.wellFormed) :
    isrAlertRequest wdf isrValue scan request =
      if isrValue &&& request.mask ≠ 0 then
        let (status, queue) := wdf.ioQueueRetrieveFoundRequest scan.queue request
        if status = .notFound then (true, { scan with queue, prevTagRequest := none })
        else if status ≠ .success then (false, { scan with queue, prevTagRequest := none })
        else (true, ⟨queue, none, scan.completed ++ [request.completion isrValue]⟩)
      else (true, { scan with prevTagRequest := some request }) := by
  obtain ⟨hinput, houtput⟩ := of_decide_eq_true hwell
  rw [isrAlertRequest, if_neg (not_not.mpr ((hwdf.input request 4).mpr hinput)),
    if_neg (not_not.mpr ((hwdf.output request 4).mpr houtput))]
  rfl

theorem isrAlertRequest_other (hwdf : wdf.Documented requests) (hwell : request.wellFormed)
    (hother : ¬ request.shares isrValue) :
    isrAlertRequest wdf isrValue scan request =
      (true, { scan with prevTagRequest := some request }) := by
  rw [isrAlertRequest_wellFormed hwdf hwell, if_neg (fun h ↦ hother (decide_eq_true h))]

variable (scan) in
theorem isrAlertRequest_match (hwdf : wdf.Documented requests) (hwell : request.wellFormed)
    (hshares : request.shares isrValue)
    (hqueue : requests scan.queue = before ++ request :: after) :
    ∃ queue', requests queue' = before ++ after ∧
      isrAlertRequest wdf isrValue scan request =
        (true, ⟨queue', none, scan.completed ++ [request.completion isrValue]⟩) := by
  obtain ⟨queue', hretrieve, hrequests⟩ := hwdf.retrieve scan.queue before request after hqueue
  refine ⟨queue', hrequests, ?_⟩
  rw [isrAlertRequest_wellFormed hwdf hwell, if_pos (of_decide_eq_true hshares), hretrieve]
  rfl

end Round

/-! ## A whole pass -/

variable (isrValue) in
-- Induction over the rounds.  A served listener shortens the queue, and the search starts again.
theorem isrAlertLoop_passes (hwdf : wdf.Documented requests) (fuel : Nat) {queue : Q}
    (completed : List Completion) (hqueue : requests queue = before ++ after)
    (hbefore : PassedOver isrValue before)
    (hfuel : (before ++ after).length * ((before ++ after).length + 1) + after.length < fuel) :
    ∃ scan, isrAlertLoop wdf isrValue fuel ⟨queue, before.getLast?, completed⟩ = some scan ∧
      requests scan.queue = before ++ left isrValue after ∧
      scan.completed = completed ++ served isrValue after := by
  induction fuel generalizing queue before after completed with
  | zero => exact absurd hfuel (Nat.not_lt_zero _)
  | succ fuel ih =>
    rw [isrAlertLoop]
    cases after with
    | nil =>
      rw [isrAlertStep_end hwdf (by rw [hqueue, List.append_nil])]
      exact ⟨_, rfl, hqueue, (List.append_nil completed).symm⟩
    | cons request after =>
      rw [isrAlertStep_request hwdf hqueue]
      by_cases hwell : request.wellFormed
      · by_cases hshares : request.shares isrValue
        · obtain ⟨queue', hrequests, hround⟩ := isrAlertRequest_match
            ⟨queue, before.getLast?, completed⟩ hwdf hwell hshares hqueue
          have hshorter : (before ++ after).length * ((before ++ after).length + 1) +
              (before ++ after).length < fuel := by
            simp only [List.length_append, List.length_cons] at hfuel ⊢
            have hcost : (before.length + (after.length + 1)) *
                (before.length + (after.length + 1) + 1) =
                (before.length + after.length) * (before.length + after.length + 1) +
                  2 * (before.length + after.length + 1) := by ring
            omega
          have hrestart : requests queue' = [] ++ (before ++ after) := hrequests
          obtain ⟨scan, hloop, hleft, hcompleted⟩ := ih
            (completed ++ [request.completion isrValue]) hrestart
            (fun r hr ↦ absurd hr List.not_mem_nil) hshorter
          rw [hround]
          refine ⟨scan, hloop, ?_, ?_⟩
          · rw [hleft, List.nil_append, hbefore.left after, left_match hwell hshares]
          · rw [hcompleted, hbefore.served after, served_match hwell hshares, List.append_assoc]
            rfl
        · have hpassed : PassedOver isrValue (before ++ [request]) := by
            intro r hr
            rcases List.mem_append.mp hr with hold | hnew
            · exact hbefore r hold
            · exact List.mem_singleton.mp hnew ▸ ⟨hwell, hshares⟩
          have happend : before ++ request :: after = (before ++ [request]) ++ after :=
            (List.append_cons before request after)
          rw [happend] at hqueue hfuel
          obtain ⟨scan, hloop, hleft, hcompleted⟩ := ih completed hqueue hpassed (by
            rw [List.length_cons] at hfuel
            omega)
          have hone : PassedOver isrValue [request] := by
            intro r hr
            exact List.mem_singleton.mp hr ▸ ⟨hwell, hshares⟩
          have hleft' := hone.left after
          have hserved' := hone.served after
          rw [List.singleton_append] at hleft' hserved'
          rw [isrAlertRequest_other hwdf hwell hshares]
          refine ⟨scan, ?_, ?_, ?_⟩
          · rw [← hloop, List.getLast?_concat]
          · rw [hleft, hleft', List.append_assoc]
          · rw [hcompleted, hserved']
      · rw [isrAlertRequest_short hwdf hwell]
        refine ⟨_, rfl, ?_, ?_⟩
        · rw [left_short hwell]
          exact hqueue
        · rw [served_short hwell]
          exact (List.append_nil completed).symm

/-- Whatever the queue holds, a pass ends; it has completed the listeners `served` and left the rest
in the queue. -/
theorem isrAlertWorker_passes (hwdf : wdf.Documented requests) (port : IsrPort) (queue : Q) :
    ∃ enough, ∀ fuel ≥ enough, ∃ scan,
      isrAlertWorker wdf fuel port queue = some ({ port with lastIsrValue := 0 }, scan) ∧
        requests scan.queue = left port.lastIsrValue (requests queue) ∧
        scan.completed = served port.lastIsrValue (requests queue) := by
  have hqueue : requests queue = [] ++ requests queue := rfl
  refine ⟨([] ++ requests queue).length * (([] ++ requests queue).length + 1) +
    (requests queue).length + 1, fun fuel hfuel ↦ ?_⟩
  obtain ⟨scan, hloop, hleft, hcompleted⟩ := isrAlertLoop_passes port.lastIsrValue hwdf fuel []
    hqueue (fun r hr ↦ absurd hr List.not_mem_nil) hfuel
  rw [List.getLast?_nil] at hloop
  refine ⟨scan, ?_, hleft, hcompleted⟩
  rw [isrAlertWorker, hloop]
  rfl

/-! ## Who is served -/

theorem reached_wellFormed (queued : List TrackRequest) : ∀ r ∈ reached queued, r.wellFormed :=
  fun _ hr ↦ List.mem_takeWhile_imp hr

theorem filter_reached (queued : List TrackRequest) (p : TrackRequest → Bool) :
    (reached queued).filter (fun r ↦ r.wellFormed && p r) = (reached queued).filter p := by
  apply List.filter_congr
  intro r hr
  rw [reached_wellFormed queued r hr, Bool.true_and]

-- The queue is what is reached and what stands from the first short buffer on.
theorem filter_queued (queued : List TrackRequest) (p : TrackRequest → Bool) :
    queued.filter (fun r ↦ r.wellFormed && p r) = (reached queued).filter p ++
      (queued.dropWhile wellFormed).filter fun r ↦ r.wellFormed && p r := by
  conv_lhs => rw [← List.takeWhile_append_dropWhile (p := wellFormed) (l := queued)]
  rw [List.filter_append, ← filter_reached queued p]
  rfl

theorem left_keeps (isrValue : BitVec 32) (queued : List TrackRequest) :
    ((left isrValue queued).filter fun r ↦ r.wellFormed && !r.shares isrValue) =
      queued.filter fun r ↦ r.wellFormed && !r.shares isrValue := by
  rw [left, List.filter_append, filter_queued queued, List.filter_filter]
  congr 1
  apply List.filter_congr
  intro r hr
  rw [reached_wellFormed queued r hr, Bool.true_and, Bool.and_self]

/-- No listener to be served stands behind a short buffer. -/
def NoneBehindShort (isrValue : BitVec 32) (queued : List TrackRequest) : Prop :=
  ∀ before short after, queued = before ++ short :: after → ¬ short.wellFormed →
    ∀ r ∈ after, ¬ (r.wellFormed ∧ r.shares isrValue)

theorem noneBehindShort_iff (isrValue : BitVec 32) (queued : List TrackRequest) :
    NoneBehindShort isrValue queued ↔
      ((queued.dropWhile wellFormed).filter fun r ↦ r.wellFormed && r.shares isrValue) = [] := by
  rw [List.filter_eq_nil_iff]
  constructor
  · intro hnone r hr hserve
    have hserve' := Bool.and_eq_true_iff.mp hserve
    cases hrest : queued.dropWhile wellFormed with
    | nil =>
      rw [hrest] at hr
      exact absurd hr List.not_mem_nil
    | cons short after =>
      have hshort : ¬ short.wellFormed := by
        have hhead := List.head?_dropWhile_not wellFormed queued
        rw [hrest] at hhead
        change short.wellFormed = false at hhead
        exact ne_true_of_eq_false hhead
      have hsplit := List.takeWhile_append_dropWhile (p := wellFormed) (l := queued)
      rw [hrest] at hsplit hr
      rcases List.mem_cons.mp hr with rfl | hafter
      · exact hshort hserve'.1
      · exact hnone _ short after hsplit.symm hshort r hafter hserve'
  · intro hrest before short after hqueued hshort r hr hserve
    have hdrop : (short :: after).dropWhile wellFormed = short :: after :=
      List.dropWhile_cons_of_neg hshort
    apply hrest r _ (Bool.and_eq_true_iff.mpr hserve)
    rw [hqueued, List.dropWhile_append, hdrop]
    split
    · exact List.mem_cons_of_mem _ hr
    · exact List.mem_append_right _ (List.mem_cons_of_mem _ hr)

theorem servesListeners_iff (isrValue : BitVec 32) (queued : List TrackRequest) :
    ServesListeners isrValue queued (left isrValue queued) (served isrValue queued) ↔
      NoneBehindShort isrValue queued := by
  rw [noneBehindShort_iff]
  constructor
  · intro h
    have hlength := h.completes.length_eq
    rw [served, List.length_map, List.length_map, filter_queued, List.length_append] at hlength
    apply List.length_eq_zero_iff.mp
    omega
  · intro hnone
    refine ⟨?_, left_keeps isrValue queued⟩
    rw [filter_queued, hnone, List.append_nil]
    exact List.Perm.refl _

/-- A pass of `isr_alert_worker` serves every listener if and only if no listener to be served
stands behind a request with a short buffer. -/
theorem fscc_isr_alert_serves_listeners (hwdf : wdf.Documented requests) (port : IsrPort)
    (queue : Q) :
    (∃ enough, ∀ fuel ≥ enough, ∃ scan,
      isrAlertWorker wdf fuel port queue = some ({ port with lastIsrValue := 0 }, scan) ∧
        ServesListeners port.lastIsrValue (requests queue) (requests scan.queue) scan.completed) ↔
      NoneBehindShort port.lastIsrValue (requests queue) := by
  obtain ⟨enough, hpasses⟩ := isrAlertWorker_passes hwdf port queue
  rw [← servesListeners_iff]
  constructor
  · rintro ⟨enough', hserves⟩
    obtain ⟨scan, hscan, hleft, hcompleted⟩ := hpasses _ (Nat.le_max_left enough enough')
    obtain ⟨scan', hscan', hserved⟩ := hserves _ (Nat.le_max_right enough enough')
    rw [hscan] at hscan'
    cases hscan'
    rwa [hleft, hcompleted] at hserved
  · intro hserved
    refine ⟨enough, fun fuel hfuel ↦ ?_⟩
    obtain ⟨scan, hscan, hleft, hcompleted⟩ := hpasses fuel hfuel
    refine ⟨scan, hscan, ?_⟩
    rwa [hleft, hcompleted]

/-! ## A queue -/

/-- The queue as the list of its requests. -/
def listWdf : Wdf { queued : List TrackRequest // queued.Nodup } where
  ioQueueFindRequest queue
    | none => foundRequest queue.1
    | some request =>
        if request ∈ queue.1 then foundRequest (queue.1.dropWhile (· ≠ request)).tail
        else (.notFound, none)
  ioQueueRetrieveFoundRequest queue request :=
    if request ∈ queue.1 then (.success, ⟨queue.1.erase request, queue.2.erase request⟩)
    else (.notFound, queue)
  requestRetrieveInputBuffer request length :=
    if length ≤ request.inputBuffer.length then .success else .bufferTooSmall
  requestRetrieveOutputBuffer request length :=
    if length ≤ request.outputBufferLength then .success else .bufferTooSmall

theorem listWdf_documented : listWdf.Documented Subtype.val := by
  have hmem : ∀ (before after : List TrackRequest) request, request ∈ before ++ request :: after :=
    fun _ _ _ ↦ List.mem_append_right _ List.mem_cons_self
  have hnotin : ∀ {before after : List TrackRequest} {request},
      (before ++ request :: after).Nodup → request ∉ before := by
    intro before after request hnodup hin
    exact List.disjoint_of_nodup_append hnodup hin List.mem_cons_self
  have hstatus : ∀ {c : Prop} [Decidable c],
      (if c then NtStatus.success else .bufferTooSmall) = .success ↔ c := by
    intro c _
    by_cases hc : c
    · exact ⟨fun _ ↦ hc, fun _ ↦ if_pos hc⟩
    · rw [if_neg hc]
      exact ⟨fun h ↦ NtStatus.noConfusion h, fun h ↦ absurd h hc⟩
  refine ⟨fun _ ↦ rfl, ?_, ?_, fun _ _ ↦ hstatus, fun _ _ ↦ hstatus⟩
  · rintro ⟨_, hnodup⟩ before request after rfl
    have hskip : ∀ r ∈ before, decide (r ≠ request) = true := by
      intro r hr
      exact decide_eq_true fun heq ↦ hnotin hnodup (heq ▸ hr)
    show (if _ then _ else _) = _
    rw [if_pos (hmem before after request), List.dropWhile_append_of_pos hskip,
      List.dropWhile_cons_of_neg (by simp)]
    rfl
  · rintro ⟨_, hnodup⟩ before request after rfl
    refine ⟨⟨before ++ after, ?_⟩, ?_, rfl⟩
    · exact hnodup.sublist ((List.sublist_cons_self request after).append_left before)
    · show (if _ then _ else _) = _
      rw [if_pos (hmem before after request)]
      congr 2
      rw [List.erase_append_right _ (hnotin hnodup), List.erase_cons_head]

-- A listener for TIN, and one whose input buffer holds a single byte.
def tinListener (handle : Nat) : TrackRequest := ⟨handle, [0x00, 0x01, 0x00, 0x00], 4⟩
def shortListener (handle : Nat) : TrackRequest := ⟨handle, [0x00], 4⟩

-- The timer has interrupted.
def tinPort : IsrPort := ⟨⟨0, false, true, false, .init⟩, 0x00000100⟩

theorem fscc_isr_alert_serves_listeners_two :
    ∃ enough, ∀ fuel ≥ enough, ∃ scan,
      isrAlertWorker listWdf fuel tinPort ⟨[tinListener 0, tinListener 1], by decide⟩ =
          some ({ tinPort with lastIsrValue := 0 }, scan) ∧
        ServesListeners 0x00000100 [tinListener 0, tinListener 1] scan.queue.1 scan.completed :=
  (fscc_isr_alert_serves_listeners listWdf_documented tinPort _).mpr
    ((noneBehindShort_iff _ _).mpr rfl)

-- The listener behind the short buffer is not served.
theorem fscc_isr_alert_short_buffer :
    ¬ ∃ enough, ∀ fuel ≥ enough, ∃ scan,
      isrAlertWorker listWdf fuel tinPort ⟨[shortListener 0, tinListener 1], by decide⟩ =
          some ({ tinPort with lastIsrValue := 0 }, scan) ∧
        ServesListeners 0x00000100 [shortListener 0, tinListener 1] scan.queue.1 scan.completed := by
  rintro ⟨enough, h⟩
  obtain ⟨scan, hscan, hserves⟩ := h (enough + 1) (Nat.le_succ enough)
  have hstep : isrAlertStep listWdf 0x00000100
      ⟨⟨[shortListener 0, tinListener 1], by decide⟩, none, []⟩ =
        (false, ⟨⟨[shortListener 0, tinListener 1], by decide⟩, none, []⟩) := rfl
  have hlast : tinPort.lastIsrValue = 0x00000100 := rfl
  rw [isrAlertWorker, isrAlertLoop, hlast, hstep] at hscan
  cases hscan
  have hlength := hserves.completes.length_eq
  exact absurd hlength (by decide)

end FsccDriver

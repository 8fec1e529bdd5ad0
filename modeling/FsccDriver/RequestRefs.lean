import FsccDriver.Lib.Runs
import FsccDriver.RequestHandlers

/-!
# RequestRefs — the references `request_worker` and `isr_alert_worker` take

`WdfIoQueueFindRequest` takes a reference on the request it finds, `WdfObjectDereference` drops one.
An activation is balanced when it ends with the references it began with.
-/

namespace FsccDriver.Handlers

open Words
open Calls (Program)

variable {H : Type} {hw : Hardware H}

/-! ## Runs of the two workers -/

structure RefState (H : Type) where
  driver : Driver H
  world : World
  -- An activation has not come to its end.
  hung : Bool

/-- An activation of one of the workers, or whatever else goes on with the port and the queues between
two activations. -/
inductive RefAction (H : Type) where
  | requestWorker (outcomes : Nat → Outcome)
  | isrAlertWorker (rounds : Nat) (outcomes : Nat → Outcome)
  | others (driver : Driver H) (queue : ManualQueue → List Request) (completed : List Request)

def RefState.activate (s : RefState H) (outcomes : Nat → Outcome) (worker : Handler (Driver H)) :
    RefState H :=
  let (driver, world) := worker.run World.respond { s.world with outcomes }
  ⟨driver.getD s.driver, world, driver.isNone⟩

def refStep (hw : Hardware H) (s : RefState H) (action : RefAction H) : RefState H :=
  if s.hung then s
  else match action with
    | .requestWorker outcomes => s.activate outcomes (requestWorker hw s.driver)
    | .isrAlertWorker rounds outcomes => s.activate outcomes (isrAlertWorker rounds s.driver)
    | .others driver queue completed =>
        { s with driver, world := { s.world with queue, completed } }

/-- No reference has been dropped that was not taken, and where every activation has ended, the
references are what they were. -/
structure Balanced (start : World) (s : RefState H) : Prop where
  unmatched : s.world.unmatched = start.unmatched
  references : s.hung = false → s.world.references = start.references

/-- `request_worker` finds a request that does not fit in the free descriptors. -/
def FindsTooLong (s : RefState H) (outcomes : Nat → Outcome) : Prop :=
  match (World.respond (.ioQueueFindRequest .blockingRequestQueue none)
    { s.world with outcomes }).1 with
  | .ok tagRequest => fsccUserGetTxSpace s.driver.tx.toTxPort < u32 tagRequest.length
  | .error _ => False

def RefAllowed (s : RefState H) : RefAction H → Prop
  | .requestWorker outcomes => s.hung = true ∨ ¬ FindsTooLong s outcomes
  | _ => True

/-! ## What a call does to the references -/

section Calls

variable {w : World} {base : Request → Nat} {u : Nat} {held : List Request}

/-- `held` are the references taken and not dropped yet. -/
structure Holds (base : Request → Nat) (u : Nat) (held : List Request) (w : World) : Prop where
  references : ∀ request, w.references request = base request + held.count request
  unmatched : w.unmatched = u

theorem Holds.congr (h : Holds base u held w) {w' : World} (hreferences : w'.references = w.references)
    (hunmatched : w'.unmatched = w.unmatched) : Holds base u held w' :=
  ⟨fun request ↦ hreferences ▸ h.references request, hunmatched.trans h.unmatched⟩

theorem Holds.look (h : Holds base u held w) : Holds base u held w.look := h.congr rfl rfl

theorem Holds.reference (h : Holds base u held w) (request : Request) :
    Holds base u (request :: held) (w.reference request) := by
  refine ⟨fun request' ↦ ?_, h.unmatched⟩
  show Function.update w.references request (w.references request + 1) request' = _
  by_cases heq : request' = request
  · rw [heq, Function.update_self, h.references, List.count_cons_self, Nat.add_assoc]
  · rw [Function.update_of_ne heq, h.references, List.count_cons_of_ne (Ne.symm heq)]

theorem Holds.dereference {request : Request} (h : Holds base u (request :: held) w) :
    Holds base u held (w.dereference request) := by
  have hreferences := h.references request
  rw [List.count_cons_self] at hreferences
  rw [World.dereference, if_neg (by omega)]
  refine ⟨fun request' ↦ ?_, h.unmatched⟩
  show Function.update w.references request (w.references request - 1) request' = _
  by_cases heq : request' = request
  · rw [heq, Function.update_self, hreferences]
    omega
  · rw [Function.update_of_ne heq, h.references, List.count_cons_of_ne (Ne.symm heq)]

theorem Holds.perm (h : Holds base u held w) {held' : List Request} (hperm : held.Perm held') :
    Holds base u held' w :=
  ⟨fun request ↦ by rw [h.references, hperm.count_eq], h.unmatched⟩

-- The reference on `prevTagRequest` is dropped, whatever else is held.
variable (held) in
theorem Holds.dereferencePrev {β : Type} {prevTagRequest : Option Request} {f : Unit → Handler β}
    {R : Option β → World → Prop} (h : Holds base u (prevTagRequest.toList ++ held) w)
    (hnext : ∀ w', Holds base u held w' → Program.Post World.respond (f ()) R w') :
    Program.Post World.respond (Driver.dereferencePrev prevTagRequest >>= f) R w := by
  cases prevTagRequest with
  | none => exact hnext w h
  | some prevTagRequest => exact hnext _ h.look.dereference

theorem Holds.remove (h : Holds base u held w) (queue : ManualQueue) (request : Request) :
    Holds base u held (w.remove queue request) := h.congr rfl rfl

theorem Holds.complete (h : Holds base u held w) (request : Request) :
    Holds base u held (w.look.complete request) := h.congr rfl rfl

end Calls

/-! ## The two workers -/

section Workers

variable {w : World} {base : Request → Nat} {u : Nat} {d : Driver H}

-- What the worker does once the request it found fits.
theorem requestWorker_holds (h : Holds base u [] w) (hfits : ∀ tagRequest,
    (World.respond (.ioQueueFindRequest .blockingRequestQueue none) w).1 = .ok tagRequest →
      ¬ fsccUserGetTxSpace d.tx.toTxPort < u32 tagRequest.length) :
    Program.Post World.respond (requestWorker hw d)
      (fun d' w' ↦ d'.isSome = true ∧ Holds base u [] w') w := by
  apply post_findRequest
  · exact fun status _ ↦ ⟨rfl, h.look⟩
  intro tagRequest hfound _
  dsimp only
  rw [if_neg (hfits tagRequest hfound)]
  have h₁ := h.look.reference tagRequest
  apply post_retrieveFoundRequest
  · intro status hfails
    rw [post_dereference, if_pos hfails]
    exact ⟨rfl, h₁.look.look.dereference⟩
  intro _
  have h₂ := (h₁.look.remove .blockingRequestQueue tagRequest).look.dereference
  rw [post_dereference, if_neg (not_not.mpr rfl), post_retrieveInputBuffer]
  apply Program.Post.ite
  · exact fun _ ↦ ⟨rfl, h₂.look.complete tagRequest⟩
  · exact fun _ ↦ ⟨rfl, h₂.look.look.complete tagRequest⟩

variable (hw) in
-- Otherwise it leaves with the reference.
theorem requestWorker_leaks (h : Holds base u [] w) {tagRequest : Request}
    (hfound : (World.respond (.ioQueueFindRequest .blockingRequestQueue none) w).1 =
      .ok tagRequest)
    (hlong : fsccUserGetTxSpace d.tx.toTxPort < u32 tagRequest.length) :
    Program.Post World.respond (requestWorker hw d)
      (fun d' w' ↦ d'.isSome = true ∧ Holds base u [tagRequest] w') w := by
  apply post_findRequest
  · intro status hnone
    rw [hfound] at hnone
    cases hnone
  intro request hfound' _
  have hsame : request = tagRequest := by
    rw [hfound] at hfound'
    exact (Except.ok.inj hfound').symm
  dsimp only
  rw [hsame, if_pos hlong]
  exact ⟨rfl, h.look.reference tagRequest⟩

-- The reference that is held between two rounds is the one on `prevTagRequest`.
theorem alertLoop_holds {isrValue : BitVec 32} (rounds : Nat) {prevTagRequest : Option Request}
    (h : Holds base u prevTagRequest.toList w) :
    Program.Post World.respond (alertLoop isrValue rounds prevTagRequest)
      (fun done w' ↦ w'.unmatched = u ∧ (done.isSome = true → Holds base u [] w')) w := by
  induction rounds generalizing prevTagRequest w with
  | zero => exact ⟨h.unmatched, fun hdone ↦ absurd hdone Bool.false_ne_true⟩
  | succ rounds ih =>
    have hdone : ∀ {w : World}, Holds base u [] w →
        Program.Post World.respond (pure () : Handler Unit)
          (fun done w' ↦ w'.unmatched = u ∧ (done.isSome = true → Holds base u [] w')) w :=
      fun h ↦ ⟨h.unmatched, fun _ ↦ h⟩
    apply post_findRequest
    · intro status _
      apply Holds.dereferencePrev []
      · rw [List.append_nil]
        exact h.look
      intro w₁ h₁
      apply Program.Post.ite
      · exact fun _ ↦ hdone h₁
      intro _
      apply Program.Post.ite
      · exact fun _ ↦ ih h₁
      · exact fun _ ↦ hdone h₁
    · intro tagRequest _ _
      apply Holds.dereferencePrev [tagRequest]
      · exact (h.look.reference tagRequest).perm (List.perm_append_singleton _ _).symm
      intro w₁ h₁
      rw [post_retrieveInputBuffer]
      have h₂ := h₁.look
      apply Program.Post.ite
      · exact fun _ ↦ hdone h₂.look.dereference
      intro _
      rw [post_retrieveOutputBuffer]
      have h₃ := h₂.look
      apply Program.Post.ite
      · exact fun _ ↦ hdone h₃.look.dereference
      intro _
      rw [post_accessBuffer]
      have h₄ := h₃.look
      apply Program.Post.ite
      · intro _
        apply post_retrieveFoundRequest
        · intro status hfails
          rw [post_dereference]
          split
          · exact ih h₄.look.look.dereference
          · exact hdone h₄.look.look.dereference
        · intro _
          have h₅ := (h₄.look.remove .isrQueue tagRequest).look.dereference
          rw [post_dereference, if_neg (by decide), if_neg (by decide), post_accessBuffer,
            post_complete]
          exact ih (h₅.look.complete tagRequest)
      · exact fun _ ↦ ih h₄

theorem isrAlertWorker_holds (rounds : Nat) (h : Holds base u [] w) :
    Program.Post World.respond (isrAlertWorker rounds d)
      (fun d' w' ↦ w'.unmatched = u ∧ (d'.isSome = true → Holds base u [] w')) w := by
  rw [isrAlertWorker, Program.post_bind]
  refine (alertLoop_holds rounds h).mono fun done w' hdone ↦ ?_
  cases done with
  | none => exact ⟨hdone.1, fun hd ↦ absurd hd Bool.false_ne_true⟩
  | some done => exact ⟨hdone.1, fun _ ↦ hdone.2 rfl⟩

end Workers

/-! ## Every run -/

section Runs

variable {start : World} {s : RefState H}

theorem Balanced.holds (h : Balanced start s) (hidle : s.hung = false) (outcomes : Nat → Outcome) :
    Holds start.references start.unmatched [] { s.world with outcomes } := by
  refine ⟨fun request ↦ ?_, h.unmatched⟩
  rw [List.count_nil]
  exact congrFun (h.references hidle) request

theorem Balanced.activate {outcomes : Nat → Outcome} {worker : Handler (Driver H)}
    (hworker : Program.Post World.respond worker
      (fun d' w' ↦ w'.unmatched = start.unmatched ∧
        (d'.isSome = true → Holds start.references start.unmatched [] w'))
      { s.world with outcomes }) :
    Balanced start (s.activate outcomes worker) := by
  refine ⟨hworker.1, fun hidle ↦ ?_⟩
  have hended : (worker.run World.respond { s.world with outcomes }).1.isSome = true :=
    Option.isNone_eq_false_iff.mp hidle
  funext request
  exact ((hworker.2 hended).references request).trans (by rw [List.count_nil, Nat.add_zero])

theorem Balanced.step {action : RefAction H} (h : Balanced start s) (hallowed : RefAllowed s action) :
    Balanced start (refStep hw s action) := by
  unfold refStep
  cases hidle : s.hung with
  | true => exact h
  | false =>
    rw [if_neg Bool.false_ne_true]
    cases action with
    | others driver queue completed => exact ⟨h.unmatched, fun _ ↦ h.references hidle⟩
    | isrAlertWorker rounds outcomes =>
      exact Balanced.activate (isrAlertWorker_holds rounds (h.holds hidle outcomes))
    | requestWorker outcomes =>
      have hfits := hallowed.resolve_left (hidle ▸ Bool.false_ne_true)
      refine Balanced.activate ((requestWorker_holds (h.holds hidle outcomes) ?_).mono
        fun d' w' hpost ↦ ⟨hpost.2.unmatched, fun _ ↦ hpost.2⟩)
      intro tagRequest hfound hlong
      rw [FindsTooLong, hfound] at hfits
      exact hfits hlong

-- A request that is found and does not fit costs a reference.
theorem Balanced.allowed {action : RefAction H} (h : Balanced start s)
    (hafter : Balanced start (refStep hw s action)) : RefAllowed s action := by
  cases action with
  | others driver queue completed => trivial
  | isrAlertWorker rounds outcomes => trivial
  | requestWorker outcomes =>
    cases hidle : s.hung with
    | true => exact Or.inl hidle
    | false =>
      refine Or.inr fun hlong ↦ ?_
      rw [refStep, hidle, if_neg Bool.false_ne_true] at hafter
      rw [FindsTooLong] at hlong
      cases hfound : (World.respond (.ioQueueFindRequest .blockingRequestQueue none)
          { s.world with outcomes }).1 with
      | error status =>
        rw [hfound] at hlong
        exact hlong
      | ok tagRequest =>
        rw [hfound] at hlong
        have hleaks := requestWorker_leaks hw (h.holds hidle outcomes) hfound hlong
        have hended : (s.activate outcomes (requestWorker hw s.driver)).hung = false :=
          Option.isNone_eq_false_iff.mpr hleaks.1
        have hsame := congrFun (hafter.references hended) tagRequest
        have hone := hleaks.2.references tagRequest
        rw [List.count_cons_self, List.count_nil] at hone
        exact absurd (hsame.symm.trans hone) (by omega)

/-- The references are balanced all along a run of the two workers if and only if `request_worker`
never finds a request that does not fit. -/
theorem fscc_request_references_balanced_iff (hw : Hardware H) (driver : Driver H) (world : World)
    (actions : List (RefAction H)) :
    Runs.Along RefAllowed (refStep hw) ⟨driver, world, false⟩ actions ↔
      ∀ n, Balanced world ((actions.take n).foldl (refStep hw) ⟨driver, world, false⟩) :=
  Runs.along_iff_always (fun _ h ↦ h) (fun _ _ h hallowed ↦ h.step hallowed)
    (fun _ _ h hafter ↦ h.allowed hafter) ⟨rfl, fun _ ↦ rfl⟩

end Runs

/-! ### A ring without room -/

-- Two descriptors that still hold data; every register is 0.
def fullDriver : Driver Unit where
  tx :=
    { channel := 0, ignoreTimeout := false, forceFifo := true, hasDma := false
      registerStorage := clocklessPort.registerStorage, txModifiers := 0, txNum := 2
      txDescriptors := fun _ ↦ ⟨descFeBit + 4, 4, 4, [1, 2, 3, 4], 0⟩
      descPhysicalAddress := fun _ ↦ 0, userTxDesc := 0, fifoTxDesc := 0
      txBytesInFrame := 0, txFrameSize := 0 }
  rx :=
    { channel := 0, appendStatus := false, appendTimestamp := false, rxMultiple := false
      rxNum := 2, rxDescriptors := fun _ ↦ ⟨descHiBit, 4, 4, [0, 0, 0, 0], 0⟩
      userRxDesc := 0, fifoRxDesc := 0, rxBytesInFrame := 0, rxFrameSize := 0 }
  rxPhysicalAddress := fun _ ↦ 0
  txSize := 4
  blockingWrite := true
  waitOnWrite := false
  lastIsrValue := 0
  card := ()

-- Every call succeeds; one write of a byte waits for room.
def waitingWrite : Request := ⟨0, 1, [7]⟩

def waitingWorld : World where
  outcomes := fun _ ↦ ⟨[], .success⟩
  queue := fun queue ↦ if queue = .blockingRequestQueue then [waitingWrite] else []
  completed := []
  references := fun _ ↦ 0
  unmatched := 0

-- Each activation leaves one more reference on the request that waits.
theorem fscc_request_worker_leaks_reference :
    ¬ ∀ actions : List (RefAction Unit),
      Balanced waitingWorld (actions.foldl (refStep quietCard) ⟨fullDriver, waitingWorld, false⟩) := by
  intro hclaim
  have hbalanced := hclaim [.requestWorker waitingWorld.outcomes, .requestWorker waitingWorld.outcomes]
  have hreferences := congrFun (hbalanced.references (by decide)) waitingWrite
  exact absurd hreferences (by decide)

end FsccDriver.Handlers

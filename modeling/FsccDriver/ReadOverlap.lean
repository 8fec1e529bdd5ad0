import FsccDriver.Lib.Threads
import FsccDriver.RxShape
import FsccDriver.SplitRead

/-!
# ReadOverlap — activations of `FsccProcessRead` that overlap

`FsccProcessRead` looks for a frame, takes a request off `read_queue2` and then reads.  The lock is
dropped in between, so another activation or a purge can take the frame away.
-/

namespace FsccDriver

open Words

variable {H : Type}

/-! ## Activations -/

/-- Where an activation of `FsccProcessRead` is. -/
inductive ReadPc where
  | entered
  | ready
  | retrieved (length : BitVec 32)
  | done
  deriving DecidableEq

-- A completed read request, with the receive ring as it was found when the status was decided.
structure ReadAnswer where
  length : BitVec 32
  status : NtStatus
  found : RxPort

structure ReadSystem (H : Type) where
  port : RxPort
  card : H
  readQueue2 : List (BitVec 32)
  activations : List ReadPc
  answers : List ReadAnswer

inductive ReadAction (H : Type) where
  | evtIoRead (length : BitVec 32) (forwarded : Bool)
  | enqueueDpc
  | processRead (i : Nat) (mapped : Bool)
  | resetRx (card : H)
  | purgeReadQueue2
  | fifoReadData
  | setOptions (appendStatus appendTimestamp rxMultiple : Bool)
  | hardware (card : H)

def ReadSystem.complete (s : ReadSystem H) (length : BitVec 32) (status : NtStatus) : ReadSystem H :=
  { s with answers := s.answers ++ [⟨length, status, s.port⟩] }

def ReadSystem.goto (s : ReadSystem H) (i : Nat) (pc : ReadPc) : ReadSystem H :=
  { s with activations := s.activations.set i pc }

-- The readiness check, when the port is not streaming.
def readCheck (port : RxPort) : ReadPc :=
  let (frameReady, bytesReady) := fsccUserNextReadSize port
  if bytesReady = 0 then .done
  else if ¬ frameReady then .done
  else .ready

-- `fscc_user_read_frame` for a request, and its completion.
def ReadSystem.read (hw : Hardware H) (s : ReadSystem H) (length : BitVec 32) : ReadSystem H :=
  let (result, port, card) := fsccUserReadFrame hw length.toNat s.port s.card
  { s.complete length result.status with port, card }

/-- The next step of activation `i`.  `mapped` is whether the framework hands out the buffer of the
request. -/
def ReadSystem.processRead (hw : Hardware H) (s : ReadSystem H) (i : Nat) (mapped : Bool) :
    ReadSystem H :=
  match s.activations[i]? with
  | some .entered => s.goto i (readCheck s.port)
  | some .ready =>
      match s.readQueue2 with
      | [] => s.goto i .done
      | length :: rest => { s.goto i (.retrieved length) with readQueue2 := rest }
  | some (.retrieved length) =>
      if mapped then (s.read hw length).goto i .done else (s.complete length .failed).goto i .done
  | _ => s

def readStep (hw : Hardware H) (s : ReadSystem H) : ReadAction H → ReadSystem H
  | .evtIoRead length forwarded =>
      -- The user is requesting 0 bytes so return immediately.
      if length = 0 then s.complete length .success
      else if forwarded then { s with readQueue2 := s.readQueue2 ++ [length] }
      else s.complete length .failed
  | .enqueueDpc => { s with activations := s.activations ++ [.entered] }
  | .processRead i mapped => s.processRead hw i mapped
  | .resetRx card => { s with port := FsccDriver.resetRx s.port, card }
  | .purgeReadQueue2 =>
      { s with
        readQueue2 := []
        answers := s.answers ++ s.readQueue2.map fun length ↦ ⟨length, .failed, s.port⟩ }
  | .fifoReadData =>
      let (port, card) := fsccFifoReadData hw s.port s.card
      { s with port, card }
  | .setOptions appendStatus appendTimestamp rxMultiple =>
      { s with port := s.port.setOptions appendStatus appendTimestamp rxMultiple }
  | .hardware card => { s with card }

def readSystemStart (port : RxPort) (card : H) : ReadSystem H :=
  { port, card, readQueue2 := [], activations := [], answers := [] }

/-! ## When a buffer is too small -/

-- The driver calculates this in a `UINT32`.
def frameRequirement (port : RxPort) (bytes : Nat) : Int :=
  bytes - (if port.appendStatus then 0 else 2) + if port.appendTimestamp then 8 else 0

/-- A read fails for the size of its buffer only when a frame was ready that does not fit into it. -/
def ReadAnswer.Justified (answer : ReadAnswer) : Prop :=
  answer.status = .bufferTooSmall →
    (fsccUserNextReadSize answer.found).1 = true ∧
      frameRequirement answer.found (fsccUserNextReadSize answer.found).2 > answer.length.toNat

instance (answer : ReadAnswer) : Decidable answer.Justified :=
  inferInstanceAs (Decidable (_ → _))

def ReadSystem.Justified (s : ReadSystem H) : Prop := ∀ answer ∈ s.answers, answer.Justified

/-- There is a frame to read, and the two status bytes can be taken off its length. -/
structure FindsFrame (port : RxPort) (length : BitVec 32) : Prop where
  ready : (fsccUserNextReadSize port).1 = true
  counted : 2 ≤ (fsccUserNextReadSize port).2 ∨ port.appendStatus = true ∨
    port.appendTimestamp = true ∨ (fsccUserNextReadSize port).2 + 4294967294 ≤ length.toNat

-- The condition on a step of a run: a locked read is made while there is a frame for it.
def ReadsFrame (s : ReadSystem H) : ReadAction H → Prop
  | .processRead i true =>
      ∀ length, s.activations[i]? = some (.retrieved length) → FindsFrame s.port length
  | _ => True

-- The lengths that wrap are 0 and 1, and only when nothing is added to them again.
theorem bufferRequirement_gt (port : RxPort) {bytes : Nat} (hlt : bytes < 536870912)
    (length : BitVec 32) :
    (bufferRequirement port bytes > length.toNat → frameRequirement port bytes > length.toNat) ↔
      2 ≤ bytes ∨ port.appendStatus = true ∨ port.appendTimestamp = true ∨
        bytes + 4294967294 ≤ length.toNat := by
  unfold bufferRequirement validData frameRequirement u32
  cases port.appendStatus <;> cases port.appendTimestamp <;> simp only [if_true, if_false,
    Bool.false_eq_true, false_or, true_or, or_true, iff_true] <;> omega

theorem read_justified_iff (hw : Hardware H) (length : BitVec 32) (port : RxPort) (card : H) :
    (ReadAnswer.mk length (fsccUserReadFrame hw length.toNat port card).1.status port).Justified ↔
      FindsFrame port length := by
  have hlt : (fsccUserNextReadSize port).1 = true → (fsccUserNextReadSize port).2 < 536870912 :=
    nextReadSizeLoop_lt
  unfold ReadAnswer.Justified
  rw [fsccUserReadFrame_tooSmall]
  by_cases hready : (fsccUserNextReadSize port).1 = true
  · have hgt := bufferRequirement_gt port (hlt hready) length
    constructor
    · intro hjust
      refine ⟨hready, hgt.mp fun hsmall ↦ (hjust fun _ ↦ hsmall).2⟩
    · rintro ⟨-, hcounted⟩ hsmall
      exact ⟨hready, hgt.mpr hcounted (hsmall hready)⟩
  · refine iff_of_false (fun hjust ↦ ?_) (fun hfinds ↦ hready hfinds.ready)
    exact hready (hjust fun hthen ↦ absurd hthen hready).1

/-! ## Runs -/

section Runs

variable {hw : Hardware H} {s : ReadSystem H}

-- What a step adds to the answers, and when all of it is justified.
def StepAnswers (hw : Hardware H) (s : ReadSystem H) (action : ReadAction H) : Prop :=
  ∃ more, (readStep hw s action).answers = s.answers ++ more ∧
    ((∀ answer ∈ more, answer.Justified) ↔ ReadsFrame s action)

theorem StepAnswers.none {action : ReadAction H} (heq : (readStep hw s action).answers = s.answers)
    (hreads : ReadsFrame s action) : StepAnswers hw s action :=
  ⟨[], heq.trans (List.append_nil _).symm,
    iff_of_true (fun _ hmem ↦ absurd hmem List.not_mem_nil) hreads⟩

-- An answer with another status says nothing about the buffer.
theorem StepAnswers.other {action : ReadAction H} {more : List ReadAnswer}
    (heq : (readStep hw s action).answers = s.answers ++ more)
    (hstatus : ∀ answer ∈ more, answer.status ≠ .bufferTooSmall) (hreads : ReadsFrame s action) :
    StepAnswers hw s action :=
  ⟨more, heq, iff_of_true (fun answer hmem hsmall ↦ absurd hsmall (hstatus answer hmem)) hreads⟩

theorem StepAnswers.one {action : ReadAction H} {length : BitVec 32} {status : NtStatus}
    (heq : (readStep hw s action).answers = s.answers ++ [⟨length, status, s.port⟩])
    (hstatus : status ≠ .bufferTooSmall) (hreads : ReadsFrame s action) :
    StepAnswers hw s action := by
  apply StepAnswers.other heq _ hreads
  intro answer hmem
  rw [List.mem_singleton.mp hmem]
  exact hstatus

theorem readStep_processRead (hw : Hardware H) (s : ReadSystem H) (i : Nat) (mapped : Bool) :
    StepAnswers hw s (.processRead i mapped) := by
  have hquiet : ∀ pc, s.activations[i]? = pc → (∀ length, pc ≠ some (.retrieved length)) →
      ReadsFrame s (.processRead i mapped) := by
    rintro pc rfl hne
    cases mapped with
    | false => exact trivial
    | true => exact fun length hpc ↦ absurd hpc (hne length)
  have hstep : readStep hw s (.processRead i mapped) = s.processRead hw i mapped := rfl
  unfold ReadSystem.processRead at hstep
  cases hpc : s.activations[i]? with
  | none =>
    rw [hpc] at hstep
    exact StepAnswers.none (by rw [hstep]) (hquiet _ hpc fun length h ↦ by cases h)
  | some pc =>
    rw [hpc] at hstep
    cases pc with
    | entered => exact StepAnswers.none (by rw [hstep]; rfl) (hquiet _ hpc fun length h ↦ by cases h)
    | ready =>
      refine StepAnswers.none ?_ (hquiet _ hpc fun length h ↦ by cases h)
      rw [hstep]
      cases s.readQueue2 with
      | nil => rfl
      | cons length rest => rfl
    | retrieved length =>
      cases mapped with
      | false => exact StepAnswers.one (by rw [hstep]; rfl) (by decide) trivial
      | true =>
        refine ⟨[⟨length, (fsccUserReadFrame hw length.toNat s.port s.card).1.status, s.port⟩],
          by rw [hstep]; rfl, ?_⟩
        rw [List.forall_mem_singleton, read_justified_iff]
        constructor
        · intro hfinds length' hpc'
          obtain rfl : length = length' := by
            rw [hpc] at hpc'
            cases hpc'
            rfl
          exact hfinds
        · exact fun hreads ↦ hreads length hpc
    | done => exact StepAnswers.none (by rw [hstep]) (hquiet _ hpc fun length h ↦ by cases h)

theorem readStep_answers (hw : Hardware H) (s : ReadSystem H) (action : ReadAction H) :
    StepAnswers hw s action := by
  cases action with
  | evtIoRead length forwarded =>
    by_cases hzero : length = 0
    · exact StepAnswers.one (congrArg ReadSystem.answers (if_pos hzero)) (by decide) trivial
    · cases forwarded with
      | false => exact StepAnswers.one (congrArg ReadSystem.answers (if_neg hzero)) (by decide) trivial
      | true => exact StepAnswers.none (congrArg ReadSystem.answers (if_neg hzero) :) trivial
  | processRead i mapped => exact readStep_processRead hw s i mapped
  | purgeReadQueue2 =>
    refine StepAnswers.other rfl (fun answer hmem ↦ ?_) trivial
    obtain ⟨length, -, rfl⟩ := List.mem_map.mp hmem
    exact NtStatus.noConfusion
  | enqueueDpc => exact StepAnswers.none rfl trivial
  | resetRx card => exact StepAnswers.none rfl trivial
  | fifoReadData => exact StepAnswers.none rfl trivial
  | setOptions a b c => exact StepAnswers.none rfl trivial
  | hardware card => exact StepAnswers.none rfl trivial

/-- However activations, purges and drains of the FIFO overlap: every `STATUS_BUFFER_TOO_SMALL` is
about the buffer if and only if each locked read is made while there is a frame for it. -/
theorem fscc_process_read_too_small_iff (hw : Hardware H) (port : RxPort) (card : H)
    (actions : List (ReadAction H)) :
    Runs.Along ReadsFrame (readStep hw) (readSystemStart port card) actions ↔
      ∀ n, ((actions.take n).foldl (readStep hw) (readSystemStart port card)).Justified := by
  apply Runs.along_iff_always (fun _ hgood ↦ hgood)
  · intro s action hall hreads
    obtain ⟨more, heq, hmore⟩ := readStep_answers hw s action
    rw [ReadSystem.Justified, heq, List.forall_mem_append]
    exact ⟨hall, hmore.mpr hreads⟩
  · intro s action _ hall
    obtain ⟨more, heq, hmore⟩ := readStep_answers hw s action
    rw [ReadSystem.Justified, heq, List.forall_mem_append] at hall
    exact hmore.mp hall.2
  · exact fun _ hmem ↦ absurd hmem List.not_mem_nil

end Runs

-- Two requests of 16 bytes, two activations and one frame of 6 bytes.
def twoReads : List (ReadAction RxFifo) :=
  [.evtIoRead 16 true, .evtIoRead 16 true, .fifoReadData, .fifoReadData, .enqueueDpc, .enqueueDpc,
    .processRead 0 true, .processRead 1 true, .processRead 0 true, .processRead 1 true,
    .processRead 0 true, .processRead 1 true]

-- Both see the frame and take a request; the second finds nothing and blames its buffer.
theorem fscc_second_read_not_justified :
    ¬ (twoReads.foldl (readStep (splitFifo [4] constClock))
      (readSystemStart smallRing (splitStart sixByteFrame))).Justified := by
  unfold ReadSystem.Justified
  decide

/-! ## Activations that are left alone -/

-- Between the readiness check and the locked read.
def ReadPc.waiting : ReadPc → Bool
  | .ready | .retrieved _ => true
  | _ => false

-- Nothing takes a frame out while an activation that saw it still has to read.
def Undisturbed (s : ReadSystem H) : ReadAction H → Prop
  | .processRead i _ => ∀ length, s.activations[i]? = some (.retrieved length) →
      ∀ j pc, s.activations[j]? = some pc → pc.waiting = true → j = i
  | .resetRx _ => ∀ pc ∈ s.activations, pc.waiting = false
  | _ => True

-- A locked read is made while a frame is ready, whatever its length.
def ReadsReady (s : ReadSystem H) : ReadAction H → Prop
  | .processRead i true => ∀ length, s.activations[i]? = some (.retrieved length) →
      (fsccUserNextReadSize s.port).1 = true
  | _ => True

section Undisturbed

variable {hw : Hardware H} {s : ReadSystem H} {ds i : Nat}

structure FrameKept (ds : Nat) (s : ReadSystem H) : Prop where
  shape : ∃ finished, RxShape ds finished s.port
  ready : ∀ pc ∈ s.activations, pc.waiting = true → (fsccUserNextReadSize s.port).1 = true

theorem readCheck_waiting {port : RxPort} (h : (readCheck port).waiting = true) :
    (fsccUserNextReadSize port).1 = true := by
  unfold readCheck at h
  generalize fsccUserNextReadSize port = size at h ⊢
  obtain ⟨ready, bytes⟩ := size
  cases ready with
  | true => rfl
  | false =>
    simp only [Bool.false_eq_true, not_false_eq_true, if_true, ite_self] at h
    cases h

theorem FrameKept.congr {s' : ReadSystem H} (h : FrameKept ds s) (hport : s'.port = s.port)
    (hactivations : s'.activations = s.activations) : FrameKept ds s' := by
  refine ⟨hport ▸ h.shape, fun pc hmem ↦ ?_⟩
  rw [hport]
  exact h.ready pc (hactivations ▸ hmem)

theorem FrameKept.goto (h : FrameKept ds s) {pc : ReadPc}
    (hpc : pc.waiting = true → (fsccUserNextReadSize s.port).1 = true) :
    FrameKept ds (s.goto i pc) :=
  ⟨h.shape, Threads.forall_set h.ready hpc⟩

theorem FrameKept.processRead (h : FrameKept ds s) {mapped : Bool}
    (halone : Undisturbed s (.processRead i mapped)) :
    FrameKept ds (s.processRead hw i mapped) := by
  unfold ReadSystem.processRead
  cases hpc : s.activations[i]? with
  | none => exact h
  | some pc =>
    have hmem : pc ∈ s.activations := List.mem_of_getElem? hpc
    cases pc with
    | entered => exact h.goto readCheck_waiting
    | ready =>
      cases s.readQueue2 with
      | nil => exact h.goto fun hdone ↦ by cases hdone
      | cons length rest =>
        have hgoto : FrameKept ds (s.goto i (.retrieved length)) := h.goto fun _ ↦ h.ready _ hmem rfl
        exact hgoto.congr rfl rfl
    | retrieved length =>
      cases mapped with
      | false =>
        have hgoto : FrameKept ds (s.goto i .done) := h.goto fun hdone ↦ by cases hdone
        exact hgoto.congr rfl rfl
      | true =>
        refine ⟨fsccUserReadFrame_shape h.shape, fun pc hmem' hwaiting ↦ ?_⟩
        obtain ⟨j, hj⟩ := List.mem_iff_getElem?.mp hmem'
        change (s.activations.set i .done)[j]? = some pc at hj
        by_cases hij : i = j
        · subst hij
          rw [List.getElem?_set_self (List.getElem?_eq_some_iff.mp hpc).1] at hj
          cases hj
          cases hwaiting
        · rw [List.getElem?_set_ne hij] at hj
          exact absurd (halone length hpc j pc hj hwaiting).symm hij
    | done => exact h

theorem readStep_evtIoRead (hw : Hardware H) (s : ReadSystem H) (length : BitVec 32)
    (forwarded : Bool) : ∃ readQueue2 answers,
      readStep hw s (.evtIoRead length forwarded) = { s with readQueue2, answers } := by
  by_cases hzero : length = 0
  · have hstep : readStep hw s (.evtIoRead length forwarded) = s.complete length .success :=
      if_pos hzero
    exact ⟨_, _, hstep⟩
  · cases forwarded with
    | false =>
      have hstep : readStep hw s (.evtIoRead length false) = s.complete length .failed := if_neg hzero
      exact ⟨_, _, hstep⟩
    | true =>
      have hstep : readStep hw s (.evtIoRead length true) =
          { s with readQueue2 := s.readQueue2 ++ [length] } := if_neg hzero
      exact ⟨_, _, hstep⟩

theorem FrameKept.step (hds : ds < 1610612736) (action : ReadAction H)
    (halone : Undisturbed s action) (h : FrameKept ds s) : FrameKept ds (readStep hw s action) := by
  cases action with
  | evtIoRead length forwarded =>
    obtain ⟨queue, answers, hstep⟩ := readStep_evtIoRead hw s length forwarded
    rw [hstep]
    exact h.congr rfl rfl
  | enqueueDpc => exact ⟨h.shape, Threads.forall_append_one h.ready fun hwait ↦ by cases hwait⟩
  | processRead i mapped => exact h.processRead halone
  | resetRx card =>
    obtain ⟨finished, hring⟩ := h.shape
    refine ⟨⟨[], hring.reset⟩, fun pc hmem hwaiting ↦ ?_⟩
    exact absurd ((halone pc hmem).symm.trans hwaiting) Bool.false_ne_true
  | purgeReadQueue2 => exact h.congr rfl rfl
  | fifoReadData =>
    obtain ⟨finished, hring⟩ := h.shape
    obtain ⟨more, hmore⟩ := fsccFifoReadData_shape hring hds s.card
    exact ⟨⟨_, hmore⟩, fun pc hmem hwaiting ↦
      fsccFifoReadData_keepsReady hring hds s.card (h.ready pc hmem hwaiting)⟩
  | setOptions a b c =>
    obtain ⟨finished, hring⟩ := h.shape
    have hasked : RxShape ds finished (s.port.setOptions a b c) := ⟨hring.holds, hring.fifo⟩
    refine ⟨⟨finished, hasked⟩, fun pc hmem hwaiting ↦ hasked.ready_iff.mpr ?_⟩
    exact hring.ready_iff.mp (h.ready pc hmem hwaiting)
  | hardware card => exact h.congr rfl rfl

/-- An activation that no other read and no purge disturbs finds the frame it was told of. -/
theorem undisturbed_reads_ready (hw : Hardware H) {port : RxPort} (card : H)
    {actions : List (ReadAction H)} (hslots : 0 < port.rxNum)
    (hsize : ∀ i < port.rxNum, (port.rxDescriptors i).dataSize = ds) (hds : ds < 1610612736)
    (halone : Runs.Along Undisturbed (readStep hw) (readSystemStart (resetRx port) card) actions) :
    Runs.Along ReadsReady (readStep hw) (readSystemStart (resetRx port) card) actions := by
  have hstart : FrameKept ds (readSystemStart (resetRx port) card) :=
    ⟨⟨[], resetRx_shape hslots hsize⟩, fun _ hmem ↦ absurd hmem List.not_mem_nil⟩
  refine halone.imp (fun _ action hstep h ↦ h.step hds action hstep) ?_ hstart
  intro s action _ h
  cases action with
  | processRead i mapped =>
    cases mapped with
    | false => exact trivial
    | true => exact fun length hpc ↦ h.ready _ (List.mem_of_getElem? hpc) rfl
  | _ => exact trivial

end Undisturbed

end FsccDriver

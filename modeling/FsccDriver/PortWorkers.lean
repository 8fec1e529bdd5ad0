import FsccDriver.RequestOwners

/-!
# PortWorkers — the interrupt, the timer and the workers that hold no request (`isr.c`)

With them every callback and every worker of an open port has a definition.  `portStep` runs any of
them at any time: what queues a DPC, an interrupt or the timer, may come at any time.
-/

namespace FsccDriver

variable {H : Type}

/-! ## `fscc_dma_apply_timestamps` -/

def applyTimestampsLoop (hw : Hardware H) : Nat → (curDesc : Nat) → RxPort → H → RxPort × H
  | 0, _, port, h => (port, h)
  | n + 1, curDesc, port, h =>
      let desc := port.rxDescriptors curDesc
      -- Neither FE nor CSTOP: the descriptor is unfinished.
      if desc.control &&& descFeBit = 0 ∧ desc.control &&& descCstopBit = 0 then (port, h)
      else
        let (timestamp, h) :=
          if desc.timestamp = 0 then hw.keQuerySystemTime h else (desc.timestamp, h)
        let rxDescriptors := Function.update port.rxDescriptors curDesc { desc with timestamp }
        applyTimestampsLoop hw n (Cyclic.next port.rxNum curDesc) { port with rxDescriptors } h

def fsccDmaApplyTimestamps (hw : Hardware H) (port : RxPort) (h : H) : RxPort × H :=
  applyTimestampsLoop hw port.rxNum port.userRxDesc port h

/-! ## `fscc_io_transmit_frame` -/

def fsccIoTransmitFrame (hw : Hardware H) (port : TxPort) (h : H) : Nat × TxPort × H :=
  let (result, port, h) := fsccFifoWriteData hw port h
  if result ≠ 0 then
    let (port, h) := fsccIoExecuteTransmit hw port false h
    (result, port, h)
  else (result, port, h)

/-! ## The workers -/

namespace Handlers

open Calls (Program)
open Words

-- `request_dpc` is the only DPC that no interrupt enqueues.
inductive PortDpc where
  | interrupt (dpc : Dpc)
  | request
  deriving DecidableEq

def Driver.isr (hw : Hardware H) (d : Driver H) : IsrResult × Driver H :=
  let (result, port, card) := fsccIsr hw ⟨d.registers, d.lastIsrValue⟩ d.card
  (result, { d with lastIsrValue := port.lastIsrValue, card })

def timestampWorker (hw : Hardware H) (d : Driver H) : Driver H :=
  if ¬ fsccPortUsesDma d.registers then d
  else
    let (rx, card) := fsccDmaApplyTimestamps hw d.rx d.card
    { d with rx, card }

/-- `iframe_worker`, and the DPC it enqueues. -/
def iframeWorker (hw : Hardware H) (d : Driver H) : List PortDpc × Driver H :=
  if fsccPortUsesDma d.registers then ([], d)
  else
    let (rx, card) := fsccFifoReadData hw d.rx d.card
    ([.interrupt .processRead], { d with rx, card })

def oframeWorker (hw : Hardware H) (d : Driver H) : Driver H :=
  if fsccPortUsesDma d.registers then d
  else
    let (_, port, card) := fsccIoTransmitFrame hw d.tx.toTxPort d.card
    { d with tx := { d.tx with toTxPort := port }, card }

-- The DPCs a tick of the timer enqueues.
def timerHandler (d : Driver H) : List PortDpc :=
  [.interrupt (if fsccPortUsesDma d.registers then .processRead else .iframe), .request]

/-! ## Runs of a port -/

/-- A callback, the interrupt, a worker, a cancellation, or what the hardware does by itself: the DMA
engine writes to the descriptors, and the card goes on. -/
inductive PortEvent (H : Type) where
  | evtIoRead (request : Request)
  | evtIoWrite (request : Request)
  | evtIoDeviceControl (request : Request) (ioControlCode : IoControlCode)
  | isr
  | dpc (dpc : PortDpc) (rounds : Nat)
  | cancel (requests : List Request)
  | hardware (rxDescriptors txDescriptors : Nat → DmaFrame) (card : H)

def PortDpc.event (hw : Hardware H) (d : Driver H) (rounds : Nat) : PortDpc → SystemEvent H
  | .interrupt .timestamp => .others (timestampWorker hw d)
  | .interrupt .processRead => .processRead
  | .interrupt .iframe => .others (iframeWorker hw d).2
  | .interrupt .oframe => .others (oframeWorker hw d)
  | .interrupt .alls => .allsWorker rounds
  | .interrupt .isrAlert => .isrAlertWorker rounds
  | .request => .requestWorker

def PortEvent.event (hw : Hardware H) (d : Driver H) : PortEvent H → SystemEvent H
  | .evtIoRead request => .evtIoRead request
  | .evtIoWrite request => .evtIoWrite request
  | .evtIoDeviceControl request ioControlCode => .evtIoDeviceControl request ioControlCode
  | .isr => .others (d.isr hw).2
  | .dpc queued rounds => queued.event hw d rounds
  | .cancel requests => .cancel requests
  | .hardware rxDescriptors txDescriptors card =>
      .others { d with
        rx := { d.rx with rxDescriptors }, tx := { d.tx with txDescriptors }, card }

def portStep (hw : Hardware H) (s : System H) (step : PortEvent H × (Nat → Outcome)) : System H :=
  systemStep hw s (step.1.event hw s.driver, step.2)

/-- What always holds of the port a handler returns, holds of the port behind the step. -/
theorem systemStep_driver {hw : Hardware H} {s : System H} {event : SystemEvent H}
    {P : Driver H → Prop} (hs : P s.driver)
    (hhandler : (event.handler hw s.driver).2.Always P) (outcomes : Nat → Outcome) :
    P (systemStep hw s (event, outcomes)).driver := by
  have hhandle : ∀ s' : System H, s'.driver = s.driver →
      P (s'.handle outcomes (event.handler hw s.driver).2).driver := by
    intro s' hsame
    simp only [System.handle]
    cases hrun : ((event.handler hw s.driver).2.run World.respond { s'.world with outcomes }).1 with
    | none =>
      rw [Option.getD_none, hsame]
      exact hs
    | some driver => exact hhandler.run hrun
  rcases event with request | request | ⟨request, code⟩ | _ | rounds | _ | rounds | requests | driver
  case evtIoRead | evtIoWrite | evtIoDeviceControl =>
    show P (if request ∈ s.delivered then s
      else ({ s with delivered := s.delivered ++ [request] } : System H).handle outcomes _).driver
    split
    · exact hs
    · exact hhandle { s with delivered := s.delivered ++ [request] } rfl
  case cancel => exact hs
  all_goals exact hhandle s rfl

/-! ## What the handlers do to the port -/

/-- A relation between ports that holds over a read, over a write that there is space for, and over
the check for a clock. -/
structure Handled (hw : Hardware H) (R : Driver H → Driver H → Prop) : Prop where
  refl : ∀ d, R d d
  trans : ∀ d d' d'', R d d' → R d' d'' → R d d''
  read : ∀ d streaming length, R d (d.read hw streaming length).2
  write : ∀ (d : Driver H) data length, length ≤ fsccUserGetTxSpace d.tx.toTxPort →
    R d (d.write hw data length).2
  clock : ∀ d, R d (d.clockMissing hw).2

section Handled

variable {hw : Hardware H} {R : Driver H → Driver H → Prop}

theorem Handled.processRead (h : Handled hw R) (d : Driver H) :
    (fsccProcessRead hw d).Always (R d) := by
  unfold fsccProcessRead
  apply Program.Always.ite
  · exact fun _ ↦ h.refl d
  intro _
  apply Program.Always.ite
  · exact fun _ ↦ h.refl d
  rintro - (status | request)
  · exact h.refl d
  intro length (status : NtStatus)
  apply Program.Always.ite
  · exact fun _ _ ↦ h.refl d
  intro _ _
  apply Program.Always.ite
  · exact fun _ _ ↦ h.read d _ _
  · exact fun _ _ ↦ h.read d _ _

theorem Driver.clockMissing_tx (d : Driver H) : (d.clockMissing hw).2.tx = d.tx := by
  rw [Driver.clockMissing]
  split <;> rfl

theorem Handled.evtIoWrite (h : Handled hw R) (d : Driver H) (request : Request) :
    (fsccEvtIoWrite hw d request).Always (R d) := by
  have hclock := h.clock d
  have htx : (d.clockMissing hw).2.tx = d.tx := d.clockMissing_tx
  unfold fsccEvtIoWrite
  apply Program.Always.ite
  · exact fun _ _ ↦ h.refl d
  intro _
  apply Program.Always.ite
  · exact fun _ _ ↦ h.refl d
  intro _
  apply Program.Always.ite
  · intro _ (status : NtStatus)
    apply Program.Always.ite
    · exact fun _ _ ↦ h.refl d
    · exact fun _ ↦ h.refl d
  intro _
  apply Program.Always.ite
  · exact fun _ _ ↦ h.refl d
  intro hspace
  generalize d.clockMissing hw = clock at hclock htx
  obtain ⟨timedOut, d'⟩ := clock
  apply Program.Always.ite
  · exact fun _ _ ↦ hclock
  intro _ (status : NtStatus)
  apply Program.Always.ite
  · exact fun _ _ ↦ hclock
  intro _ data
  have hlength : u32 request.length ≤ fsccUserGetTxSpace d'.tx.toTxPort := by
    rw [show d'.tx = d.tx from htx]
    exact Nat.le_trans (u32_le request.length) (Nat.le_of_not_lt hspace)
  have hwrite := h.trans d d' _ hclock (h.write d' data (u32 request.length) hlength)
  apply Program.Always.ite
  · intro _ (status : NtStatus)
    apply Program.Always.ite
    · exact fun _ _ ↦ hwrite
    · exact fun _ ↦ hwrite
  · exact fun _ _ ↦ hwrite

theorem Handled.requestWorker (h : Handled hw R) (d : Driver H) :
    (requestWorker hw d).Always (R d) := by
  unfold Handlers.requestWorker
  rintro (status | tagRequest)
  · exact h.refl d
  apply Program.Always.ite
  · exact fun _ ↦ h.refl d
  intro hspace (status : NtStatus) _
  apply Program.Always.ite
  · exact fun _ ↦ h.refl d
  intro _ (status : NtStatus)
  apply Program.Always.ite
  · exact fun _ _ ↦ h.refl d
  · exact fun _ data _ ↦ h.write d data (u32 tagRequest.length) (Nat.le_of_not_lt hspace)

/-! ## What a step does to the port -/

variable {P : Driver H → Prop} {d : Driver H} {request : Request} {length : Nat}
  {body : Handler (ControlResult H)}

theorem withInput_always (hd : P d) (hbody : body.Always fun result ↦ P result.2.2) :
    (withInput request length d body).Always fun result ↦ P result.2.2 := by
  unfold withInput
  intro (status : NtStatus)
  exact Program.Always.ite (fun _ ↦ hd) fun _ ↦ hbody

theorem withOutput_always (hd : P d) (hbody : body.Always fun result ↦ P result.2.2) :
    (withOutput request length d body).Always fun result ↦ P result.2.2 := by
  unfold withOutput
  intro (status : NtStatus)
  exact Program.Always.ite (fun _ ↦ hd) fun _ ↦ hbody

theorem evtIoDeviceControl_always {code : IoControlCode} (hd : P d)
    (hcontrol : (ioControl hw d request code).Always fun result ↦ P result.2.2) :
    (fsccEvtIoDeviceControl hw d request code).Always P := by
  unfold fsccEvtIoDeviceControl
  apply Program.Always.ite
  · intro _ (status : NtStatus)
    exact Program.Always.ite (fun _ _ ↦ hd) fun _ ↦ hd
  · exact fun _ ↦ hcontrol.bind fun _ hresult _ ↦ hresult

/-- A relation between ports that holds over whatever the driver does to one, as long as it is asked
for nothing but what is allowed. -/
structure Driven (hw : Hardware H) (Allowed : IoControlCode → Prop) (R : Driver H → Driver H → Prop) :
    Prop extends Handled hw R where
  control : ∀ d request code, Allowed code →
    (ioControl hw d request code).Always fun result ↦ R d result.2.2
  isr : ∀ d : Driver H, R d (d.isr hw).2
  timestamp : ∀ d, R d (timestampWorker hw d)
  iframe : ∀ d, R d (iframeWorker hw d).2
  oframe : ∀ d, R d (oframeWorker hw d)
  alerts : ∀ d : Driver H, R d { d with lastIsrValue := 0 }

/-- One step, with one case for each callback and each worker. -/
theorem Driven.step {Allowed : IoControlCode → Prop} (h : Driven hw Allowed R) (s : System H)
    (step : PortEvent H × (Nat → Outcome))
    (hallowed : ∀ request code, step.1 = .evtIoDeviceControl request code → Allowed code)
    (hdriven : ∀ d, R s.driver d → P d)
    (hhardware : ∀ rxDescriptors txDescriptors card,
      step.1 = .hardware rxDescriptors txDescriptors card → P { s.driver with
        rx := { s.driver.rx with rxDescriptors }, tx := { s.driver.tx with txDescriptors }, card }) :
    P (portStep hw s step).driver := by
  obtain ⟨event, outcomes⟩ := step
  have hsame := hdriven s.driver (h.refl s.driver)
  refine systemStep_driver hsame ?_ outcomes
  cases event with
  | evtIoRead request => exact (Program.always_true _).bind fun _ _ ↦ hsame
  | evtIoWrite request => exact (h.evtIoWrite s.driver request).mono hdriven
  | evtIoDeviceControl request code =>
    have hcontrol := h.control s.driver request code (hallowed request code rfl)
    exact (evtIoDeviceControl_always (h.refl s.driver) hcontrol).mono hdriven
  | isr => exact hdriven _ (h.isr s.driver)
  | dpc queued rounds =>
    cases queued with
    | request => exact (h.requestWorker s.driver).mono hdriven
    | interrupt dpc =>
      cases dpc with
      | timestamp => exact hdriven _ (h.timestamp s.driver)
      | processRead => exact (h.processRead s.driver).mono hdriven
      | iframe => exact hdriven _ (h.iframe s.driver)
      | oframe => exact hdriven _ (h.oframe s.driver)
      | alls => exact (Program.always_true _).bind fun _ _ ↦ hsame
      | isrAlert => exact (Program.always_true _).bind fun _ _ ↦ hdriven _ (h.alerts s.driver)
  | cancel requests => exact hsame
  | hardware rxDescriptors txDescriptors card => exact hhardware _ _ _ rfl

end Handled

end Handlers

end FsccDriver

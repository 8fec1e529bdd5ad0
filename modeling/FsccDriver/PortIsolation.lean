import FsccDriver.PortDefaults

/-!
# PortIsolation — two ports on one card

Both ports of a card find their DMA registers in the same BAR 2, `port_offset` apart.  Whatever happens
to one port, its driver leaves those of the other one alone.
-/

namespace FsccDriver

variable {H : Type} {hw : Hardware H} {channel other : Nat} {register : Nat × Nat}

/-! ## The registers of the other port -/

def channelOffsets : List Nat :=
  dmaOffsets ++ [dmaCurrentRxBaseOffset, dmaCurrentTxBaseOffset]

def OtherRegister (channel : Nat) (register : Nat × Nat) : Prop :=
  ∃ other offset, (other = 0 ↔ channel ≠ 0) ∧ offset ∈ channelOffsets ∧
    register = (2, portOffset other 2 offset)

-- All that `port_offset` asks of a channel is whether it is the first one.
theorem portOffset_first (channel bar offset : Nat) :
    portOffset channel bar offset = portOffset (if channel = 0 then 0 else 1) bar offset := by
  by_cases hfirst : channel = 0
  · rw [if_pos hfirst, hfirst]
  · rw [if_neg hfirst]
    simp only [portOffset, if_neg hfirst, if_neg Nat.one_ne_zero]

theorem portOffset_apart : ∀ offset ∈ channelOffsets, ∀ offset' ∈ channelOffsets,
    portOffset 0 2 offset ≠ portOffset 1 2 offset' := by
  decide

theorem portOffset_ne {offset offset' : Nat} (hoffset : offset ∈ channelOffsets)
    (hoffset' : offset' ∈ channelOffsets) (hother : other = 0 ↔ channel ≠ 0) :
    portOffset other 2 offset ≠ portOffset channel 2 offset' := by
  rw [portOffset_first other, portOffset_first channel]
  by_cases hfirst : channel = 0
  · rw [if_pos hfirst, if_neg fun h ↦ hother.mp h hfirst]
    exact (portOffset_apart offset' hoffset' offset hoffset).symm
  · rw [if_neg hfirst, if_pos (hother.mpr hfirst)]
    exact portOffset_apart offset hoffset offset' hoffset'

theorem portOffset_ne_fcr {offset : Nat} (hoffset : offset ∈ channelOffsets) :
    portOffset other 2 offset ≠ fcrOffset := by
  have hapart : ∀ offset ∈ channelOffsets, ∀ first ∈ [0, 1], portOffset first 2 offset ≠ fcrOffset := by
    decide
  rw [portOffset_first]
  split
  · exact hapart offset hoffset 0 List.mem_cons_self
  · exact hapart offset hoffset 1 (List.mem_cons_of_mem _ List.mem_cons_self)

/-- Of all that a port may write only the master reset goes to the other one. -/
theorem OtherRegister.mayWrite {reset : Prop} {port : RegPort} {value : BitVec 32}
    (h : OtherRegister port.channel register) (hmay : MayWrite reset port register value) :
    port.channel ≠ 0 ∧ register = (2, dmaccrOffset) ∧ value = 0x10000 ∧ reset := by
  obtain ⟨other, offset, hother, hoffset, rfl⟩ := h
  rcases hmay with hbar | hfcr | ⟨offset', hoffset', hown⟩ | ⟨hasked, hreset, hvalue⟩
  · cases hbar
  · exact absurd (congrArg Prod.snd hfcr) (portOffset_ne_fcr hoffset)
  · exact absurd (congrArg Prod.snd hown)
      (portOffset_ne hoffset (List.mem_append_left _ hoffset') hother)
  · refine ⟨fun hfirst ↦ ?_, hreset, hvalue, hasked⟩
    have hdmaccr : dmaccrOffset ∈ channelOffsets := by decide
    have hown : dmaccrOffset = portOffset port.channel 2 dmaccrOffset := by
      rw [hfirst]
      rfl
    rw [hown] at hreset
    exact portOffset_ne hoffset hdmaccr hother (congrArg Prod.snd hreset)

/-! ## Every run -/

namespace Handlers

open Calls (Program)

section Run

variable {content : Nat × Nat → H → BitVec 32} {reset : Prop}

/-- The card and the driver of the other port leave the register alone, too. -/
def KeepsRegister (content : Nat × Nat → H → BitVec 32) (register : Nat × Nat) (s : System H)
    (step : PortEvent H × (Nat → Outcome)) : Prop :=
  match step.1 with
  | .hardware _ _ card => content register card = content register s.driver.card
  | _ => True

/-- `FSCC_SET_REGISTERS` with the bit of the master reset in the field for DMACCR.  A field of -1, which
is to say nothing, has all bits. -/
def AsksReset (step : PortEvent H × (Nat → Outcome)) : Prop :=
  ∃ request, step.1 = .evtIoDeviceControl request .setRegisters ∧
    (registersAt request.buffer).dmaccr &&& 0x10000 ≠ 0

-- The registers that are set are those in the buffer of the request.
theorem fsccEvtIoDeviceControl_setRegisters (d : Driver H) (request : Request)
    (hreset : (registersAt request.buffer).dmaccr &&& 0x10000 ≠ 0 → reset) (w : World) :
    Program.Post World.respond (fsccEvtIoDeviceControl hw d request .setRegisters)
      (fun result _ ↦ Accessed hw reset d (result.getD d)) w := by
  have hset := fsccPortSetRegisters_accesses hw reset d.registers (registersAt request.buffer) hreset
    d.card
  rw [fsccEvtIoDeviceControl, if_neg (by decide), Program.post_bind, ioControl, withInput]
  refine post_retrieveInputBuffer.mpr (Program.Post.ite (fun _ ↦ .refl d) fun _ ↦ ?_)
  refine post_accessBuffer.mpr ?_
  generalize fsccPortSetRegisters hw (registersAt request.buffer) d.registers d.card = result at hset ⊢
  exact hset

theorem setRegistersStep_accessed (s : System H) (request : Request)
    (hreset : (registersAt request.buffer).dmaccr &&& 0x10000 ≠ 0 → reset)
    (outcomes : Nat → Outcome) : Accessed hw reset s.driver
      (portStep hw s (.evtIoDeviceControl request .setRegisters, outcomes)).driver := by
  show Accessed hw reset s.driver (if request ∈ s.delivered then s
    else ({ s with delivered := s.delivered ++ [request] } : System H).handle outcomes _).driver
  split
  · exact .refl _
  · exact fsccEvtIoDeviceControl_setRegisters s.driver request hreset _

/-- In one step the driver does not go past its own registers without being asked for the reset. -/
theorem portStep_accessed (s : System H) (step : PortEvent H × (Nat → Outcome))
    (hreset : AsksReset step → reset) (hdriver : ∀ rx tx card, step.1 ≠ .hardware rx tx card) :
    Accessed hw reset s.driver (portStep hw s step).driver := by
  by_cases hset : ∃ request, step.1 = .evtIoDeviceControl request .setRegisters
  · obtain ⟨request, hrequest⟩ := hset
    obtain ⟨event, outcomes⟩ := step
    cases hrequest
    exact setRegistersStep_accessed s request (fun hbit ↦ hreset ⟨request, rfl, hbit⟩) outcomes
  · refine (accessed_driven reset).step s step (fun request code hevent hcode ↦ ?_) (fun _ h ↦ h)
      fun rx tx card hevent ↦ absurd hevent (hdriver rx tx card)
    exact absurd ⟨request, hcode ▸ hevent⟩ hset

structure Isolated (content : Nat × Nat → H → BitVec 32) (reset : Prop) (register : Nat × Nat)
    (d d' : Driver H) : Prop where
  reach : MayWrite reset d'.registers = MayWrite reset d.registers
  kept : Mirror.KeptOr (MayWrite reset) content register (d.registers, d.card) (d'.registers, d'.card)

theorem Accessed.isolated {watched : Nat × Nat → Prop} (hheld : hw.device.Holds watched content)
    (hwatched : watched register) {d d' : Driver H} (h : Accessed hw reset d d') :
    Isolated content reset register d d' :=
  ⟨Mirror.Accesses.reach_eq h, Mirror.Accesses.keptOr hheld hwatched h⟩

theorem Isolated.trans {d d' d'' : Driver H} (h : Isolated content reset register d d')
    (h' : Isolated content reset register d' d'') : Isolated content reset register d d'' :=
  ⟨h'.reach.trans h.reach, h.kept.trans h.reach h'.kept⟩

theorem portStep_isolated {watched : Nat × Nat → Prop} (hheld : hw.device.Holds watched content)
    (hwatched : watched register) (s : System H) (step : PortEvent H × (Nat → Outcome))
    (hkeeps : KeepsRegister content register s step) (hreset : AsksReset step → reset) :
    Isolated content reset register s.driver (portStep hw s step).driver := by
  by_cases hhardware : ∃ rx tx card, step.1 = .hardware rx tx card
  · obtain ⟨rx, tx, card, hevent⟩ := hhardware
    obtain ⟨event, outcomes⟩ := step
    cases hevent
    exact ⟨rfl, Or.inl hkeeps⟩
  · have hdriver : ∀ rx tx card, step.1 ≠ .hardware rx tx card :=
      fun rx tx card hevent ↦ hhardware ⟨rx, tx, card, hevent⟩
    exact (portStep_accessed s step hreset hdriver).isolated hheld hwatched

theorem portRun_isolated {watched : Nat × Nat → Prop} (hheld : hw.device.Holds watched content)
    (hwatched : watched register) {d : Driver H} {s : System H}
    {steps : List (PortEvent H × (Nat → Outcome))}
    (hkeeps : Runs.Along (KeepsRegister content register) (portStep hw) s steps)
    (hreset : ∀ step ∈ steps, AsksReset step → reset) (h : Isolated content reset register d s.driver) :
    Isolated content reset register d (steps.foldl (portStep hw) s).driver := by
  induction steps generalizing s with
  | nil => exact h
  | cons step steps ih =>
    have hone := portStep_isolated hheld hwatched s step hkeeps.1 (hreset step List.mem_cons_self)
    exact ih hkeeps.2 (fun step' hmem ↦ hreset step' (List.mem_cons_of_mem step hmem)) (h.trans hone)

/-- A port leaves the DMA registers of the other port of its card alone: in every run of one port they
hold what they held, unless a step of the second port sets registers with the bit of the master reset
in the field for DMACCR; that goes to `DMACCR` of the first port. -/
theorem fscc_port_leaves_other_port (s : System H)
    (hheld : hw.device.Holds (OtherRegister s.driver.registers.channel) content)
    (hother : OtherRegister s.driver.registers.channel register)
    (steps : List (PortEvent H × (Nat → Outcome)))
    (hkeeps : Runs.Along (KeepsRegister content register) (portStep hw) s steps) :
    let s' := steps.foldl (portStep hw) s
    content register s'.driver.card = content register s.driver.card ∨
      (s.driver.registers.channel ≠ 0 ∧ register = (2, dmaccrOffset) ∧
        content register s'.driver.card = 0x10000 ∧ ∃ step ∈ steps, AsksReset step) := by
  intro s'
  have hrun : Isolated content (∃ step ∈ steps, AsksReset step) register s.driver s'.driver :=
    portRun_isolated hheld hother hkeeps (fun step hmem hasks ↦ ⟨step, hmem, hasks⟩) ⟨rfl, Or.inl rfl⟩
  exact hrun.kept.imp id hother.mayWrite

/-! ### The callback before the run -/

-- No value in the registry has DMACCR's name.
theorem getDefaultRegisters_dmaccr (outcome : KeyOutcome) (defaults : List RegisterDefault)
    (hother : ∀ default ∈ defaults, default.field ≠ 24) (regs : FsccRegisters) (key : DeviceKey) :
    (getDefaultRegisters outcome defaults regs key).1.dmaccr = regs.dmaccr := by
  induction defaults generalizing regs key with
  | nil => rfl
  | cons default defaults ih =>
    refine (ih (fun default hmem ↦ hother default (List.mem_cons_of_mem _ hmem)) _ _).trans ?_
    have hne := hother default List.mem_cons_self
    rw [FsccRegisters.dmaccr, FsccRegisters.get_set, if_neg fun h ↦ hne h.1]
    rfl

theorem fsccPortGetDefaultRegisters_dmaccr (outcome : KeyOutcome) (key : DeviceKey) :
    (fsccPortGetDefaultRegisters outcome key storedDefaults).2.1.dmaccr = -1 := by
  have hstored : storedDefaults.dmaccr = -1 := by decide
  rw [fsccPortGetDefaultRegisters]
  split
  · exact hstored
  · exact (getDefaultRegisters_dmaccr outcome registerDefaults (by decide) _ key).trans hstored

theorem otherRegister_dmaccr (hsecond : channel ≠ 0) : OtherRegister channel (2, dmaccrOffset) :=
  ⟨0, dmaccrOffset, ⟨fun _ ↦ hsecond, fun _ ↦ rfl⟩, by decide, rfl⟩

theorem setBar2Registers_reset (hheld : hw.device.Holds (OtherRegister channel) content)
    (hsecond : channel ≠ 0) {regs : FsccRegisters} (hinit : regs.dmaccr = -1) (port : RegPort) (h : H) :
    content (2, dmaccrOffset) (setBar2Registers hw regs port h).2 = 0x10000 := by
  have hreset : regs.dmaccr &&& 0x10000 ≠ 0 := by
    rw [hinit]
    decide
  have hnone : ¬ regs.dmaccr.toInt > 0 := by
    rw [hinit]
    decide
  rw [setBar2Registers]
  dsimp only
  rw [if_pos hreset, if_neg hnone]
  exact hheld.write_self (2, dmaccrOffset) 0x10000 _ (otherRegister_dmaccr hsecond)

theorem Driver.setStored_card (storage : FsccRegisters) (d : Driver H) :
    (d.setStored hw storage).card = (fsccPortSetRegisters hw storage
      { d.registers with registerStorage := storage } d.card).2.2 := by
  rw [Driver.setStored, fsccPortSetStoredRegisters_eq]

theorem Driver.configure_reset (outcome : PrepareOutcome) {storage : FsccRegisters}
    (hinit : storage.dmaccr = -1) (d : Driver H)
    (hheld : hw.device.Holds (OtherRegister (d.configure hw outcome storage).registers.channel) content)
    (hsecond : (d.configure hw outcome storage).registers.channel ≠ 0) :
    content (2, dmaccrOffset) (d.configure hw outcome storage).card = 0x10000 := by
  have hset : content (2, dmaccrOffset) (d.setStored hw storage).card = 0x10000 := by
    rw [Driver.setStored_card]
    exact setBar2Registers_reset hheld hsecond hinit _ _
  have hclock : Accessed hw False _ _ := (d.setStored hw storage).startClock_accessed outcome.clockBits
  have hrest : Accessed hw False (d.setStored hw storage) (d.configure hw outcome storage) :=
    (hclock.trans (Driver.enableDma_accessed _)).trans (Driver.purge_accessed _)
  generalize d.setStored hw storage = stored at hset hrest
  generalize d.configure hw outcome storage = d' at hheld hsecond hrest ⊢
  have hother := otherRegister_dmaccr hsecond
  have hisolated := hrest.isolated hheld hother
  rcases hisolated.kept with hkept | hreached
  · exact hkept.trans hset
  · have hmay : MayWrite False stored.registers (2, dmaccrOffset) (content (2, dmaccrOffset) d'.card) :=
      hreached
    rw [← hisolated.reach] at hmay
    exact (hother.mayWrite hmay).2.2.2.elim

/-- The copy that `FsccEvtDevicePrepareHardware` sets the registers from has -1 for DMACCR: preparing
the second port leaves the master reset in DMACCR of the first one. -/
theorem fscc_prepare_resets_first_port (outcome : PrepareOutcome) (key : DeviceKey) (d : Driver H)
    (hprepared : (fsccEvtDevicePrepareHardware hw outcome key d).1 = .success) :
    let d' := (fsccEvtDevicePrepareHardware hw outcome key d).2.2
    hw.device.Holds (OtherRegister d'.registers.channel) content → d'.registers.channel ≠ 0 →
      content (2, dmaccrOffset) d'.card = 0x10000 := by
  obtain ⟨d₁, key', -, -, hbehind⟩ := fsccEvtDevicePrepareHardware_success hprepared
  rw [hbehind]
  exact Driver.configure_reset outcome (fsccPortGetDefaultRegisters_dmaccr _ _) _

end Run

-- `DMACCR` is the 25th field; the others say nothing.
def masterReset : Request :=
  ⟨0, 0, List.replicate 192 0xff ++ [0, 0, 1, 0, 0, 0, 0, 0] ++ List.replicate 40 0xff⟩

def secondPort : Driver (Nat × Nat → BitVec 32) :=
  newPort.setRegisters { newPort.registers with channel := 1, hasDma := true }

def resetThenPurge : List (PortEvent (Nat × Nat → BitVec 32) × (Nat → Outcome)) :=
  [(.evtIoDeviceControl masterReset .setRegisters, fun _ ↦ ⟨[], .success⟩),
    (.evtIoDeviceControl ⟨1, 0, []⟩ .purgeRx, fun _ ↦ ⟨[], .success⟩)]

theorem resetThenPurge_keeps (s : System (Nat × Nat → BitVec 32)) (register : Nat × Nat) :
    Runs.Along (KeepsRegister (fun register h ↦ h register) register) (portStep memoryCard) s
      resetThenPurge :=
  ⟨trivial, trivial, trivial⟩

theorem fscc_port_leaves_other_port_purged :
    let s := systemStart secondPort fun _ ↦ ⟨[], .success⟩
    let s' := resetThenPurge.foldl (portStep memoryCard) s
    s'.driver.card (2, dmaRxBaseOffset) = s.driver.card (2, dmaRxBaseOffset) :=
  (fscc_port_leaves_other_port (systemStart secondPort fun _ ↦ ⟨[], .success⟩) (memoryCard_holds _)
    ⟨0, dmaRxBaseOffset, by decide, by decide, rfl⟩ resetThenPurge
    (resetThenPurge_keeps _ _)).resolve_right fun hreset ↦ absurd hreset.2.1 (by decide)

-- The master reset is all that gets through.
example : (resetThenPurge.foldl (portStep memoryCard)
    (systemStart secondPort fun _ ↦ ⟨[], .success⟩)).driver.card (2, dmaccrOffset) = 0x10000 := by
  decide +kernel

end Handlers

end FsccDriver

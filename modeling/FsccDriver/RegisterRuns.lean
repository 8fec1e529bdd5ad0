import FsccDriver.RegisterRoundTrip

/-!
# RegisterRuns — the copy of the registers over whole runs of a port

Every callback and every worker reaches the card by the accesses of `RegisterCopy`, so the copy and
the card agree in every state of a run.
-/

namespace FsccDriver.Handlers

open Calls (Program)
open Words

variable {H : Type} {hw : Hardware H} {reset : Prop}

/-! ## The callbacks and the workers -/

/-- From one port to another by accesses of the driver, with or without the master reset. -/
def Accessed (hw : Hardware H) (reset : Prop) (d d' : Driver H) : Prop :=
  PortAccesses hw reset (d.registers, d.card) (d'.registers, d'.card)

theorem Accessed.refl (d : Driver H) : Accessed hw reset d d := Relation.ReflTransGen.refl

theorem Accessed.trans {d d' d'' : Driver H} (h : Accessed hw reset d d') (h' : Accessed hw reset d' d'') :
    Accessed hw reset d d'' := Relation.ReflTransGen.trans h h'

-- Accesses that leave the port as it was.
theorem Accessed.onCard {d : Driver H} {card : H}
    (h : PortAccesses hw reset (d.registers, d.card) (d.registers, card)) : Accessed hw reset d { d with card } := h

theorem Driver.read_accessed (streaming : Bool) (length : Nat) (d : Driver H) :
    Accessed hw reset d (d.read hw streaming length).2 := by
  rw [Driver.read]
  split
  · exact .refl d
  · exact fsccUserReadFrame_accesses hw reset d.registers length d.rx d.card

theorem Driver.write_accessed (data : List Byte) (length : Nat) (d : Driver H) :
    Accessed hw reset d (d.write hw data length).2 :=
  fsccUserWriteFrame_accesses hw reset data length d.tx.toTxPort d.card

theorem Driver.clockMissing_accessed (d : Driver H) : Accessed hw reset d (d.clockMissing hw).2 := by
  rw [Driver.clockMissing]
  split
  · exact timedOutLoop_accesses hw reset d.registers 20 d.card
  · exact .refl d

/-! ## Device control -/

theorem Driver.setOption_accessed (d : Driver H) (value : Bool) (option : PortOption) :
    Accessed hw reset d (d.setOption hw value option).2 := by
  cases option
  case forceFifo =>
    show PortAccesses hw reset (d.registers, d.card) (fsccPortSetForceFifo hw d.registers value d.card).2
    rw [fsccPortSetForceFifo]
    split
    · exact Relation.ReflTransGen.refl
    split
    · exact (accesses_beside hw reset d.registers { d.registers with forceFifo := value } rfl rfl _).trans
        (fsccPortSetRegister_accesses hw reset _ 2 dmaccrOffset (by decide) _ _)
    · exact Relation.ReflTransGen.refl
  case ignoreTimeout =>
    exact accesses_beside hw reset d.registers { d.registers with ignoreTimeout := value } rfl rfl d.card
  all_goals exact .refl d

theorem fsccIoPurgeTx_accessed (d : Driver H) :
    (fsccIoPurgeTx hw d).Always fun result ↦ Accessed hw reset d result.2 :=
  fun _ ↦ fsccIoPurgeTx_accesses hw reset d.tx d.card

theorem fsccIoPurgeRx_accessed (d : Driver H) :
    (fsccIoPurgeRx hw d).Always fun result ↦ Accessed hw reset d result.2 :=
  fun _ ↦ fsccIoPurgeRx_accesses hw reset d.rxSide d.card

theorem getRegistersLoop_accesses (port : RegPort) (n i : Nat) (regs : FsccRegisters) (h : H) :
    PortAccesses hw reset (port, h) (port, (getRegistersLoop hw port.channel n i regs h).2) := by
  induction n generalizing i regs h with
  | zero => exact Relation.ReflTransGen.refl
  | succ n ih =>
    rw [getRegistersLoop]
    split
    · exact ih (i + 1) regs h
    split
    · exact Relation.ReflTransGen.refl
    · exact (accesses_read hw reset port 0 (portOffset port.channel 0 (i * 4)) h).trans (ih (i + 1) _ _)

theorem getBar2Register_accesses (port : RegPort) (i offset : Nat) (regs : FsccRegisters) (h : H) :
    PortAccesses hw reset (port, h) (port, (getBar2Register hw port.channel i offset regs h).2) := by
  rw [getBar2Register]
  split
  · exact accesses_read hw reset port 2 (portOffset port.channel 2 offset) h
  · exact Relation.ReflTransGen.refl

theorem fsccPortGetRegisters_accesses (regs : FsccRegisters) (port : RegPort) (h : H) :
    PortAccesses hw reset (port, h) (port, (fsccPortGetRegisters hw regs port.channel h).2) :=
  (((getRegistersLoop_accesses port 30 0 regs h).trans
    (getBar2Register_accesses port 23 fcrOffset _ _)).trans
      (getBar2Register_accesses port 24 dmaccrOffset _ _)).trans
        (getBar2Register_accesses port 29 dstarOffset _ _)

theorem ioControl_accessed (d : Driver H) (request : Request) (code : IoControlCode)
    (hreset : code = .setRegisters → reset) :
    (ioControl hw d request code).Always fun result ↦ Accessed hw reset d result.2.2 := by
  cases code with
  | getRegisters =>
    exact withInput_always (.refl d) (withOutput_always (.refl d) fun buffer ↦
      Accessed.onCard (fsccPortGetRegisters_accesses (registersAt buffer) d.registers d.card))
  | setRegisters =>
    exact withInput_always (.refl d) fun buffer ↦
      fsccPortSetRegisters_accesses hw reset d.registers (registersAt buffer) (fun _ ↦ hreset rfl) d.card
  | purgeTx => exact (fsccIoPurgeTx_accessed d).bind fun _ hpurged ↦ hpurged
  | purgeRx => exact (fsccIoPurgeRx_accessed d).bind fun _ hpurged ↦ hpurged
  | enable option => exact d.setOption_accessed true option
  | disable option => exact d.setOption_accessed false option
  | get _ => exact withOutput_always (.refl d) fun _ ↦ .refl d
  | setClockBits =>
    exact withInput_always (.refl d) fun buffer allocated ↦
      fsccPortSetClockBits_accesses hw reset d.registers allocated _ _ d.card
  | setTxModifiers =>
    refine withInput_always (.refl d) fun buffer ↦ ?_
    show Accessed hw reset d (fsccPortSetTxModifiers d (Bytes.wordAt buffer 0)).2
    rw [fsccPortSetTxModifiers]
    split <;> exact .refl d
  | getTxModifiers => exact withOutput_always (.refl d) fun _ ↦ .refl d
  | trackInterrupts => exact .refl d
  | unknown => exact .refl d

/-! ## One step -/

theorem Driver.isr_accessed (d : Driver H) : Accessed hw reset d (d.isr hw).2 := by
  show PortAccesses hw reset (d.registers, d.card)
    (d.registers, (fsccIsr hw ⟨d.registers, d.lastIsrValue⟩ d.card).2.2)
  have hread := accesses_read hw reset d.registers 0 (portOffset d.registers.channel 0 isrOffset) d.card
  simp only [fsccIsr]
  split
  · exact hread
  · exact hread

theorem timestampWorker_accessed (d : Driver H) : Accessed hw reset d (timestampWorker hw d) := by
  rw [timestampWorker]
  split
  · exact .refl d
  · exact applyTimestampsLoop_accesses hw reset d.registers d.rx.rxNum d.rx.userRxDesc d.rx d.card

theorem iframeWorker_accessed (d : Driver H) : Accessed hw reset d (iframeWorker hw d).2 := by
  rw [iframeWorker]
  split
  · exact .refl d
  · exact fifoReadLoop_accesses hw reset d.registers d.rx.rxNum d.rx d.card

theorem oframeWorker_accessed (d : Driver H) : Accessed hw reset d (oframeWorker hw d) := by
  rw [oframeWorker]
  split
  · exact .refl d
  · exact fsccIoTransmitFrame_accesses hw reset d.tx.toTxPort d.card

variable (reset) in
-- The master reset is among the accesses only where registers are set.
theorem accessed_driven :
    Driven hw (fun code ↦ code = .setRegisters → reset) (Accessed hw reset) where
  refl := .refl
  trans _ _ _ h h' := h.trans h'
  read d streaming length := d.read_accessed streaming length
  write d data length _ := d.write_accessed data length
  clock d := d.clockMissing_accessed
  control := ioControl_accessed
  isr d := d.isr_accessed
  timestamp := timestampWorker_accessed
  iframe := iframeWorker_accessed
  oframe := oframeWorker_accessed
  alerts := .refl

/-- What the hardware does by itself: it leaves the configuration alone. -/
def KeepsConfig (content : Nat × Nat → H → BitVec 32) (s : System H)
    (step : PortEvent H × (Nat → Outcome)) : Prop :=
  match step.1 with
  | .hardware _ _ card => ∀ register, ConfigRegister register →
      content register card = content register s.driver.card
  | _ => True

/-- The copy has the whole configuration, as the card has it. -/
structure Configured (content : Nat × Nat → H → BitVec 32) (d : Driver H) : Prop where
  agrees : Mirror.Agrees registerCopy ConfigRegister content (d.registers, d.card)
  known : Mirror.Known registerCopy ConfigRegister d.registers

section Run

variable {content : Nat × Nat → H → BitVec 32}

theorem Accessed.configured (hheld : hw.device.Holds ConfigRegister content) {d d' : Driver H}
    (haccessed : Accessed hw reset d d') (h : Configured content d) : Configured content d' := by
  have haccesses : PortAccesses hw reset (d.registers, d.card) (d'.registers, d'.card) := haccessed
  have hknown := haccesses.known registerCopy_lawful h.known
  exact ⟨fun k hk ↦ haccesses.agreesAt hheld registerCopy_lawful hk (h.agrees k hk), hknown⟩

theorem portStep_configured (hheld : hw.device.Holds ConfigRegister content) (s : System H)
    (step : PortEvent H × (Nat → Outcome)) (hkeeps : KeepsConfig content s step)
    (h : Configured content s.driver) : Configured content (portStep hw s step).driver := by
  refine (accessed_driven True).step s step (fun _ _ _ _ ↦ trivial)
    (fun d hd ↦ hd.configured hheld h) fun _ _ card hevent ↦ ?_
  rw [KeepsConfig, hevent] at hkeeps
  exact ⟨h.agrees.device hkeeps, h.known⟩

theorem portRun_configured (hheld : hw.device.Holds ConfigRegister content) {s : System H}
    {steps : List (PortEvent H × (Nat → Outcome))}
    (hkeeps : Runs.Along (KeepsConfig content) (portStep hw) s steps)
    (h : Configured content s.driver) : Configured content (steps.foldl (portStep hw) s).driver :=
  hkeeps.invariant (portStep_configured hheld) h

/-! ## What the copy is good for -/

/-- The mode that CCR0 and CCR2 of the card select. -/
def streamingMode (ccr0 ccr2 : BitVec 32) : Bool :=
  (ccr0 &&& 0x3 = 0x2 ∨ ccr0 &&& 0x3 = 0x1) ∧ ccr2 &&& 0xffff0000 = 0 ∧ ccr0 &&& 0x700 = 0 ∧
    ccr0 &&& 0x70000 = 0

-- The masks are masks of 32 bits.
theorem and_mask_eq (field : BitVec 64) (mask value : BitVec 32) :
    field &&& mask.setWidth 64 = value.setWidth 64 ↔ field.setWidth 32 &&& mask = value := by
  have hand : field &&& mask.setWidth 64 = (field.setWidth 32 &&& mask).setWidth 64 := by
    ext i hi
    by_cases hlow : i < 32
    · simp [hlow, BitVec.getLsbD_eq_getElem hi]
    · simp [BitVec.getLsbD_of_ge mask i (Nat.not_lt.mp hlow)]
  rw [hand]
  constructor
  · intro h
    have htrunc := congrArg (BitVec.setWidth 32) h
    rwa [BitVec.setWidth_setWidth_of_le _ (by decide), BitVec.setWidth_setWidth_of_le _ (by decide),
      BitVec.setWidth_eq, BitVec.setWidth_eq] at htrunc
  · intro h
    rw [h]

/-- The driver decides by the mode of the card, as far as it is stored. -/
theorem fsccIoIsStreaming_mode (port : RegPort) :
    fsccIoIsStreaming port = streamingMode ((port.registerStorage.get 7).setWidth 32)
      ((port.registerStorage.get 9).setWidth 32) := by
  have htransparent := and_mask_eq (port.registerStorage.get 7) 0x3 0x2
  have hxsync := and_mask_eq (port.registerStorage.get 7) 0x3 0x1
  have hrlc := and_mask_eq (port.registerStorage.get 9) 0xffff0000 0
  have hfsc := and_mask_eq (port.registerStorage.get 7) 0x700 0
  have hntb := and_mask_eq (port.registerStorage.get 7) 0x70000 0
  rw [streamingMode, fsccIoIsStreaming]
  simp only [← htransparent, ← hxsync, ← hrlc, ← hfsc, ← hntb]
  rw [Bool.eq_iff_iff, decide_eq_true_iff]
  simp [and_assoc]

theorem Configured.register {d : Driver H} (h : Configured content d) {k : Nat}
    (hk : ConfigRegister (0, k * 4)) :
    content (0, k * 4) d.card = (d.registers.registerStorage.get k).setWidth 32 := by
  obtain ⟨value, hvalue⟩ := h.known (0, k * 4) hk
  have hcard : content (0, k * 4) d.card = value := h.agrees (0, k * 4) hk value hvalue
  have hfield : fieldValue (d.registers.registerStorage.get k) = some value := by
    rw [← hvalue]
    show _ = fieldValue (d.registers.registerStorage.get (k * 4 / 4))
    rw [Nat.mul_div_cancel k (by decide)]
  rw [fieldValue] at hfield
  split at hfield
  · rw [hcard, ← Option.some_inj.mp hfield]
  · cases hfield

theorem Configured.streaming {d : Driver H} (h : Configured content d) :
    fsccIoIsStreaming d.registers =
      streamingMode (content (0, ccr0Offset) d.card) (content (0, ccr2Offset) d.card) := by
  have hccr0 : content (0, ccr0Offset) d.card = _ := h.register (k := 7) (by decide)
  have hccr2 : content (0, ccr2Offset) d.card = _ := h.register (k := 9) (by decide)
  rw [hccr0, hccr2, fsccIoIsStreaming_mode]

theorem Configured.get (hheld : hw.device.Holds ConfigRegister content) {d : Driver H}
    (h : Configured content d) {asked : FsccRegisters} {k : Nat} (hk : ConfigRegister (0, k * 4))
    (hasked : asked.get k = fsccUpdateValue) (channel : Nat) :
    (fsccPortGetRegisters hw asked channel d.card).1.get k =
      ((d.registers.registerStorage.get k).setWidth 32).setWidth 64 := by
  have hmax : k * 4 ≤ maxOffset := by
    obtain ⟨-, hindex⟩ := configOffsets_index (k * 4) hk.2
    have : maxOffset = 88 := rfl
    omega
  have hregister : fieldRegister channel k = some (0, k * 4) := if_pos hmax
  rw [← h.register hk]
  exact fsccPortGetRegisters_asked hheld hregister hk hasked d.card

end Run

end FsccDriver.Handlers

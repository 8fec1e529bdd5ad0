import FsccDriver.Card

/-!
# Registers — `fscc_port_set_register` and `fscc_port_set_registers`

`SetsAskedFor` is what a user expects of `FSCC_SET_REGISTERS`: a register is written if and only if
its field is not negative.
-/

namespace FsccDriver

variable {H : Type}

/-! ## `struct fscc_registers` -/

/-- The registers as the array of signed 64-bit fields that the driver casts the structure to. -/
structure FsccRegisters where
  fields : List (BitVec 64)
  length_fields : fields.length = 30

namespace FsccRegisters

def get (regs : FsccRegisters) (i : Nat) : BitVec 64 := regs.fields.getD i 0

def set (regs : FsccRegisters) (i : Nat) (value : BitVec 64) : FsccRegisters where
  fields := regs.fields.set i value
  length_fields := by rw [List.length_set, regs.length_fields]

def fcr (regs : FsccRegisters) : BitVec 64 := regs.get 23
def dmaccr (regs : FsccRegisters) : BitVec 64 := regs.get 24

/-- `FSCC_REGISTERS_INIT` stores -1 in every field. -/
def init : FsccRegisters := ⟨List.replicate 30 (-1), rfl⟩

end FsccRegisters

-- The part of `struct fscc_port` that the register accessors look at.
structure RegPort where
  channel : Nat
  ignoreTimeout : Bool
  forceFifo : Bool
  hasDma : Bool
  registerStorage : FsccRegisters

/-! ## One register -/

def fsccPortUsesDma (port : RegPort) : Bool := if port.forceFifo then false else port.hasDma

def timedOutLoop (hw : Hardware H) (port : RegPort) : Nat → H → Bool × H
  | 0, h => (true, h)
  | n + 1, h =>
      let (starValue, h) := fsccPortGetRegister hw port.channel 0 starOffset h
      if starValue &&& ceBit = 0 then (false, h) else timedOutLoop hw port n h

/-- CE stayed set for `DEFAULT_TIMEOUT_VALUE` readings of STAR. -/
def fsccPortTimedOut (hw : Hardware H) (port : RegPort) (h : H) : Bool × H :=
  timedOutLoop hw port 20 h

-- The enable bits of DMACCR follow the mode of the port.
def forcedValue (port : RegPort) (bar registerOffset : Nat) (value : BitVec 32) : BitVec 32 :=
  if registerOffset = dmaccrOffset ∧ fsccPortUsesDma port ∧ bar = 2 then value ||| 0x03000000
  else if registerOffset = dmaccrOffset ∧ ¬ fsccPortUsesDma port ∧ bar = 2 then
    value &&& ~~~0x03000000
  else value

def storedPort (port : RegPort) (bar registerOffset : Nat) (value : BitVec 32) : RegPort :=
  if bar = 0 then
    { port with
      registerStorage := port.registerStorage.set (registerOffset / 4) (value.setWidth 64) }
  else if registerOffset = fcrOffset then
    { port with registerStorage := port.registerStorage.set 23 (value.setWidth 64) }
  else port

def fsccPortSetRegister (hw : Hardware H) (port : RegPort) (bar registerOffset : Nat)
    (value : BitVec 32) (h : H) : NtStatus × RegPort × H :=
  -- Checks to make sure there is a clock present.
  let (stalled, h) :=
    if registerOffset = cmdrOffset ∧ port.ignoreTimeout = false then fsccPortTimedOut hw port h
    else (false, h)
  if stalled then (.ioTimeout, port, h)
  else
    let value := forcedValue port bar registerOffset value
    (.success, storedPort port bar registerOffset value,
      fsccCardSetRegister hw bar (portOffset port.channel bar registerOffset) value h)

/-! ## `fscc_port_set_registers` -/

def isReadOnlyRegister (offset : Nat) : Bool := offset = starOffset ∨ offset = vstrOffset

-- The loop over the fields from index `i` on.
def setRegistersLoop (hw : Hardware H) :
    List (BitVec 64) → (i : Nat) → (stalled : Bool) → RegPort → H → Bool × RegPort × H
  | [], _, stalled, port, h => (stalled, port, h)
  | field :: fields, i, stalled, port, h =>
      if isReadOnlyRegister (i * 4) ∨ field.toInt < 0 then
        setRegistersLoop hw fields (i + 1) stalled port h
      else if i * 4 > maxOffset then (stalled, port, h)
      else
        let (status, port, h) := fsccPortSetRegister hw port 0 (i * 4) (field.setWidth 32) h
        setRegistersLoop hw fields (i + 1) (if status = .ioTimeout then true else stalled) port h

-- BAR 2: its offsets are not uniform, so each register has code of its own.
def setBar2Registers (hw : Hardware H) (regs : FsccRegisters) (port : RegPort) (h : H) :
    RegPort × H :=
  let (port, h) :=
    if regs.fcr.toInt > 0 then
      (fsccPortSetRegister hw port 2 fcrOffset ((regs.fcr &&& 0x3fffffff).setWidth 32) h).2
    else (port, h)
  -- The master reset bit only exists on the first port.
  let h :=
    if regs.dmaccr &&& 0x10000 ≠ 0 then fsccCardSetRegister hw 2 dmaccrOffset 0x10000 h else h
  if regs.dmaccr.toInt > 0 then
    (fsccPortSetRegister hw port 2 dmaccrOffset (regs.dmaccr.setWidth 32 &&& 0xfffeffff) h).2
  else (port, h)

def fsccPortSetRegisters (hw : Hardware H) (regs : FsccRegisters) (port : RegPort) (h : H) :
    NtStatus × RegPort × H :=
  let (stalled, port, h) := setRegistersLoop hw regs.fields 0 false port h
  let (port, h) := setBar2Registers hw regs port h
  (if stalled then .ioTimeout else .success, port, h)

/-! ## `fscc_port_get_registers` -/

/-- `FSCC_UPDATE_VALUE` in a field asks for its register to be read. -/
def fsccUpdateValue : BitVec 64 := -2

-- The rounds from index `i` on.
def getRegistersLoop (hw : Hardware H) (channel : Nat) :
    Nat → (i : Nat) → FsccRegisters → H → FsccRegisters × H
  | 0, _, regs, h => (regs, h)
  | n + 1, i, regs, h =>
      if regs.get i ≠ fsccUpdateValue then getRegistersLoop hw channel n (i + 1) regs h
      else if i * 4 > maxOffset then (regs, h)
      else
        let (value, h) := fsccPortGetRegister hw channel 0 (i * 4) h
        getRegistersLoop hw channel n (i + 1) (regs.set i (value.setWidth 64)) h

-- BAR 2: its offsets are not uniform, so each register has code of its own.
def getBar2Register (hw : Hardware H) (channel i offset : Nat) (regs : FsccRegisters) (h : H) :
    FsccRegisters × H :=
  if regs.get i = fsccUpdateValue then
    let (value, h) := fsccPortGetRegister hw channel 2 offset h
    (regs.set i (value.setWidth 64), h)
  else (regs, h)

def fsccPortGetRegisters (hw : Hardware H) (regs : FsccRegisters) (channel : Nat) (h : H) :
    FsccRegisters × H :=
  let (regs, h) := getRegistersLoop hw channel 30 0 regs h
  let (regs, h) := getBar2Register hw channel 23 fcrOffset regs h
  let (regs, h) := getBar2Register hw channel 24 dmaccrOffset regs h
  getBar2Register hw channel 29 dstarOffset regs h

/-! ## A card that logs what is written -/

structure RegWrite where
  bar : Nat
  offset : Nat
  value : BitVec 32
  deriving DecidableEq, Repr

structure RegLog where
  writes : List RegWrite
  reads : Nat

/-- What a read returns may depend on everything that was written and on how often was read. -/
def answering (answers : (bar offset : Nat) → RegLog → BitVec 32) : Hardware RegLog where
  ioRead bar offset log := (answers bar offset log, { log with reads := log.reads + 1 })
  ioWrite bar offset value log := { log with writes := log.writes ++ [⟨bar, offset, value⟩] }
  keQuerySystemTime log := (0, log)

/-- The values written to one register, in order. -/
def writesTo (bar offset : Nat) (writes : List RegWrite) : List (BitVec 32) :=
  (writes.filter fun write ↦ write.bar = bar ∧ write.offset = offset).map RegWrite.value

section Log

variable {answers : (bar offset : Nat) → RegLog → BitVec 32} {port : RegPort} {log : RegLog}

theorem timedOutLoop_writes (n : Nat) :
    (timedOutLoop (answering answers) port n log).2.writes = log.writes := by
  induction n generalizing log with
  | zero => rfl
  | succ n ih =>
    change (if answers 0 starOffset log &&& ceBit = 0 then _ else _ : Bool × RegLog).2.writes = _
    split
    · rfl
    · exact ih

-- Writing a register changes the stored copy at most.
structure RegKeeps (port port' : RegPort) : Prop where
  channel : port'.channel = port.channel
  ignoreTimeout : port'.ignoreTimeout = port.ignoreTimeout
  usesDma : fsccPortUsesDma port' = fsccPortUsesDma port

theorem RegKeeps.refl (port : RegPort) : RegKeeps port port := ⟨rfl, rfl, rfl⟩

theorem RegKeeps.trans {a b c : RegPort} (hab : RegKeeps a b) (hbc : RegKeeps b c) : RegKeeps a c :=
  ⟨hbc.1.trans hab.1, hbc.2.trans hab.2, hbc.3.trans hab.3⟩

theorem storedPort_keeps (port : RegPort) (bar offset : Nat) (value : BitVec 32) :
    RegKeeps port (storedPort port bar offset value) := by
  unfold storedPort
  split
  · exact ⟨rfl, rfl, rfl⟩
  · split <;> exact ⟨rfl, rfl, rfl⟩

/-- A command that finds no clock present. -/
def CommandStalled (hw : Hardware H) (port : RegPort) (registerOffset : Nat) (h : H) : Prop :=
  registerOffset = cmdrOffset ∧ port.ignoreTimeout = false ∧ (fsccPortTimedOut hw port h).1 = true

theorem fsccPortSetRegister_stalled {hw : Hardware H} {h : H} {bar offset : Nat} {value : BitVec 32}
    (hstalled : CommandStalled hw port offset h) :
    fsccPortSetRegister hw port bar offset value h =
      (.ioTimeout, port, (fsccPortTimedOut hw port h).2) := by
  obtain ⟨hcmdr, hignore, htimedOut⟩ := hstalled
  simp only [fsccPortSetRegister, hcmdr, hignore, and_self, if_true, htimedOut]

variable (answers port log) in
theorem fsccPortSetRegister_writes (bar offset : Nat) (value : BitVec 32)
    (hclear : ¬ CommandStalled (answering answers) port offset log) :
    ∃ port' log', fsccPortSetRegister (answering answers) port bar offset value log =
        (.success, port', log') ∧ RegKeeps port port' ∧
      log'.writes = log.writes ++
        [⟨bar, portOffset port.channel bar offset, forcedValue port bar offset value⟩] := by
  obtain ⟨log₁, hrun, hsame⟩ : ∃ log₁, fsccPortSetRegister (answering answers) port bar offset value
      log = (.success, storedPort port bar offset (forcedValue port bar offset value),
        fsccCardSetRegister (answering answers) bar (portOffset port.channel bar offset)
          (forcedValue port bar offset value) log₁) ∧ log₁.writes = log.writes := by
    by_cases hchecked : offset = cmdrOffset ∧ port.ignoreTimeout = false
    · have htimedOut : (fsccPortTimedOut (answering answers) port log).1 = false := by
        rw [← Bool.not_eq_true]
        exact fun h ↦ hclear ⟨hchecked.1, hchecked.2, h⟩
      refine ⟨(fsccPortTimedOut (answering answers) port log).2, ?_, timedOutLoop_writes 20⟩
      simp only [fsccPortSetRegister, if_pos hchecked, htimedOut, Bool.false_eq_true, if_false]
    · refine ⟨log, ?_, rfl⟩
      simp only [fsccPortSetRegister, if_neg hchecked, Bool.false_eq_true, if_false]
  refine ⟨_, _, hrun, storedPort_keeps _ _ _ _, ?_⟩
  rw [← hsame]
  rfl

/-! ## The loop -/

/-- Whether the loop writes field `i`. -/
def LoopWrites (stalled : Bool) (i : Nat) (field : BitVec 64) : Prop :=
  ¬ (isReadOnlyRegister (i * 4) ∨ field.toInt < 0) ∧ ¬ i * 4 > maxOffset ∧
    ¬ (i * 4 = cmdrOffset ∧ stalled = true)

instance (stalled : Bool) (i : Nat) (field : BitVec 64) : Decidable (LoopWrites stalled i field) :=
  inferInstanceAs (Decidable (_ ∧ _ ∧ _))

-- What the loop writes, when `stalled` says whether the command register is stalled.
def fieldWrites (stalled : Bool) : List (BitVec 64) → (i : Nat) → List RegWrite
  | [], _ => []
  | field :: fields, i =>
      (if LoopWrites stalled i field then [⟨0, i * 4, field.setWidth 32⟩] else []) ++
        fieldWrites stalled fields (i + 1)

theorem fieldWrites_append (stalled : Bool) (fields more : List (BitVec 64)) (i : Nat) :
    fieldWrites stalled (fields ++ more) i =
      fieldWrites stalled fields i ++ fieldWrites stalled more (i + fields.length) := by
  induction fields generalizing i with
  | nil => rfl
  | cons field fields ih =>
    rw [List.cons_append, fieldWrites, fieldWrites, ih, List.append_assoc, List.length_cons,
      Nat.add_right_comm, Nat.add_assoc]

theorem fieldWrites_past {stalled : Bool} {fields : List (BitVec 64)} {i : Nat}
    (hpast : i * 4 > maxOffset) : fieldWrites stalled fields i = [] := by
  induction fields generalizing i with
  | nil => rfl
  | cons field fields ih =>
    rw [fieldWrites, if_neg fun h ↦ h.2.1 hpast, ih (by omega)]
    rfl

theorem forcedValue_bar0 (port : RegPort) (offset : Nat) (value : BitVec 32) :
    forcedValue port 0 offset value = value := by
  simp [forcedValue]

variable (answers) in
-- Away from the command register the loop writes what its fields ask for and goes on.
theorem setRegistersLoop_writes (fields : List (BitVec 64)) (i : Nat) (stalled : Bool)
    (hcmdr : cmdrOffset < i * 4 ∨ (i + fields.length) * 4 ≤ cmdrOffset) (port : RegPort)
    (log : RegLog) (flag : Bool) :
    ∃ port' log', setRegistersLoop (answering answers) fields i stalled port log =
        (stalled, port', log') ∧ RegKeeps port port' ∧
      log'.writes = log.writes ++ fieldWrites flag fields i := by
  induction fields generalizing i port log with
  | nil => exact ⟨port, log, rfl, RegKeeps.refl port, (List.append_nil _).symm⟩
  | cons field fields ih =>
    rw [List.length_cons] at hcmdr
    rw [setRegistersLoop, fieldWrites]
    by_cases hskip : isReadOnlyRegister (i * 4) = true ∨ field.toInt < 0
    · rw [if_pos hskip, if_neg fun h ↦ h.1 hskip, List.nil_append]
      exact ih (i + 1) (by omega) port log
    · rw [if_neg hskip]
      by_cases hpast : i * 4 > maxOffset
      · rw [if_pos hpast, if_neg fun h ↦ h.2.1 hpast, fieldWrites_past (by omega), List.append_nil]
        exact ⟨port, log, rfl, RegKeeps.refl port, (List.append_nil _).symm⟩
      · have hother : ¬ i * 4 = cmdrOffset := by omega
        obtain ⟨port₁, log₁, hrun, hkeeps, hwrites⟩ := fsccPortSetRegister_writes answers port log
          0 (i * 4) (field.setWidth 32) fun h ↦ hother h.1
        obtain ⟨port', log', hloop, hkeeps', hwrites'⟩ := ih (i + 1) (by omega) port₁ log₁
        rw [if_neg hpast, hrun, if_pos ⟨hskip, hpast, fun h ↦ hother h.1⟩]
        refine ⟨port', log', hloop, hkeeps.trans hkeeps', ?_⟩
        rw [hwrites', hwrites, List.append_assoc, portOffset_bar0, forcedValue_bar0]

theorem setRegistersLoop_append (fields more : List (BitVec 64)) (i : Nat)
    (hshort : (i + fields.length) * 4 ≤ maxOffset) (stalled : Bool) (port : RegPort) (log : RegLog) :
    setRegistersLoop (answering answers) (fields ++ more) i stalled port log =
      let (stalled, port, log) := setRegistersLoop (answering answers) fields i stalled port log
      setRegistersLoop (answering answers) more (i + fields.length) stalled port log := by
  induction fields generalizing i stalled port log with
  | nil => rfl
  | cons field fields ih =>
    rw [List.length_cons] at hshort
    have hlen : i + (field :: fields).length = i + 1 + fields.length := by
      rw [List.length_cons]
      omega
    rw [List.cons_append, setRegistersLoop, setRegistersLoop, hlen]
    by_cases hskip : isReadOnlyRegister (i * 4) = true ∨ field.toInt < 0
    · rw [if_pos hskip, if_pos hskip, ih (i + 1) (by omega)]
    · rw [if_neg hskip, if_neg hskip, if_neg (by omega), if_neg (by omega)]
      exact ih (i + 1) (by omega) _ _ _

/-- The command register is found stalled when the loop comes to it. -/
def cmdrStalled (hw : Hardware H) (regs : FsccRegisters) (port : RegPort) (h : H) : Bool :=
  let (_, port, h) := setRegistersLoop hw (regs.fields.take 5) 0 false port h
  !port.ignoreTimeout && (fsccPortTimedOut hw port h).1

variable (answers) in
theorem setRegistersLoop_fields (regs : FsccRegisters) (port : RegPort) (log : RegLog) :
    ∃ stalled port' log', setRegistersLoop (answering answers) regs.fields 0 false port log =
        (stalled, port', log') ∧ RegKeeps port port' ∧
      log'.writes = log.writes ++
        fieldWrites (cmdrStalled (answering answers) regs port log) regs.fields 0 := by
  obtain ⟨first, cmdr, rest, hfields, hfirst⟩ : ∃ first cmdr rest,
      regs.fields = first ++ cmdr :: rest ∧ first.length = 5 := by
    have hlt : 5 < regs.fields.length := by
      rw [regs.length_fields]
      decide
    refine ⟨regs.fields.take 5, regs.fields[5], regs.fields.drop 6, ?_,
      by rw [List.length_take, regs.length_fields]; rfl⟩
    rw [← List.drop_eq_getElem_cons, List.take_append_drop]
  have htake : regs.fields.take 5 = first := by rw [hfields, ← hfirst, List.take_left]
  have hoffset : (0 + first.length) * 4 = cmdrOffset := by rw [hfirst]; rfl
  generalize hflag : cmdrStalled (answering answers) regs port log = flag
  obtain ⟨port₁, log₁, hrun₁, hkeeps₁, hwrites₁⟩ := setRegistersLoop_writes answers
    first 0 false (Or.inr (Nat.le_of_eq hoffset)) port log flag
  rw [cmdrStalled, htake, hrun₁] at hflag
  dsimp only at hflag
  rw [hfields, setRegistersLoop_append first _ 0 (by rw [hfirst]; decide), hrun₁,
    fieldWrites_append, fieldWrites, hfirst]
  have hafter : cmdrOffset < (5 + 1) * 4 ∨ (5 + 1 + rest.length) * 4 ≤ cmdrOffset := Or.inl (by decide)
  have hinside : ¬ 5 * 4 > maxOffset := by decide
  dsimp only
  rw [Nat.zero_add, setRegistersLoop]
  by_cases hskip : isReadOnlyRegister (5 * 4) = true ∨ cmdr.toInt < 0
  · obtain ⟨port', log', hrun, hkeeps, hwrites⟩ := setRegistersLoop_writes answers rest
      (5 + 1) false hafter port₁ log₁ flag
    rw [if_pos hskip, if_neg fun h ↦ h.1 hskip]
    refine ⟨false, port', log', hrun, hkeeps₁.trans hkeeps, ?_⟩
    rw [hwrites, hwrites₁, List.append_assoc]
    rfl
  · rw [if_neg hskip, if_neg hinside]
    by_cases hstalled : CommandStalled (answering answers) port₁ (5 * 4) log₁
    · have hset : flag = true := by
        rw [← hflag, hstalled.2.1, hstalled.2.2]
        rfl
      obtain ⟨port', log', hrun, hkeeps, hwrites⟩ := setRegistersLoop_writes answers
        rest (5 + 1) true hafter port₁ (fsccPortTimedOut (answering answers) port₁ log₁).2 flag
      rw [fsccPortSetRegister_stalled hstalled, if_neg fun h ↦ h.2.2 ⟨rfl, hset⟩]
      refine ⟨true, port', log', hrun, hkeeps₁.trans hkeeps, ?_⟩
      rw [hwrites, fsccPortTimedOut, timedOutLoop_writes, hwrites₁, List.append_assoc]
      rfl
    · have hset : ¬ flag = true := by
        intro hset
        rw [← hflag, Bool.and_eq_true, Bool.not_eq_true'] at hset
        exact hstalled ⟨rfl, hset.1, hset.2⟩
      obtain ⟨port₂, log₂, hrun₂, hkeeps₂, hwrites₂⟩ := fsccPortSetRegister_writes answers port₁ log₁ 0 (5 * 4)
        (cmdr.setWidth 32) hstalled
      obtain ⟨port', log', hrun, hkeeps, hwrites⟩ := setRegistersLoop_writes answers
        rest (5 + 1) false hafter port₂ log₂ flag
      rw [hrun₂, if_pos ⟨hskip, hinside, fun h ↦ hset h.2⟩]
      refine ⟨false, port', log', hrun, (hkeeps₁.trans hkeeps₂).trans hkeeps, ?_⟩
      rw [hwrites, hwrites₂, hwrites₁, portOffset_bar0, forcedValue_bar0]
      simp only [List.append_assoc]

/-! ## BAR 2 -/

def fcrWrites (regs : FsccRegisters) : List RegWrite :=
  if regs.fcr.toInt > 0 then [⟨2, fcrOffset, (regs.fcr &&& 0x3fffffff).setWidth 32⟩] else []

def resetWrites (regs : FsccRegisters) : List RegWrite :=
  if regs.dmaccr &&& 0x10000 ≠ 0 then [⟨2, dmaccrOffset, 0x10000⟩] else []

-- DMACCR of the port, without the master reset bit and with the enable bits forced.
def dmaccrWrite (regs : FsccRegisters) (port : RegPort) : RegWrite :=
  ⟨2, portOffset port.channel 2 dmaccrOffset,
    forcedValue port 2 dmaccrOffset (regs.dmaccr.setWidth 32 &&& 0xfffeffff)⟩

def dmaccrWrites (regs : FsccRegisters) (port : RegPort) : List RegWrite :=
  if regs.dmaccr.toInt > 0 then [dmaccrWrite regs port] else []

variable (answers) in
theorem setBar2Registers_writes (regs : FsccRegisters) (port : RegPort) (log : RegLog) :
    (setBar2Registers (answering answers) regs port log).2.writes =
      log.writes ++ (fcrWrites regs ++ (resetWrites regs ++ dmaccrWrites regs port)) := by
  have hfcr : ∃ port₁ log₁, (if regs.fcr.toInt > 0 then
      (fsccPortSetRegister (answering answers) port 2 fcrOffset
        ((regs.fcr &&& 0x3fffffff).setWidth 32) log).2 else (port, log)) = (port₁, log₁) ∧
      RegKeeps port port₁ ∧ log₁.writes = log.writes ++ fcrWrites regs := by
    by_cases hpos : regs.fcr.toInt > 0
    · obtain ⟨port₁, log₁, hrun, hkeeps, hwrites⟩ := fsccPortSetRegister_writes answers port log
        2 fcrOffset ((regs.fcr &&& 0x3fffffff).setWidth 32)
        fun h ↦ absurd h.1 (by decide)
      rw [if_pos hpos, hrun, fcrWrites, if_pos hpos]
      refine ⟨port₁, log₁, rfl, hkeeps, ?_⟩
      rw [hwrites]
      rfl
    · rw [if_neg hpos, fcrWrites, if_neg hpos]
      exact ⟨port, log, rfl, RegKeeps.refl port, (List.append_nil _).symm⟩
  obtain ⟨port₁, log₁, hrun₁, hkeeps₁, hwrites₁⟩ := hfcr
  have hreset : ∃ log₂, (if regs.dmaccr &&& 0x10000 ≠ 0 then
      fsccCardSetRegister (answering answers) 2 dmaccrOffset 0x10000 log₁ else log₁) = log₂ ∧
      log₂.writes = log₁.writes ++ resetWrites regs := by
    refine ⟨_, rfl, ?_⟩
    unfold resetWrites
    split
    · rfl
    · exact (List.append_nil _).symm
  obtain ⟨log₂, hrun₂, hwrites₂⟩ := hreset
  have hforced : dmaccrWrite regs port₁ = dmaccrWrite regs port := by
    simp only [dmaccrWrite, forcedValue, hkeeps₁.channel, hkeeps₁.usesDma]
  rw [setBar2Registers, hrun₁]
  dsimp only
  rw [hrun₂]
  by_cases hpos : regs.dmaccr.toInt > 0
  · obtain ⟨port₃, log₃, hrun₃, -, hwrites₃⟩ := fsccPortSetRegister_writes answers port₁ log₂
      2 dmaccrOffset (regs.dmaccr.setWidth 32 &&& 0xfffeffff)
      fun h ↦ absurd h.1 (by decide)
    rw [if_pos hpos, hrun₃, dmaccrWrites, if_pos hpos, ← hforced, hwrites₃, hwrites₂, hwrites₁]
    simp only [List.append_assoc]
    rfl
  · rw [if_neg hpos, dmaccrWrites, if_neg hpos, hwrites₂, hwrites₁]
    simp only [List.append_assoc, List.append_nil]

/-! ## What the user asked for -/

section WritesTo

variable {bar offset : Nat} {writes more : List RegWrite}

theorem writesTo_append : writesTo bar offset (writes ++ more) =
    writesTo bar offset writes ++ writesTo bar offset more := by
  rw [writesTo, List.filter_append, List.map_append, writesTo, writesTo]

theorem writesTo_eq_nil (h : ∀ write ∈ writes, ¬ (write.bar = bar ∧ write.offset = offset)) :
    writesTo bar offset writes = [] := by
  rw [writesTo, List.map_eq_nil_iff, List.filter_eq_nil_iff]
  intro write hwrite
  simpa using h write hwrite

end WritesTo

theorem fieldWrites_at {stalled : Bool} {fields : List (BitVec 64)} {i : Nat} :
    ∀ write ∈ fieldWrites stalled fields i, write.bar = 0 ∧ i * 4 ≤ write.offset := by
  induction fields generalizing i with
  | nil => exact fun _ hwrite ↦ absurd hwrite List.not_mem_nil
  | cons field fields ih =>
    intro write hwrite
    rcases List.mem_append.mp hwrite with hhere | hlater
    · split at hhere
      · rw [List.mem_singleton.mp hhere]
        exact ⟨rfl, Nat.le_refl _⟩
      · exact absurd hhere List.not_mem_nil
    · obtain ⟨hbar, hle⟩ := ih write hlater
      exact ⟨hbar, Nat.le_trans (by omega) hle⟩

-- Each register of BAR 0 is written by its own field and by no other.
theorem writesTo_fieldWrites (stalled : Bool) (fields : List (BitVec 64)) (i k : Nat)
    (hk : k < fields.length) :
    writesTo 0 ((i + k) * 4) (fieldWrites stalled fields i) =
      if LoopWrites stalled (i + k) (fields.getD k 0) then [(fields.getD k 0).setWidth 32]
      else [] := by
  induction fields generalizing i k with
  | nil => exact absurd hk (Nat.not_lt_zero k)
  | cons field fields ih =>
    rw [fieldWrites, writesTo_append]
    cases k with
    | zero =>
      have hrest : writesTo 0 (i * 4) (fieldWrites stalled fields (i + 1)) = [] := by
        apply writesTo_eq_nil
        intro write hwrite hhere
        have hle := (fieldWrites_at write hwrite).2
        omega
      rw [Nat.add_zero, hrest, List.append_nil, List.getD_cons_zero]
      split
      · simp [writesTo]
      · rfl
    | succ k =>
      have hfirst : writesTo 0 ((i + (k + 1)) * 4)
          (if LoopWrites stalled i field then [⟨0, i * 4, field.setWidth 32⟩] else []) = [] := by
        apply writesTo_eq_nil
        intro write hwrite hhere
        split at hwrite
        · rw [List.mem_singleton.mp hwrite] at hhere
          dsimp only at hhere
          omega
        · exact absurd hwrite List.not_mem_nil
      rw [hfirst, List.nil_append, List.getD_cons_succ, Nat.add_comm k 1, ← Nat.add_assoc]
      exact ih (i + 1) k (Nat.lt_of_succ_lt_succ hk)

/-- The registers of BAR 0 that a user may write. -/
def userOffsets : List Nat :=
  [fifotOffset, cmdrOffset, ccr0Offset, ccr1Offset, ccr2Offset, bgrOffset, ssrOffset, smrOffset,
    tsrOffset, tmrOffset, rarOffset, ramrOffset, pprOffset, tcrOffset, imrOffset, dpllrOffset]

-- The bits of FCR that say which driver has which port open.
def ownershipBits : BitVec 32 := 0xC3000000

/-- The writes to DMACCR that a field asks for, with the master reset in a write of its own. -/
def askedDmaccrWrites (regs : FsccRegisters) (port : RegPort) : List RegWrite :=
  if 0 ≤ regs.dmaccr.toInt then resetWrites regs ++ [dmaccrWrite regs port] else []

/-- A register is written if and only if its field is not negative, with what the field says. -/
structure SetsAskedFor (regs : FsccRegisters) (port : RegPort) (stalled : Bool)
    (writes : List RegWrite) : Prop where
  bar0 : ∀ offset ∈ userOffsets, writesTo 0 offset writes =
    if 0 ≤ (regs.get (offset / 4)).toInt ∧ ¬ (offset = cmdrOffset ∧ stalled = true) then
      [(regs.get (offset / 4)).setWidth 32]
    else []
  fcr_set : 0 ≤ regs.fcr.toInt → ∃ value, writesTo 2 fcrOffset writes = [value] ∧
    value &&& ~~~ownershipBits = regs.fcr.setWidth 32 &&& ~~~ownershipBits
  fcr_unset : regs.fcr.toInt < 0 → writesTo 2 fcrOffset writes = []
  dmaccr : (writes.filter fun write ↦ write.bar = 2 ∧ write.offset ≠ fcrOffset) =
    askedDmaccrWrites regs port
  star : writesTo 0 starOffset writes = []
  vstr : writesTo 0 vstrOffset writes = []

theorem bar2Writes_bar (regs : FsccRegisters) (port : RegPort) :
    ∀ write ∈ fcrWrites regs ++ (resetWrites regs ++ dmaccrWrites regs port), write.bar = 2 := by
  intro write hwrite
  simp only [List.mem_append, fcrWrites, resetWrites, dmaccrWrites, dmaccrWrite,
    List.mem_ite_nil_right, List.mem_singleton] at hwrite
  rcases hwrite with ⟨-, rfl⟩ | ⟨-, rfl⟩ | ⟨-, rfl⟩ <;> rfl

theorem writesTo_bar0 (regs : FsccRegisters) (port : RegPort) (stalled : Bool) {k : Nat}
    (hk : k < 30) :
    writesTo 0 (k * 4) (fieldWrites stalled regs.fields 0 ++
        (fcrWrites regs ++ (resetWrites regs ++ dmaccrWrites regs port))) =
      if LoopWrites stalled k (regs.get k) then [(regs.get k).setWidth 32] else [] := by
  have hbar2 : writesTo 0 (k * 4)
      (fcrWrites regs ++ (resetWrites regs ++ dmaccrWrites regs port)) = [] := by
    apply writesTo_eq_nil
    intro write hwrite hhere
    have hbar := bar2Writes_bar regs port write hwrite
    omega
  have hfields := writesTo_fieldWrites stalled regs.fields 0 k (by rw [regs.length_fields]; exact hk)
  rw [Nat.zero_add] at hfields
  rw [writesTo_append, hbar2, List.append_nil, hfields]
  rfl

theorem userOffsets_index : ∀ offset ∈ userOffsets, offset / 4 * 4 = offset ∧ offset / 4 < 30 ∧
    isReadOnlyRegister offset = false ∧ offset ≤ maxOffset := by decide

-- The loop writes the registers of BAR 0 as they were asked for, whatever the fields hold.
theorem bar0_asked_for (regs : FsccRegisters) (port : RegPort) (stalled : Bool) :
    ∀ offset ∈ userOffsets, writesTo 0 offset (fieldWrites stalled regs.fields 0 ++
        (fcrWrites regs ++ (resetWrites regs ++ dmaccrWrites regs port))) =
      if 0 ≤ (regs.get (offset / 4)).toInt ∧ ¬ (offset = cmdrOffset ∧ stalled = true) then
        [(regs.get (offset / 4)).setWidth 32]
      else [] := by
  intro offset hoffset
  obtain ⟨hindex, hlt, hwritable, hle⟩ := userOffsets_index offset hoffset
  have hwrites := writesTo_bar0 regs port stalled hlt
  rw [hindex] at hwrites
  rw [hwrites]
  congr 1
  simp only [LoopWrites, hindex, hwritable, Bool.false_eq_true, false_or, not_lt, gt_iff_lt, hle,
    true_and]

theorem fieldWrites_filter_bar2 (regs : FsccRegisters) (stalled : Bool) :
    (fieldWrites stalled regs.fields 0).filter
      (fun write ↦ write.bar = 2 ∧ write.offset ≠ fcrOffset) = [] := by
  rw [List.filter_eq_nil_iff]
  intro write hwrite
  simp [(fieldWrites_at write hwrite).1]

-- Behind FCR the call only writes other registers of BAR 2.
theorem behind_fcr {regs : FsccRegisters} {port : RegPort} {write : RegWrite}
    (hwrite : write ∈ resetWrites regs ++ dmaccrWrites regs port) :
    write.bar = 2 ∧ write.offset ≠ fcrOffset := by
  have hdmaccr : portOffset port.channel 2 dmaccrOffset ≠ fcrOffset := by
    change (if port.channel = 0 then 4 else 8) ≠ 0
    split <;> decide
  simp only [List.mem_append, resetWrites, dmaccrWrites, dmaccrWrite,
    List.mem_ite_nil_right, List.mem_singleton] at hwrite
  rcases hwrite with ⟨-, rfl⟩ | ⟨-, rfl⟩
  · exact ⟨rfl, by decide⟩
  · exact ⟨rfl, hdmaccr⟩

-- What reaches BAR 2, register by register.
theorem writesTo_fcr (regs : FsccRegisters) (port : RegPort) (stalled : Bool) :
    writesTo 2 fcrOffset (fieldWrites stalled regs.fields 0 ++
        (fcrWrites regs ++ (resetWrites regs ++ dmaccrWrites regs port))) =
      if regs.fcr.toInt > 0 then [(regs.fcr &&& 0x3fffffff).setWidth 32] else [] := by
  have hbar0 : writesTo 2 fcrOffset (fieldWrites stalled regs.fields 0) = [] :=
    writesTo_eq_nil fun write hwrite hhere ↦ by
      rw [(fieldWrites_at write hwrite).1] at hhere
      exact absurd hhere.1 (by decide)
  have hother : writesTo 2 fcrOffset (resetWrites regs ++ dmaccrWrites regs port) = [] :=
    writesTo_eq_nil fun write hwrite hhere ↦ (behind_fcr hwrite).2 hhere.2
  rw [writesTo_append, hbar0, List.nil_append, writesTo_append, hother, List.append_nil, fcrWrites]
  split
  · rfl
  · rfl

theorem filter_dmaccr (regs : FsccRegisters) (port : RegPort) (stalled : Bool) :
    (fieldWrites stalled regs.fields 0 ++
        (fcrWrites regs ++ (resetWrites regs ++ dmaccrWrites regs port))).filter
        (fun write ↦ write.bar = 2 ∧ write.offset ≠ fcrOffset) =
      resetWrites regs ++ dmaccrWrites regs port := by
  have hfcr : (fcrWrites regs).filter (fun write ↦ write.bar = 2 ∧ write.offset ≠ fcrOffset) = [] := by
    unfold fcrWrites
    split <;> rfl
  rw [List.filter_append, fieldWrites_filter_bar2, List.nil_append, List.filter_append, hfcr,
    List.nil_append, List.filter_eq_self]
  intro write hwrite
  exact decide_eq_true (behind_fcr hwrite)

/-- Everything one call writes, in order. -/
def registersWrites (regs : FsccRegisters) (port : RegPort) (stalled : Bool) : List RegWrite :=
  fieldWrites stalled regs.fields 0 ++
    (fcrWrites regs ++ (resetWrites regs ++ dmaccrWrites regs port))

variable (answers) in
theorem fsccPortSetRegisters_writes (regs : FsccRegisters) (port : RegPort) (log : RegLog) :
    (fsccPortSetRegisters (answering answers) regs port log).2.2.writes = log.writes ++
      registersWrites regs port (cmdrStalled (answering answers) regs port log) := by
  obtain ⟨stalled, port₁, log₁, hrun, hkeeps, hwrites⟩ :=
    setRegistersLoop_fields answers regs port log
  have hdmaccr : dmaccrWrites regs port₁ = dmaccrWrites regs port := by
    simp only [dmaccrWrites, dmaccrWrite, forcedValue, hkeeps.channel, hkeeps.usesDma]
  have hbar2 := setBar2Registers_writes answers regs port₁ log₁
  rw [fsccPortSetRegisters, hrun]
  show (setBar2Registers (answering answers) regs port₁ log₁).2.writes = _
  rw [hbar2, hwrites, hdmaccr, registersWrites, List.append_assoc]

theorem readOnly_not_written (regs : FsccRegisters) (port : RegPort) (stalled : Bool) {k : Nat}
    (hk : k < 30) (hreadOnly : isReadOnlyRegister (k * 4) = true) :
    writesTo 0 (k * 4) (registersWrites regs port stalled) = [] := by
  rw [registersWrites, writesTo_bar0 regs port stalled hk]
  apply if_neg
  intro hwrites
  exact hwrites.1 (Or.inl hreadOnly)

theorem toInt_eq_zero {value : BitVec 64} : value.toInt = 0 ↔ value = 0 :=
  ⟨fun h ↦ BitVec.eq_of_toInt_eq h, fun h ↦ by rw [h]; rfl⟩

-- FCR is not written for a field of 0.
theorem fcr_asked_for (regs : FsccRegisters) (port : RegPort) (stalled : Bool) :
    (0 ≤ regs.fcr.toInt → ∃ value, writesTo 2 fcrOffset (registersWrites regs port stalled) = [value] ∧
      value &&& ~~~ownershipBits = regs.fcr.setWidth 32 &&& ~~~ownershipBits) ↔ regs.fcr ≠ 0 := by
  rw [registersWrites, writesTo_fcr, Ne, ← toInt_eq_zero]
  constructor
  · intro hset hzero
    obtain ⟨value, hwrites, -⟩ := hset (Int.le_of_eq hzero.symm)
    rw [if_neg (by omega)] at hwrites
    exact absurd hwrites (List.cons_ne_nil value []).symm
  · intro hne hnonneg
    refine ⟨(regs.fcr &&& 0x3fffffff).setWidth 32, if_pos (by omega), ?_⟩
    rw [BitVec.setWidth_and, BitVec.and_assoc]
    rfl

-- DMACCR is not written for a field of 0, and a negative field still sends its reset bit.
theorem dmaccr_asked_for (regs : FsccRegisters) (port : RegPort) :
    resetWrites regs ++ dmaccrWrites regs port = askedDmaccrWrites regs port ↔
      regs.dmaccr ≠ 0 ∧ (regs.dmaccr.toInt < 0 → regs.dmaccr &&& 0x10000 = 0) := by
  rw [dmaccrWrites, askedDmaccrWrites, Ne, ← toInt_eq_zero]
  rcases lt_trichotomy regs.dmaccr.toInt 0 with hneg | hzero | hpos
  · rw [if_neg (by omega), if_neg (by omega), List.append_nil, resetWrites]
    constructor
    · intro hnone
      refine ⟨by omega, fun _ ↦ ?_⟩
      by_contra hreset
      rw [if_pos hreset] at hnone
      exact List.cons_ne_nil _ _ hnone
    · intro hclear
      exact if_neg fun hreset ↦ hreset (hclear.2 hneg)
  · rw [if_neg (by omega), if_pos (by omega)]
    constructor
    · intro hwrites
      exact absurd (List.append_cancel_left hwrites).symm (List.cons_ne_nil _ _)
    · intro hne
      exact absurd hzero hne.1
  · rw [if_pos hpos, if_pos (by omega)]
    exact ⟨fun _ ↦ ⟨by omega, fun hneg ↦ by omega⟩, fun _ ↦ rfl⟩

/-- `fscc_port_set_registers` writes what it was asked for exactly when neither FCR nor DMACCR is 0
and a negative DMACCR has the master reset bit clear. -/
theorem fscc_set_registers_asked_for (answers : (bar offset : Nat) → RegLog → BitVec 32)
    (regs : FsccRegisters) (port : RegPort) :
    SetsAskedFor regs port (cmdrStalled (answering answers) regs port ⟨[], 0⟩)
        (fsccPortSetRegisters (answering answers) regs port ⟨[], 0⟩).2.2.writes ↔
      regs.fcr ≠ 0 ∧ regs.dmaccr ≠ 0 ∧ (regs.dmaccr.toInt < 0 → regs.dmaccr &&& 0x10000 = 0) := by
  rw [fsccPortSetRegisters_writes answers, List.nil_append]
  generalize cmdrStalled (answering answers) regs port ⟨[], 0⟩ = stalled
  constructor
  · intro hasked
    refine ⟨(fcr_asked_for regs port stalled).mp hasked.fcr_set, ?_⟩
    rw [← dmaccr_asked_for regs port, ← filter_dmaccr regs port stalled]
    exact hasked.dmaccr
  · intro ⟨hfcr, hdmaccr⟩
    exact {
      bar0 := bar0_asked_for regs port stalled
      fcr_set := (fcr_asked_for regs port stalled).mpr hfcr
      fcr_unset := by
        intro hneg
        rw [registersWrites, writesTo_fcr]
        exact if_neg (by omega)
      dmaccr := by
        rw [registersWrites, filter_dmaccr]
        exact (dmaccr_asked_for regs port).mpr hdmaccr
      star := readOnly_not_written regs port stalled (k := 6) (by decide) (by decide)
      vstr := readOnly_not_written regs port stalled (k := 19) (by decide) (by decide) }

-- A structure straight from `FSCC_REGISTERS_INIT` resets the DMA controller.
theorem fscc_set_registers_init_resets :
    ¬ SetsAskedFor .init ⟨0, false, false, true, .init⟩
      (cmdrStalled (answering fun _ _ _ ↦ 0) .init ⟨0, false, false, true, .init⟩ ⟨[], 0⟩)
      (fsccPortSetRegisters (answering fun _ _ _ ↦ 0) .init ⟨0, false, false, true, .init⟩
        ⟨[], 0⟩).2.2.writes := by
  intro hasked
  exact absurd hasked.dmaccr (by decide)

end Log

end FsccDriver

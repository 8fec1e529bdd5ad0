import FsccDriver.Defines
import FsccDriver.Lib.Runs
import Mathlib.Logic.Function.Basic

/-!
# PortNumbers — how `fscc_port_new` numbers the ports

The registry keeps `LastPortNumber` for the driver and `PortNumber` for each device.  Whether a WDF
call of `fscc_port_new` succeeds is up to `outcome`.
-/

namespace FsccDriver

variable {δ : Type} [DecidableEq δ]

structure Registry (δ : Type) where
  lastPortNumber : Option (BitVec 32)
  portNumber : δ → Option (BitVec 32)

/-- The calls that may fail, in the order of the source.  `createQueues` stands for the interrupt and
the queues of the device, `createRest` for the locks and DPCs behind the symbolic link. -/
inductive WdfCall where
  | openLastForQuery
  | queryLast
  | openLastForInit
  | assignLastInit
  | printDeviceName
  | assignName
  | assignSddl
  | createDevice
  | createQueues
  | createInterface
  | openPortForQuery
  | queryPort
  | openPortForAssign
  | assignPort
  | setFriendlyName
  | openLastForAssign
  | assignLast
  | printDosName
  | createSymbolicLink
  | createRest
  deriving DecidableEq

-- A value that is not there is reported as such.
def registryQueryULong (outcome : NtStatus) (stored : Option (BitVec 32)) : NtStatus × BitVec 32 :=
  if outcome ≠ .success then (outcome, 0)
  else match stored with
    | some value => (.success, value)
    | none => (.objectNameNotFound, 0)

def fsccDriverGetLastPortNum (outcome : WdfCall → NtStatus) (registry : Registry δ) :
    NtStatus × BitVec 32 :=
  if outcome .openLastForQuery ≠ .success then (outcome .openLastForQuery, 0)
  else registryQueryULong (outcome .queryLast) registry.lastPortNumber

def fsccDriverSetLastPortNum (opened assigned : NtStatus) (value : BitVec 32)
    (registry : Registry δ) : NtStatus × Registry δ :=
  if opened ≠ .success then (opened, registry)
  else if assigned ≠ .success then (assigned, registry)
  else (.success, { registry with lastPortNumber := some value })

def fsccPortGetPortNum (outcome : WdfCall → NtStatus) (device : δ) (registry : Registry δ) :
    NtStatus × BitVec 32 :=
  if outcome .openPortForQuery ≠ .success then (outcome .openPortForQuery, 0)
  else registryQueryULong (outcome .queryPort) (registry.portNumber device)

def fsccPortSetPortNum (outcome : WdfCall → NtStatus) (device : δ) (value : BitVec 32)
    (registry : Registry δ) : NtStatus × Registry δ :=
  if outcome .openPortForAssign ≠ .success then (outcome .openPortForAssign, registry)
  else if outcome .assignPort ≠ .success then (outcome .assignPort, registry)
  else (.success, { registry with
    portNumber := Function.update registry.portNumber device (some value) })

/-! ## `fscc_port_new` -/

-- The first part: `last_port_num`, or nothing if it cannot be had.
def lastPortNum (outcome : WdfCall → NtStatus) (registry : Registry δ) :
    Option (BitVec 32) × Registry δ :=
  let (status, last) := fsccDriverGetLastPortNum outcome registry
  if status = .objectNameNotFound then
    let (status, registry) := fsccDriverSetLastPortNum (outcome .openLastForInit)
      (outcome .assignLastInit) (-1) registry
    if status ≠ .success then (none, registry) else (some (-1), registry)
  else if status ≠ .success then (none, registry)
  else (some last, registry)

-- The calls between the two parts of the numbering, each of which ends the function if it fails.
def createCalls : List WdfCall :=
  [.printDeviceName, .assignName, .assignSddl, .createDevice, .createQueues, .createInterface]

-- Everything behind the number: `LastPortNumber` becomes the number of this port.
def finishPort (outcome : WdfCall → NtStatus) (portNum : BitVec 32) (registry : Registry δ) :
    Bool × Registry δ :=
  if outcome .setFriendlyName ≠ .success then (false, registry)
  else
    let (status, registry) := fsccDriverSetLastPortNum (outcome .openLastForAssign)
      (outcome .assignLast) portNum registry
    if status ≠ .success then (false, registry)
    else (decide (∀ call ∈ [WdfCall.printDosName, .createSymbolicLink, .createRest],
      outcome call = .success), registry)

def numberPort (outcome : WdfCall → NtStatus) (device : δ) (last : BitVec 32)
    (registry : Registry δ) : Bool × Registry δ :=
  if ∃ call ∈ createCalls, outcome call ≠ .success then (false, registry)
  else
    let (status, portNum) := fsccPortGetPortNum outcome device registry
    if status = .objectNameNotFound then
      let (status, registry) := fsccPortSetPortNum outcome device (last + 1) registry
      if status ≠ .success then (false, registry) else finishPort outcome (last + 1) registry
    else if status ≠ .success then (false, registry)
    else finishPort outcome portNum registry

def fsccPortNew (outcome : WdfCall → NtStatus) (device : δ) (registry : Registry δ) :
    Bool × Registry δ :=
  match lastPortNum outcome registry with
  | (some last, registry) => numberPort outcome device last registry
  | (none, registry) => (false, registry)

/-! ## Which numbers are stored -/

/-- No two devices have the same number. -/
def NumbersDistinct (registry : Registry δ) : Prop :=
  ∀ a b number, registry.portNumber a = some number → registry.portNumber b = some number → a = b

/-- The device gets a number in this call. -/
def GetsNumber (outcome : WdfCall → NtStatus) (device : δ) (registry : Registry δ) : Prop :=
  (∀ call ∈ createCalls, outcome call = .success) ∧
    (fsccPortGetPortNum outcome device registry).1 = .objectNameNotFound ∧
    outcome .openPortForAssign = .success ∧ outcome .assignPort = .success

section

variable {outcome : WdfCall → NtStatus} {device : δ} {registry : Registry δ}

omit [DecidableEq δ] in
theorem setLastPortNum_portNumber (opened assigned : NtStatus) (value : BitVec 32) :
    (fsccDriverSetLastPortNum opened assigned value registry).2.portNumber = registry.portNumber := by
  unfold fsccDriverSetLastPortNum
  split
  · rfl
  split <;> rfl

omit [DecidableEq δ] in
variable (outcome registry) in
theorem lastPortNum_portNumber :
    (lastPortNum outcome registry).2.portNumber = registry.portNumber := by
  unfold lastPortNum
  dsimp only
  split
  · split <;> exact setLastPortNum_portNumber _ _ _
  split <;> rfl

omit [DecidableEq δ] in
theorem finishPort_portNumber (portNum : BitVec 32) :
    (finishPort outcome portNum registry).2.portNumber = registry.portNumber := by
  unfold finishPort
  dsimp only
  split
  · rfl
  split <;> exact setLastPortNum_portNumber _ _ _

omit [DecidableEq δ] in
theorem portNum_stored {number : BitVec 32}
    (h : fsccPortGetPortNum outcome device registry = (.success, number)) :
    registry.portNumber device = some number := by
  unfold fsccPortGetPortNum at h
  split at h
  case isTrue hopen => exact absurd (congrArg Prod.fst h) hopen
  unfold registryQueryULong at h
  split at h
  case isTrue hquery => exact absurd (congrArg Prod.fst h) hquery
  split at h
  case h_1 value hstored => rw [hstored, (Prod.mk.inj h).2]
  case h_2 hstored => cases h

variable (outcome device registry) in
/-- What a call does behind `last`: nothing, or it gives the device the next number, or the device
has one, and then comes the counter. -/
theorem numberPort_cases (last : BitVec 32) :
    (numberPort outcome device last registry).2 = registry ∨
      (GetsNumber outcome device registry ∧
        (numberPort outcome device last registry).2 = (finishPort outcome (last + 1) { registry with
          portNumber := Function.update registry.portNumber device (some (last + 1)) }).2) ∨
      ∃ number, registry.portNumber device = some number ∧
        (numberPort outcome device last registry).2 = (finishPort outcome number registry).2 := by
  rw [numberPort]
  by_cases hcreate : ∃ call ∈ createCalls, outcome call ≠ .success
  · rw [if_pos hcreate]
    exact Or.inl rfl
  rw [if_neg hcreate]
  dsimp only
  by_cases hnew : (fsccPortGetPortNum outcome device registry).1 = .objectNameNotFound
  · rw [if_pos hnew]
    by_cases hopen : outcome .openPortForAssign = .success
    · by_cases hassign : outcome .assignPort = .success
      · refine Or.inr (Or.inl ?_)
        have hall : ∀ call ∈ createCalls, outcome call = .success := by
          intro call hcall
          by_contra hfail
          exact hcreate ⟨call, hcall, hfail⟩
        refine ⟨⟨hall, hnew, hopen, hassign⟩, ?_⟩
        rw [fsccPortSetPortNum, if_neg (not_not.mpr hopen), if_neg (not_not.mpr hassign)]
        rfl
      · left
        rw [fsccPortSetPortNum, if_neg (not_not.mpr hopen), if_pos hassign]
        exact congrArg Prod.snd (if_pos hassign)
    · left
      rw [fsccPortSetPortNum, if_pos hopen]
      exact congrArg Prod.snd (if_pos hopen)
  · rw [if_neg hnew]
    by_cases hread : (fsccPortGetPortNum outcome device registry).1 = .success
    · rw [if_neg (not_not.mpr hread)]
      exact Or.inr (Or.inr ⟨_, portNum_stored (Prod.ext hread rfl), rfl⟩)
    · rw [if_pos hread]
      exact Or.inl rfl

end

/-! ## Runs -/

structure PortAdd (δ : Type) where
  device : δ
  outcome : WdfCall → NtStatus

def portAddStep (registry : Registry δ) (add : PortAdd δ) : Registry δ :=
  (fsccPortNew add.outcome add.device registry).2

/-- When a device gets its number, every number another device has is below it. -/
def PortAddAllowed (registry : Registry δ) (add : PortAdd δ) : Prop :=
  ∀ last, (lastPortNum add.outcome registry).1 = some last →
    GetsNumber add.outcome add.device registry →
    ∀ other number, other ≠ add.device → registry.portNumber other = some number →
      number.toNat < (last + 1).toNat

omit [DecidableEq δ] in
theorem NumbersDistinct.congr {registry next : Registry δ} (h : NumbersDistinct registry)
    (hnext : next.portNumber = registry.portNumber) : NumbersDistinct next := by
  rwa [NumbersDistinct, hnext]

theorem NumbersDistinct.update {registry next : Registry δ} {device : δ} {number : BitVec 32}
    (h : NumbersDistinct registry)
    (hnext : next.portNumber = Function.update registry.portNumber device (some number))
    (hfree : ∀ other, other ≠ device → registry.portNumber other ≠ some number) :
    NumbersDistinct next := by
  intro a b n ha hb
  rw [hnext] at ha hb
  by_cases had : a = device <;> by_cases hbd : b = device
  · rw [had, hbd]
  · rw [had, Function.update_self] at ha
    rw [Function.update_of_ne hbd, ← ha] at hb
    exact absurd hb (hfree b hbd)
  · rw [hbd, Function.update_self] at hb
    rw [Function.update_of_ne had, ← hb] at ha
    exact absurd ha (hfree a had)
  · rw [Function.update_of_ne had] at ha
    rw [Function.update_of_ne hbd] at hb
    exact h a b n ha hb

theorem NumbersDistinct.step {registry : Registry δ} (h : NumbersDistinct registry) (add : PortAdd δ)
    (hallowed : PortAddAllowed registry add) : NumbersDistinct (portAddStep registry add) := by
  have hsame := lastPortNum_portNumber add.outcome registry
  rw [portAddStep, fsccPortNew]
  split
  next last next hlast =>
    rw [hlast] at hsame
    rcases numberPort_cases add.outcome add.device next last with hsame' | ⟨hgets, hnumbered⟩ |
      ⟨number, -, hnumbered⟩
    · rw [hsame']
      exact h.congr hsame
    · have hportNumber := (congrArg Registry.portNumber hnumbered).trans (finishPort_portNumber (last + 1))
      refine h.update (hportNumber.trans (by rw [hsame])) fun other hother hnumber ↦ ?_
      have hgets' : GetsNumber add.outcome add.device registry := by
        rw [GetsNumber, fsccPortGetPortNum] at hgets ⊢
        rwa [hsame] at hgets
      have hbelow := hallowed last (by rw [hlast]) hgets' other _ hother hnumber
      exact Nat.lt_irrefl _ hbelow
    · rw [hnumbered]
      exact h.congr ((finishPort_portNumber number).trans hsame)
  next next hnone =>
    rw [hnone] at hsame
    exact h.congr hsame

/-! ### The counter -/

/-- The number that `fscc_port_new` counts on from: without one in the registry it is -1. -/
def Registry.counter (registry : Registry δ) : BitVec 32 :=
  registry.lastPortNumber.getD (-1)

/-- The calls behind the number of the device, up to the one that stores it as the last. -/
def CountsNumber (outcome : WdfCall → NtStatus) : Prop :=
  outcome .setFriendlyName = .success ∧ outcome .openLastForAssign = .success ∧
    outcome .assignLast = .success

instance (outcome : WdfCall → NtStatus) : Decidable (CountsNumber outcome) :=
  inferInstanceAs (Decidable (_ ∧ _))

/-- A call that does not leave the counter behind the numbers. -/
structure KeepsCounter (registry : Registry δ) (add : PortAdd δ) : Prop where
  -- `LastPortNumber` is not reported missing while it is there.
  reads : registry.lastPortNumber ≠ none →
    add.outcome .openLastForQuery ≠ .objectNameNotFound ∧ add.outcome .queryLast ≠ .objectNameNotFound
  -- No failure between the two writes, and one number more is left.
  counts : GetsNumber add.outcome add.device registry →
    CountsNumber add.outcome ∧ registry.counter + 1 ≠ -1
  -- Of the devices that have a number only the last one is added again.
  again : ∀ number, registry.portNumber add.device = some number → CountsNumber add.outcome →
    registry.counter = number

/-- The counter has passed every number that is stored. -/
def Counted (registry : Registry δ) : Prop :=
  ∀ device number, registry.portNumber device = some number →
    number.toNat < (registry.counter + 1).toNat

section Counter

variable {outcome : WdfCall → NtStatus} {registry : Registry δ} {add : PortAdd δ}

omit [DecidableEq δ] in
theorem finishPort_registry (portNum : BitVec 32) :
    (finishPort outcome portNum registry).2 =
      if CountsNumber outcome then { registry with lastPortNumber := some portNum } else registry := by
  by_cases hname : outcome .setFriendlyName = .success
  · rw [finishPort, if_neg (not_not.mpr hname)]
    by_cases hopen : outcome .openLastForAssign = .success
    · by_cases hassign : outcome .assignLast = .success
      · have hcounts : CountsNumber outcome := ⟨hname, hopen, hassign⟩
        rw [fsccDriverSetLastPortNum, if_neg (not_not.mpr hopen), if_neg (not_not.mpr hassign),
          if_pos hcounts]
        rfl
      · have hcounts : ¬ CountsNumber outcome := fun h ↦ hassign h.2.2
        rw [fsccDriverSetLastPortNum, if_neg (not_not.mpr hopen), if_pos hassign, if_neg hcounts]
        exact congrArg Prod.snd (if_pos hassign)
    · have hcounts : ¬ CountsNumber outcome := fun h ↦ hopen h.2.1
      rw [fsccDriverSetLastPortNum, if_pos hopen, if_neg hcounts]
      exact congrArg Prod.snd (if_pos hopen)
  · have hcounts : ¬ CountsNumber outcome := fun h ↦ hname h.1
    rw [finishPort, if_pos hname, if_neg hcounts]

omit [DecidableEq δ] in
theorem finishPort_counter (portNum : BitVec 32) :
    (finishPort outcome portNum registry).2.counter =
      if CountsNumber outcome then portNum else registry.counter := by
  rw [finishPort_registry]
  split <;> rfl

section Reads

variable (hreads : registry.lastPortNumber ≠ none →
  outcome .openLastForQuery ≠ .objectNameNotFound ∧ outcome .queryLast ≠ .objectNameNotFound)

omit [DecidableEq δ] in
include hreads in
theorem getLastPortNum_counter :
    ((fsccDriverGetLastPortNum outcome registry).1 = .objectNameNotFound → registry.counter = -1) ∧
      ((fsccDriverGetLastPortNum outcome registry).1 = .success →
        (fsccDriverGetLastPortNum outcome registry).2 = registry.counter) := by
  unfold fsccDriverGetLastPortNum registryQueryULong Registry.counter
  generalize registry.lastPortNumber = counted at hreads ⊢
  rcases counted with _ | value
  · refine ⟨fun _ ↦ rfl, fun hread ↦ ?_⟩
    split at hread
    case isTrue hopen => exact absurd hread hopen
    split at hread
    case isTrue hquery => exact absurd hread hquery
    cases hread
  · obtain ⟨hopen, hquery⟩ := hreads (Option.some_ne_none value)
    split
    case isTrue hopened => exact ⟨fun hread ↦ absurd hread hopen, fun hread ↦ absurd hread hopened⟩
    split
    case isTrue hqueried => exact ⟨fun hread ↦ absurd hread hquery, fun hread ↦ absurd hread hqueried⟩
    exact ⟨fun hread ↦ (by cases hread), fun _ ↦ rfl⟩

omit [DecidableEq δ] in
include hreads in
-- The counter is what the call starts from, and it stays.
theorem lastPortNum_counter :
    (lastPortNum outcome registry).2.counter = registry.counter ∧
      ∀ last, (lastPortNum outcome registry).1 = some last → last = registry.counter := by
  obtain ⟨hmissing, hread⟩ := getLastPortNum_counter hreads
  rw [lastPortNum]
  generalize fsccDriverGetLastPortNum outcome registry = read at hmissing hread ⊢
  obtain ⟨status, stored⟩ := read
  dsimp only at hmissing hread ⊢
  have hnone : ∀ last, (none : Option (BitVec 32)) = some last → last = registry.counter :=
    fun last hlast ↦ absurd hlast.symm (Option.some_ne_none last)
  by_cases hstatus : status = .objectNameNotFound
  · rw [if_pos hstatus, fsccDriverSetLastPortNum, hmissing hstatus]
    by_cases hopened : outcome .openLastForInit = .success
    · by_cases hassigned : outcome .assignLastInit = .success
      · rw [if_neg (not_not.mpr hopened), if_neg (not_not.mpr hassigned)]
        exact ⟨rfl, fun last hlast ↦ (Option.some.inj hlast).symm⟩
      · rw [if_neg (not_not.mpr hopened), if_pos hassigned]
        dsimp only
        rw [if_pos hassigned, ← hmissing hstatus]
        exact ⟨rfl, hnone⟩
    · rw [if_pos hopened]
      dsimp only
      rw [if_pos hopened, ← hmissing hstatus]
      exact ⟨rfl, hnone⟩
  · rw [if_neg hstatus]
    by_cases hsuccess : status = .success
    · rw [if_neg (not_not.mpr hsuccess)]
      exact ⟨rfl, fun last hlast ↦ (Option.some.inj hlast).symm.trans (hread hsuccess)⟩
    · rw [if_pos hsuccess]
      exact ⟨rfl, hnone⟩

end Reads

omit [DecidableEq δ] in
theorem Counted.allowed (h : Counted registry) (hkeeps : KeepsCounter registry add) :
    PortAddAllowed registry add := by
  intro last hlast _ other number _ hnumber
  rw [(lastPortNum_counter hkeeps.reads).2 last hlast]
  exact h other number hnumber

omit [DecidableEq δ] in
-- What is stored as the last number has to be the highest one.
theorem Counted.finish (h : Counted registry) (portNum : BitVec 32)
    (hcounter : CountsNumber outcome → registry.counter = portNum) :
    Counted (finishPort outcome portNum registry).2 := by
  intro device number hnumber
  rw [finishPort_portNumber] at hnumber
  have hbelow := h device number hnumber
  rw [finishPort_counter]
  by_cases hcounts : CountsNumber outcome
  · rw [if_pos hcounts, ← hcounter hcounts]
    exact hbelow
  · rw [if_neg hcounts]
    exact hbelow

-- A device that gets the next number.
theorem Counted.number (h : Counted registry) (device : δ) (hcounts : CountsNumber outcome)
    (hleft : registry.counter + 1 ≠ -1) :
    Counted (finishPort outcome (registry.counter + 1) { registry with
      portNumber := Function.update registry.portNumber device (some (registry.counter + 1)) }).2 := by
  have hnext : (registry.counter + 1 + 1).toNat = (registry.counter + 1).toNat + 1 := by
    have hlast : (registry.counter + 1).toNat ≠ 4294967295 := fun heq ↦ hleft (BitVec.eq_of_toNat_eq heq)
    generalize registry.counter + 1 = number at hlast ⊢
    have hlt := number.isLt
    exact (BitVec.toNat_add number 1).trans (Nat.mod_eq_of_lt (show number.toNat + 1 < 2 ^ 32 by omega))
  intro other number hnumber
  rw [finishPort_portNumber] at hnumber
  dsimp only at hnumber
  rw [finishPort_counter, if_pos hcounts, hnext]
  by_cases hother : other = device
  · rw [hother, Function.update_self] at hnumber
    rw [← Option.some.inj hnumber]
    exact Nat.lt_succ_self _
  · rw [Function.update_of_ne hother] at hnumber
    exact Nat.lt_succ_of_lt (h other number hnumber)

omit [DecidableEq δ] in
theorem Counted.congr {next : Registry δ} (h : Counted registry)
    (hnumbers : next.portNumber = registry.portNumber) (hcounter : next.counter = registry.counter) :
    Counted next := by
  rwa [Counted, hnumbers, hcounter]

theorem Counted.step (h : Counted registry) (hkeeps : KeepsCounter registry add) :
    Counted (portAddStep registry add) := by
  have hsame := lastPortNum_portNumber add.outcome registry
  obtain ⟨hcounter, hread⟩ := lastPortNum_counter hkeeps.reads
  rw [portAddStep, fsccPortNew]
  split
  next last next hlast =>
    rw [hlast] at hsame hcounter hread
    dsimp only at hsame hcounter hread
    have hnext : Counted next := h.congr hsame hcounter
    rcases numberPort_cases add.outcome add.device next last with hrest | ⟨hgets, hnumbered⟩ |
      ⟨number, hnumber, hnumbered⟩
    · rw [hrest]
      exact hnext
    · have hgets' : GetsNumber add.outcome add.device registry := by
        rw [GetsNumber, fsccPortGetPortNum] at hgets ⊢
        rwa [hsame] at hgets
      obtain ⟨hcounts, hleft⟩ := hkeeps.counts hgets'
      rw [hnumbered, hread last rfl, ← hcounter]
      exact hnext.number add.device hcounts (by rwa [hcounter])
    · rw [hnumbered]
      refine hnext.finish number fun hcounts ↦ ?_
      rw [hcounter]
      exact hkeeps.again number (by rwa [← hsame]) hcounts
  next next hnone =>
    rw [hnone] at hsame hcounter
    exact h.congr hsame hcounter


end Counter

/-- Calls that keep the counter are allowed, and at the end it has passed every number. -/
theorem port_adds_counted (adds : List (PortAdd δ))
    (hkeeps : Runs.Along KeepsCounter portAddStep ⟨none, fun _ ↦ none⟩ adds) :
    Runs.Along PortAddAllowed portAddStep ⟨none, fun _ ↦ none⟩ adds ∧
      Counted (adds.foldl portAddStep ⟨none, fun _ ↦ none⟩) := by
  have hblank : Counted (⟨none, fun _ ↦ none⟩ : Registry δ) :=
    fun _ _ hnumber ↦ absurd hnumber.symm (Option.some_ne_none _)
  exact ⟨hkeeps.imp (fun _ _ hkeeps h ↦ h.step hkeeps) (fun _ _ hkeeps h ↦ h.allowed hkeeps) hblank,
    hkeeps.invariant (fun _ _ hkeeps h ↦ h.step hkeeps) hblank⟩

/-- Devices have different numbers as long as each new number is above those of the other devices. -/
theorem fscc_port_numbers_distinct (adds : List (PortAdd δ))
    (hallowed : Runs.Along PortAddAllowed portAddStep ⟨none, fun _ ↦ none⟩ adds) :
    NumbersDistinct (adds.foldl portAddStep ⟨none, fun _ ↦ none⟩) :=
  hallowed.invariant (fun _ add hallowed h ↦ h.step add hallowed)
    fun _ _ _ ha _ ↦ absurd ha (Option.some_ne_none _).symm

-- Two devices, with every call succeeding.
theorem fscc_port_numbers_distinct_two_devices :
    NumbersDistinct ([⟨0, fun _ ↦ .success⟩, ⟨1, fun _ ↦ .success⟩].foldl portAddStep
      (⟨none, fun _ ↦ none⟩ : Registry ℕ)) := by
  apply fscc_port_numbers_distinct
  refine ⟨?_, ?_, trivial⟩
  · intro last _ _ other number _ hnumber
    exact absurd hnumber.symm (Option.some_ne_none number)
  · intro last hlast _ other number hother hnumber
    have hlast' : last = 0 := (Option.some.inj hlast).symm
    have hfirst : other = 0 := by
      by_contra hne
      have hnone : (portAddStep (⟨none, fun _ ↦ none⟩ : Registry ℕ)
          ⟨0, fun _ ↦ .success⟩).portNumber other = none := Function.update_of_ne hne _ _
      rw [hnone] at hnumber
      exact absurd hnumber.symm (Option.some_ne_none number)
    subst hfirst hlast'
    have hzero : number = 0 := (Option.some.inj hnumber).symm
    rw [hzero]
    decide

-- The first device is enumerated again, and the third one gets the number of the second.
theorem fscc_port_numbers_shared :
    ¬ NumbersDistinct ([0, 1, 0, 2].foldl (fun registry device ↦
      portAddStep registry ⟨device, fun _ ↦ .success⟩) (⟨none, fun _ ↦ none⟩ : Registry ℕ)) := by
  intro h
  have hsame := h 1 2 1 rfl rfl
  exact absurd hsame (by decide)

end FsccDriver

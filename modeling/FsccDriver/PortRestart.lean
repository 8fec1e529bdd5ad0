import FsccDriver.PortDefaults

/-!
# PortRestart — the registry from one start of a device to the next

`FsccEvtDevicePrepareHardware` leaves the defaults it has used in the registry.  A later start finds
them there: it takes the same rings and registers, and it writes nothing.
-/

namespace FsccDriver

/-! ## One value -/

/-- The value is there, or its default is left there. -/
def KeyOutcome.Leaves (outcome : KeyOutcome) (key : DeviceKey) (name : String) : Prop :=
  outcome.queried name = .success ∧ (key name).isSome ∨ outcome.assigned name = .success

section Value

variable {outcome : KeyOutcome} {name : String} {default value : BitVec 32} {key : DeviceKey}

theorem registryQueryULong_some (value : BitVec 32) :
    registryQueryULong .success (some value) = (.success, value) := rfl

theorem queryOrAssign_other {other : String} (hne : other ≠ name) :
    (queryOrAssign outcome name default key).2 other = key other := by
  simp only [queryOrAssign]
  split
  · split
    · exact Function.update_of_ne hne _ _
    · rfl
  · rfl

theorem queryOrAssign_again (hqueried : outcome.queried name = .success)
    (hkey : key name = some value) :
    queryOrAssign outcome name default key = (value, key) := by
  rw [queryOrAssign, hqueried, hkey, registryQueryULong_some]
  exact if_neg (not_not.mpr rfl)

theorem registryQueryULong_success {outcome : NtStatus} {stored : Option (BitVec 32)}
    (h : (registryQueryULong outcome stored).1 = .success) :
    stored = some (registryQueryULong outcome stored).2 := by
  unfold registryQueryULong at h ⊢
  by_cases hfails : outcome ≠ .success
  · rw [if_pos hfails] at h
    exact absurd h hfails
  · rw [if_neg hfails] at h ⊢
    cases stored with
    | none => cases h
    | some value => rfl

theorem queryOrAssign_left (h : outcome.Leaves key name) :
    (queryOrAssign outcome name default key).2 name =
      some (queryOrAssign outcome name default key).1 := by
  rcases h with ⟨hqueried, hthere⟩ | hassigned
  · obtain ⟨value, hvalue⟩ := Option.isSome_iff_exists.mp hthere
    rw [queryOrAssign_again hqueried hvalue]
    exact hvalue
  · simp only [queryOrAssign]
    by_cases hfails : (registryQueryULong (outcome.queried name) (key name)).1 ≠ .success
    · rw [if_pos hfails, if_pos hassigned]
      exact Function.update_self _ _ _
    · rw [if_neg hfails]
      exact registryQueryULong_success (not_not.mp hfails)

-- What can be queried stays.
theorem queryOrAssign_keeps {other : String} (hqueried : outcome.queried other = .success)
    (hkey : key other = some value) :
    (queryOrAssign outcome name default key).2 other = some value := by
  by_cases hsame : other = name
  · subst hsame
    rw [queryOrAssign_again hqueried hkey]
    exact hkey
  · rw [queryOrAssign_other hsame]
    exact hkey

theorem KeyOutcome.Leaves.later {other : String} (h : outcome.Leaves key other)
    (hne : other ≠ name) :
    outcome.Leaves (queryOrAssign outcome name default key).2 other := by
  rw [KeyOutcome.Leaves, queryOrAssign_other hne]
  exact h

end Value

/-! ## A table of values -/

/-- One value after the other. -/
def readValues (outcome : KeyOutcome) : List (String × BitVec 32) → DeviceKey →
    List (BitVec 32) × DeviceKey
  | [], key => ([], key)
  | (name, default) :: table, key =>
      let (value, key) := queryOrAssign outcome name default key
      let (values, key) := readValues outcome table key
      (value :: values, key)

section Table

variable {outcome later : KeyOutcome} {table : List (String × BitVec 32)} {key : DeviceKey}

theorem readValues_cons (name : String) (default : BitVec 32) :
    readValues outcome ((name, default) :: table) key =
      ((queryOrAssign outcome name default key).1 ::
          (readValues outcome table (queryOrAssign outcome name default key).2).1,
        (readValues outcome table (queryOrAssign outcome name default key).2).2) := rfl

theorem readValues_other {name : String} (hname : name ∉ table.map Prod.fst) :
    (readValues outcome table key).2 name = key name := by
  induction table generalizing key with
  | nil => rfl
  | cons entry table ih =>
    rw [List.map_cons, List.mem_cons, not_or] at hname
    exact (ih hname.2).trans (queryOrAssign_other hname.1)

theorem KeyOutcome.Leaves.afterTable {name : String} (h : outcome.Leaves key name)
    (hname : name ∉ table.map Prod.fst) : outcome.Leaves (readValues outcome table key).2 name := by
  rw [KeyOutcome.Leaves, readValues_other hname]
  exact h

theorem readValues_keeps {name : String} {value : BitVec 32}
    (hqueried : outcome.queried name = .success) (hkey : key name = some value) :
    (readValues outcome table key).2 name = some value := by
  induction table generalizing key with
  | nil => exact hkey
  | cons entry table ih => exact ih (queryOrAssign_keeps hqueried hkey)

/-- Every query finds what is there. -/
structure KeyOutcome.Finds (outcome : KeyOutcome) : Prop where
  opened : outcome.opened = .success
  queried : ∀ name, outcome.queried name = .success

-- Induction over the table: what is read later has been left by the round of its name.
theorem readValues_again (hlater : later.Finds) (hnames : (table.map Prod.fst).Nodup)
    (hleaves : ∀ name ∈ table.map Prod.fst, outcome.Leaves key name) {key' : DeviceKey}
    (hsame : ∀ name ∈ table.map Prod.fst, key' name = (readValues outcome table key).2 name) :
    readValues later table key' = ((readValues outcome table key).1, key') := by
  induction table generalizing key with
  | nil => rfl
  | cons entry table ih =>
    obtain ⟨name, default⟩ := entry
    rw [List.map_cons, List.nodup_cons] at hnames
    rw [List.map_cons, List.forall_mem_cons] at hleaves hsame
    have hnew : name ∉ table.map Prod.fst := hnames.1
    have hvalue : key' name = some (queryOrAssign outcome name default key).1 := by
      rw [hsame.1, ← queryOrAssign_left hleaves.1]
      exact readValues_other hnew
    have hrest := ih hnames.2
      (fun other hother ↦ (hleaves.2 other hother).later (ne_of_mem_of_not_mem hother hnew)) hsame.2
    rw [readValues_cons, queryOrAssign_again (hlater.queried name) hvalue, hrest]
    rfl

end Table

/-! ## The rings and the registers -/

def memoryTable : List (String × BitVec 32) :=
  [("TxNum", defaultMemory.txNum), ("RxNum", defaultMemory.rxNum), ("TxSize", defaultMemory.txSize),
    ("RxSize", defaultMemory.rxSize)]

def registerTable (defaults : List RegisterDefault) : List (String × BitVec 32) :=
  defaults.map fun default ↦ (default.name, default.value)

def memoryOf (values : List (BitVec 32)) : FsccMemory :=
  ⟨values.getD 2 0, values.getD 0 0, values.getD 3 0, values.getD 1 0⟩

def setFields (defaults : List RegisterDefault) (values : List (BitVec 32)) (regs : FsccRegisters) :
    FsccRegisters :=
  (defaults.zip values).foldl (fun regs read ↦ regs.set read.1.field (read.2.setWidth 64)) regs

section Tables

variable {outcome : KeyOutcome} (key : DeviceKey)

theorem fsccPortGetDefaultMemory_eq (hopened : outcome.opened = .success) (memory : FsccMemory) :
    fsccPortGetDefaultMemory outcome key memory = (.success,
      memoryOf (readValues outcome memoryTable key).1, (readValues outcome memoryTable key).2) := by
  rw [fsccPortGetDefaultMemory, if_neg (not_not.mpr hopened)]
  rfl

theorem getDefaultRegisters_eq (defaults : List RegisterDefault) (regs : FsccRegisters) :
    getDefaultRegisters outcome defaults regs key =
      (setFields defaults (readValues outcome (registerTable defaults) key).1 regs,
        (readValues outcome (registerTable defaults) key).2) := by
  induction defaults generalizing regs key with
  | nil => rfl
  | cons default defaults ih => exact (ih _ _).trans rfl

theorem fsccPortGetDefaultRegisters_eq (hopened : outcome.opened = .success) (regs : FsccRegisters) :
    fsccPortGetDefaultRegisters outcome key regs = (.success,
      setFields registerDefaults (readValues outcome (registerTable registerDefaults) key).1 regs,
      (readValues outcome (registerTable registerDefaults) key).2) := by
  rw [fsccPortGetDefaultRegisters, if_neg (not_not.mpr hopened), getDefaultRegisters_eq]

end Tables

/-! ## `FsccEvtDevicePrepareHardware` -/

namespace Handlers

variable {H : Type} {hw : Hardware H}

/-- The callback, with what it takes from the registry. -/
def prepareWith (hw : Hardware H) (outcome : PrepareOutcome) (memory : FsccMemory)
    (storage : FsccRegisters) (d : Driver H) : NtStatus × Driver H :=
  if outcome.cardInit ≠ .success then (outcome.cardInit, d)
  else match detectedChannel outcome.barAddress with
    | none => (.failed, d)
    | some channel =>
        let (prev, card) := fsccPortGetPREV hw channel d.card
        let hasDma := decide (prev &&& 0x04 ≠ 0) && decide (outcome.dmaEnabler = .success)
        let d := Driver.setDefaults hw channel hasDma { d with card }
        let (status, d) := d.createRx outcome memory
        if status ≠ .success then (status, (d.stopRx hw).stopTx hw)
        else
          let (status, d) := d.createTx outcome memory
          if status ≠ .success then (status, (d.stopTx hw).stopRx hw)
          else (outcome.timer, d.configure hw outcome storage)

-- It leaves the registry as its two readings do, unless it ends before one of them.
theorem fsccEvtDevicePrepareHardware_with {outcome : PrepareOutcome} {key : DeviceKey} {d : Driver H}
    {read : NtStatus × FsccMemory × DeviceKey} {stored : NtStatus × FsccRegisters × DeviceKey}
    {result : NtStatus × Driver H}
    (hread : fsccPortGetDefaultMemory outcome.key key defaultMemory = read)
    (hstored : fsccPortGetDefaultRegisters outcome.key read.2.2 storedDefaults = stored)
    (hresult : prepareWith hw outcome read.2.1 stored.2.1 d = result) :
    ∃ key', fsccEvtDevicePrepareHardware hw outcome key d = (result.1, key', result.2) ∧
      (key' = stored.2.2 ∨ result.1 ≠ .success ∧ (key' = key ∨ key' = read.2.2)) := by
  obtain ⟨opened, memory, keyRead⟩ := read
  obtain ⟨opened', storage, keyStored⟩ := stored
  rw [prepareWith] at hresult
  rw [fsccEvtDevicePrepareHardware]
  by_cases hcard : outcome.cardInit ≠ .success
  · rw [if_pos hcard] at hresult ⊢
    subst hresult
    exact ⟨key, rfl, Or.inr ⟨hcard, Or.inl rfl⟩⟩
  rw [if_neg hcard] at hresult ⊢
  cases hchannel : detectedChannel outcome.barAddress with
  | none =>
    rw [hchannel] at hresult
    subst hresult
    exact ⟨key, rfl, Or.inr ⟨fun h ↦ NtStatus.noConfusion h, Or.inl rfl⟩⟩
  | some channel =>
    rw [hchannel] at hresult
    dsimp only at hresult ⊢
    rw [hread]
    generalize fsccPortGetPREV hw channel d.card = identity at hresult ⊢
    obtain ⟨prev, card⟩ := identity
    dsimp only at hresult ⊢
    generalize Driver.setDefaults hw channel _ { d with card } = d' at hresult ⊢
    generalize d'.createRx outcome memory = received at hresult ⊢
    obtain ⟨status, received⟩ := received
    dsimp only at hresult ⊢
    by_cases hfails : status ≠ .success
    · rw [if_pos hfails] at hresult ⊢
      subst hresult
      exact ⟨keyRead, rfl, Or.inr ⟨hfails, Or.inr rfl⟩⟩
    rw [if_neg hfails] at hresult ⊢
    generalize received.createTx outcome memory = sent at hresult ⊢
    obtain ⟨status', sent⟩ := sent
    dsimp only at hresult ⊢
    by_cases hfails' : status' ≠ .success
    · rw [if_pos hfails'] at hresult ⊢
      subst hresult
      dsimp only
      exact ⟨keyRead, rfl, Or.inr ⟨hfails', Or.inr rfl⟩⟩
    rw [if_neg hfails'] at hresult ⊢
    subst hresult
    dsimp only at hstored
    rw [hstored]
    dsimp only
    generalize sent.configure hw outcome storage = configured
    exact ⟨keyStored, rfl, Or.inl rfl⟩

/-- Every value the callback reads is left in the registry. -/
structure LeavesAll (outcome : KeyOutcome) (key : DeviceKey) : Prop where
  opened : outcome.opened = .success
  memory : ∀ name ∈ memoryTable.map Prod.fst, outcome.Leaves key name
  registers : ∀ name ∈ (registerTable registerDefaults).map Prod.fst, outcome.Leaves key name

section Restart

variable {outcome later : KeyOutcome} {key : DeviceKey}

theorem tables_disjoint : ∀ name ∈ memoryTable.map Prod.fst,
    name ∉ (registerTable registerDefaults).map Prod.fst := by
  decide

-- No name is in both tables, so the second leaves alone what the first has left.
theorem readTables_again (hleaves : LeavesAll outcome key) (hlater : later.Finds)
    {memory registers : List (BitVec 32) × DeviceKey}
    (hmemory : readValues outcome memoryTable key = memory)
    (hregisters : readValues outcome (registerTable registerDefaults) memory.2 = registers) :
    readValues later memoryTable registers.2 = (memory.1, registers.2) ∧
      readValues later (registerTable registerDefaults) registers.2 = registers := by
  subst hmemory hregisters
  constructor
  · exact readValues_again hlater (by decide) hleaves.memory fun name hname ↦
      readValues_other (tables_disjoint name hname)
  · exact readValues_again hlater (by decide)
      (fun name hname ↦ (hleaves.registers name hname).afterTable fun hmem ↦
        tables_disjoint name hmem hname) fun _ _ ↦ rfl

end Restart

/-- The same start, from another key. -/
def PrepareOutcome.withKey (outcome : PrepareOutcome) (key : KeyOutcome) : PrepareOutcome :=
  { outcome with key }

/-- The registry after these starts, each of a port of its own. -/
def registryAfter (hw : Hardware H) (starts : List (PrepareOutcome × Driver H)) (key : DeviceKey) :
    DeviceKey :=
  starts.foldl (fun key start ↦ (fsccEvtDevicePrepareHardware hw start.1 key start.2).2.1) key

section Starts

variable {first later : PrepareOutcome} {key : DeviceKey} {memory registers : List (BitVec 32) × DeviceKey}

variable (hw) in
theorem prepareWith_withKey (outcome : PrepareOutcome) (keyOutcome : KeyOutcome)
    (memory : FsccMemory) (storage : FsccRegisters) (d : Driver H) :
    prepareWith hw (outcome.withKey keyOutcome) memory storage d =
      prepareWith hw outcome memory storage d := rfl

theorem prepare_tables (outcome : PrepareOutcome) (hopened : outcome.key.opened = .success)
    (hmemory : readValues outcome.key memoryTable key = memory)
    (hregisters : readValues outcome.key (registerTable registerDefaults) memory.2 = registers)
    {d : Driver H} {result : NtStatus × Driver H}
    (hresult : prepareWith hw outcome (memoryOf memory.1)
      (setFields registerDefaults registers.1 storedDefaults) d = result) :
    ∃ key', fsccEvtDevicePrepareHardware hw outcome key d = (result.1, key', result.2) ∧
      (key' = registers.2 ∨ result.1 ≠ .success ∧ (key' = key ∨ key' = memory.2)) := by
  have hread := fsccPortGetDefaultMemory_eq key hopened defaultMemory
  have hstored := fsccPortGetDefaultRegisters_eq memory.2 hopened storedDefaults
  rw [hmemory] at hread
  rw [hregisters] at hstored
  exact fsccEvtDevicePrepareHardware_with hread hstored hresult

-- One later start: the tables are read as the first has left them.
theorem prepare_settled (hleaves : LeavesAll first.key key) (hlater : later.key.Finds)
    (hmemory : readValues first.key memoryTable key = memory)
    (hregisters : readValues first.key (registerTable registerDefaults) memory.2 = registers)
    (d : Driver H) :
    fsccEvtDevicePrepareHardware hw later registers.2 d =
      ((fsccEvtDevicePrepareHardware hw (later.withKey first.key) key d).1, registers.2,
        (fsccEvtDevicePrepareHardware hw (later.withKey first.key) key d).2.2) := by
  obtain ⟨hmemory', hregisters'⟩ := readTables_again hleaves hlater hmemory hregisters
  obtain ⟨_, hfresh, -⟩ := prepare_tables (later.withKey first.key) hleaves.opened hmemory
    hregisters (prepareWith_withKey hw later first.key _ _ d)
  obtain ⟨key', hagain, hkey⟩ := prepare_tables later hlater.opened hmemory' hregisters' rfl
  have hsame : key' = registers.2 := by
    rcases hkey with h | ⟨-, h | h⟩ <;> exact h
  rw [hagain, hfresh, hsame]

-- Induction over the starts: each finds the registry as the first has left it.
theorem registryAfter_settled (hleaves : LeavesAll first.key key)
    (hmemory : readValues first.key memoryTable key = memory)
    (hregisters : readValues first.key (registerTable registerDefaults) memory.2 = registers)
    {starts : List (PrepareOutcome × Driver H)} (hstarts : ∀ start ∈ starts, start.1.key.Finds) :
    registryAfter hw starts registers.2 = registers.2 := by
  induction starts with
  | nil => rfl
  | cons start starts ih =>
    rw [List.forall_mem_cons] at hstarts
    rw [registryAfter, List.foldl_cons,
      prepare_settled hleaves hstarts.1 hmemory hregisters start.2]
    exact ih hstarts.2

theorem prepare_registry (hleaves : LeavesAll first.key key)
    (hmemory : readValues first.key memoryTable key = memory)
    (hregisters : readValues first.key (registerTable registerDefaults) memory.2 = registers)
    {d : Driver H} (hprepared : (fsccEvtDevicePrepareHardware hw first key d).1 = .success) :
    (fsccEvtDevicePrepareHardware hw first key d).2.1 = registers.2 := by
  obtain ⟨key', hfirst, hkey⟩ := prepare_tables first hleaves.opened hmemory hregisters rfl
  rw [hfirst] at hprepared ⊢
  exact hkey.resolve_right fun h ↦ h.1 hprepared

end Starts

/-- A start leaves what it has used.  However often the device is started afterwards, the registry
stays as the first start has left it, and a port comes up as from the registry before that. -/
theorem fscc_prepared_registry_settles (hw : Hardware H) {first later : PrepareOutcome} {key : DeviceKey}
    {d : Driver H} (hprepared : (fsccEvtDevicePrepareHardware hw first key d).1 = .success)
    (hleaves : LeavesAll first.key key) {starts : List (PrepareOutcome × Driver H)}
    (hstarts : ∀ start ∈ starts, start.1.key.Finds) (hlater : later.key.Finds) (d' : Driver H) :
    let left := (fsccEvtDevicePrepareHardware hw first key d).2.1
    let fresh := fsccEvtDevicePrepareHardware hw (later.withKey first.key) key d'
    registryAfter hw starts left = left ∧
      fsccEvtDevicePrepareHardware hw later (registryAfter hw starts left) d' =
        (fresh.1, left, fresh.2.2) ∧
      ∀ name value, first.key.queried name = .success → key name = some value →
        left name = some value := by
  intro left fresh
  have hleft : left = _ := prepare_registry hleaves rfl rfl hprepared
  have hafter : registryAfter hw starts left = left := by
    rw [hleft]
    exact registryAfter_settled hleaves rfl rfl hstarts
  refine ⟨hafter, ?_, fun name value hqueried hkey ↦ ?_⟩
  · rw [hafter, hleft]
    exact prepare_settled hleaves hlater rfl rfl d'
  · rw [hleft]
    exact readValues_keeps hqueried (readValues_keeps hqueried hkey)

/-- One value is set by hand. -/
def oneValueKey : DeviceKey := fun name ↦ if name = "TxNum" then some 2 else none

-- A start that finds what is there and could leave nothing more.
def readOnlyStart : PrepareOutcome :=
  everyCallSucceeds.withKey ⟨.success, fun _ ↦ .success, fun _ ↦ .failed⟩

theorem fscc_prepared_registry_settles_again :
    let left := (fsccEvtDevicePrepareHardware memoryCard everyCallSucceeds oneValueKey newPort).2.1
    let fresh := fsccEvtDevicePrepareHardware memoryCard
      (readOnlyStart.withKey everyCallSucceeds.key) oneValueKey newPort
    registryAfter memoryCard [(readOnlyStart, newPort)] left = left ∧
      fsccEvtDevicePrepareHardware memoryCard readOnlyStart
          (registryAfter memoryCard [(readOnlyStart, newPort)] left) newPort =
        (fresh.1, left, fresh.2.2) ∧
      ∀ name value, everyCallSucceeds.key.queried name = .success → oneValueKey name = some value →
        left name = some value :=
  fscc_prepared_registry_settles memoryCard rfl
    ⟨rfl, fun _ _ ↦ Or.inr rfl, fun _ _ ↦ Or.inr rfl⟩
    (List.forall_mem_singleton.mpr ⟨rfl, fun _ ↦ rfl⟩) ⟨rfl, fun _ ↦ rfl⟩ newPort

end Handlers

end FsccDriver

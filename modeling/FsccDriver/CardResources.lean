import FsccDriver.Defines
import Mathlib.Logic.Function.Basic

/-!
# CardResources — `fscc_card_init` and `fscc_card_delete`

Preparing the hardware maps the memory of the card, releasing it unmaps what the table of base
addresses holds.  The two walk the same resource list, but they number the addresses differently.
-/

namespace FsccDriver

/-! ## The source -/

/-- `CM_PARTIAL_RESOURCE_DESCRIPTOR`, by its type. -/
inductive Descriptor where
  | port (start : BitVec 64)
  | memory (start : BitVec 64) (length : BitVec 32)
  | other
  deriving DecidableEq

/-- `struct BAR`. -/
structure Bar where
  address : BitVec 64
  memoryMapped : Bool

/-- `struct fscc_card`.  The table has three entries; the others stand for what lies behind it. -/
structure FsccCard where
  deviceId : BitVec 32
  bar : Nat → Bar

/-- What `MmMapIoSpace` answers call by call, and the word `PCIReadConfigWord` reads if it can. -/
structure CardSystem where
  mmMapIoSpace : (call : Nat) → (start : BitVec 64) → (length : BitVec 32) → BitVec 64
  pciConfigWord : Option (BitVec 16)

/-- A call of `MmMapIoSpace` with its result, or of `MmUnmapIoSpace`. -/
structure Mapping where
  address : BitVec 64
  length : BitVec 32
  deriving DecidableEq

/-- The state of the loop of `fscc_card_init`. -/
structure CardPrepare where
  card : FsccCard
  barNum : Nat
  maps : List Mapping

def uLongToPtr (value : BitVec 32) : BitVec 64 := value.setWidth 64

def barNumAt (i barNum : Nat) : Nat :=
  match i with
  | 0 => 2
  | 2 => 0
  | _ => barNum

def FsccCard.setBar (card : FsccCard) (number : Nat) (bar : Bar) : FsccCard :=
  { card with bar := Function.update card.bar number bar }

-- The body of the loop of `fscc_card_init`.
def CardSystem.prepare (sys : CardSystem) (s : CardPrepare) : Descriptor × Nat → CardPrepare
  | (.port start, i) =>
      let barNum := barNumAt i s.barNum
      { s with barNum, card := s.card.setBar barNum ⟨uLongToPtr (start.setWidth 32), false⟩ }
  | (.memory start length, i) =>
      let barNum := barNumAt i s.barNum
      let address := sys.mmMapIoSpace s.maps.length start length
      { barNum, card := s.card.setBar barNum ⟨address, true⟩, maps := s.maps ++ [⟨address, length⟩] }
  | (.other, _) => s

def CardSystem.initLoop (sys : CardSystem) : List (Option Descriptor) → (i : Nat) → CardPrepare →
    NtStatus × CardPrepare
  | [], _, s => (.success, s)
  | none :: _, _, s => (.failed, s)
  | some descriptor :: rest, i, s => sys.initLoop rest (i + 1) (sys.prepare s (descriptor, i))

/-- `fscc_card_init`: the status, the card and the calls of `MmMapIoSpace`. -/
def CardSystem.fsccCardInit (sys : CardSystem) (card : FsccCard)
    (resourcesTranslated : List (Option Descriptor)) : NtStatus × FsccCard × List Mapping :=
  let (status, s) := sys.initLoop resourcesTranslated 0 ⟨{ card with deviceId := 0 }, 0, []⟩
  if status = .success then
    (status, { s.card with deviceId := (sys.pciConfigWord.getD 0).setWidth 32 }, s.maps)
  else (status, s.card, s.maps)

/-- `fscc_card_delete`: the status and the calls of `MmUnmapIoSpace`. -/
def fsccCardDelete (card : FsccCard) : List (Option Descriptor) → (barCounter : Nat) →
    NtStatus × List Mapping
  | [], _ => (.success, [])
  | none :: _, _ => (.failed, [])
  | some (.port _) :: rest, barCounter => fsccCardDelete card rest (barCounter + 1)
  | some (.memory _ length) :: rest, barCounter =>
      let (status, unmaps) := fsccCardDelete card rest (barCounter + 1)
      (status, ⟨(card.bar barCounter).address, length⟩ :: unmaps)
  | some .other :: rest, barCounter => fsccCardDelete card rest barCounter

/-! ## What it is for -/

/-- Releasing the hardware undoes the mappings that preparing it has made. -/
def ReleasesMappings (sys : CardSystem) (card : FsccCard) (descriptors : List Descriptor) : Prop :=
  let (status, prepared, maps) := sys.fsccCardInit card (descriptors.map some)
  status = .success →
    (fsccCardDelete prepared (descriptors.map some) 0).2.Perm (maps.filter (·.address ≠ 0))

def Descriptor.isBar : Descriptor → Bool
  | .other => false
  | _ => true

def Descriptor.isMemory : Descriptor → Bool
  | .memory _ _ => true
  | _ => false

/-- The ports and the memory of the list, with their positions. -/
def barDescriptors (descriptors : List Descriptor) : List (Descriptor × Nat) :=
  descriptors.zipIdx.filter (·.1.isBar)

/-- The lists for which the two numberings agree. -/
def NumberedAlike : List (Descriptor × Nat) → Prop
  | [(.memory _ _, i)] => i ≠ 0
  | [(.port _, i), (.port _, j), (.memory _ _, k)] => i = 0 ∧ j ≠ 2 ∧ k ≠ 2
  | [(.memory _ length, i), (.port _, j), (.memory _ length', _)] => i = 0 ∧ j = 2 ∧ length = length'
  | descriptors => ∀ descriptor ∈ descriptors, descriptor.1.isMemory = false

/-- What `MmMapIoSpace` answers for the memory of the list, from one call on. -/
def CardSystem.answers (sys : CardSystem) : List Descriptor → (call : Nat) → List Mapping
  | [], _ => []
  | .memory start length :: rest, call =>
      ⟨sys.mmMapIoSpace call start length, length⟩ :: sys.answers rest (call + 1)
  | _ :: rest, call => sys.answers rest call

/-- The mappings are new: their addresses differ from each other, from the ports and from what is in the
table already. -/
structure NewMappings (card : FsccCard) (descriptors : List Descriptor) (maps : List Mapping) : Prop where
  distinct : (maps.filter (·.address ≠ 0)).Pairwise fun a b ↦ a.address ≠ b.address
  notPort : ∀ mapping ∈ maps, mapping.address ≠ 0 → ∀ start, .port start ∈ descriptors →
    mapping.address ≠ uLongToPtr (start.setWidth 32)
  notBefore : ∀ mapping ∈ maps, mapping.address ≠ 0 → ∀ number, mapping.address ≠ (card.bar number).address

/-! ## The two walks -/

section Walks

variable (sys : CardSystem) (card : FsccCard)

theorem initLoop_some (descriptors : List Descriptor) (i : Nat) (s : CardPrepare) :
    sys.initLoop (descriptors.map some) i s =
      (.success, ((descriptors.zipIdx i).filter (·.1.isBar)).foldl sys.prepare s) := by
  induction descriptors generalizing i s with
  | nil => rfl
  | cons descriptor rest ih =>
    rw [List.map_cons, CardSystem.initLoop, ih, List.zipIdx_cons]
    cases descriptor <;> rfl

theorem initLoop_maps (descriptors : List Descriptor) (i : Nat) (s : CardPrepare) :
    (sys.initLoop (descriptors.map some) i s).2.maps =
      s.maps ++ sys.answers descriptors s.maps.length := by
  induction descriptors generalizing i s with
  | nil => exact (List.append_nil _).symm
  | cons descriptor rest ih =>
    rw [List.map_cons, CardSystem.initLoop, ih]
    cases descriptor with
    | other => rfl
    | port start => rfl
    | memory start length =>
      show s.maps ++ [_] ++ sys.answers rest (s.maps ++ [_]).length = _
      rw [List.length_append, List.length_singleton, List.append_assoc]
      rfl

-- Only the bars are counted.
theorem fsccCardDelete_some (descriptors : List Descriptor) (i barCounter : Nat) :
    fsccCardDelete card (descriptors.map some) barCounter =
      fsccCardDelete card (((descriptors.zipIdx i).filter (·.1.isBar)).map (some ·.1)) barCounter := by
  induction descriptors generalizing i barCounter with
  | nil => rfl
  | cons descriptor rest ih =>
    rw [List.map_cons, List.zipIdx_cons]
    cases descriptor with
    | other => exact ih (i + 1) barCounter
    | port start => exact ih (i + 1) (barCounter + 1)
    | memory start length =>
      rw [fsccCardDelete, ih (i + 1)]
      rfl

theorem fsccCardDelete_deviceId (deviceId : BitVec 32) (resources : List (Option Descriptor))
    (barCounter : Nat) : fsccCardDelete { card with deviceId } resources barCounter =
      fsccCardDelete card resources barCounter := by
  induction resources generalizing barCounter with
  | nil => rfl
  | cons resource rest ih =>
    rcases resource with - | (start | ⟨start, length⟩ | -)
    · rfl
    · exact ih (barCounter + 1)
    · rw [fsccCardDelete, fsccCardDelete, ih]
    · exact ih barCounter

/-- The calls of `MmUnmapIoSpace` for a list of bars. -/
def unmapsOf (card : FsccCard) (bars : List (Descriptor × Nat)) (barCounter : Nat) : List Mapping :=
  (fsccCardDelete card (bars.map (some ·.1)) barCounter).2

def prepareStart (card : FsccCard) : CardPrepare := ⟨{ card with deviceId := 0 }, 0, []⟩

def prepareBars (sys : CardSystem) (card : FsccCard) (bars : List (Descriptor × Nat)) : CardPrepare :=
  bars.foldl sys.prepare (prepareStart card)

theorem fsccCardInit_some (descriptors : List Descriptor) :
    sys.fsccCardInit card (descriptors.map some) =
      (.success,
        { (prepareBars sys card (barDescriptors descriptors)).card with
          deviceId := (sys.pciConfigWord.getD 0).setWidth 32 },
        (prepareBars sys card (barDescriptors descriptors)).maps) := by
  rw [CardSystem.fsccCardInit, initLoop_some]
  rfl

theorem prepareBars_maps (descriptors : List Descriptor) :
    (prepareBars sys card (barDescriptors descriptors)).maps = sys.answers descriptors 0 := by
  have hmaps := initLoop_maps sys descriptors 0 (prepareStart card)
  rw [initLoop_some] at hmaps
  exact hmaps

theorem releasesMappings_iff (descriptors : List Descriptor) :
    ReleasesMappings sys card descriptors ↔
      (unmapsOf (prepareBars sys card (barDescriptors descriptors)).card (barDescriptors descriptors)
        0).Perm ((prepareBars sys card (barDescriptors descriptors)).maps.filter (·.address ≠ 0)) := by
  rw [ReleasesMappings, fsccCardInit_some]
  generalize prepareBars sys card (barDescriptors descriptors) = s
  dsimp only
  rw [fsccCardDelete_deviceId, fsccCardDelete_some _ descriptors 0 0]
  exact ⟨fun h ↦ h rfl, fun h _ ↦ h⟩

/-! ## One bar -/

variable {sys} {s : CardPrepare} {P : BitVec 64 → Prop} {k : Nat}

theorem barNumAt_carried {i : Nat} (h0 : i ≠ 0) (h2 : i ≠ 2) (barNum : Nat) :
    barNumAt i barNum = barNum := by
  unfold barNumAt
  split
  · exact absurd rfl h0
  · exact absurd rfl h2
  · rfl

theorem barNumAt_zero {i : Nat} (hi : i ≠ 0) : barNumAt i 0 = 0 := by
  by_cases h2 : i = 2
  · rw [h2]
    rfl
  · exact barNumAt_carried hi h2 0

theorem barNumAt_range {barNum : Nat} (hbarNum : barNum = 0 ∨ barNum = 2) (i : Nat) :
    barNumAt i barNum = 0 ∨ barNumAt i barNum = 2 := by
  unfold barNumAt
  split
  · exact Or.inr rfl
  · exact Or.inl rfl
  · exact hbarNum

theorem prepare_barNum (hs : s.barNum = 0 ∨ s.barNum = 2) (bar : Descriptor × Nat) :
    (sys.prepare s bar).barNum = 0 ∨ (sys.prepare s bar).barNum = 2 := by
  obtain ⟨descriptor, i⟩ := bar
  cases descriptor with
  | other => exact hs
  | port start => exact barNumAt_range hs i
  | memory start length => exact barNumAt_range hs i

-- Whatever a descriptor puts into the table, it puts under its own number.
theorem prepare_bar_other (bar : Descriptor × Nat) (hk : k ≠ barNumAt bar.2 s.barNum) :
    (sys.prepare s bar).card.bar k = s.card.bar k := by
  obtain ⟨descriptor, i⟩ := bar
  cases descriptor with
  | other => rfl
  | port start => exact Function.update_of_ne hk _ _
  | memory start length => exact Function.update_of_ne hk _ _

theorem prepare_port_bar {start : BitVec 64} {i : Nat} (hk : k = barNumAt i s.barNum) :
    ((sys.prepare s (.port start, i)).card.bar k).address = uLongToPtr (start.setWidth 32) := by
  subst hk
  show (Function.update s.card.bar _ _ _).address = _
  rw [Function.update_self]

theorem prepare_memory_bar {start : BitVec 64} {length : BitVec 32} {i : Nat}
    (hk : k = barNumAt i s.barNum) :
    ((sys.prepare s (.memory start length, i)).card.bar k).address =
      sys.mmMapIoSpace s.maps.length start length := by
  subst hk
  show (Function.update s.card.bar _ _ _).address = _
  rw [Function.update_self]

theorem prepare_port {start : BitVec 64} (hport : P (uLongToPtr (start.setWidth 32))) (i : Nat)
    (hk : P (s.card.bar k).address) : P ((sys.prepare s (.port start, i)).card.bar k).address := by
  by_cases hnumber : k = barNumAt i s.barNum
  · rwa [prepare_port_bar hnumber]
  · rwa [prepare_bar_other _ hnumber]

/-! ## All bars -/

/-- Ports whose addresses satisfy `P`. -/
def PortsOnly (P : BitVec 64 → Prop) (bars : List (Descriptor × Nat)) : Prop :=
  ∀ bar ∈ bars, ∃ start, bar.1 = .port start ∧ P (uLongToPtr (start.setWidth 32))

theorem PortsOnly.bar {bars : List (Descriptor × Nat)} (hbars : PortsOnly P bars)
    (hk : P (s.card.bar k).address) : P ((bars.foldl sys.prepare s).card.bar k).address := by
  induction bars generalizing s with
  | nil => exact hk
  | cons bar rest ih =>
    obtain ⟨start, hport, hP⟩ := hbars bar List.mem_cons_self
    obtain ⟨_, i⟩ := bar
    subst hport
    exact ih (fun bar hbar ↦ hbars bar (List.mem_cons_of_mem _ hbar)) (prepare_port hP i hk)

-- A port behind position 2 takes the number of its predecessor.
theorem PortsOnly.last {bars : List (Descriptor × Nat)} (hbars : PortsOnly P bars)
    (hpositions : ∀ bar ∈ bars, 2 < bar.2) (hne : bars ≠ []) :
    P ((bars.foldl sys.prepare s).card.bar s.barNum).address := by
  cases bars with
  | nil => exact absurd rfl hne
  | cons bar rest =>
    obtain ⟨start, hport, hP⟩ := hbars bar List.mem_cons_self
    have hposition : 2 < bar.2 := hpositions bar List.mem_cons_self
    obtain ⟨_, i⟩ := bar
    subst hport
    dsimp only at hposition
    have hnumber : s.barNum = barNumAt i s.barNum :=
      (barNumAt_carried (by omega) (by omega) _).symm
    apply PortsOnly.bar fun bar hbar ↦ hbars bar (List.mem_cons_of_mem _ hbar)
    rwa [prepare_port_bar hnumber]

theorem PortsOnly.maps {bars : List (Descriptor × Nat)} (hbars : PortsOnly P bars) :
    (bars.foldl sys.prepare s).maps = s.maps := by
  induction bars generalizing s with
  | nil => rfl
  | cons bar rest ih =>
    obtain ⟨start, hport, -⟩ := hbars bar List.mem_cons_self
    obtain ⟨_, i⟩ := bar
    subst hport
    exact ih fun bar hbar ↦ hbars bar (List.mem_cons_of_mem _ hbar)

-- Nothing is ever put under the numbers 1 and 3 or above.
theorem foldl_prepare_bar (bars : List (Descriptor × Nat)) (hs : s.barNum = 0 ∨ s.barNum = 2)
    (h0 : k ≠ 0) (h2 : k ≠ 2) : (bars.foldl sys.prepare s).card.bar k = s.card.bar k := by
  induction bars generalizing s with
  | nil => rfl
  | cons bar rest ih =>
    have hk : k ≠ barNumAt bar.2 s.barNum := by
      rcases barNumAt_range hs bar.2 with h | h
      · rwa [h]
      · rwa [h]
    rw [List.foldl_cons, ih (prepare_barNum hs bar), prepare_bar_other bar hk]

theorem foldl_prepare_maps_length (bars : List (Descriptor × Nat)) :
    (bars.foldl sys.prepare s).maps.length = s.maps.length + bars.countP (·.1.isMemory) := by
  induction bars generalizing s with
  | nil => rfl
  | cons bar rest ih =>
    rw [List.foldl_cons, ih, List.countP_cons]
    obtain ⟨descriptor, i⟩ := bar
    cases descriptor with
    | other => rfl
    | port start => rfl
    | memory start length =>
      show (s.maps ++ [_]).length + _ = s.maps.length + (_ + 1)
      rw [List.length_append, List.length_singleton]
      omega

theorem unmapsOf_length (bars : List (Descriptor × Nat)) (barCounter : Nat) :
    (unmapsOf card bars barCounter).length = bars.countP (·.1.isMemory) := by
  induction bars generalizing barCounter with
  | nil => rfl
  | cons bar rest ih =>
    rw [List.countP_cons]
    obtain ⟨descriptor, i⟩ := bar
    cases descriptor with
    | other => exact ih barCounter
    | port start => exact ih (barCounter + 1)
    | memory start length => exact congrArg (· + 1) (ih (barCounter + 1))

theorem unmapsOf_tail {first : Descriptor × Nat} (hfirst : first.1.isBar = true)
    (rest : List (Descriptor × Nat)) (barCounter : Nat) :
    unmapsOf card rest (barCounter + 1) ⊆ unmapsOf card (first :: rest) barCounter := by
  obtain ⟨descriptor, i⟩ := first
  cases descriptor with
  | other => exact absurd hfirst Bool.false_ne_true
  | port start => exact fun _ h ↦ h
  | memory start length => exact fun _ h ↦ List.mem_cons_of_mem _ h

theorem mem_unmapsOf {bars : List (Descriptor × Nat)} {bar : Descriptor × Nat} (hbar : bar ∈ bars)
    (hmemory : bar.1.isMemory = true) (barCounter : Nat) :
    ∃ number ≥ barCounter, ∃ length,
      ⟨(card.bar number).address, length⟩ ∈ unmapsOf card bars barCounter := by
  induction bars generalizing barCounter with
  | nil => exact absurd hbar List.not_mem_nil
  | cons first rest ih =>
    obtain ⟨descriptor, i⟩ := first
    rcases List.mem_cons.mp hbar with rfl | hrest
    · cases descriptor with
      | other => exact absurd hmemory Bool.false_ne_true
      | port start => exact absurd hmemory Bool.false_ne_true
      | memory start length => exact ⟨barCounter, le_refl _, length, List.mem_cons_self⟩
    · cases descriptor with
      | other => exact ih hrest barCounter
      | port start =>
        obtain ⟨number, hnumber, hmem⟩ := ih hrest (barCounter + 1)
        exact ⟨number, by omega, hmem⟩
      | memory start length =>
        obtain ⟨number, hnumber, unmapped, hmem⟩ := ih hrest (barCounter + 1)
        exact ⟨number, by omega, unmapped, List.mem_cons_of_mem _ hmem⟩

end Walks

/-! ## When the hardware is released -/

theorem numberedAlike_of_no_memory {bars : List (Descriptor × Nat)}
    (h : ∀ bar ∈ bars, bar.1.isMemory = false) : NumberedAlike bars := by
  unfold NumberedAlike
  split
  · next => exact absurd (h _ List.mem_cons_self) Bool.noConfusion
  · next =>
    exact absurd (h _ (List.mem_cons_of_mem _ (List.mem_cons_of_mem _ List.mem_cons_self))) Bool.noConfusion
  · next => exact absurd (h _ List.mem_cons_self) Bool.noConfusion
  · exact h

section Release

variable {sys : CardSystem} {card : FsccCard} {P : BitVec 64 → Prop}

-- A bar behind a first memory takes its place in the table, or leaves it at number 2.
theorem first_memory_lost {start start' : BitVec 64} {length : BitVec 32} {i j : Nat}
    {rest : List (Descriptor × Nat)} (hij : i < j) (hcard : P (card.bar 0).address)
    (hports : PortsOnly P ((.port start', j) :: rest)) :
    P ((prepareBars sys card
      ((.memory start length, i) :: (.port start', j) :: rest)).card.bar 0).address := by
  rw [prepareBars, List.foldl_cons]
  set s := sys.prepare (prepareStart card) (.memory start length, i) with hs
  have hnumber : s.barNum = barNumAt i 0 := rfl
  by_cases hfirst : barNumAt i 0 = 0
  · rw [List.foldl_cons]
    obtain ⟨_, hport, hP⟩ := hports _ List.mem_cons_self
    obtain rfl : start' = _ := Descriptor.port.inj hport
    refine PortsOnly.bar (fun bar hbar ↦ hports bar (List.mem_cons_of_mem _ hbar)) ?_
    have hsecond : 0 = barNumAt j s.barNum := by
      rw [hnumber, hfirst, barNumAt_zero (by omega)]
    rwa [prepare_port_bar hsecond]
  · refine PortsOnly.bar hports ?_
    rwa [hs, prepare_bar_other _ (Ne.symm hfirst)]

section Third

variable {start : BitVec 64} {length : BitVec 32} {k : Nat} {rest : List (Descriptor × Nat)}

-- What a memory with only ports behind it leaves of the table.
theorem memory_then_ports {s : CardPrepare} {number : Nat} (hrest : PortsOnly P rest)
    (hnumber : number ≠ barNumAt k s.barNum) (hs : P (s.card.bar number).address) :
    P ((((.memory start length, k) :: rest).foldl sys.prepare s).card.bar number).address := by
  apply PortsOnly.bar hrest
  rwa [prepare_bar_other _ hnumber]

theorem memory_then_ports_last {s : CardPrepare} {number : Nat} (hrest : PortsOnly P rest)
    (hpositions : ∀ bar ∈ rest, 2 < bar.2) (hne : rest ≠ []) (hnumber : number = barNumAt k s.barNum) :
    P ((((.memory start length, k) :: rest).foldl sys.prepare s).card.bar number).address := by
  subst hnumber
  exact PortsOnly.last (s := sys.prepare s (.memory start length, k)) hrest hpositions hne

variable {start' : BitVec 64} {i j : Nat}

/-- The only memory, behind two ports. -/
theorem third_memory_kept {start'' : BitVec 64} (hij : i < j) (hjk : j < k)
    (hpositions : ∀ bar ∈ rest, 2 < bar.2) (hcard : ∀ number, P (card.bar number).address)
    (hports : PortsOnly P [(.port start', i), (.port start'', j)]) (hrest : PortsOnly P rest)
    (hkept : ¬ P ((prepareBars sys card
      ((.port start', i) :: (.port start'', j) :: (.memory start length, k) :: rest)).card.bar 2).address) :
    i = 0 ∧ j ≠ 2 ∧ k ≠ 2 ∧ rest = [] := by
  set s := [(Descriptor.port start', i), (.port start'', j)].foldl sys.prepare (prepareStart card) with hs
  have hbefore : P (s.card.bar 2).address := PortsOnly.bar hports (hcard 2)
  have hbarNum : s.barNum = barNumAt j (barNumAt i 0) := rfl
  have hnumber : 2 = barNumAt k s.barNum := by
    by_contra hother
    exact hkept (memory_then_ports hrest hother hbefore)
  have hlast : rest = [] := by
    by_contra hne
    exact hkept (memory_then_ports_last hrest hpositions hne hnumber)
  rw [hbarNum] at hnumber
  have hi : i = 0 := by
    by_contra hi
    rw [barNumAt_zero hi, barNumAt_zero (by omega : j ≠ 0), barNumAt_zero (by omega : k ≠ 0)] at hnumber
    exact absurd hnumber (by decide)
  refine ⟨hi, ?_, ?_, hlast⟩
  · rintro rfl
    have hsecond : barNumAt 2 (barNumAt i 0) = 0 := rfl
    rw [hsecond, barNumAt_zero (by omega : k ≠ 0)] at hnumber
    exact absurd hnumber (by decide)
  · rintro rfl
    have hthird : barNumAt 2 (barNumAt j (barNumAt i 0)) = 0 := rfl
    rw [hthird] at hnumber
    exact absurd hnumber (by decide)

/-- Two memories with a port between them. -/
theorem two_memories_kept {length' : BitVec 32} (hij : i < j) (hjk : j < k) {start'' : BitVec 64}
    (hpositions : ∀ bar ∈ rest, 2 < bar.2) (hcard : ∀ number, P (card.bar number).address)
    (hport : P (uLongToPtr (start''.setWidth 32))) (hrest : PortsOnly P rest)
    (hkept : ∀ number, number = 0 ∨ number = 2 → ¬ P ((prepareBars sys card
      ((.memory start' length', i) :: (.port start'', j) :: (.memory start length, k) :: rest)).card.bar
        number).address) :
    i = 0 ∧ j = 2 ∧ rest = [] := by
  set s := [(Descriptor.memory start' length', i), (.port start'', j)].foldl sys.prepare (prepareStart card)
    with hs
  have hbarNum : s.barNum = barNumAt j (barNumAt i 0) := rfl
  have hsplit : prepareBars sys card ((.memory start' length', i) :: (.port start'', j) ::
      (.memory start length, k) :: rest) = ((.memory start length, k) :: rest).foldl sys.prepare s := rfl
  rw [hsplit] at hkept
  have hbefore : ∀ number, number ≠ barNumAt i 0 ∨ number = barNumAt j (barNumAt i 0) →
      P (s.card.bar number).address := by
    rintro number (hother | hsecond)
    · show P ((sys.prepare _ (.port start'', j)).card.bar number).address
      refine prepare_port hport j ?_
      rw [prepare_bar_other _ hother]
      exact hcard number
    · show P ((sys.prepare _ (.port start'', j)).card.bar number).address
      rwa [prepare_port_bar hsecond]
  have hnumbers : ∀ number, number = 0 ∨ number = 2 → number = barNumAt k s.barNum ∨
      number = barNumAt i 0 ∧ number ≠ barNumAt j (barNumAt i 0) := by
    intro number hrange
    by_contra hlost
    push Not at hlost
    exact hkept number hrange (memory_then_ports hrest hlost.1
      (hbefore number (Decidable.or_iff_not_imp_left.mpr fun h ↦ hlost.2 (not_not.mp h))))
  have h0 := hnumbers 0 (Or.inl rfl)
  have h2 := hnumbers 2 (Or.inr rfl)
  have hlast : 0 = barNumAt k s.barNum → rest = [] := by
    intro hnumber
    by_contra hne
    exact hkept 0 (Or.inl rfl) (memory_then_ports_last hrest hpositions hne hnumber)
  rw [hbarNum] at h0 h2 hlast
  have hi : i = 0 := by
    by_contra hi
    rw [barNumAt_zero hi, barNumAt_zero (by omega : j ≠ 0), barNumAt_zero (by omega : k ≠ 0)] at h2
    omega
  subst hi
  have hj : j = 2 := by
    by_contra hj
    have hsecond : barNumAt j (barNumAt 0 0) = 2 := barNumAt_carried (by omega) hj 2
    rw [hsecond] at h0 h2
    by_cases hk : k = 2
    · subst hk
      exact h2.elim (fun h ↦ absurd h (by decide)) fun h ↦ h.2 rfl
    · rw [barNumAt_carried (by omega) hk 2] at h0
      exact h0.elim (fun h ↦ absurd h (by decide)) fun h ↦ absurd h.1 (by decide)
  subst hj
  exact ⟨rfl, rfl, hlast (barNumAt_zero (by omega : k ≠ 0)).symm⟩

end Third

end Release

/-- What the driver and the system know of an address before the mapping. -/
def KnownAddress (card : FsccCard) (descriptors : List Descriptor) (address : BitVec 64) : Prop :=
  (∃ number, address = (card.bar number).address) ∨
    ∃ start, .port start ∈ descriptors ∧ address = uLongToPtr (start.setWidth 32)

theorem NewMappings.not_known {card : FsccCard} {descriptors : List Descriptor} {maps : List Mapping}
    (h : NewMappings card descriptors maps) {mapping : Mapping} (hmem : mapping ∈ maps)
    (hnonnull : mapping.address ≠ 0) : ¬ KnownAddress card descriptors mapping.address := by
  rintro (⟨number, hbefore⟩ | ⟨start, hstart, hport⟩)
  · exact h.notBefore mapping hmem hnonnull number hbefore
  · exact h.notPort mapping hmem hnonnull start hstart hport

theorem zipIdx_increasing (descriptors : List Descriptor) (i : Nat) :
    (descriptors.zipIdx i).Pairwise fun bar next ↦ bar.2 < next.2 := by
  induction descriptors generalizing i with
  | nil => exact List.Pairwise.nil
  | cons descriptor rest ih =>
    rw [List.zipIdx_cons]
    refine List.pairwise_cons.mpr ⟨fun next hnext ↦ ?_, ih (i + 1)⟩
    exact List.le_snd_of_mem_zipIdx hnext

theorem barDescriptors_increasing (descriptors : List Descriptor) :
    (barDescriptors descriptors).Pairwise fun bar next ↦ bar.2 < next.2 :=
  (zipIdx_increasing descriptors 0).filter _

theorem mem_barDescriptors {descriptors : List Descriptor} {bar : Descriptor × Nat}
    (hbar : bar ∈ barDescriptors descriptors) : bar.1.isBar = true ∧ bar.1 ∈ descriptors :=
  have hfilter := List.mem_filter.mp hbar
  ⟨hfilter.2, List.fst_mem_of_mem_zipIdx hfilter.1⟩

/-- The mappings of these bars are new and `fscc_card_delete` undoes them all; `P` are the addresses
there were before. -/
structure AllUndone (sys : CardSystem) (card : FsccCard) (P : BitVec 64 → Prop)
    (bars : List (Descriptor × Nat)) : Prop where
  increasing : bars.Pairwise fun bar next ↦ bar.2 < next.2
  isBar : ∀ bar ∈ bars, bar.1.isBar = true
  port : ∀ bar ∈ bars, ∀ start, bar.1 = .port start → P (uLongToPtr (start.setWidth 32))
  before : ∀ number, P (card.bar number).address
  new : ∀ mapping ∈ (prepareBars sys card bars).maps, ¬ P mapping.address
  distinct : (prepareBars sys card bars).maps.Pairwise fun a b ↦ a.address ≠ b.address
  perm : (unmapsOf (prepareBars sys card bars).card bars 0).Perm (prepareBars sys card bars).maps

section AllUndone

variable {sys : CardSystem} {card : FsccCard} {P : BitVec 64 → Prop} {bars rest : List (Descriptor × Nat)}
variable {first second third : Descriptor × Nat}

theorem AllUndone.kept (h : AllUndone sys card P bars) {number : Nat} {length : BitVec 32}
    (hmem : ⟨((prepareBars sys card bars).card.bar number).address, length⟩ ∈
      unmapsOf (prepareBars sys card bars).card bars 0) :
    ¬ P ((prepareBars sys card bars).card.bar number).address :=
  h.new _ (h.perm.mem_iff.mp hmem)

-- What is unmapped stands at number 0 or 2.
theorem AllUndone.number (h : AllUndone sys card P bars) {number : Nat} {length : BitVec 32}
    (hmem : ⟨((prepareBars sys card bars).card.bar number).address, length⟩ ∈
      unmapsOf (prepareBars sys card bars).card bars 0) : number = 0 ∨ number = 2 := by
  by_contra hother
  push Not at hother
  refine h.kept hmem ?_
  rw [prepareBars, foldl_prepare_bar bars (Or.inl rfl) hother.1 hother.2]
  exact h.before number

theorem AllUndone.port_of_not_memory (h : AllUndone sys card P bars) {bar : Descriptor × Nat}
    (hbar : bar ∈ bars) (hmemory : bar.1.isMemory = false) :
    ∃ start, bar.1 = .port start ∧ P (uLongToPtr (start.setWidth 32)) := by
  have hisBar := h.isBar bar hbar
  have hport := h.port bar hbar
  obtain ⟨descriptor, i⟩ := bar
  cases descriptor with
  | other => exact absurd hisBar Bool.false_ne_true
  | port start => exact ⟨start, rfl, hport start rfl⟩
  | memory start length => exact absurd hmemory Bool.noConfusion

theorem AllUndone.second_port (h : AllUndone sys card P (first :: second :: rest)) :
    ∃ start, second.1 = .port start ∧ P (uLongToPtr (start.setWidth 32)) := by
  refine h.port_of_not_memory (List.mem_cons_of_mem _ List.mem_cons_self) ?_
  cases hsecond : second.1 with
  | other => rfl
  | port start => rfl
  | memory start length =>
    obtain ⟨_, j⟩ := second
    subst hsecond
    have hhead : ⟨((prepareBars sys card (first :: (.memory start length, j) :: rest)).card.bar
        1).address, length⟩ ∈
        unmapsOf (prepareBars sys card (first :: (.memory start length, j) :: rest)).card
          (first :: (.memory start length, j) :: rest) 0 :=
      unmapsOf_tail _ (h.isBar first List.mem_cons_self) _ 0 List.mem_cons_self
    exact absurd (h.number hhead) (by decide)

theorem AllUndone.behind (h : AllUndone sys card P (first :: second :: third :: rest)) :
    PortsOnly P rest := by
  intro bar hbar
  refine h.port_of_not_memory
    (List.mem_cons_of_mem _ (List.mem_cons_of_mem _ (List.mem_cons_of_mem _ hbar))) ?_
  by_contra hmemory
  have hisBar := h.isBar
  obtain ⟨number, hnumber, length, hmem⟩ := mem_unmapsOf
    (prepareBars sys card (first :: second :: third :: rest)).card hbar
    (Bool.eq_true_of_not_eq_false hmemory) 3
  have hall := unmapsOf_tail _ (hisBar first List.mem_cons_self) _ 0
    (unmapsOf_tail _ (hisBar second (List.mem_cons_of_mem _ List.mem_cons_self)) _ 1
      (unmapsOf_tail _ (hisBar third
        (List.mem_cons_of_mem _ (List.mem_cons_of_mem _ List.mem_cons_self))) _ 2 hmem))
  have hrange := h.number hall
  omega

theorem PortsOnly.cons {bar : Descriptor × Nat}
    (hbar : ∃ start, bar.1 = .port start ∧ P (uLongToPtr (start.setWidth 32))) (hbars : PortsOnly P bars) :
    PortsOnly P (bar :: bars) := by
  intro next hnext
  rcases List.mem_cons.mp hnext with rfl | hnext
  · exact hbar
  · exact hbars next hnext

theorem PortsOnly.isMemory {bar : Descriptor × Nat} (hbars : PortsOnly P bars) (hbar : bar ∈ bars) :
    bar.1.isMemory = false := by
  obtain ⟨start, hport, -⟩ := hbars bar hbar
  rw [hport]
  rfl

theorem AllUndone.first_port (h : AllUndone sys card P (first :: second :: rest))
    (hports : PortsOnly P (second :: rest)) : first.1.isMemory = false := by
  by_contra hmemory
  obtain ⟨start', hport, -⟩ := hports second List.mem_cons_self
  have hij := List.rel_of_pairwise_cons h.increasing List.mem_cons_self
  obtain ⟨descriptor, i⟩ := first
  obtain ⟨_, j⟩ := second
  subst hport
  cases descriptor with
  | other => exact hmemory rfl
  | port start => exact hmemory rfl
  | memory start length => exact h.kept List.mem_cons_self (first_memory_lost hij (h.before 0) hports)

theorem AllUndone.single (h : AllUndone sys card P [first]) : NumberedAlike [first] := by
  obtain ⟨descriptor, i⟩ := first
  cases descriptor with
  | other => exact absurd (h.isBar _ List.mem_cons_self) Bool.false_ne_true
  | port start => exact numberedAlike_of_no_memory fun bar hbar ↦ by rw [List.mem_singleton.mp hbar]; rfl
  | memory start length =>
    show i ≠ 0
    rintro rfl
    refine h.kept List.mem_cons_self ?_
    have hother : 0 ≠ barNumAt 0 (prepareStart card).barNum := (by decide : 0 ≠ 2)
    rw [prepareBars, List.foldl_cons, List.foldl_nil, prepare_bar_other _ hother]
    exact h.before 0

theorem AllUndone.ports (h : AllUndone sys card P (first :: second :: rest))
    (hports : PortsOnly P (second :: rest)) : NumberedAlike (first :: second :: rest) := by
  apply numberedAlike_of_no_memory
  intro bar hbar
  rcases List.mem_cons.mp hbar with rfl | hrest
  · exact h.first_port hports
  · exact hports.isMemory hrest

/-- A memory behind two bars. -/
theorem AllUndone.third_memory {start : BitVec 64} {length : BitVec 32} {k : Nat}
    (h : AllUndone sys card P (first :: second :: (.memory start length, k) :: rest)) :
    NumberedAlike (first :: second :: (.memory start length, k) :: rest) := by
  obtain ⟨start'', hsecond, hP⟩ := h.second_port
  have hrest := h.behind
  have hij := List.rel_of_pairwise_cons h.increasing List.mem_cons_self
  have hjk := List.rel_of_pairwise_cons (List.pairwise_cons.mp h.increasing).2 List.mem_cons_self
  have hpositions : ∀ bar ∈ rest, 2 < bar.2 := by
    intro bar hbar
    have hkl := List.rel_of_pairwise_cons
      (List.pairwise_cons.mp (List.pairwise_cons.mp h.increasing).2).2 hbar
    dsimp only at hjk hkl
    omega
  obtain ⟨descriptor, i⟩ := first
  obtain ⟨_, j⟩ := second
  subst hsecond
  cases descriptor with
  | other => exact absurd (h.isBar _ List.mem_cons_self) Bool.false_ne_true
  | port start' =>
    have hP' := h.port _ List.mem_cons_self start' rfl
    have hports : PortsOnly P [(.port start', i), (.port start'', j)] :=
      .cons ⟨start', rfl, hP'⟩ (.cons ⟨start'', rfl, hP⟩ fun _ hbar ↦ absurd hbar List.not_mem_nil)
    obtain ⟨hi, hj, hk, rfl⟩ := third_memory_kept hij hjk hpositions h.before hports hrest
      (h.kept List.mem_cons_self)
    exact ⟨hi, hj, hk⟩
  | memory start' length' =>
    obtain ⟨hi, hj, rfl⟩ := two_memories_kept hij hjk hpositions h.before hP hrest (by
      rintro number (rfl | rfl)
      · exact h.kept List.mem_cons_self
      · exact h.kept (List.mem_cons_of_mem _ List.mem_cons_self))
    refine ⟨hi, hj, ?_⟩
    subst hi hj
    -- What is unmapped first is what was mapped last.
    have hnumber : 0 = barNumAt k 0 := (barNumAt_zero (by omega)).symm
    set s := prepareBars sys card [(.memory start' length', 0), (.port start'', 2)] with hs
    have haddress : ((prepareBars sys card [(.memory start' length', 0), (.port start'', 2),
        (.memory start length, k)]).card.bar 0).address = sys.mmMapIoSpace 1 start length :=
      prepare_memory_bar (s := s) hnumber
    have hmem := h.perm.mem_iff.mp List.mem_cons_self
    rw [haddress] at hmem
    have hdistinct := h.distinct
    have hmaps : (prepareBars sys card [(.memory start' length', 0), (.port start'', 2),
        (.memory start length, k)]).maps = [⟨sys.mmMapIoSpace 0 start' length', length'⟩,
          ⟨sys.mmMapIoSpace 1 start length, length⟩] := rfl
    rw [hmaps] at hmem hdistinct
    have hne := List.rel_of_pairwise_cons hdistinct List.mem_cons_self
    rcases List.mem_cons.mp hmem with heq | hmem
    · exact absurd (Mapping.mk.inj heq).1.symm hne
    · exact (Mapping.mk.inj (List.mem_singleton.mp hmem)).2

theorem AllUndone.numberedAlike (h : AllUndone sys card P bars) : NumberedAlike bars := by
  match bars, h with
  | [], _ => exact numberedAlike_of_no_memory fun _ hbar ↦ absurd hbar List.not_mem_nil
  | [first], h => exact h.single
  | [first, second], h =>
    exact h.ports (.cons h.second_port fun _ hbar ↦ absurd hbar List.not_mem_nil)
  | first :: second :: third :: rest, h =>
    cases hmemory : third.1.isMemory with
    | false =>
      have hmem : third ∈ first :: second :: third :: rest :=
        List.mem_cons_of_mem _ (List.mem_cons_of_mem _ List.mem_cons_self)
      have hthird := h.port_of_not_memory hmem hmemory
      exact h.ports (.cons h.second_port (.cons hthird h.behind))
    | true =>
      obtain ⟨descriptor, k⟩ := third
      cases descriptor with
      | other => exact absurd hmemory Bool.false_ne_true
      | port start => exact absurd hmemory Bool.false_ne_true
      | memory start length => exact h.third_memory

end AllUndone

/-- Where the numberings agree, every mapping is undone. -/
theorem NumberedAlike.perm {bars : List (Descriptor × Nat)} (h : NumberedAlike bars)
    (hincreasing : bars.Pairwise fun bar next ↦ bar.2 < next.2) (sys : CardSystem) (card : FsccCard) :
    (unmapsOf (prepareBars sys card bars).card bars 0).Perm (prepareBars sys card bars).maps := by
  unfold NumberedAlike at h
  split at h
  · next start length i =>
    have haddress : ((prepareBars sys card [(.memory start length, i)]).card.bar 0).address =
        sys.mmMapIoSpace 0 start length :=
      prepare_memory_bar (s := prepareStart card) (barNumAt_zero h).symm
    show [Mapping.mk ((prepareBars sys card [(.memory start length, i)]).card.bar 0).address length].Perm
      [⟨sys.mmMapIoSpace 0 start length, length⟩]
    rw [haddress]
  · next start i start' j start'' length k =>
    obtain ⟨rfl, hj, hk⟩ := h
    have hij := List.rel_of_pairwise_cons hincreasing List.mem_cons_self
    have hjk := List.rel_of_pairwise_cons (List.pairwise_cons.mp hincreasing).2 List.mem_cons_self
    dsimp only at hij hjk
    have hnumber : 2 = barNumAt k (barNumAt j 2) := by
      rw [barNumAt_carried (by omega) hj, barNumAt_carried (by omega) hk]
    have haddress : ((prepareBars sys card [(.port start, 0), (.port start', j),
        (.memory start'' length, k)]).card.bar 2).address = sys.mmMapIoSpace 0 start'' length :=
      prepare_memory_bar (s := prepareBars sys card [(.port start, 0), (.port start', j)]) hnumber
    show [Mapping.mk ((prepareBars sys card [(.port start, 0), (.port start', j),
      (.memory start'' length, k)]).card.bar 2).address length].Perm
        [⟨sys.mmMapIoSpace 0 start'' length, length⟩]
    rw [haddress]
  · next start length i start' j start'' length' k =>
    obtain ⟨rfl, rfl, rfl⟩ := h
    have hjk := List.rel_of_pairwise_cons (List.pairwise_cons.mp hincreasing).2 List.mem_cons_self
    dsimp only at hjk
    set s := prepareBars sys card [(.memory start length, 0), (.port start', 2)] with hs
    have hnumber : barNumAt k s.barNum = 0 := barNumAt_zero (by omega)
    have hlast : ((sys.prepare s (.memory start'' length, k)).card.bar 0).address =
        sys.mmMapIoSpace 1 start'' length := prepare_memory_bar hnumber.symm
    have hother : 2 ≠ barNumAt k s.barNum := by
      rw [hnumber]
      decide
    have hfirst : ((sys.prepare s (.memory start'' length, k)).card.bar 2).address =
        sys.mmMapIoSpace 0 start length := by
      rw [prepare_bar_other _ hother]
      rfl
    show [Mapping.mk ((sys.prepare s (.memory start'' length, k)).card.bar 0).address length,
      ⟨((sys.prepare s (.memory start'' length, k)).card.bar 2).address, length⟩].Perm
        [⟨sys.mmMapIoSpace 0 start length, length⟩, ⟨sys.mmMapIoSpace 1 start'' length, length⟩]
    rw [hlast, hfirst]
    exact List.Perm.swap _ _ _
  · have hcount : bars.countP (·.1.isMemory) = 0 :=
      List.countP_eq_zero.mpr fun bar hbar ↦ by rw [h bar hbar]; exact Bool.false_ne_true
    have hmaps : (prepareBars sys card bars).maps.length = 0 + bars.countP (·.1.isMemory) :=
      foldl_prepare_maps_length bars
    have hunmaps := unmapsOf_length (prepareBars sys card bars).card bars 0
    rw [hcount] at hmaps hunmaps
    rw [List.length_eq_zero_iff.mp hunmaps, List.length_eq_zero_iff.mp hmaps]

/-- The hardware is released exactly as it was mapped just when no mapping failed and the two numberings
agree on the list. -/
theorem fscc_card_releases_mappings_iff (sys : CardSystem) (card : FsccCard) (descriptors : List Descriptor)
    (hnew : NewMappings card descriptors (sys.answers descriptors 0)) :
    ReleasesMappings sys card descriptors ↔
      (∀ mapping ∈ sys.answers descriptors 0, mapping.address ≠ 0) ∧
        NumberedAlike (barDescriptors descriptors) := by
  rw [← prepareBars_maps sys card] at hnew ⊢
  rw [releasesMappings_iff]
  set bars := barDescriptors descriptors with hbars
  constructor
  · intro hperm
    have hall : ∀ mapping ∈ (prepareBars sys card bars).maps, mapping.address ≠ 0 := by
      have hlength : ((prepareBars sys card bars).maps.filter (·.address ≠ 0)).length =
          (prepareBars sys card bars).maps.length := by
        rw [← hperm.length_eq, unmapsOf_length, prepareBars, foldl_prepare_maps_length]
        exact (Nat.zero_add _).symm
      intro mapping hmem
      exact of_decide_eq_true (List.length_filter_eq_length_iff.mp hlength mapping hmem)
    have hfilter : (prepareBars sys card bars).maps.filter (·.address ≠ 0) =
        (prepareBars sys card bars).maps :=
      List.filter_eq_self.mpr fun mapping hmem ↦ decide_eq_true (hall mapping hmem)
    have hdistinct := hnew.distinct
    rw [hfilter] at hperm hdistinct
    have hundone : AllUndone sys card (KnownAddress card descriptors) bars :=
      { increasing := barDescriptors_increasing descriptors
        isBar := fun bar hbar ↦ (mem_barDescriptors hbar).1
        port := fun bar hbar start hport ↦ Or.inr ⟨start, hport ▸ (mem_barDescriptors hbar).2, rfl⟩
        before := fun number ↦ Or.inl ⟨number, rfl⟩
        new := fun mapping hmem ↦ hnew.not_known hmem (hall mapping hmem)
        distinct := hdistinct
        perm := hperm }
    exact ⟨hall, hundone.numberedAlike⟩
  · rintro ⟨hall, hnumbered⟩
    rw [List.filter_eq_self.mpr fun mapping hmem ↦ decide_eq_true (hall mapping hmem)]
    exact hnumbered.perm (barDescriptors_increasing descriptors) sys card

-- A system that maps memory from one address on.
def countingSystem : CardSystem where
  mmMapIoSpace call _ _ := BitVec.ofNat 64 (0xffff800000000000 + 0x1000 * call)
  pciConfigWord := some 0x000f

def emptyCard : FsccCard := ⟨0, fun _ ↦ ⟨0, false⟩⟩

-- Two memories with a port between them.
def memoryPortMemory : List Descriptor :=
  [.memory 0xfeb00000 0x80, .other, .port 0xd000, .memory 0xfeb01000 0x80]

theorem fscc_card_releases_mappings_iff_three :
    ReleasesMappings countingSystem emptyCard memoryPortMemory ↔
      (∀ mapping ∈ countingSystem.answers memoryPortMemory 0, mapping.address ≠ 0) ∧
        NumberedAlike [(.memory 0xfeb00000 0x80, 0), (.port 0xd000, 2), (.memory 0xfeb01000 0x80, 3)] :=
  fscc_card_releases_mappings_iff countingSystem emptyCard memoryPortMemory
    { distinct := by decide
      notPort := by
        intro mapping hmem _ start hstart
        have hport : start = 0xd000 := by simpa [memoryPortMemory] using hstart
        have hpast : ∀ mapping ∈ countingSystem.answers memoryPortMemory 0,
            mapping.address ≠ uLongToPtr 0xd000 := by decide
        rw [hport]
        exact hpast mapping hmem
      notBefore := fun _ _ hnonnull _ ↦ hnonnull }

/-- Two memory resources at the positions the driver expects: the second is unmapped with the length of
the first, a null address with the length of the second, and the first stays mapped. -/
theorem fscc_card_delete_leaks_mapping :
    ¬ ReleasesMappings countingSystem emptyCard
      [.memory 0xfeb00000 0x100, .other, .memory 0xfeb01000 0x80] := by
  intro h
  have hperm := h rfl
  exact absurd hperm (by decide)

end FsccDriver

import FsccDriver.Defines
import FsccDriver.Lib.Cyclic

/-!
# RingStore — how the rings are built

`rx_descriptors` and `tx_descriptors` are pointers to arrays of pointers to frames, and each frame
owns two common buffers.  What the allocations return is up to the system.
-/

namespace FsccDriver.Store

open Words

/-! ## Memory -/

/-- How the requests for memory turn out, in the order they are made, and where the device finds a
common buffer. -/
structure Allocator where
  succeeds : Nat → Bool
  logicalAddress : Nat → BitVec 64

-- A block is known by the number of the request it answers.
structure Heap where
  requests : Nat
  live : List Nat

def Heap.allocate (al : Allocator) (heap : Heap) : Option Nat × Heap :=
  if al.succeeds heap.requests then
    (some heap.requests, ⟨heap.requests + 1, heap.requests :: heap.live⟩)
  else (none, ⟨heap.requests + 1, heap.live⟩)

def Heap.free (heap : Heap) (block : Nat) : Heap := { heap with live := heap.live.erase block }

/-! ## Frames -/

/-- `struct dma_frame`, its descriptor, and the blocks the three pieces are in. -/
structure Frame extends DmaFrame where
  block : Nat
  descBuffer : Nat
  dataBuffer : Nat
  descPhysicalAddress : BitVec 32
  dataAddress : BitVec 32
  nextDescriptor : BitVec 32

def Allocator.lowPart (al : Allocator) (buffer : Nat) : BitVec 32 :=
  (al.logicalAddress buffer).setWidth 32

-- The frame in three blocks, its memory zeroed.
def newFrame (al : Allocator) (sizeOfBuffer block descBuffer dataBuffer : Nat) : Frame where
  control := 0
  dataCount := 0
  dataSize := sizeOfBuffer
  buffer := List.replicate sizeOfBuffer 0
  timestamp := 0
  block := block
  descBuffer := descBuffer
  dataBuffer := dataBuffer
  descPhysicalAddress := al.lowPart descBuffer
  dataAddress := al.lowPart dataBuffer
  nextDescriptor := 0

def fsccIoCreateFrame (al : Allocator) (sizeOfBuffer : Nat) (heap : Heap) : Option Frame × Heap :=
  match heap.allocate al with
  | (none, heap) => (none, heap)
  | (some block, heap) =>
      match heap.allocate al with
      | (none, heap) => (none, heap.free block)
      | (some descBuffer, heap) =>
          match heap.allocate al with
          | (none, heap) => (none, (heap.free descBuffer).free block)
          | (some dataBuffer, heap) =>
              (some (newFrame al sizeOfBuffer block descBuffer dataBuffer), heap)

/-! ## Rings -/

/-- What an entry of the array points to. -/
inductive Slot where
  | null
  | live (frame : Frame)
  | freed

-- `descriptors` is the block of the array with its entries.
structure Ring where
  descriptors : Option (Nat × List Slot)
  num : Nat
  size : Nat

def Ring.slot (ring : Ring) (i : Nat) : Slot :=
  match ring.descriptors with
  | none => .null
  | some (_, slots) => slots.getD i .null

def Slot.frame? : Slot → Option Frame
  | .live frame => some frame
  | .null | .freed => none

-- `descs[i]->desc->next_descriptor` for one `i`.
def linkOne (numberOfBuffers : Nat) (slots : List Slot) (i : Nat) : List Slot :=
  match slots.getD i .null,
    slots.getD (if i < numberOfBuffers - 1 then i + 1 else 0) .null with
  | .live desc, .live next =>
      slots.set i (.live { desc with nextDescriptor := next.descPhysicalAddress })
  | _, _ => slots

def fsccIoLinkDesc (slots : List Slot) (numberOfBuffers : Nat) : List Slot :=
  (List.range numberOfBuffers).foldl (linkOne numberOfBuffers) slots

-- Every other descriptor starts with HI; `dataCount` is where the two directions differ.
def startFrame (dataCount : Frame → Nat) (i : Nat) (frame : Frame) : Frame :=
  { frame with
    control := if i % 2 ≠ 0 then descHiBit else 0
    dataCount := dataCount frame }

-- The loop stops early at the first frame it cannot have; the count is how far it got.
def createLoop (al : Allocator) (dataCount : Frame → Nat) (sizeOfBuffers : Nat) :
    Nat → (i : Nat) → List Slot → Heap → Nat × List Slot × Heap
  | 0, i, slots, heap => (i, slots, heap)
  | n + 1, i, slots, heap =>
      match fsccIoCreateFrame al sizeOfBuffers heap with
      | (none, heap) => (i, slots, heap)
      | (some frame, heap) =>
          createLoop al dataCount sizeOfBuffers n (i + 1)
            (slots.set i (.live (startFrame dataCount i frame))) heap

def atLeastTwo (numberOfBuffers : BitVec 32) : Nat :=
  if numberOfBuffers.toNat < 2 then 2 else numberOfBuffers.toNat

def roundedSize (sizeOfBuffers : BitVec 32) : Nat :=
  if sizeOfBuffers.toNat % 4 ≠ 0 then
    u32 ((sizeOfBuffers.toNat : Int) + (4 - sizeOfBuffers.toNat % 4 : Nat))
  else sizeOfBuffers.toNat

def createRing (al : Allocator) (dataCount : Frame → Nat) (numberOfBuffers sizeOfBuffers : BitVec 32)
    (heap : Heap) : NtStatus × Ring × Heap :=
  let number := atLeastTwo numberOfBuffers
  let size := roundedSize sizeOfBuffers
  match heap.allocate al with
  | (none, heap) => (.failed, ⟨none, 0, 0⟩, heap)
  | (some array, heap) =>
      let (i, slots, heap) :=
        createLoop al dataCount size number 0 (List.replicate number .null) heap
      (.success, ⟨some (array, fsccIoLinkDesc slots i), i, size⟩, heap)

/-- `fscc_io_create_rx`: the status, the ring with `memory.rx_num` and `memory.rx_size`. -/
def fsccIoCreateRx (al : Allocator) : (numberOfBuffers sizeOfBuffers : BitVec 32) → Heap →
    NtStatus × Ring × Heap :=
  createRing al fun frame ↦ frame.dataSize

def fsccIoCreateTx (al : Allocator) : (numberOfBuffers sizeOfBuffers : BitVec 32) → Heap →
    NtStatus × Ring × Heap :=
  createRing al fun _ ↦ 0

/-! ## The loop -/

section Create

variable {al : Allocator} {dataCount : Frame → Nat} {size : Nat} {heap : Heap} {slots : List Slot}

def FrameFits (al : Allocator) (request : Nat) : Prop :=
  al.succeeds request = true ∧ al.succeeds (request + 1) = true ∧ al.succeeds (request + 2) = true

instance (al : Allocator) (request : Nat) : Decidable (FrameFits al request) :=
  inferInstanceAs (Decidable (_ ∧ _ ∧ _))

/-- A frame takes three blocks; what it has got before it fails it gives back. -/
theorem fsccIoCreateFrame_cases (al : Allocator) (size : Nat) (heap : Heap) :
    (FrameFits al heap.requests ∧ fsccIoCreateFrame al size heap =
      (some (newFrame al size heap.requests (heap.requests + 1) (heap.requests + 2)),
        ⟨heap.requests + 3,
          (heap.requests + 2) :: (heap.requests + 1) :: heap.requests :: heap.live⟩)) ∨
      ¬ FrameFits al heap.requests ∧ ∃ requests, fsccIoCreateFrame al size heap =
        (none, ⟨requests, heap.live⟩) := by
  unfold fsccIoCreateFrame Heap.allocate FrameFits
  by_cases h0 : al.succeeds heap.requests = true
  · by_cases h1 : al.succeeds (heap.requests + 1) = true
    · by_cases h2 : al.succeeds (heap.requests + 2) = true
      · exact Or.inl ⟨⟨h0, h1, h2⟩, by simp [h0, h1, h2]⟩
      · exact Or.inr ⟨fun h ↦ h2 h.2.2, by simp [h0, h1, h2, Heap.free]⟩
    · exact Or.inr ⟨fun h ↦ h1 h.2.1, by simp [h0, h1, Heap.free]⟩
  · exact Or.inr ⟨fun h ↦ h0 h.1, by simp [h0]⟩

/-- Entry `i` once its frame has been created by the requests from `request` on. -/
def createdFrame (al : Allocator) (dataCount : Frame → Nat) (size request i : Nat) : Frame :=
  startFrame dataCount i (newFrame al size request (request + 1) (request + 2))

/-- `m` of the `n` frames from entry `i` on have been created. -/
structure Creates (al : Allocator) (dataCount : Frame → Nat) (size n i : Nat) (slots : List Slot)
    (heap : Heap) (m : Nat) (slots' : List Slot) (heap' : Heap) : Prop where
  le : m ≤ n
  length : slots'.length = slots.length
  other : ∀ j, j < i ∨ i + m ≤ j → slots'.getD j .null = slots.getD j .null
  created : ∀ j < m, slots'.getD (i + j) .null =
    .live (createdFrame al dataCount size (heap.requests + 3 * j) (i + j))
  fits : ∀ j < m, FrameFits al (heap.requests + 3 * j)
  stops : m < n → ¬ FrameFits al (heap.requests + 3 * m)
  live : ∀ block, block ∈ heap'.live ↔
    block ∈ heap.live ∨ heap.requests ≤ block ∧ block < heap.requests + 3 * m

variable (al dataCount size) in
-- Induction over the rounds; a round of the loop is the first frame of the rest.
theorem createLoop_creates (n i : Nat) (slots : List Slot) (heap : Heap)
    (hlen : i + n ≤ slots.length) :
    ∃ m slots' heap', createLoop al dataCount size n i slots heap = (i + m, slots', heap') ∧
      Creates al dataCount size n i slots heap m slots' heap' := by
  induction n generalizing i slots heap with
  | zero =>
    refine ⟨0, slots, heap, rfl, Nat.le_refl 0, rfl, fun _ _ ↦ rfl, ?_, ?_, ?_, ?_⟩
    · exact fun j hj ↦ absurd hj (Nat.not_lt_zero j)
    · exact fun j hj ↦ absurd hj (Nat.not_lt_zero j)
    · exact fun h ↦ absurd h (Nat.lt_irrefl 0)
    · exact fun block ↦ ⟨Or.inl, fun h ↦ h.resolve_right (by omega)⟩
  | succ n ih =>
    rw [createLoop]
    rcases fsccIoCreateFrame_cases al size heap with ⟨hfits, hframe⟩ | ⟨hnone, requests, hframe⟩
    · rw [hframe]
      dsimp only
      obtain ⟨m, slots', heap', hrun, hle, hlength, hother, hcreated, hfits', hstops, hlive⟩ :=
        ih (i + 1) (slots.set i (.live (startFrame dataCount i
          (newFrame al size heap.requests (heap.requests + 1) (heap.requests + 2)))))
          ⟨heap.requests + 3,
            (heap.requests + 2) :: (heap.requests + 1) :: heap.requests :: heap.live⟩
          (by rw [List.length_set]; omega)
      dsimp only at hcreated hfits' hstops hlive
      have hself : ∀ frame, (slots.set i (.live frame)).getD i .null = .live frame := by
        intro frame
        rw [List.getD_eq_getElem _ _ (by rw [List.length_set]; omega), List.getElem_set_self]
      refine ⟨m + 1, slots', heap', ?_, by omega, ?_, ?_, ?_, ?_, ?_, ?_⟩
      · rw [hrun, Nat.add_assoc, Nat.add_comm 1 m]
      · rw [hlength, List.length_set]
      · intro j hj
        rw [hother j (by omega), List.getD_eq_getElem?_getD, List.getElem?_set_ne (by omega),
          ← List.getD_eq_getElem?_getD]
      · intro j hj
        cases j with
        | zero =>
          rw [Nat.add_zero, hother i (Or.inl (Nat.lt_succ_self i)), hself]
          rfl
        | succ j =>
          rw [show i + (j + 1) = i + 1 + j by omega, hcreated j (by omega),
            show heap.requests + 3 + 3 * j = heap.requests + 3 * (j + 1) by omega]
      · intro j hj
        cases j with
        | zero => exact hfits
        | succ j =>
          rw [show heap.requests + 3 * (j + 1) = heap.requests + 3 + 3 * j by omega]
          exact hfits' j (by omega)
      · intro hm
        rw [show heap.requests + 3 * (m + 1) = heap.requests + 3 + 3 * m by omega]
        exact hstops (by omega)
      · intro block
        rw [hlive, List.mem_cons, List.mem_cons, List.mem_cons]
        constructor
        · rintro ((rfl | rfl | rfl | hold) | hnew)
          · exact Or.inr (by omega)
          · exact Or.inr (by omega)
          · exact Or.inr (by omega)
          · exact Or.inl hold
          · exact Or.inr (by omega)
        · rintro (hold | hnew)
          · exact Or.inl (Or.inr (Or.inr (Or.inr hold)))
          · by_cases hlater : heap.requests + 3 ≤ block
            · exact Or.inr (by omega)
            · exact Or.inl (by omega)
    · rw [hframe]
      refine ⟨0, slots, ⟨requests, heap.live⟩, rfl, Nat.zero_le _, rfl, fun _ _ ↦ rfl, ?_, ?_, ?_, ?_⟩
      · exact fun j hj ↦ absurd hj (Nat.not_lt_zero j)
      · exact fun j hj ↦ absurd hj (Nat.not_lt_zero j)
      · exact fun _ ↦ hnone
      · exact fun block ↦ ⟨Or.inl, fun h ↦ h.resolve_right (by omega)⟩

variable (al dataCount heap) in
/-- How the allocations for a ring turn out. -/
theorem createRing_cases (number sizeOfBuffers : BitVec 32) :
    (al.succeeds heap.requests = false ∧ ∃ heap', heap'.live = heap.live ∧
      createRing al dataCount number sizeOfBuffers heap = (.failed, ⟨none, 0, 0⟩, heap')) ∨
    (al.succeeds heap.requests = true ∧ ∃ m slots heap',
      Creates al dataCount (roundedSize sizeOfBuffers) (atLeastTwo number) 0
        (List.replicate (atLeastTwo number) .null) ⟨heap.requests + 1, heap.requests :: heap.live⟩
        m slots heap' ∧
      createRing al dataCount number sizeOfBuffers heap = (.success,
        ⟨some (heap.requests, fsccIoLinkDesc slots m), m, roundedSize sizeOfBuffers⟩, heap')) := by
  rw [createRing, Heap.allocate]
  by_cases harray : al.succeeds heap.requests = true
  · obtain ⟨m, slots, heap', hrun, hcreates⟩ := createLoop_creates al dataCount
      (roundedSize sizeOfBuffers) (atLeastTwo number) 0 (List.replicate (atLeastTwo number) .null)
      ⟨heap.requests + 1, heap.requests :: heap.live⟩ (by rw [Nat.zero_add, List.length_replicate])
    refine Or.inr ⟨harray, m, slots, heap', hcreates, ?_⟩
    rw [if_pos harray]
    dsimp only
    rw [hrun, Nat.zero_add]
  · rw [if_neg harray]
    exact Or.inl ⟨Bool.eq_false_iff.mpr harray, ⟨heap.requests + 1, heap.live⟩, rfl, rfl⟩

end Create

/-! ## The links -/

section Link

variable {n : Nat} {slots : List Slot} {f : Nat → Frame}

def linkedFrame (n : Nat) (f : Nat → Frame) (i : Nat) : Frame :=
  { f i with nextDescriptor := (f (if i < n - 1 then i + 1 else 0)).descPhysicalAddress }

theorem lt_of_live {i : Nat} {frame : Frame} (h : slots.getD i .null = .live frame) :
    i < slots.length := by
  by_contra hge
  rw [List.getD_eq_default _ _ (Nat.le_of_not_lt hge)] at h
  cases h

theorem getD_set (slots : List Slot) {i : Nat} (hi : i < slots.length) (slot : Slot) (j : Nat) :
    (slots.set i slot).getD j .null = if j = i then slot else slots.getD j .null := by
  by_cases hj : j = i
  · rw [if_pos hj, hj, List.getD_eq_getElem _ _ (by rwa [List.length_set]), List.getElem_set_self]
  · rw [if_neg hj, List.getD_eq_getElem?_getD, List.getElem?_set_ne (Ne.symm hj),
      ← List.getD_eq_getElem?_getD]

-- Entries before `k` are linked, the others are as they were.
theorem linkOne_foldl (h : ∀ i < n, slots.getD i .null = .live (f i)) {k : Nat} (hk : k ≤ n) :
    ∀ i < n, ((List.range k).foldl (linkOne n) slots).getD i .null =
      .live (if i < k then linkedFrame n f i else f i) := by
  induction k with
  | zero => exact h
  | succ k ih =>
    have hbefore := ih (Nat.le_of_succ_le hk)
    rw [List.range_succ, List.foldl_append]
    generalize (List.range k).foldl (linkOne n) slots = slots' at hbefore
    have hself := hbefore k hk
    rw [if_neg (Nat.lt_irrefl k)] at hself
    have hnextlt : (if k < n - 1 then k + 1 else 0) < n := by split <;> omega
    have hlink : linkedFrame n f k =
        { f k with nextDescriptor := (f (if k < n - 1 then k + 1 else 0)).descPhysicalAddress } :=
      rfl
    generalize hindex : (if k < n - 1 then k + 1 else 0) = next at hnextlt hlink
    have hnext := hbefore next hnextlt
    -- Linking leaves the addresses alone.
    have haddress : (if next < k then linkedFrame n f next else f next).descPhysicalAddress =
        (f next).descPhysicalAddress := by
      split <;> rfl
    intro i hi
    rw [List.foldl_cons, List.foldl_nil, linkOne, hindex, hself, hnext]
    dsimp only
    rw [haddress, ← hlink, getD_set slots' (lt_of_live hself)]
    by_cases hik : i = k
    · rw [if_pos hik, hik, if_pos (Nat.lt_succ_self k)]
    · rw [if_neg hik, hbefore i hi]
      by_cases hlt : i < k
      · rw [if_pos hlt, if_pos (by omega)]
      · rw [if_neg hlt, if_neg (by omega)]

-- Linking leaves what is behind the ring alone.
theorem linkOne_other {i j : Nat} (hij : j ≠ i) :
    (linkOne n slots i).getD j .null = slots.getD j .null := by
  rw [linkOne]
  split
  next hlive _ => rw [getD_set slots (lt_of_live hlive), if_neg hij]
  · rfl

theorem fsccIoLinkDesc_other {j : Nat} (hj : n ≤ j) :
    (fsccIoLinkDesc slots n).getD j .null = slots.getD j .null := by
  have hfold : ∀ k ≤ n, ((List.range k).foldl (linkOne n) slots).getD j .null = slots.getD j .null := by
    intro k hk
    induction k with
    | zero => rfl
    | succ k ih =>
      rw [List.range_succ, List.foldl_append]
      exact (linkOne_other (by omega)).trans (ih (by omega))
  exact hfold n (Nat.le_refl n)

theorem fsccIoLinkDesc_live (h : ∀ i < n, slots.getD i .null = .live (f i)) :
    ∀ i < n, (fsccIoLinkDesc slots n).getD i .null = .live (linkedFrame n f i) := by
  intro i hi
  rw [fsccIoLinkDesc, linkOne_foldl h (Nat.le_refl n) i hi, if_pos hi]

end Link

/-! ## Walking the ring -/

def Ring.frame? (ring : Ring) (i : Nat) : Option Frame := (ring.slot i).frame?

/-- The entry whose descriptor is at `address`. -/
def Ring.entryAt (ring : Ring) (address : BitVec 32) : Option Nat :=
  (List.range ring.num).find? fun i ↦
    (ring.frame? i).any fun frame ↦ decide (frame.descPhysicalAddress = address)

/-- The entry reached from entry 0 by following `next_descriptor` `k` times. -/
def Ring.follow (ring : Ring) : Nat → Option Nat
  | 0 => some 0
  | k + 1 => (ring.follow k).bind fun i ↦
      (ring.frame? i).bind fun frame ↦ ring.entryAt frame.nextDescriptor

section Walk

variable {ring : Ring} {f : Nat → Frame}

theorem Ring.entryAt_eq (h : ∀ i < ring.num, ring.frame? i = some (f i))
    (hdistinct : ∀ i < ring.num, ∀ j < ring.num,
      (f i).descPhysicalAddress = (f j).descPhysicalAddress → i = j) {i : Nat} (hi : i < ring.num) :
    ring.entryAt (f i).descPhysicalAddress = some i := by
  rw [Ring.entryAt, List.find?_range_eq_some]
  refine ⟨?_, List.mem_range.mpr hi, fun j hj ↦ ?_⟩
  · rw [h i hi, Option.any_some]
    exact decide_eq_true rfl
  · have hjn : j < ring.num := Nat.lt_trans hj hi
    rw [h j hjn, Option.any_some, Bool.not_eq_true', decide_eq_false_iff_not]
    intro heq
    exact absurd (hdistinct j hjn i hi heq) (Nat.ne_of_lt hj)

/-- Linked entries with addresses of their own form one cycle in index order. -/
theorem Ring.follow_eq (h : ∀ i < ring.num, ring.frame? i = some (linkedFrame ring.num f i))
    (hpos : 0 < ring.num) (hdistinct : ∀ i < ring.num, ∀ j < ring.num,
      (f i).descPhysicalAddress = (f j).descPhysicalAddress → i = j) (k : Nat) :
    ring.follow k = some (k % ring.num) := by
  induction k with
  | zero => rw [Ring.follow, Nat.zero_mod]
  | succ k ih =>
    have hlt : k % ring.num < ring.num := Nat.mod_lt k hpos
    have hnext : (if k % ring.num < ring.num - 1 then k % ring.num + 1 else 0) =
        (k + 1) % ring.num := by
      rw [← Nat.mod_add_mod, ← Cyclic.next_eq_mod hlt, Cyclic.next]
      by_cases hlast : k % ring.num + 1 = ring.num
      · rw [if_neg (by omega), if_pos hlast]
      · rw [if_pos (by omega), if_neg hlast]
    have hnextlt : (k + 1) % ring.num < ring.num := Nat.mod_lt _ hpos
    rw [Ring.follow, ih, Option.bind_some, h _ hlt, Option.bind_some]
    show ring.entryAt (f _).descPhysicalAddress = _
    rw [hnext]
    exact Ring.entryAt_eq (f := linkedFrame ring.num f) h hdistinct hnextlt

end Walk

/-! ## What a creation reports -/

/-- An entry as the driver wants it: memory of its own, zeroed, and a descriptor ready for use. -/
structure FullyBuilt (dataCount : Frame → Nat) (size i : Nat) (heap : Heap) (frame : Frame) :
    Prop where
  blocks : frame.block ∈ heap.live ∧ frame.descBuffer ∈ heap.live ∧ frame.dataBuffer ∈ heap.live
  dataSize : frame.dataSize = size
  buffer : frame.buffer = List.replicate size 0
  timestamp : frame.timestamp = 0
  control : frame.control = if i % 2 ≠ 0 then descHiBit else 0
  dataCount : frame.dataCount = dataCount frame

structure UsableRing (dataCount : Frame → Nat) (size : Nat) (ring : Ring) (heap : Heap) : Prop where
  two : 2 ≤ ring.num
  built : ∀ i < ring.num, ∃ frame, ring.frame? i = some frame ∧ FullyBuilt dataCount size i heap frame
  cycle : ∀ k ≤ ring.num, ring.follow k = some (k % ring.num)

/-- Success means a usable ring, failure that nothing is left behind. -/
def ReportsRing (dataCount : Frame → Nat) (size : Nat) (heap : Heap)
    (result : NtStatus × Ring × Heap) : Prop :=
  (result.1 = .success → UsableRing dataCount size result.2.1 result.2.2) ∧
    (result.1 ≠ .success → result.2.2.live = heap.live)

/-- Common buffers that are there at the same time have addresses of their own. -/
def DistinctBuffers (al : Allocator) (first last : Nat) : Prop :=
  ∀ m n, first ≤ m → m < last → first ≤ n → n < last → al.succeeds m = true →
    al.succeeds n = true → al.lowPart m = al.lowPart n → m = n

theorem roundedSize_eq {size : BitVec 32} (hround : (size.toNat + 3) / 4 * 4 < 4294967296) :
    roundedSize size = (size.toNat + 3) / 4 * 4 := by
  unfold roundedSize
  split
  · rw [u32_add_of_lt (by omega)]
    omega
  · omega

section Report

variable {al : Allocator} {dataCount : Frame → Nat} {heap : Heap} {number size : BitVec 32}

-- `dataCount` looks at the size of the buffer at most.
def LooksAtSize (dataCount : Frame → Nat) : Prop :=
  ∀ frame frame' : Frame, frame.dataSize = frame'.dataSize → dataCount frame = dataCount frame'

/-- The entries of the array once they are linked. -/
theorem Creates.frame {n m : Nat} {slots slots' : List Slot} {heap' : Heap} {size : Nat}
    (h : Creates al dataCount size n 0 slots heap m slots' heap') (array : Nat) :
    ∀ i < m, Ring.frame? ⟨some (array, fsccIoLinkDesc slots' m), m, size⟩ i =
      some (linkedFrame m (fun i ↦ createdFrame al dataCount size (heap.requests + 3 * i) i) i) := by
  let f := fun i ↦ createdFrame al dataCount size (heap.requests + 3 * i) i
  have hcreated : ∀ i < m, slots'.getD i .null = .live (f i) := by
    intro i hi
    have hentry := h.created i hi
    rwa [Nat.zero_add] at hentry
  intro i hi
  show Slot.frame? ((fsccIoLinkDesc slots' m).getD i .null) = _
  rw [fsccIoLinkDesc_live hcreated i hi]
  rfl

theorem Creates.no_frame {n m : Nat} {slots' : List Slot} {heap' : Heap} {size : Nat}
    (h : Creates al dataCount size n 0 (List.replicate n .null) heap m slots' heap') (array : Nat) {i : Nat}
    (hi : m ≤ i) : Ring.frame? ⟨some (array, fsccIoLinkDesc slots' m), m, size⟩ i = none := by
  show Slot.frame? ((fsccIoLinkDesc slots' m).getD i .null) = none
  have hnull : (List.replicate n Slot.null).getD i .null = .null := by
    rw [List.getD_eq_getElem?_getD, List.getElem?_replicate]
    split <;> rfl
  rw [fsccIoLinkDesc_other hi, h.other i (Or.inr (by omega)), hnull]
  rfl

theorem Creates.usable {n m : Nat} {slots slots' : List Slot} {heap' : Heap} {size : Nat}
    (h : Creates al dataCount size n 0 slots heap m slots' heap') (hcount : LooksAtSize dataCount)
    (hm : 2 ≤ m) (hdistinct : DistinctBuffers al heap.requests (heap.requests + 3 * n))
    (array : Nat) :
    UsableRing dataCount size ⟨some (array, fsccIoLinkDesc slots' m), m, size⟩ heap' := by
  have hle := h.le
  let f := fun i ↦ createdFrame al dataCount size (heap.requests + 3 * i) i
  have hslot := h.frame array
  constructor
  case two => exact hm
  case built =>
    intro i hi
    have hi' : i < m := hi
    have hlive : ∀ k < 3, heap.requests + 3 * i + k ∈ heap'.live := fun k hk ↦
      (h.live _).mpr (Or.inr (by omega))
    exact ⟨linkedFrame m f i, hslot i hi, ⟨hlive 0 (by decide), hlive 1 (by decide),
      hlive 2 (by decide)⟩, rfl, rfl, rfl, rfl, hcount _ _ rfl⟩
  case cycle =>
    intro k _
    have hpos : 0 < m := Nat.lt_of_lt_of_le Nat.two_pos hm
    refine Ring.follow_eq hslot hpos ?_ k
    intro i hi j hj heq
    have hfits := fun i hi ↦ (h.fits i hi).2.1
    have hi' : i < m := hi
    have hj' : j < m := hj
    have hsame := hdistinct (heap.requests + 3 * i + 1) (heap.requests + 3 * j + 1) (by omega)
      (by omega) (by omega) (by omega) (hfits i hi) (hfits j hj) heq
    omega

variable (al dataCount number size heap) in
/-- Whatever of the ring there is memory for, its buffers have the recorded size. -/
theorem createRing_frame {i : Nat} (hi : i < (createRing al dataCount number size heap).2.1.num) :
    ∃ frame, (createRing al dataCount number size heap).2.1.frame? i = some frame ∧
      frame.dataSize = (createRing al dataCount number size heap).2.1.size ∧
      frame.buffer.length = (createRing al dataCount number size heap).2.1.size := by
  rcases createRing_cases al dataCount heap number size with
    ⟨-, heap', -, hring⟩ | ⟨-, m, slots, heap', hcreates, hring⟩
  · rw [hring] at hi
    exact absurd hi (Nat.not_lt_zero i)
  · rw [hring] at hi ⊢
    exact ⟨_, hcreates.frame heap.requests i hi, rfl, List.length_replicate⟩

variable (number size) in
theorem createRing_reports (hcount : LooksAtSize dataCount)
    (hround : (size.toNat + 3) / 4 * 4 < 4294967296)
    (hdistinct : DistinctBuffers al (heap.requests + 1)
      (heap.requests + 1 + 3 * atLeastTwo number)) :
    ReportsRing dataCount ((size.toNat + 3) / 4 * 4) heap
        (createRing al dataCount number size heap) ↔
      (al.succeeds heap.requests = true →
        FrameFits al (heap.requests + 1) ∧ FrameFits al (heap.requests + 4)) := by
  have htwo : 2 ≤ atLeastTwo number := by
    unfold atLeastTwo
    split <;> omega
  rw [← roundedSize_eq hround]
  rcases createRing_cases al dataCount heap number size with
    ⟨harray, heap', hlive, hring⟩ | ⟨harray, m, slots, heap', hcreates, hring⟩
  · rw [hring]
    exact ⟨fun _ h ↦ absurd h (Bool.eq_false_iff.mp harray), fun _ ↦ ⟨fun h ↦ (by cases h), fun _ ↦ hlive⟩⟩
  rw [hring, imp_iff_right harray]
  constructor
  · rintro ⟨husable, -⟩
    have hm : 2 ≤ m := (husable rfl).two
    exact ⟨hcreates.fits 0 (by omega), hcreates.fits 1 (by omega)⟩
  · rintro ⟨hfirst, hsecond⟩
    have hm : 2 ≤ m := by
      by_contra hfew
      have hstops := hcreates.stops (by omega)
      have hcases : m = 0 ∨ m = 1 := by omega
      rcases hcases with rfl | rfl
      · exact hstops hfirst
      · exact hstops hsecond
    exact ⟨fun _ ↦ hcreates.usable hcount hm hdistinct heap.requests, fun h ↦ absurd rfl h⟩

end Report

/-- A ring that is reported as created is usable, and a failed creation leaves nothing behind,
exactly if there is no memory for the array or else enough for two frames. -/
theorem fscc_io_create_reports (al : Allocator) (heap : Heap) (number size : BitVec 32)
    (hround : (size.toNat + 3) / 4 * 4 < 4294967296)
    (hdistinct : DistinctBuffers al (heap.requests + 1)
      (heap.requests + 1 + 3 * atLeastTwo number)) :
    let rounded := (size.toNat + 3) / 4 * 4
    let twoFrames := al.succeeds heap.requests = true →
      FrameFits al (heap.requests + 1) ∧ FrameFits al (heap.requests + 4)
    (ReportsRing (fun frame ↦ frame.dataSize) rounded heap (fsccIoCreateRx al number size heap) ↔
        twoFrames) ∧
      (ReportsRing (fun _ ↦ 0) rounded heap (fsccIoCreateTx al number size heap) ↔ twoFrames) :=
  ⟨createRing_reports number size (fun _ _ hsize ↦ hsize) hround hdistinct,
    createRing_reports number size (fun _ _ _ ↦ rfl) hround hdistinct⟩

/-- Memory for `n` requests. -/
def enoughFor (n : Nat) : Allocator := ⟨fun request ↦ decide (request < n), BitVec.ofNat 64⟩

theorem enoughFor_distinct {n : Nat} (hn : n < 4294967296) (first last : Nat) :
    DistinctBuffers (enoughFor n) first last := by
  intro i j _ _ _ _ hi hj heq
  have hin : i < n := of_decide_eq_true hi
  have hjn : j < n := of_decide_eq_true hj
  have haddress := congrArg BitVec.toNat heq
  simp only [Allocator.lowPart, enoughFor, BitVec.toNat_setWidth, BitVec.toNat_ofNat] at haddress
  omega

theorem fscc_io_create_reports_seven :
    let rounded := 8
    let twoFrames := (enoughFor 7).succeeds 0 = true →
      FrameFits (enoughFor 7) 1 ∧ FrameFits (enoughFor 7) 4
    (ReportsRing (fun frame ↦ frame.dataSize) rounded ⟨0, []⟩
        (fsccIoCreateRx (enoughFor 7) 200 6 ⟨0, []⟩) ↔ twoFrames) ∧
      (ReportsRing (fun _ ↦ 0) rounded ⟨0, []⟩ (fsccIoCreateTx (enoughFor 7) 200 6 ⟨0, []⟩) ↔
        twoFrames) :=
  fscc_io_create_reports (enoughFor 7) ⟨0, []⟩ 200 6 (by decide)
    (enoughFor_distinct (by decide) _ _)

-- There is memory for the array and for nothing else: success, and a ring without entries.
theorem fscc_io_create_reports_empty_ring :
    ¬ ReportsRing (fun frame ↦ frame.dataSize) 256 ⟨0, []⟩
      (fsccIoCreateRx (enoughFor 1) 200 256 ⟨0, []⟩) := by
  intro h
  have htwo : 2 ≤ (fsccIoCreateRx (enoughFor 1) 200 256 ⟨0, []⟩).2.1.num := (h.1 rfl).two
  exact absurd htwo (by decide)

end FsccDriver.Store

import FsccDriver.PortDefaults
import FsccDriver.WriteAdmission

/-!
# CreatedRings — the rings of `fscc_io_create_rx` and `fscc_io_create_tx`, with and without their blocks

`RingStore` makes the rings of blocks of memory and links them, while a run of a port only knows which
frames there was memory for.  Both leave the same ring.
-/

namespace FsccDriver

/-- The port with the ring of `fscc_io_create_rx`. -/
def RxPort.withRing (port : RxPort) (ring : Store.Ring) : RxPort :=
  { port with
    rxNum := ring.num
    rxDescriptors := fun i ↦ ((ring.frame? i).map Store.Frame.toDmaFrame).getD (port.rxDescriptors i) }

def Store.Ring.physicalAddress (ring : Store.Ring) (before : Nat → BitVec 32) (i : Nat) : BitVec 32 :=
  ((ring.frame? i).map Store.Frame.descPhysicalAddress).getD (before i)

/-- The allocations for a ring: the array is the first request, and each frame makes three. -/
def Store.Allocator.pool (al : Store.Allocator) (heap : Store.Heap) : TxPool where
  array := al.succeeds heap.requests
  frame i :=
    if Store.FrameFits al (heap.requests + 1 + 3 * i) then
      some (al.lowPart (heap.requests + 1 + 3 * i + 1))
    else none

/-- The descriptor of frame `i` as the loops leave it. -/
def startedDesc (dataCount size i : Nat) : DmaFrame :=
  { fsccIoCreateFrame size with
    control := if i % 2 ≠ 0 then descHiBit else 0
    dataCount }

/-! ## The loops -/

/-- There is memory for `m` of the `n` frames from frame `i` on. -/
structure TxPool.Gives (pool : TxPool) (address : Nat → BitVec 32) (i n m : Nat) : Prop where
  le : m ≤ n
  frames : ∀ j < m, pool.frame (i + j) = some (address (i + j))
  stops : m < n → pool.frame (i + m) = none

section Loops

variable {pool : TxPool} {address : Nat → BitVec 32} {i n m : Nat}

theorem TxPool.Gives.none (h : pool.Gives address i (n + 1) 0) : pool.frame i = Option.none := by
  have hframe := h.stops (Nat.succ_pos n)
  rwa [Nat.add_zero] at hframe

theorem TxPool.Gives.head (h : pool.Gives address i n (m + 1)) : pool.frame i = some (address i) := by
  have hframe := h.frames 0 (Nat.succ_pos m)
  rwa [Nat.add_zero] at hframe

theorem TxPool.Gives.tail (h : pool.Gives address i (n + 1) (m + 1)) :
    pool.Gives address (i + 1) n m := by
  have hplace : ∀ j, i + 1 + j = i + (j + 1) := fun j ↦ by omega
  refine ⟨Nat.le_of_succ_le_succ h.le, fun j hj ↦ ?_, fun hlt ↦ ?_⟩
  · rw [hplace]
    exact h.frames (j + 1) (Nat.succ_lt_succ hj)
  · rw [hplace]
    exact h.stops (Nat.succ_lt_succ hlt)

/-- `f` with the entries `i` to `i + m - 1` of `g`. -/
def overlay {α : Type} (g : Nat → α) (i m : Nat) (f : Nat → α) (j : Nat) : α :=
  if i ≤ j ∧ j < i + m then g j else f j

section Overlay

variable {α : Type} (g f : Nat → α)

theorem overlay_zero (i : Nat) : overlay g i 0 f = f := by
  funext j
  exact if_neg fun h ↦ by omega

theorem overlay_update (i m : Nat) :
    overlay g (i + 1) m (Function.update f i (g i)) = overlay g i (m + 1) f := by
  funext j
  rw [overlay, overlay]
  by_cases hj : j = i
  · rw [hj, if_neg (by omega), if_pos (by omega), Function.update_self]
  · rw [Function.update_of_ne hj]
    exact if_congr (by omega) rfl rfl

theorem overlay_getD {entries : Nat → Option α} (hentries : ∀ j < m, entries j = some (g j))
    (hrest : ∀ j, m ≤ j → entries j = none) : (fun j ↦ (entries j).getD (f j)) = overlay g 0 m f := by
  funext j
  rw [overlay, Nat.zero_add]
  by_cases hj : j < m
  · rw [if_pos ⟨Nat.zero_le j, hj⟩, hentries j hj, Option.getD_some]
  · rw [if_neg fun h ↦ hj h.2, hrest j (Nat.le_of_not_lt hj), Option.getD_none]

end Overlay

-- Induction over the rounds.
theorem createTxLoop_gives (h : pool.Gives address i n m) (ds : Nat) (port : TxPort) :
    createTxLoop pool ds n i port = { port with
      txNum := i + m
      txDescriptors := overlay (startedDesc 0 ds) i m port.txDescriptors
      descPhysicalAddress := overlay address i m port.descPhysicalAddress } := by
  induction n generalizing i m port with
  | zero =>
    obtain rfl : m = 0 := Nat.le_zero.mp h.le
    rw [overlay_zero, overlay_zero]
    rfl
  | succ n ih =>
    cases m with
    | zero =>
      rw [createTxLoop, h.none, overlay_zero, overlay_zero]
      rfl
    | succ m =>
      have hnum : i + 1 + m = i + (m + 1) := by omega
      rw [createTxLoop, h.head]
      dsimp only
      rw [ih h.tail, ← overlay_update, ← overlay_update, hnum]
      rfl

theorem createRxLoop_gives (h : pool.Gives address i n m) (ds : Nat) (port : RxPort)
    (physicalAddress : Nat → BitVec 32) :
    createRxLoop pool ds n i port physicalAddress =
      ({ port with
          rxNum := i + m
          rxDescriptors := overlay (startedDesc ds ds) i m port.rxDescriptors },
        overlay address i m physicalAddress) := by
  induction n generalizing i m port physicalAddress with
  | zero =>
    obtain rfl : m = 0 := Nat.le_zero.mp h.le
    rw [overlay_zero, overlay_zero]
    rfl
  | succ n ih =>
    cases m with
    | zero =>
      rw [createRxLoop, h.none, overlay_zero, overlay_zero]
      rfl
    | succ m =>
      have hnum : i + 1 + m = i + (m + 1) := by omega
      rw [createRxLoop, h.head]
      dsimp only
      rw [ih h.tail, ← overlay_update, ← overlay_update, hnum]
      rfl

end Loops

/-! ## The functions -/

namespace Store

variable {al : Allocator} {dataCount : Frame → Nat} {heap : Heap} {size n m : Nat} {slots : List Slot}
  {heap' : Heap}

/-- The physical address of descriptor `i`. -/
def Allocator.address (al : Allocator) (heap : Heap) (i : Nat) : BitVec 32 :=
  al.lowPart (heap.requests + 1 + 3 * i + 1)

theorem Creates.gives
    (h : Creates al dataCount size n 0 (List.replicate n .null)
      ⟨heap.requests + 1, heap.requests :: heap.live⟩ m slots heap') :
    (al.pool heap).Gives (al.address heap) 0 n m := by
  refine ⟨h.le, fun j hj ↦ ?_, fun hlt ↦ ?_⟩
  · rw [Nat.zero_add]
    exact if_pos (h.fits j hj)
  · rw [Nat.zero_add]
    exact if_neg (h.stops hlt)

theorem Creates.physicalAddress
    (h : Creates al dataCount size n 0 (List.replicate n .null)
      ⟨heap.requests + 1, heap.requests :: heap.live⟩ m slots heap') (before : Nat → BitVec 32) :
    Ring.physicalAddress ⟨some (heap.requests, fsccIoLinkDesc slots m), m, size⟩ before =
      overlay (al.address heap) 0 m before :=
  overlay_getD (al.address heap) before
    (fun j hj ↦ congrArg (Option.map Frame.descPhysicalAddress) (h.frame heap.requests j hj))
    fun _ hj ↦ congrArg (Option.map Frame.descPhysicalAddress) (h.no_frame heap.requests hj)

theorem Creates.descriptors {count : Nat}
    (h : Creates al dataCount size n 0 (List.replicate n .null)
      ⟨heap.requests + 1, heap.requests :: heap.live⟩ m slots heap')
    (hcount : ∀ frame, frame.dataSize = size → dataCount frame = count) (before : Nat → DmaFrame) :
    (fun j ↦ ((Ring.frame? ⟨some (heap.requests, fsccIoLinkDesc slots m), m, size⟩ j).map
      Frame.toDmaFrame).getD (before j)) = overlay (startedDesc count size) 0 m before := by
  refine overlay_getD (startedDesc count size) before (fun j hj ↦ ?_) fun _ hj ↦
    congrArg (Option.map Frame.toDmaFrame) (h.no_frame heap.requests hj)
  rw [h.frame heap.requests j hj, ← hcount (newFrame al size (heap.requests + 1 + 3 * j)
    (heap.requests + 1 + 3 * j + 1) (heap.requests + 1 + 3 * j + 2)) rfl]
  rfl

end Store

section Created

variable (al : Store.Allocator) (heap : Store.Heap) (number size : BitVec 32)

/-- The ring of `fscc_io_create_tx` is the same with and without its blocks. -/
theorem fsccIoCreateTx_withRing (port : TxPort) :
    let created := Store.fsccIoCreateTx al number size heap
    fsccIoCreateTx (al.pool heap) port number size =
      (created.1, created.2.1.size, port.withRing created.2.1) := by
  rcases Store.createRing_cases al (fun _ ↦ 0) heap number size with
    ⟨harray, heap', -, hring⟩ | ⟨harray, m, slots, heap', hcreates, hring⟩
  · have hcreated : fsccIoCreateTx (al.pool heap) port number size =
        (.failed, 0, { port with txNum := 0 }) := if_neg (Bool.eq_false_iff.mp harray)
    rw [Store.fsccIoCreateTx, hring, hcreated]
    rfl
  · have hcreated : fsccIoCreateTx (al.pool heap) port number size = (.success, Store.roundedSize size,
        createTxLoop (al.pool heap) (Store.roundedSize size) (Store.atLeastTwo number) 0 port) :=
      if_pos harray
    rw [Store.fsccIoCreateTx, hring, hcreated, createTxLoop_gives hcreates.gives, Nat.zero_add,
      ← hcreates.descriptors fun _ _ ↦ rfl, ← hcreates.physicalAddress]
    rfl

/-- The same for `fscc_io_create_rx`. -/
theorem fsccIoCreateRx_withRing (port : RxPort) (physicalAddress : Nat → BitVec 32) :
    let created := Store.fsccIoCreateRx al number size heap
    fsccIoCreateRx (al.pool heap) port physicalAddress number size =
      (created.1, port.withRing created.2.1, created.2.1.physicalAddress physicalAddress) := by
  rcases Store.createRing_cases al (fun frame ↦ frame.dataSize) heap number size with
    ⟨harray, heap', -, hring⟩ | ⟨harray, m, slots, heap', hcreates, hring⟩
  · have hcreated : fsccIoCreateRx (al.pool heap) port physicalAddress number size =
        (.failed, { port with rxNum := 0 }, physicalAddress) := if_neg (Bool.eq_false_iff.mp harray)
    rw [Store.fsccIoCreateRx, hring, hcreated]
    rfl
  · have hcreated : fsccIoCreateRx (al.pool heap) port physicalAddress number size = (.success,
        createRxLoop (al.pool heap) (Store.roundedSize size) (Store.atLeastTwo number) 0 port
          physicalAddress) :=
      if_pos harray
    rw [Store.fsccIoCreateRx, hring, hcreated, createRxLoop_gives hcreates.gives, Nat.zero_add,
      ← hcreates.descriptors fun _ hsize ↦ hsize, ← hcreates.physicalAddress]
    rfl

end Created

end FsccDriver

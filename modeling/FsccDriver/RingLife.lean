import FsccDriver.Lib.Runs
import FsccDriver.RxShape
import FsccDriver.TransmitStall
import FsccDriver.TxDescs
import FsccDriver.RingStore

/-!
# RingLife — the rings between `FsccEvtDevicePrepareHardware` and `FsccEvtDeviceReleaseHardware`

Once the timer has been started, the workers it enqueues run at any time, also between two statements
of the functions that create and destroy the rings.  They go by `memory.rx_num` and `memory.tx_num`.
-/

namespace FsccDriver

variable {H : Type}

/-! ## The state -/

inductive Side where
  | rx
  | tx
  deriving DecidableEq

def Side.other : Side → Side
  | .rx => .tx
  | .tx => .rx

/-- Where `FsccEvtDevicePrepareHardware` or `FsccEvtDeviceReleaseHardware` is.  The ring destroyed
after the current one, if any, is part of the place. -/
inductive LifePc where
  | idle
  | createArray (side : Side)
  | createFailed (side : Side)
  | createFrame (side : Side) (i : Nat)
  | createCount (side : Side) (i : Nat)
  | destroy (side : Side) (i : Nat) (next : Option Side)
  | destroyArray (side : Side) (next : Option Side)
  | purgeRx
  | purgeTx
  | startTimer
  deriving DecidableEq

/-- `array` says whether `rx_descriptors` and `tx_descriptors` are set, `live` which of their entries
point to a frame; the frames are those of the ports. -/
structure LifeState (H : Type) where
  rx : RxPort
  tx : TxPort
  array : Side → Bool
  live : Side → Nat → Bool
  memory : Side → BitVec 32 × BitVec 32
  pc : LifePc
  timer : Bool
  card : H

namespace LifeState

def num (s : LifeState H) : Side → Nat
  | .rx => s.rx.rxNum
  | .tx => s.tx.txNum

def setNum (s : LifeState H) (n : Nat) : Side → LifeState H
  | .rx => { s with rx := { s.rx with rxNum := n } }
  | .tx => { s with tx := { s.tx with txNum := n } }

def setDesc (s : LifeState H) (i : Nat) (desc : DmaFrame) : Side → LifeState H
  | .rx => { s with rx := { s.rx with rxDescriptors := Function.update s.rx.rxDescriptors i desc } }
  | .tx => { s with tx := { s.tx with txDescriptors := Function.update s.tx.txDescriptors i desc } }

/-- Entry `i` may be followed. -/
def Live (s : LifeState H) (side : Side) (i : Nat) : Prop :=
  s.array side = true ∧ s.live side i = true

end LifeState

/-! ## The steps -/

def createdDesc (side : Side) (size i : Nat) : DmaFrame :=
  { fsccIoCreateFrame size with
    control := if i % 2 ≠ 0 then descHiBit else 0
    dataCount := match side with
      | .rx => size
      | .tx => 0 }

def nextDestroy : Option Side → LifePc
  | none => .idle
  | some side => .destroy side 0 none

/-- The next statement; `ok` is how an allocation or `WdfTimerCreate` turns out. -/
def lifeAdvance (s : LifeState H) (ok : Bool) : LifeState H :=
  match s.pc with
  | .idle => s
  | .createArray side =>
      { s with
        array := Function.update s.array side ok
        live := Function.update s.live side fun _ ↦ false
        pc := if ok then .createFrame side 0 else .createFailed side }
  | .createFailed side => { s.setNum 0 side with pc := .destroy side 0 (some side.other) }
  | .createFrame side i =>
      if i < Store.atLeastTwo (s.memory side).1 ∧ ok then
        { s.setDesc i (createdDesc side (Store.roundedSize (s.memory side).2) i) side with
          live := Function.update s.live side (Function.update (s.live side) i true)
          pc := .createFrame side (i + 1) }
      else { s with pc := .createCount side i }
  | .createCount side i =>
      { s.setNum i side with
        pc := match side with
          | .rx => .createArray .tx
          | .tx => .purgeRx }
  | .destroy side i next =>
      if ¬ s.array side then { s with pc := nextDestroy next }
      else if i < s.num side then
        { s with
          live := Function.update s.live side (Function.update (s.live side) i false)
          pc := .destroy side (i + 1) next }
      else { s with pc := .destroyArray side next }
  | .destroyArray side next =>
      { s with
        array := Function.update s.array side false
        live := Function.update s.live side fun _ ↦ false
        pc := nextDestroy next }
  | .purgeRx => { s with rx := resetRx s.rx, pc := .purgeTx }
  | .purgeTx => { s with tx := resetTx s.tx, pc := .startTimer }
  | .startTimer => { s with timer := s.timer || ok, pc := .idle }

/-- The two callbacks of the framework, their next statement, and what the workers do to the rings.
What a worker checked before it took the lock need not hold any more when it does. -/
inductive LifeAction where
  | prepareHardware (memory : Side → BitVec 32 × BitVec 32)
  | releaseHardware
  | advance (ok : Bool)
  | iframeWorker
  | processRead (streaming : Bool) (bufLength : Nat)
  | requestWorker (data : List Byte)

def lifeWorker (hw : Hardware H) (s : LifeState H) : LifeAction → LifeState H
  | .iframeWorker =>
      if fsccPortUsesDma s.tx.toRegPort then s
      else
        let (rx, card) := fsccFifoReadData hw s.rx s.card
        { s with rx, card }
  | .processRead true bufLength => { s with rx := (fsccUserReadStream bufLength s.rx).2 }
  | .processRead false bufLength =>
      let (_, rx, card) := fsccUserReadFrame hw bufLength s.rx s.card
      { s with rx, card }
  | .requestWorker data =>
      let (_, tx, card) := fsccUserWriteFrame hw data data.length s.tx s.card
      { s with tx, card }
  | _ => s

def lifeStep (hw : Hardware H) (s : LifeState H) : LifeAction → LifeState H
  | .prepareHardware memory =>
      if s.pc = .idle then { s with memory, pc := .createArray .rx } else s
  | .releaseHardware => if s.pc = .idle then { s with pc := .destroy .tx 0 (some .rx) } else s
  | .advance ok => lifeAdvance s ok
  | worker => if s.timer then lifeWorker hw s worker else s

/-- Before the device is started for the first time nothing has been allocated. -/
def lifeStart (rx : RxPort) (tx : TxPort) (card : H) : LifeState H where
  rx := { rx with rxNum := 0, userRxDesc := 0, fifoRxDesc := 0 }
  tx := { tx with txNum := 0, userTxDesc := 0, fifoTxDesc := 0 }
  array := fun _ ↦ false
  live := fun _ _ ↦ false
  memory := fun _ ↦ (0, 0)
  pc := .idle
  timer := false
  card := card

/-! ### A creation, from its allocations -/

section Creation

variable {s : LifeState H} {side : Side}

theorem setDesc_memory (s : LifeState H) (i : Nat) (desc : DmaFrame) (side : Side) :
    (s.setDesc i desc side).num = s.num ∧ (s.setDesc i desc side).array = s.array ∧
      (s.setDesc i desc side).live = s.live := by
  cases side with
  | rx => exact ⟨funext fun | .rx => rfl | .tx => rfl, rfl, rfl⟩
  | tx => exact ⟨funext fun | .rx => rfl | .tx => rfl, rfl, rfl⟩

theorem setNum_self (s : LifeState H) (n : Nat) (side : Side) : (s.setNum n side).num side = n := by
  cases side <;> rfl

theorem setNum_memory (s : LifeState H) (n : Nat) (side : Side) :
    (s.setNum n side).array = s.array ∧ (s.setNum n side).live = s.live := by
  cases side <;> exact ⟨rfl, rfl⟩

/-- The first `m` frames of a side have been created. -/
structure FramesCreated (side : Side) (number m : Nat) (s : LifeState H) : Prop where
  pc : s.pc = .createFrame side m
  number : Store.atLeastTwo (s.memory side).1 = number
  array : s.array side = true
  live : ∀ j < m, s.live side j = true

theorem FramesCreated.next {number m : Nat} (h : FramesCreated side number m s) (hm : m < number) :
    FramesCreated side number (m + 1) (lifeAdvance s true) := by
  have hstep : lifeAdvance s true =
      if m < Store.atLeastTwo (s.memory side).1 ∧ true = true then
        { s.setDesc m (createdDesc side (Store.roundedSize (s.memory side).2) m) side with
          live := Function.update s.live side (Function.update (s.live side) m true)
          pc := .createFrame side (m + 1) }
      else { s with pc := .createCount side m } := by
    rw [lifeAdvance, h.pc]
  rw [hstep, h.number, if_pos ⟨hm, rfl⟩]
  refine ⟨rfl, ?_, ?_, fun j hj ↦ ?_⟩
  · cases side <;> exact h.number
  · cases side <;> exact h.array
  · show Function.update s.live side (Function.update (s.live side) m true) side j = true
    rw [Function.update_self]
    by_cases hjm : j = m
    · rw [hjm, Function.update_self]
    · rw [Function.update_of_ne hjm]
      exact h.live j (by omega)

theorem FramesCreated.frames {number m : Nat} (h : FramesCreated side number 0 s)
    (hm : m ≤ number) :
    FramesCreated side number m ((List.replicate m true).foldl lifeAdvance s) := by
  induction m with
  | zero => exact h
  | succ m ih =>
    rw [List.replicate_succ', List.foldl_append]
    exact (ih (by omega)).next hm

/-- The statements of a creation, taken one at a time, leave the array and the count that the whole
function leaves, whatever the allocations do. -/
theorem lifeAdvance_createRing (al : Store.Allocator) (dataCount : Store.Frame → Nat)
    (heap : Store.Heap) (hpc : s.pc = .createArray side) :
    let ring := (Store.createRing al dataCount (s.memory side).1 (s.memory side).2 heap).2.1
    ∃ outcomes : List Bool, let s' := outcomes.foldl lifeAdvance s
      s'.num side = ring.num ∧ s'.array side = ring.descriptors.isSome ∧
        ∀ i < ring.num, s'.live side i = true := by
  have hstep : ∀ ok, lifeAdvance s ok =
      { s with
        array := Function.update s.array side ok
        live := Function.update s.live side fun _ ↦ false
        pc := if ok then .createFrame side 0 else .createFailed side } := by
    intro ok
    rw [lifeAdvance, hpc]
  rcases Store.createRing_cases al dataCount heap (s.memory side).1 (s.memory side).2 with
    ⟨-, heap', -, hring⟩ | ⟨-, m, slots, heap', hcreates, hring⟩
  · rw [hring]
    refine ⟨[false, true], ?_, ?_, fun i hi ↦ absurd hi (Nat.not_lt_zero i)⟩
    · rw [List.foldl_cons, hstep]
      exact setNum_self _ 0 side
    · rw [List.foldl_cons, hstep]
      show (LifeState.setNum _ 0 side).array side = false
      rw [(setNum_memory _ 0 side).1]
      exact Function.update_self _ _ _
  · rw [hring]
    have hstart : FramesCreated side (Store.atLeastTwo (s.memory side).1) 0 (lifeAdvance s true) := by
      rw [hstep]
      exact ⟨rfl, rfl, Function.update_self _ _ _, fun j hj ↦ absurd hj (Nat.not_lt_zero j)⟩
    have hframes := hstart.frames hcreates.le
    -- The loop stops after `m` frames, and the count is stored.
    refine ⟨true :: (List.replicate m true ++ [false, true]), ?_⟩
    rw [List.foldl_cons, List.foldl_append]
    generalize (List.replicate m true).foldl lifeAdvance (lifeAdvance s true) = built at hframes
    have hlast : [false, true].foldl lifeAdvance built =
        { built.setNum m side with
          pc := match side with
            | .rx => .createArray .tx
            | .tx => .purgeRx } := by
      have hstop : lifeAdvance built false = { built with pc := .createCount side m } := by
        rw [lifeAdvance, hframes.pc]
        exact if_neg (fun h ↦ Bool.false_ne_true h.2)
      rw [List.foldl_cons, hstop]
      cases side <;> rfl
    rw [hlast]
    obtain ⟨harray', hlive'⟩ := setNum_memory built m side
    refine ⟨setNum_self built m side, ?_, fun i hi ↦ ?_⟩
    · show (built.setNum m side).array side = true
      rw [harray']
      exact hframes.array
    · show (built.setNum m side).live side i = true
      rw [hlive']
      exact hframes.live i hi

end Creation

/-! ## What the workers touch -/

-- The entries `fscc_user_next_read_size` looks at.
def nextReadSizeTouches (port : RxPort) : Nat → (curDesc : Nat) → List Nat
  | 0, _ => []
  | n + 1, curDesc =>
      let desc := port.rxDescriptors curDesc
      if desc.control &&& descFeBit = 0 ∧ desc.control &&& descCstopBit = 0 then [curDesc]
      else if desc.control &&& descFeBit ≠ 0 ∧ desc.control &&& descCstopBit ≠ 0 then [curDesc]
      else curDesc :: nextReadSizeTouches port n (Cyclic.next port.rxNum curDesc)

-- The entries `fscc_fifo_read_data` looks at or writes.
def fifoReadTouches (hw : Hardware H) : Nat → RxPort → H → List Nat
  | 0, _, _ => []
  | n + 1, port, h =>
      match fifoReadStep hw port h with
      | (true, port', h) => port.fifoRxDesc :: fifoReadTouches hw n port' h
      | (false, _, _) => [port.fifoRxDesc]

-- The entries `fscc_user_get_tx_space` looks at.
def getTxSpaceTouches (port : TxPort) : Nat → (curDesc : Nat) → List Nat
  | 0, _ => []
  | n + 1, curDesc =>
      if (port.txDescriptors curDesc).control &&& descCstopBit ≠ descCstopBit then [curDesc]
      else curDesc :: getTxSpaceTouches port n (Cyclic.next port.txNum curDesc)

/-- No worker follows a pointer that is not there. -/
structure WorkersSafe (hw : Hardware H) (s : LifeState H) : Prop where
  count : ∀ side, s.array side = false → s.num side = 0
  nextReadSize : ∀ i ∈ nextReadSizeTouches s.rx s.rx.rxNum s.rx.userRxDesc, s.Live .rx i
  fifoReadData : ∀ card, ∀ i ∈ fifoReadTouches hw s.rx.rxNum s.rx card, s.Live .rx i
  getTxSpace : ∀ i ∈ getTxSpaceTouches s.tx s.tx.txNum s.tx.userTxDesc, s.Live .tx i

/-! ## The indices -/

section Indices

variable {hw : Hardware H} {n : Nat} {rx : RxPort} {tx : TxPort}

/-- The indices of a ring of `n` entries, which start at 0. -/
structure RxIndexed (n : Nat) (port : RxPort) : Prop where
  num : port.rxNum = n
  user : port.userRxDesc < n ∨ port.userRxDesc = 0
  fifo : port.fifoRxDesc < n ∨ port.fifoRxDesc = 0

theorem lt_of_indexed {i : Nat} (h : i < n ∨ i = 0) (hpos : 0 < n) : i < n := by omega

theorem next_indexed {i : Nat} (h : i < n ∨ i = 0) (hpos : 0 < n) :
    Cyclic.next n i < n ∨ Cyclic.next n i = 0 := Or.inl (Cyclic.next_lt (lt_of_indexed h hpos))

theorem fifoFill_indices (hw : Hardware H) (r : Nat) (port : RxPort) (s : H) :
    (fifoFill hw r port s).2.1.rxNum = port.rxNum ∧
      (fifoFill hw r port s).2.1.userRxDesc = port.userRxDesc ∧
      ((fifoFill hw r port s).2.1.fifoRxDesc = port.fifoRxDesc ∨
        (fifoFill hw r port s).2.1.fifoRxDesc = Cyclic.next port.rxNum port.fifoRxDesc) := by
  unfold fifoFill
  dsimp only
  split_ifs <;> first | exact ⟨rfl, rfl, Or.inr rfl⟩ | exact ⟨rfl, rfl, Or.inl rfl⟩

theorem RxIndexed.fill (h : RxIndexed n rx) (hpos : 0 < n) (r : Nat) (s : H) :
    RxIndexed n (fifoFill hw r rx s).2.1 := by
  obtain ⟨hnum, huser, hfifo⟩ := fifoFill_indices hw r rx s
  generalize (fifoFill hw r rx s).2.1 = rx' at hnum huser hfifo
  refine ⟨hnum.trans h.num, huser.symm ▸ h.user, ?_⟩
  rcases hfifo with hsame | hnext
  · rw [hsame]
    exact h.fifo
  · rw [hnext, h.num]
    exact next_indexed h.fifo hpos

variable (hw) in
theorem RxIndexed.fifoReadStep (h : RxIndexed n rx) (hpos : 0 < n) (s : H) :
    RxIndexed n (fifoReadStep hw rx s).2.1 := by
  rw [FsccDriver.fifoReadStep]
  split
  · exact h
  obtain ⟨size, hport⟩ := receiveLength_port hw rx s
  have hreceived : RxIndexed n (receiveLength hw rx s).2.1 := by
    rw [hport]
    exact ⟨h.num, h.user, h.fifo⟩
  exact hreceived.fill hpos _ _

theorem RxIndexed.fifoReadData (h : RxIndexed n rx) (s : H) :
    RxIndexed n (fsccFifoReadData hw rx s).1 := by
  rcases Nat.eq_zero_or_pos n with rfl | hpos
  · rw [fsccFifoReadData, h.num]
    exact h
  · exact fifoReadLoop_invariant (P := fun port _ ↦ RxIndexed n port)
      (fun _ s h ↦ h.fifoReadStep hw hpos s) _ h

theorem RxIndexed.release (h : RxIndexed n rx) (hpos : 0 < n) : RxIndexed n (releaseUserDesc rx) :=
  ⟨h.num, h.num ▸ next_indexed (h.num.symm ▸ h.user) (h.num.symm ▸ hpos), h.fifo⟩

theorem RxIndexed.readFrameLoop (hpos : 0 < n) (bufLength rounds : Nat) {st : ReadLoop} (s : H)
    (h : RxIndexed n st.port) : RxIndexed n (readFrameLoop hw bufLength rounds st s).1.port := by
  induction rounds generalizing st s with
  | zero => exact h
  | succ rounds ih =>
    have hnext := h.release hpos
    rw [← readFrameStep_port hw bufLength st s] at hnext
    rw [FsccDriver.readFrameLoop]
    generalize readFrameStep hw bufLength st s = round at hnext
    obtain ⟨again, st', s'⟩ := round
    cases again with
    | false => exact hnext
    | true => exact ih s' hnext

theorem RxIndexed.readFrame (h : RxIndexed n rx) (bufLength : Nat) (s : H) :
    RxIndexed n (fsccUserReadFrame hw bufLength rx s).2.1 := by
  rw [fsccUserReadFrame]
  dsimp only
  split
  · exact h
  split
  · exact h
  rcases Nat.eq_zero_or_pos n with rfl | hpos
  · rw [h.num]
    exact h
  · exact RxIndexed.readFrameLoop hpos _ _ s h

theorem RxIndexed.readStreamStep {st : StreamLoop} (h : RxIndexed n st.port) (hpos : 0 < n)
    (bufLength : Nat) : RxIndexed n (readStreamStep bufLength st).2.port := by
  rw [FsccDriver.readStreamStep]
  dsimp only
  split
  · exact h
  split
  · exact ⟨h.num, h.num ▸ next_indexed (h.num.symm ▸ h.user) (h.num.symm ▸ hpos), h.fifo⟩
  · exact ⟨h.num, h.user, h.fifo⟩

theorem RxIndexed.readStream (h : RxIndexed n rx) (bufLength : Nat) :
    RxIndexed n (fsccUserReadStream bufLength rx).2 := by
  rw [fsccUserReadStream]
  have hstart : RxIndexed n (StreamLoop.mk rx 0 0 []).port := h
  rcases Nat.eq_zero_or_pos n with rfl | hpos
  · rw [h.num]
    exact h
  dsimp only
  generalize rx.rxNum = rounds
  generalize StreamLoop.mk rx 0 0 [] = st at hstart
  induction rounds generalizing st with
  | zero => exact hstart
  | succ rounds ih =>
    have hnext := hstart.readStreamStep hpos bufLength
    rw [readStreamLoop]
    generalize FsccDriver.readStreamStep bufLength st = round at hnext
    obtain ⟨again, st'⟩ := round
    cases again with
    | false => exact hnext
    | true => exact ih _ hnext

structure TxIndexed (n : Nat) (port : TxPort) : Prop where
  num : port.txNum = n
  user : port.userTxDesc < n ∨ port.userTxDesc = 0

theorem TxIndexed.writeFrameLoop (hpos : 0 < n) (buf : List Byte) (dataLength rounds : Nat)
    {st : WriteFrameLoop} (h : TxIndexed n st.port) :
    TxIndexed n (writeFrameLoop buf dataLength rounds st).port := by
  induction rounds generalizing st with
  | zero => exact h
  | succ rounds ih =>
    rw [FsccDriver.writeFrameLoop]
    rcases writeFrameStep_cases buf dataLength st with ⟨-, hstep⟩ | ⟨-, st', hone, hstep⟩
    · rw [hstep]
      exact h
    · have hnum : st'.port.txNum = n := by
        rw [hone.port]
        exact h.num
      have hnext : TxIndexed n st'.port := by
        refine ⟨hnum, ?_⟩
        rw [hone.user, h.num]
        exact next_indexed h.user hpos
      rw [hstep]
      cases decide (st'.outLength ≠ dataLength) with
      | false => exact hnext
      | true => exact ih hnext

theorem TxIndexed.writeFrame (h : TxIndexed n tx) (buf : List Byte) (dataLength : Nat) (s : H) :
    TxIndexed n (fsccUserWriteFrame hw buf dataLength tx s).2.1 := by
  obtain ⟨-, -, hnum, huser, -⟩ := fsccUserWriteFrame_loop hw buf dataLength tx s
  have hloop : TxIndexed n
      (FsccDriver.writeFrameLoop buf dataLength tx.txNum ⟨tx, 0, 0, 0, .success⟩).port := by
    rcases Nat.eq_zero_or_pos n with rfl | hpos
    · rw [h.num]
      exact h
    · exact TxIndexed.writeFrameLoop hpos _ _ _ h
  exact ⟨hnum.trans hloop.num, huser ▸ hloop.user⟩

end Indices

/-! ## Runs -/

section Life

variable {hw : Hardware H} {s : LifeState H}

/-- No ring that has frames is destroyed or replaced. -/
def LifeAllowed (s : LifeState H) : LifeAction → Prop
  | .advance _ =>
      match s.pc with
      | .createArray side => s.num side = 0
      | .destroy side _ _ => s.array side = true → s.num side = 0
      | _ => True
  | _ => True

-- What the statements already run have established.
def LifeState.Prepared (s : LifeState H) : LifePc → Prop
  | .createFrame side i | .createCount side i =>
      s.array side = true ∧ s.num side = 0 ∧ ∀ j < i, s.live side j = true
  | .createFailed side | .destroyArray side _ => s.num side = 0
  | _ => True

/-- The count says how many entries point to frames, and the indices are below it. -/
structure LifeSound (s : LifeState H) : Prop where
  array : ∀ side, s.array side = false → s.num side = 0
  live : ∀ side, ∀ i < s.num side, s.live side i = true
  rx : RxIndexed (s.num .rx) s.rx
  tx : TxIndexed (s.num .tx) s.tx
  prepared : s.Prepared s.pc

theorem LifeSound.entry (h : LifeSound s) {side : Side} {i : Nat} (hi : i < s.num side) :
    s.Live side i := by
  refine ⟨?_, h.live side i hi⟩
  by_contra hnull
  have hzero := h.array side (Bool.not_eq_true _ ▸ hnull)
  omega

theorem nextReadSizeTouches_lt {port : RxPort} {cur : Nat} (n : Nat) (hcur : cur < port.rxNum) :
    ∀ i ∈ nextReadSizeTouches port n cur, i < port.rxNum := by
  induction n generalizing cur with
  | zero => exact fun _ hi ↦ absurd hi List.not_mem_nil
  | succ n ih =>
    intro i hi
    rw [nextReadSizeTouches] at hi
    split at hi
    · rwa [List.mem_singleton.mp hi]
    split at hi
    · rwa [List.mem_singleton.mp hi]
    rcases List.mem_cons.mp hi with rfl | hlater
    · exact hcur
    · exact ih (Cyclic.next_lt hcur) i hlater

theorem getTxSpaceTouches_lt {port : TxPort} {cur : Nat} (n : Nat) (hcur : cur < port.txNum) :
    ∀ i ∈ getTxSpaceTouches port n cur, i < port.txNum := by
  induction n generalizing cur with
  | zero => exact fun _ hi ↦ absurd hi List.not_mem_nil
  | succ n ih =>
    intro i hi
    rw [getTxSpaceTouches] at hi
    split at hi
    · rwa [List.mem_singleton.mp hi]
    rcases List.mem_cons.mp hi with rfl | hlater
    · exact hcur
    · exact ih (Cyclic.next_lt hcur) i hlater

variable (hw) in
theorem fifoReadTouches_lt {n : Nat} {port : RxPort} (h : RxIndexed n port) (hpos : 0 < n)
    (rounds : Nat) (card : H) : ∀ i ∈ fifoReadTouches hw rounds port card, i < n := by
  induction rounds generalizing port card with
  | zero => exact fun _ hi ↦ absurd hi List.not_mem_nil
  | succ rounds ih =>
    have hnext := h.fifoReadStep hw hpos card
    have hfifo := lt_of_indexed h.fifo hpos
    intro i hi
    rw [fifoReadTouches] at hi
    generalize fifoReadStep hw port card = round at hnext hi
    obtain ⟨again, port', card'⟩ := round
    cases again with
    | false => rwa [List.mem_singleton.mp hi]
    | true =>
      rcases List.mem_cons.mp hi with rfl | hlater
      · exact hfifo
      · exact ih hnext card' i hlater

theorem LifeSound.workersSafe (h : LifeSound s) : WorkersSafe hw s := by
  have hrx : s.num .rx = s.rx.rxNum := rfl
  have htx : s.num .tx = s.tx.txNum := rfl
  constructor
  case count => exact h.array
  case nextReadSize =>
    intro i hi
    rcases Nat.eq_zero_or_pos s.rx.rxNum with hzero | hpos
    · rw [hzero] at hi
      exact absurd hi List.not_mem_nil
    · exact h.entry (nextReadSizeTouches_lt _ (lt_of_indexed h.rx.user hpos) i hi)
  case fifoReadData =>
    intro card i hi
    rcases Nat.eq_zero_or_pos s.rx.rxNum with hzero | hpos
    · rw [hzero] at hi
      exact absurd hi List.not_mem_nil
    · exact h.entry (fifoReadTouches_lt hw h.rx hpos _ card i hi)
  case getTxSpace =>
    intro i hi
    rcases Nat.eq_zero_or_pos s.tx.txNum with hzero | hpos
    · rw [hzero] at hi
      exact absurd hi List.not_mem_nil
    · exact h.entry (getTxSpaceTouches_lt _ (lt_of_indexed h.tx.user hpos) i hi)

/-! ### The statements of the two callbacks -/

-- Only a side whose count is 0 changes.
theorem LifeSound.setMemory (h : LifeSound s) {side : Side} (hzero : s.num side = 0)
    {array : Side → Bool} {live : Side → Nat → Bool}
    (harray : ∀ side' ≠ side, array side' = s.array side')
    (hlive : ∀ side' ≠ side, live side' = s.live side') {pc : LifePc}
    (hpc : LifeState.Prepared { s with array, live, pc } pc) :
    LifeSound { s with array, live, pc } := by
  constructor
  case array =>
    intro side' hnull
    by_cases hside : side' = side
    · rw [hside]
      exact hzero
    · exact h.array side' (by rwa [← harray side' hside])
  case live =>
    intro side' i hi
    by_cases hside : side' = side
    · rw [hside] at hi
      exact absurd (hzero ▸ hi : i < 0) (Nat.not_lt_zero i)
    · show live side' i = true
      rw [hlive side' hside]
      exact h.live side' i hi
  case rx => exact h.rx
  case tx => exact h.tx
  case prepared => exact hpc

theorem LifeSound.setNum (h : LifeSound s) {side : Side} {n : Nat} (hzero : s.num side = 0)
    (harray : n ≠ 0 → s.array side = true) (hlive : ∀ i < n, s.live side i = true) {pc : LifePc}
    (hpc : LifeState.Prepared { s.setNum n side with pc } pc) :
    LifeSound { s.setNum n side with pc } := by
  have hfill : ∀ side', s.array side' = false → side' = side → n = 0 := by
    rintro _ hnull rfl
    by_contra hn
    rw [harray hn] at hnull
    cases hnull
  have hindex : ∀ {i m : Nat}, m = 0 → i < m ∨ i = 0 → i < n ∨ i = 0 := by omega
  cases side with
  | rx =>
    have hrx : s.rx.rxNum = 0 := hzero
    refine ⟨?_, ?_, ⟨rfl, hindex hzero h.rx.user, hindex hzero h.rx.fifo⟩, h.tx, hpc⟩
    · intro side' hnull
      cases side' with
      | rx => exact hfill .rx hnull rfl
      | tx => exact h.array .tx hnull
    · intro side' i hi
      cases side' with
      | rx => exact hlive i hi
      | tx => exact h.live .tx i hi
  | tx =>
    refine ⟨?_, ?_, h.rx, ⟨rfl, hindex hzero h.tx.user⟩, hpc⟩
    · intro side' hnull
      cases side' with
      | rx => exact h.array .rx hnull
      | tx => exact hfill .tx hnull rfl
    · intro side' i hi
      cases side' with
      | rx => exact h.live .rx i hi
      | tx => exact hlive i hi

theorem LifeSound.goto (h : LifeSound s) {pc : LifePc} (hpc : s.Prepared pc) :
    LifeSound { s with pc } := ⟨h.array, h.live, h.rx, h.tx, hpc⟩

theorem LifeSound.setDesc (h : LifeSound s) (i : Nat) (desc : DmaFrame) (side : Side) :
    LifeSound (s.setDesc i desc side) := by
  cases side with
  | rx => exact ⟨h.array, h.live, ⟨h.rx.num, h.rx.user, h.rx.fifo⟩, h.tx, h.prepared⟩
  | tx => exact ⟨h.array, h.live, h.rx, ⟨h.tx.num, h.tx.user⟩, h.prepared⟩

theorem LifeSound.advance (h : LifeSound s) (ok : Bool) (hallowed : LifeAllowed s (.advance ok)) :
    LifeSound (lifeAdvance s ok) := by
  have hprepared := h.prepared
  rw [lifeAdvance]
  rw [LifeAllowed] at hallowed
  cases hpc : s.pc with
  | idle => exact h
  | createArray side =>
    rw [hpc] at hallowed
    cases ok with
    | true =>
      exact h.setMemory hallowed (fun _ hne ↦ Function.update_of_ne hne _ _)
        (fun _ hne ↦ Function.update_of_ne hne _ _)
        ⟨Function.update_self _ _ _, hallowed, fun j hj ↦ absurd hj (Nat.not_lt_zero j)⟩
    | false =>
      exact h.setMemory hallowed (fun _ hne ↦ Function.update_of_ne hne _ _)
        (fun _ hne ↦ Function.update_of_ne hne _ _) hallowed
  | createFailed side =>
    rw [hpc] at hprepared
    exact h.setNum hprepared (fun hn ↦ absurd rfl hn) (fun i hi ↦ absurd hi (Nat.not_lt_zero i))
      trivial
  | createFrame side i =>
    rw [hpc] at hprepared
    obtain ⟨harray, hzero, hlive⟩ := hprepared
    show LifeSound (if i < Store.atLeastTwo (s.memory side).1 ∧ ok = true then _ else _)
    split
    · generalize createdDesc side (Store.roundedSize (s.memory side).2) i = desc
      obtain ⟨hnum', harray', hlive'⟩ := setDesc_memory s i desc side
      refine (h.setDesc i desc side).setMemory (hnum' ▸ hzero) (fun _ _ ↦ rfl)
        (fun _ hne ↦ (Function.update_of_ne hne _ _).trans (congrFun hlive'.symm _)) ?_
      refine ⟨harray' ▸ harray, (congrFun hnum' side).trans hzero, fun j hj ↦ ?_⟩
      show Function.update s.live side (Function.update (s.live side) i true) side j = true
      rw [Function.update_self]
      by_cases hji : j = i
      · rw [hji, Function.update_self]
      · rw [Function.update_of_ne hji]
        exact hlive j (by omega)
    · exact h.goto ⟨harray, hzero, hlive⟩
  | createCount side i =>
    rw [hpc] at hprepared
    obtain ⟨harray, hzero, hlive⟩ := hprepared
    refine h.setNum hzero (fun _ ↦ harray) hlive ?_
    cases side <;> trivial
  | destroy side i next =>
    rw [hpc] at hallowed
    show LifeSound (if ¬ s.array side = true then _ else _)
    split
    · refine h.goto ?_
      cases next <;> trivial
    next hset =>
      have hzero : s.num side = 0 := hallowed (not_not.mp hset)
      rw [if_neg (by omega)]
      exact h.goto hzero
  | destroyArray side next =>
    rw [hpc] at hprepared
    refine h.setMemory hprepared (fun _ hne ↦ Function.update_of_ne hne _ _)
      (fun _ hne ↦ Function.update_of_ne hne _ _) ?_
    cases next <;> trivial
  | purgeRx =>
    exact ⟨h.array, h.live, ⟨h.rx.num, Or.inr rfl, Or.inr rfl⟩, h.tx, trivial⟩
  | purgeTx => exact ⟨h.array, h.live, h.rx, ⟨h.tx.num, Or.inr rfl⟩, trivial⟩
  | startTimer => exact ⟨h.array, h.live, h.rx, h.tx, trivial⟩

theorem LifeState.Prepared.congr {s' : LifeState H} {pc : LifePc} (h : s.Prepared pc)
    (hnum : s'.num = s.num) (harray : s'.array = s.array) (hlive : s'.live = s.live) :
    s'.Prepared pc := by
  unfold LifeState.Prepared
  rw [hnum, harray, hlive]
  exact h

theorem LifeSound.setRx (h : LifeSound s) {rx : RxPort} (hrx : RxIndexed s.rx.rxNum rx) (card : H) :
    LifeSound { s with rx, card } := by
  have hnum : ({ s with rx, card } : LifeState H).num = s.num :=
    funext fun | .rx => hrx.num | .tx => rfl
  refine ⟨?_, ?_, ?_, h.tx, h.prepared.congr hnum rfl rfl⟩
  · rw [hnum]
    exact h.array
  · rw [hnum]
    exact h.live
  · rw [hnum]
    exact hrx

theorem LifeSound.setTx (h : LifeSound s) {tx : TxPort} (htx : TxIndexed s.tx.txNum tx) (card : H) :
    LifeSound { s with tx, card } := by
  have hnum : ({ s with tx, card } : LifeState H).num = s.num :=
    funext fun | .rx => rfl | .tx => htx.num
  refine ⟨?_, ?_, h.rx, ?_, h.prepared.congr hnum rfl rfl⟩
  · rw [hnum]
    exact h.array
  · rw [hnum]
    exact h.live
  · rw [hnum]
    exact htx

theorem LifeSound.worker (h : LifeSound s) (action : LifeAction) :
    LifeSound (lifeWorker hw s action) := by
  cases action with
  | iframeWorker =>
    rw [lifeWorker]
    split
    · exact h
    · exact h.setRx (h.rx.fifoReadData s.card) _
  | processRead streaming bufLength =>
    cases streaming with
    | true => exact h.setRx (h.rx.readStream bufLength) s.card
    | false => exact h.setRx (h.rx.readFrame bufLength s.card) _
  | requestWorker data => exact h.setTx (h.tx.writeFrame data data.length s.card) _
  | _ => exact h

theorem LifeSound.step (h : LifeSound s) (action : LifeAction) (hallowed : LifeAllowed s action) :
    LifeSound (lifeStep hw s action) := by
  cases action with
  | advance ok => exact h.advance ok hallowed
  | prepareHardware memory =>
    rw [lifeStep]
    split
    · exact ⟨h.array, h.live, h.rx, h.tx, trivial⟩
    · exact h
  | releaseHardware =>
    rw [lifeStep]
    split
    · exact h.goto trivial
    · exact h
  | _ =>
    rw [lifeStep]
    split
    · exact h.worker _
    · exact h
    all_goals (intros; simp_all)

theorem lifeStart_sound (rx : RxPort) (tx : TxPort) (card : H) :
    LifeSound (lifeStart rx tx card) := by
  constructor
  case array =>
    intro side _
    cases side <;> rfl
  case live =>
    intro side i hi
    cases side <;> exact absurd hi (Nat.not_lt_zero i)
  case rx => exact ⟨rfl, Or.inr rfl, Or.inr rfl⟩
  case tx => exact ⟨rfl, Or.inr rfl⟩
  case prepared => trivial

/-- A device whose rings with frames are never destroyed or replaced: in every state of every run the
workers only index entries that hold a live frame. -/
theorem fscc_workers_index_live_frames (hw : Hardware H) (rx : RxPort) (tx : TxPort) (card : H)
    {actions : List LifeAction}
    (hallowed : Runs.Along LifeAllowed (lifeStep hw) (lifeStart rx tx card) actions) :
    WorkersSafe hw (actions.foldl (lifeStep hw) (lifeStart rx tx card)) := by
  have hsound : LifeSound (actions.foldl (lifeStep hw) (lifeStart rx tx card)) :=
    Runs.Along.invariant (fun _ _ hallowed h ↦ LifeSound.step h _ hallowed) hallowed
      (lifeStart_sound rx tx card)
  exact hsound.workersSafe

end Life

/-! ### A device that is started, and released -/

-- Two frames of four bytes on each side, and the timer.
def prepareRun : List LifeAction :=
  .prepareHardware (fun _ ↦ (2, 4)) :: List.replicate 13 (.advance true)

def releaseRun : List LifeAction := .releaseHardware :: List.replicate 8 (.advance true)

theorem fscc_workers_index_live_frames_prepared :
    let s := (prepareRun ++ ([.iframeWorker, .processRead false 4] : List LifeAction)).foldl
      (lifeStep quietCard) (lifeStart (twoDescPort 4) twoBufferPort ())
    s.timer = true ∧ s.num .rx = 2 ∧ s.num .tx = 2 ∧ WorkersSafe quietCard s := by
  refine ⟨by decide, by decide, by decide, ?_⟩
  apply fscc_workers_index_live_frames
  exact ⟨trivial, rfl, trivial, trivial, trivial, trivial, rfl, trivial, trivial, trivial, trivial,
    trivial, trivial, trivial, trivial, trivial, trivial⟩

-- The release frees the rings; their counts and the timer stay.
theorem fscc_release_leaves_worker_counts :
    ¬ ∀ actions : List LifeAction,
      let s := actions.foldl (lifeStep quietCard) (lifeStart (twoDescPort 4) twoBufferPort ())
      s.timer = true → WorkersSafe quietCard s := by
  intro hclaim
  have hsafe := hclaim (prepareRun ++ releaseRun) (by decide)
  have hentry := hsafe.nextReadSize 0 (by decide)
  exact absurd hentry.1 (by decide)

end FsccDriver

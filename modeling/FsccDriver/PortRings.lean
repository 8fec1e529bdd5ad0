import FsccDriver.FrameWrite
import FsccDriver.PortDefaults
import FsccDriver.PortOptions

/-!
# PortRings — the rings of a prepared port

`FsccEvtDevicePrepareHardware` makes both rings and purges them, and every callback and worker keeps
their shape.  What the writes need for it is that `fscc_user_get_tx_space` is asked first: so no frame
is longer than the ring, and its length stays out of the flags of the first descriptor.
-/

namespace FsccDriver

open Words

variable {H : Type} {hw : Hardware H}

/-! ## The buffers of the transmit ring -/

section Sizes

variable {port : TxPort} {ds : Nat}

def TxPort.sizes (port : TxPort) (i : Nat) : Nat := (port.txDescriptors i).dataSize

theorem setUserDesc_sizes {desc : DmaFrame} (hsize : desc.dataSize = port.userDesc.dataSize) :
    (port.setUserDesc desc).nextUser.sizes = port.sizes := by
  funext i
  show (Function.update port.txDescriptors port.userTxDesc desc i).dataSize = _
  by_cases hi : i = port.userTxDesc
  · rw [hi, Function.update_self]
    exact hsize
  · rw [Function.update_of_ne hi]
    rfl

theorem emptiedPort_sizes (port : TxPort) : (emptiedPort port).sizes = port.sizes := by
  funext i
  show (Function.update port.txDescriptors port.fifoTxDesc _ i).dataSize = _
  by_cases hi : i = port.fifoTxDesc
  · rw [hi, Function.update_self]
    rfl
  · rw [Function.update_of_ne hi]
    rfl

theorem writeFrameLoop_sizes (buf : List Byte) (dataLength n : Nat) (st : WriteFrameLoop) :
    (writeFrameLoop buf dataLength n st).port.sizes = st.port.sizes := by
  induction n generalizing st with
  | zero => rfl
  | succ n ih =>
    rw [writeFrameLoop]
    rcases writeFrameStep_cases buf dataLength st with ⟨-, hstop⟩ | ⟨-, st', hfills, hstep⟩
    · rw [hstop]
    have hround : st'.port.sizes = st.port.sizes := by
      rw [hfills.port]
      exact setUserDesc_sizes rfl
    rw [hstep]
    cases decide (st'.outLength ≠ dataLength) with
    | false => exact hround
    | true => exact (ih st').trans hround

theorem fsccUserWriteFrame_sizes (buf : List Byte) (dataLength : Nat) (port : TxPort) (h : H) :
    (fsccUserWriteFrame hw buf dataLength port h).2.1.sizes = port.sizes := by
  obtain ⟨-, hdescs, -⟩ := fsccUserWriteFrame_loop hw buf dataLength port h
  have hloop := writeFrameLoop_sizes buf dataLength port.txNum ⟨port, 0, 0, 0, .success⟩
  funext i
  rw [TxPort.sizes, hdescs]
  exact congrFun hloop i

theorem fsccFifoWriteData_sizes (port : TxPort) (h : H) :
    (fsccFifoWriteData hw port h).2.1.sizes = port.sizes := by
  have hloop : ∀ tfcnt space h,
      (writeDataLoop hw tfcnt port.txNum ⟨port, space, 0, 0⟩ h).1.port.sizes = port.sizes :=
    fun tfcnt space h ↦ writeDataLoop_invariant (P := fun port' ↦ port'.sizes = port.sizes)
      (fun port' hsame _ ↦ (emptiedPort_sizes port').trans hsame) port.txNum h rfl
  simp only [fsccFifoWriteData]
  split
  · rfl
  split
  · rfl
  split
  · exact hloop _ _ _
  · exact hloop _ _ _

-- Induction over the rounds: each counts at most one buffer.
theorem getTxSpaceLoop_le (h : TxSized ds port) (n : Nat) {cur : Nat} (hcur : cur < port.txNum)
    (space : Nat) : getTxSpaceLoop port n cur space ≤ space + n * ds := by
  induction n generalizing cur space with
  | zero => exact Nat.le_add_right _ _
  | succ n ih =>
    rw [getTxSpaceLoop]
    split
    · exact Nat.le_add_right _ _
    · have hrest := ih (Cyclic.next_lt hcur) (space + (port.txDescriptors cur).dataSize)
      rw [h cur hcur] at hrest ⊢
      rwa [Nat.succ_mul, Nat.add_comm (n * ds), ← Nat.add_assoc]

theorem fsccUserGetTxSpace_le (h : TxSized ds port) (hcur : port.userTxDesc < port.txNum) :
    fsccUserGetTxSpace port ≤ port.txNum * ds :=
  (getTxSpaceLoop_le h port.txNum hcur 0).trans (Nat.le_of_eq (Nat.zero_add _))

end Sizes

/-! ## The shape of the transmit ring -/

/-- The buffers are of one size, and all of them together are shorter than `2 ^ 30` bytes. -/
structure TxPort.Sized (ds : Nat) (port : TxPort) : Prop where
  sized : TxSized ds port
  capacity : port.txNum * ds < 1073741824

/-- A ring that has any frames has its shape. -/
structure TxPort.Shaped (ds : Nat) (port : TxPort) : Prop extends port.Sized ds where
  shape : 0 < port.txNum → ∃ waiting, TxShape waiting port

section Transmit

variable {port : TxPort} {ds : Nat}

theorem TxPort.Shaped.next {port' : TxPort} (h : port.Shaped ds)
    (hsettings : port'.settings = port.settings) (hsizes : port'.sizes = port.sizes)
    (hshape : (∃ waiting, TxShape waiting port) → ∃ waiting, TxShape waiting port') :
    port'.Shaped ds := by
  have hnum : port'.txNum = port.txNum := congrArg (fun settings ↦ settings.2.2) hsettings
  refine ⟨⟨fun i hi ↦ ?_, hnum ▸ h.capacity⟩, fun hpos ↦ hshape (h.shape (hnum ▸ hpos))⟩
  exact (congrFun hsizes i).trans (h.sized i (hnum ▸ hi))

theorem TxPort.Sized.registers (h : port.Sized ds) (registers : RegPort) :
    ({ port with toRegPort := registers } : TxPort).Sized ds :=
  ⟨h.sized, h.capacity⟩

theorem TxPort.Shaped.registers (h : port.Shaped ds) (registers : RegPort) :
    ({ port with toRegPort := registers } : TxPort).Shaped ds :=
  ⟨h.toSized.registers registers,
    fun hpos ↦ (h.shape hpos).imp fun _ hring ↦ hring.same rfl rfl rfl rfl⟩

theorem TxPort.Sized.reset (h : port.Sized ds) : (resetTx port).Shaped ds := by
  refine ⟨⟨fun i (hi : i < port.txNum) ↦ ?_, h.capacity⟩, fun hpos ↦ ⟨[], resetTx_shape hpos⟩⟩
  show DmaFrame.dataSize (if i < port.txNum then _ else _) = ds
  rw [if_pos hi]
  exact h.sized i hi

-- A frame that there is space for is shorter than the ring.
theorem TxPort.Shaped.write (h : port.Shaped ds) (buf : List Byte) {dataLength : Nat}
    (hspace : dataLength ≤ fsccUserGetTxSpace port) (s : H) :
    (fsccUserWriteFrame hw buf dataLength port s).2.1.Shaped ds := by
  refine h.next (fsccUserWriteFrame_settings hw buf dataLength port s)
    (fsccUserWriteFrame_sizes buf dataLength port s) ?_
  rintro ⟨waiting, hring⟩
  have hcur : port.userTxDesc < port.txNum := by
    rw [hring.user]
    exact Nat.mod_lt _ (Nat.lt_of_le_of_lt (Nat.zero_le _) hring.holds.origin_lt)
  have hfits := hspace.trans (fsccUserGetTxSpace_le h.sized hcur)
  exact fsccUserWriteFrame_shape ⟨waiting, hring⟩ (Nat.lt_of_le_of_lt hfits h.capacity) s

variable (hw) in
theorem TxPort.Shaped.drain (h : port.Shaped ds) (s : H) :
    (fsccFifoWriteData hw port s).2.1.Shaped ds :=
  h.next (fsccFifoWriteData_settings hw port s) (fsccFifoWriteData_sizes port s)
    fun hring ↦ fsccFifoWriteData_shape hring s

theorem TxPort.Shaped.transmit (h : port.Shaped ds) (s : H) :
    (fsccIoTransmitFrame hw port s).2.1.Shaped ds := by
  have hdrained := h.drain hw s
  simp only [fsccIoTransmitFrame]
  split
  · simp only [fsccIoExecuteTransmit]
    exact hdrained.registers _
  · exact hdrained

end Transmit

/-! ## The shape of the receive ring -/

def RxPort.Sized (ds : Nat) (port : RxPort) : Prop :=
  ∀ i < port.rxNum, (port.rxDescriptors i).dataSize = ds

structure RxPort.Shaped (ds : Nat) (port : RxPort) : Prop where
  shape : 0 < port.rxNum → ∃ finished, RxShape ds finished port

section Receive

variable {port : RxPort} {ds : Nat}

theorem RxPort.Shaped.next {port' : RxPort} (h : port.Shaped ds)
    (hsettings : port'.settings = port.settings)
    (hshape : (∃ finished, RxShape ds finished port) → ∃ finished, RxShape ds finished port') :
    port'.Shaped ds := by
  have hnum : port'.rxNum = port.rxNum := congrArg (fun settings ↦ settings.2.2.2.2) hsettings
  exact ⟨fun hpos ↦ hshape (h.shape (hnum ▸ hpos))⟩

theorem RxPort.Shaped.reset (h : port.Shaped ds) : (resetRx port).Shaped ds :=
  ⟨fun hpos ↦ (h.shape hpos).elim fun _ hring ↦ ⟨[], hring.reset⟩⟩

-- A timestamp goes to a finished descriptor.
theorem RxShape.stamp {finished : List DmaFrame} (h : RxShape ds finished port) {i : Nat}
    (hi : i < port.rxNum) (hstopped : ¬ (port.rxDescriptors i).Unfinished) (timestamp : BitVec 64) :
    ∃ finished, RxShape ds finished { port with
      rxDescriptors := Function.update port.rxDescriptors i
        { port.rxDescriptors i with timestamp } } := by
  rcases h.holds.cases_slot hi with ⟨k, hk, hslot, hbusy⟩ | ⟨-, -, hcur⟩ | hfree
  · have hset := h.holds.set (y := { port.rxDescriptors i with timestamp }) hk
      ⟨rfl, hbusy.dataSize, hbusy.cstop⟩
    rw [hslot] at hset
    refine ⟨_, hset, ?_⟩
    rw [List.length_set]
    exact h.fifo
  · exact absurd (unfinished_of_lt hcur.control) hstopped
  · exact absurd (unfinished_of_lt hfree.control) hstopped

-- Induction over the rounds.
theorem applyTimestampsLoop_shape (n : Nat) {cur : Nat} (hcur : cur < port.rxNum)
    (h : ∃ finished, RxShape ds finished port) (s : H) :
    ∃ finished, RxShape ds finished (applyTimestampsLoop hw n cur port s).1 := by
  induction n generalizing cur port s with
  | zero => exact h
  | succ n ih =>
    rw [applyTimestampsLoop]
    dsimp only
    split
    · exact h
    next hstopped =>
      obtain ⟨finished, hring⟩ := h
      refine ih ?_ (hring.stamp hcur hstopped _) _
      exact Cyclic.next_lt hcur

theorem RxPort.Shaped.timestamps (h : port.Shaped ds) (s : H) :
    (fsccDmaApplyTimestamps hw port s).1.Shaped ds := by
  refine h.next (fsccDmaApplyTimestamps_settings hw port s) ?_
  rintro ⟨finished, hring⟩
  exact applyTimestampsLoop_shape port.rxNum hring.holds.origin_lt ⟨finished, hring⟩ s

theorem RxPort.Shaped.fill (h : port.Shaped ds) (hds : ds < 1610612736) (s : H) :
    (fsccFifoReadData hw port s).1.Shaped ds := by
  refine h.next (fsccFifoReadData_settings hw port s) ?_
  rintro ⟨finished, hring⟩
  have hmore : ∃ more, RxShape ds (finished ++ more) (fsccFifoReadData hw port s).1 :=
    fsccFifoReadData_shape hring hds s
  exact hmore.elim fun _ hring ↦ ⟨_, hring⟩

theorem RxPort.Shaped.readFrame (h : port.Shaped ds) (bufLength : Nat) (s : H) :
    (fsccUserReadFrame hw bufLength port s).2.1.Shaped ds :=
  h.next (fsccUserReadFrame_settings hw bufLength port s) fsccUserReadFrame_shape

theorem RxPort.Shaped.readStream (h : port.Shaped ds) (bufLength : Nat) :
    (fsccUserReadStream bufLength port).2.Shaped ds :=
  h.next (fsccUserReadStream_settings bufLength port) fun hring ↦
    readStreamLoop_shape port.rxNum hring

end Receive

/-! ## Making the rings -/

/-- The rings that the registry asks for are not too large: a buffer of the receive ring, and all
buffers of the transmit ring together. -/
def FsccMemory.Fits (memory : FsccMemory) : Prop :=
  memory.rxSize.toNat + 3 < 0x60000000 ∧ max 2 memory.txNum.toNat * (memory.txSize.toNat + 3) < 2 ^ 30

instance (memory : FsccMemory) : Decidable memory.Fits := inferInstanceAs (Decidable (_ ∧ _))

section Create

variable {pool : TxPool} {number size : BitVec 32}

-- Induction over the rounds: what is there by then has the size.
theorem createRxLoop_sized {ds n i : Nat} {port : RxPort} (physicalAddress : Nat → BitVec 32)
    (hbefore : ∀ k < i, (port.rxDescriptors k).dataSize = ds) :
    (createRxLoop pool ds n i port physicalAddress).1.Sized ds := by
  induction n generalizing i port physicalAddress with
  | zero => exact hbefore
  | succ n ih =>
    rw [createRxLoop]
    split
    · exact hbefore
    refine ih _ fun k hk ↦ ?_
    show DmaFrame.dataSize (Function.update port.rxDescriptors i _ k) = ds
    by_cases hlast : k = i
    · rw [hlast, Function.update_self]
      rfl
    · rw [Function.update_of_ne hlast]
      exact hbefore k (by omega)

theorem createTxLoop_sized (pool : TxPool) {ds i : Nat} (n : Nat) (port : TxPort)
    (hbefore : ∀ k < i, (port.txDescriptors k).dataSize = ds) :
    TxSized ds (createTxLoop pool ds n i port) ∧ (createTxLoop pool ds n i port).txNum ≤ i + n := by
  induction n generalizing i port with
  | zero => exact ⟨hbefore, Nat.le_refl i⟩
  | succ n ih =>
    rw [createTxLoop]
    split
    · exact ⟨hbefore, Nat.le_add_right i _⟩
    rw [← Nat.add_assoc, Nat.add_right_comm]
    refine ih _ fun k hk ↦ ?_
    show DmaFrame.dataSize (Function.update port.txDescriptors i _ k) = ds
    by_cases hlast : k = i
    · rw [hlast, Function.update_self]
      rfl
    · rw [Function.update_of_ne hlast]
      exact hbefore k (by omega)

-- A size is made a multiple of four.
theorem roundedSize_le (size : Nat) :
    (if size % 4 ≠ 0 then u32 ((size : Int) + (4 - size % 4 : Nat)) else size) ≤ size + 3 := by
  split
  next hodd =>
    have hle := u32_le (size + (4 - size % 4))
    rw [Nat.cast_add] at hle
    omega
  · exact Nat.le_add_right size 3

theorem fsccIoCreateRx_sized {port : RxPort} {physicalAddress : Nat → BitVec 32}
    (hcreated : (fsccIoCreateRx pool port physicalAddress number size).1 = .success)
    (hsize : size.toNat + 3 < 1610612736) :
    ∃ ds < 1610612736, (fsccIoCreateRx pool port physicalAddress number size).2.1.Sized ds := by
  have hrounded := Nat.lt_of_le_of_lt (roundedSize_le size.toNat) hsize
  rw [fsccIoCreateRx] at hcreated ⊢
  split at hcreated
  next harray =>
    rw [if_pos harray]
    exact ⟨_, hrounded, createRxLoop_sized physicalAddress fun _ hk ↦ absurd hk (Nat.not_lt_zero _)⟩
  · cases hcreated

theorem fsccIoCreateTx_sized {port : TxPort}
    (hcreated : (fsccIoCreateTx pool port number size).1 = .success)
    (hcapacity : max 2 number.toNat * (size.toNat + 3) < 1073741824) :
    ∃ ds, (fsccIoCreateTx pool port number size).2.2.Sized ds := by
  have hrounded := roundedSize_le size.toNat
  rw [fsccIoCreateTx] at hcreated ⊢
  split at hcreated
  next harray =>
    rw [if_pos harray]
    obtain ⟨hsized, hnum⟩ := createTxLoop_sized pool (if number.toNat < 2 then 2 else number.toNat)
      port fun k (hk : k < 0) ↦ absurd hk (Nat.not_lt_zero k)
    refine ⟨_, hsized, Nat.lt_of_le_of_lt (Nat.mul_le_mul (hnum.trans ?_) hrounded) hcapacity⟩
    split <;> omega
  · cases hcreated

end Create

/-! ## Purges -/

section Purge

variable (hw)

theorem purgeRxReset_rx (side : RxSide) (h : H) : (purgeRxReset hw side h).1.rx = resetRx side.rx := by
  simp only [purgeRxReset]
  split <;> rfl

theorem fsccIoPurgeTx_tx (side : TxSide) (h : H) : ∃ registers,
    (fsccIoPurgeTx hw side h).2.1.toTxPort = { resetTx side.toTxPort with toRegPort := registers } := by
  simp only [fsccIoPurgeTx]
  split
  · exact ⟨_, rfl⟩
  · exact ⟨_, rfl⟩

theorem TxPort.Sized.purge {side : TxSide} {ds : Nat} (h : side.toTxPort.Sized ds) (card : H) :
    (fsccIoPurgeTx hw side card).2.1.toTxPort.Shaped ds := by
  obtain ⟨registers, hpurged⟩ := fsccIoPurgeTx_tx hw side card
  rw [hpurged]
  exact h.reset.registers registers

end Purge

/-! ## The port -/

namespace Handlers

open Calls (Program)

structure Driver.Shaped (rxSize txSize : Nat) (d : Driver H) : Prop where
  rx : d.rx.Shaped rxSize
  tx : d.tx.toTxPort.Shaped txSize

section Driven

variable {d : Driver H} {rxSize txSize : Nat}

theorem Driver.Shaped.registers (h : d.Shaped rxSize txSize) (registers : RegPort) (card : H) :
    ({ d.setRegisters registers with card } : Driver H).Shaped rxSize txSize :=
  ⟨h.rx, h.tx.registers registers⟩

theorem Driver.Shaped.read (h : d.Shaped rxSize txSize) (streaming : Bool) (length : Nat) :
    (d.read hw streaming length).2.Shaped rxSize txSize := by
  rw [Driver.read]
  split
  · exact ⟨h.rx.readStream length, h.tx⟩
  · exact ⟨h.rx.readFrame length d.card, h.tx⟩

theorem Driver.Shaped.clockMissing (h : d.Shaped rxSize txSize) :
    (d.clockMissing hw).2.Shaped rxSize txSize := by
  rw [Driver.clockMissing]
  split
  · exact ⟨h.rx, h.tx⟩
  · exact h

theorem Driver.Shaped.setOption (h : d.Shaped rxSize txSize) (value : Bool) (option : PortOption) :
    (d.setOption hw value option).2.Shaped rxSize txSize := by
  cases option with
  | appendStatus | appendTimestamp | rxMultiple =>
    exact ⟨⟨fun hpos ↦ (h.rx.shape hpos).imp fun _ hring ↦ ⟨hring.holds, hring.fifo⟩⟩, h.tx⟩
  | ignoreTimeout => exact h.registers _ d.card
  | waitOnWrite | blockingWrite => exact ⟨h.rx, h.tx⟩
  | forceFifo => exact h.registers _ _

theorem Driver.Shaped.purgeTx (h : d.Shaped rxSize txSize) :
    (fsccIoPurgeTx hw d).Always fun result ↦ result.2.Shaped rxSize txSize :=
  fun _ ↦ ⟨h.rx, h.tx.toSized.purge hw d.card⟩

theorem Driver.Shaped.purgeRx (h : d.Shaped rxSize txSize) :
    (fsccIoPurgeRx hw d).Always fun result ↦ result.2.Shaped rxSize txSize := by
  have hreset := purgeRxReset_rx hw d.rxSide d.card
  unfold fsccIoPurgeRx
  generalize purgeRxReset hw d.rxSide d.card = reset at hreset
  obtain ⟨side, card⟩ := reset
  have hreset : side.rx = resetRx d.rx := hreset
  refine fun _ ↦ ⟨?_, h.tx.registers _⟩
  show side.rx.Shaped rxSize
  rw [hreset]
  exact h.rx.reset

theorem Driver.Shaped.control (h : d.Shaped rxSize txSize) (request : Request) (code : IoControlCode) :
    (ioControl hw d request code).Always fun result ↦ result.2.2.Shaped rxSize txSize := by
  cases code with
  | getRegisters => exact withInput_always h (withOutput_always h fun _ ↦ ⟨h.rx, h.tx⟩)
  | setRegisters => exact withInput_always h fun _ ↦ h.registers _ _
  | purgeTx => exact h.purgeTx.bind fun _ hpurged ↦ hpurged
  | purgeRx => exact h.purgeRx.bind fun _ hpurged ↦ hpurged
  | enable option => exact h.setOption true option
  | disable option => exact h.setOption false option
  | get _ => exact withOutput_always h fun _ ↦ h
  | setClockBits => exact withInput_always h fun _ _ ↦ ⟨h.rx, h.tx⟩
  | setTxModifiers =>
    refine withInput_always h fun buffer ↦ ?_
    show (fsccPortSetTxModifiers d (Bytes.wordAt buffer 0)).2.Shaped rxSize txSize
    rw [fsccPortSetTxModifiers]
    split
    · exact ⟨h.rx, ⟨h.tx.sized, h.tx.capacity⟩,
        fun hpos ↦ (h.tx.shape hpos).imp fun _ hring ↦ hring.same rfl rfl rfl rfl⟩
    · exact h
  | getTxModifiers => exact withOutput_always h fun _ ↦ h
  | trackInterrupts | unknown => exact h

theorem Driver.Shaped.timestampWorker (h : d.Shaped rxSize txSize) :
    (timestampWorker hw d).Shaped rxSize txSize := by
  rw [Handlers.timestampWorker]
  split
  · exact h
  · exact ⟨h.rx.timestamps d.card, h.tx⟩

theorem Driver.Shaped.iframeWorker (h : d.Shaped rxSize txSize) (hrx : rxSize < 1610612736) :
    (iframeWorker hw d).2.Shaped rxSize txSize := by
  rw [Handlers.iframeWorker]
  split
  · exact h
  · exact ⟨h.rx.fill hrx d.card, h.tx⟩

theorem Driver.Shaped.oframeWorker (h : d.Shaped rxSize txSize) :
    (oframeWorker hw d).Shaped rxSize txSize := by
  rw [Handlers.oframeWorker]
  split
  · exact h
  · exact ⟨h.rx, h.tx.transmit d.card⟩

theorem shaped_driven (hrx : rxSize < 1610612736) :
    Driven hw (fun _ ↦ True) fun d d' ↦ d.Shaped rxSize txSize → d'.Shaped rxSize txSize where
  refl _ := id
  trans _ _ _ h h' := h' ∘ h
  read _ streaming length h := h.read streaming length
  write d data _ hspace h := ⟨h.rx, h.tx.write data hspace d.card⟩
  clock _ h := h.clockMissing
  control d request code _ := by
    by_cases h : d.Shaped rxSize txSize
    · exact (h.control request code).mono fun _ hresult _ ↦ hresult
    · exact (Program.always_true _).mono fun _ _ h' ↦ absurd h' h
  isr _ h := ⟨h.rx, h.tx⟩
  timestamp _ h := h.timestampWorker
  iframe _ h := h.iframeWorker hrx
  oframe _ h := h.oframeWorker
  alerts _ h := ⟨h.rx, h.tx⟩

end Driven

/-! ## Runs of a prepared port -/

section Prepared

variable {d : Driver H} {rxSize txSize : Nat}

/-- Both rings are there, whatever is in them. -/
structure Driver.Sized (rxSize txSize : Nat) (d : Driver H) : Prop where
  rx : d.rx.Sized rxSize
  tx : d.tx.toTxPort.Sized txSize

variable (hw) in
theorem Driver.Sized.setStored (h : d.Sized rxSize txSize) (storage : FsccRegisters) :
    (d.setStored hw storage).Sized rxSize txSize := by
  rw [Driver.setStored]
  generalize fsccPortSetStoredRegisters hw { d.registers with registerStorage := storage } d.card =
    result
  obtain ⟨status, registers, card⟩ := result
  exact ⟨h.rx, h.tx.registers registers⟩

variable (hw) in
theorem Driver.Sized.startClock (h : d.Sized rxSize txSize) (allocated : Bool) :
    (d.startClock hw allocated).Sized rxSize txSize :=
  ⟨h.rx, h.tx⟩

theorem Driver.Sized.enableDma (h : d.Sized rxSize txSize) : (d.enableDma hw).Sized rxSize txSize := by
  rw [Driver.enableDma]
  generalize fsccPortSetRegister hw d.registers 2 dmaccrOffset 0x03000000 d.card = result
  obtain ⟨status, registers, card⟩ := result
  split
  · exact ⟨h.rx, h.tx.registers registers⟩
  · exact h

theorem Driver.Sized.purge (h : d.Sized rxSize txSize) : (d.purge hw).Shaped rxSize txSize := by
  have hrx : (FsccDriver.fsccIoPurgeRx hw d.rxSide d.card).2.1.rx = resetRx d.rx :=
    purgeRxReset_rx hw d.rxSide d.card
  rw [Driver.purge]
  generalize FsccDriver.fsccIoPurgeRx hw d.rxSide d.card = received at hrx ⊢
  obtain ⟨status, side, card⟩ := received
  have hside : (d.setRxSide side).tx.toTxPort.Sized txSize := h.tx.registers side.toRegPort
  have htx := hside.purge hw card
  dsimp only at hrx ⊢
  generalize FsccDriver.fsccIoPurgeTx hw (d.setRxSide side).tx card = sent at htx ⊢
  obtain ⟨status', tx, card'⟩ := sent
  refine ⟨?_, htx⟩
  show side.rx.Shaped rxSize
  rw [hrx]
  exact ⟨fun hpos ↦ ⟨[], resetRx_shape hpos h.rx⟩⟩

theorem Driver.Sized.configure (h : d.Sized rxSize txSize) (outcome : PrepareOutcome)
    (storage : FsccRegisters) : (d.configure hw outcome storage).Shaped rxSize txSize :=
  ((h.setStored hw storage).startClock hw outcome.clockBits).enableDma.purge

theorem Driver.sized_created {outcome : PrepareOutcome} {memory : FsccMemory} (hfits : memory.Fits)
    (hrx : (d.createRx outcome memory).1 = .success)
    (htx : ((d.createRx outcome memory).2.createTx outcome memory).1 = .success) :
    ∃ rxSize < 1610612736, ∃ txSize,
      ((d.createRx outcome memory).2.createTx outcome memory).2.Sized rxSize txSize := by
  obtain ⟨rxSize, hlt, hrxSized⟩ := fsccIoCreateRx_sized hrx hfits.1
  obtain ⟨txSize, htxSized⟩ := fsccIoCreateTx_sized htx hfits.2
  exact ⟨rxSize, hlt, txSize, hrxSized, htxSized⟩

/-- No DMA engine writes to the descriptors. -/
def LeavesDescs (s : System H) (step : PortEvent H × (Nat → Outcome)) : Prop :=
  match step.1 with
  | .hardware rxDescriptors txDescriptors _ =>
      rxDescriptors = s.driver.rx.rxDescriptors ∧ txDescriptors = s.driver.tx.txDescriptors
  | _ => True

theorem portStep_shaped (hrx : rxSize < 1610612736) (s : System H)
    (step : PortEvent H × (Nat → Outcome)) (hleaves : LeavesDescs s step)
    (h : s.driver.Shaped rxSize txSize) : (portStep hw s step).driver.Shaped rxSize txSize := by
  refine (shaped_driven hrx).step s step (fun _ _ _ ↦ trivial) (fun d hd ↦ hd h)
    fun _ _ card hevent ↦ ?_
  rw [LeavesDescs, hevent] at hleaves
  obtain ⟨rfl, rfl⟩ := hleaves
  exact ⟨h.rx, h.tx⟩

/-- From the callback on both rings keep their shape in every run in which only the driver writes to
the descriptors. -/
theorem fscc_prepared_port_rings (hw : Hardware H) (outcome : PrepareOutcome) (key : DeviceKey)
    (d : Driver H) (hprepared : (fsccEvtDevicePrepareHardware hw outcome key d).1 = .success)
    (hfits : (fsccPortGetDefaultMemory outcome.key key defaultMemory).2.1.Fits)
    (outcomes : Nat → Outcome) (steps : List (PortEvent H × (Nat → Outcome)))
    (hleaves : Runs.Along LeavesDescs (portStep hw)
      (systemStart (fsccEvtDevicePrepareHardware hw outcome key d).2.2 outcomes) steps) :
    let s := steps.foldl (portStep hw)
      (systemStart (fsccEvtDevicePrepareHardware hw outcome key d).2.2 outcomes)
    (0 < s.driver.rx.rxNum → RxSegment s.driver.rx) ∧
      (0 < s.driver.tx.txNum → TxSegment s.driver.tx.toTxPort) := by
  intro s
  obtain ⟨d', key', hrx, htx, hbehind⟩ := fsccEvtDevicePrepareHardware_success hprepared
  obtain ⟨rxSize, hlt, txSize, hsized⟩ := Driver.sized_created hfits hrx htx
  have hstart : (fsccEvtDevicePrepareHardware hw outcome key d).2.2.Shaped rxSize txSize := by
    rw [hbehind]
    exact hsized.configure outcome _
  have hrun : s.driver.Shaped rxSize txSize := hleaves.invariant (portStep_shaped hlt) hstart
  constructor
  · intro hpos
    obtain ⟨finished, hring⟩ := hrun.rx.shape hpos
    exact hring.segment
  · intro hpos
    obtain ⟨waiting, hring⟩ := hrun.tx.shape hpos
    exact hring.segment

/-- Two frames of eight bytes for each ring. -/
def smallKey : DeviceKey := fun name ↦
  if name = "TxNum" ∨ name = "RxNum" then some 2
  else if name = "TxSize" ∨ name = "RxSize" then some 8
  else none

-- A frame of two pieces, and what the workers make of it.
def writeThenWork : List (PortEvent (Nat × Nat → BitVec 32) × (Nat → Outcome)) :=
  [(.evtIoDeviceControl ⟨0, 0, []⟩ (.enable .ignoreTimeout), fun _ ↦ ⟨[], .success⟩),
    (.evtIoWrite ⟨1, 12, List.replicate 12 0xa5⟩, fun _ ↦ ⟨[], .success⟩),
    (.dpc (.interrupt .oframe) 0, fun _ ↦ ⟨[], .success⟩),
    (.dpc (.interrupt .iframe) 0, fun _ ↦ ⟨[], .success⟩)]

theorem writeThenWork_leaves (s : System (Nat × Nat → BitVec 32)) :
    Runs.Along LeavesDescs (portStep memoryCard) s writeThenWork :=
  ⟨trivial, trivial, trivial, trivial, trivial⟩

theorem fscc_prepared_port_rings_written :
    let d := (fsccEvtDevicePrepareHardware memoryCard everyCallSucceeds smallKey newPort).2.2
    let s := writeThenWork.foldl (portStep memoryCard) (systemStart d fun _ ↦ ⟨[], .success⟩)
    (0 < s.driver.rx.rxNum → RxSegment s.driver.rx) ∧
      (0 < s.driver.tx.txNum → TxSegment s.driver.tx.toTxPort) :=
  fscc_prepared_port_rings memoryCard everyCallSucceeds smallKey newPort rfl (by decide)
    (fun _ ↦ ⟨[], .success⟩) writeThenWork (writeThenWork_leaves _)

end Prepared

end Handlers

end FsccDriver

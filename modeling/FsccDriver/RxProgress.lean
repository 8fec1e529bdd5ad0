import FsccDriver.FramedReceive
import FsccDriver.RxShape

/-!
# RxProgress — the framed receiver does not wedge

The finished descriptors behind the last one with FE hold a frame that is still arriving, and no read
gives them back before it is complete.  Each has taken its whole buffer, or `2 ^ 29` bytes when the
count has run into CSTOP.  So a frame that is shorter than the ring never fills all of it.
-/

namespace FsccDriver

open Words

variable {H : Type} {hw : Hardware H} {s s' : H} {ds taken held r : Nat} {port port' : RxPort}
  {desc : DmaFrame} {ended tail : List DmaFrame}

/-! ## The unfinished frame in the ring -/

-- What a descriptor takes before it is finished.
def pieceSize (ds : Nat) : Nat := min ds 536870912

structure OpenAt (ds held : Nat) (desc : DmaFrame) : Prop where
  dataSize : desc.dataSize = ds
  control : desc.control = descHiBit + held

/-- The finished descriptors are `ended`, up to the last one with FE, and `tail` behind it; the open
one has `held` bytes. -/
structure TailRing (ds : Nat) (ended tail : List DmaFrame) (held : Nat) (port : RxPort) : Prop where
  holds : Cyclic.Holds (StoppedDesc ds) (OpenAt ds held) (OpenAt ds 0) (ended ++ tail)
    port.rxDescriptors port.rxNum port.userRxDesc
  fifo : port.fifoRxDesc = (port.userRxDesc + (ended ++ tail).length) % port.rxNum
  held_lt : held < pieceSize ds
  held_full : (ended ++ tail).length = port.rxNum → held = 0
  last : ∀ desc ∈ ended.getLast?, desc.EndsFrame
  behind : ∀ desc ∈ tail, ¬ desc.EndsFrame

/-- Of the frame that is still arriving `taken` bytes are in the ring, `held` of them in the open
descriptor. -/
def Tailed (ds taken held : Nat) (port : RxPort) : Prop :=
  ∃ ended tail, TailRing ds ended tail held port ∧ tail.length * pieceSize ds + held ≤ taken

theorem OpenAt.filling (h : OpenAt ds held desc) (hlt : held < pieceSize ds) : FillingDesc ds desc := by
  have hcontrol := h.control
  rw [descHiBit] at hcontrol
  rw [pieceSize] at hlt
  refine ⟨h.dataSize, by omega, Or.inr ?_⟩
  rw [and_dmaMaxLength]
  omega

theorem OpenAt.cleared (h : OpenAt ds 0 desc) : ClearedDesc ds desc := by
  have hcontrol : desc.control = descHiBit := h.control
  refine ⟨h.dataSize, ?_, ?_⟩
  · rw [hcontrol]
    decide
  · rw [hcontrol]
    exact descHiBit_and_dmaMaxLength

theorem TailRing.shape (h : TailRing ds ended tail held port) : RxShape ds (ended ++ tail) port :=
  ⟨h.holds.imp (fun _ _ hstopped ↦ hstopped) (fun _ hopen ↦ hopen.filling h.held_lt)
    fun _ hopen ↦ hopen.cleared, h.fifo⟩

-- A read takes no descriptor of the unfinished frame.
theorem TailRing.release (h : TailRing ds ended tail held port)
    (hready : (fsccUserNextReadSize port).1 = true) :
    ∃ ended', TailRing ds ended' tail held (releaseUserDesc port) := by
  obtain ⟨last, hmem, hends⟩ := h.shape.ready_iff.mp hready
  cases ended with
  | nil => exact absurd hends (h.behind last hmem)
  | cons first ended =>
    have hring := h.holds
    rw [List.cons_append] at hring
    have hfreed : OpenAt ds 0 { port.userDesc with timestamp := 0, control := descHiBit } :=
      ⟨hring.head.dataSize, rfl⟩
    have hzero : (ended ++ tail).length + 1 = port.rxNum → held = 0 := h.held_full
    have hfits : (ended ++ tail).length + 1 ≤ port.rxNum := hring.fits
    refine ⟨ended, hring.pop hfreed fun hfull ↦ (hzero hfull) ▸ hfreed, ?_, h.held_lt, fun hfull ↦ ?_,
      fun desc hlast ↦ ?_, h.behind⟩
    · show port.fifoRxDesc =
        (Cyclic.next port.rxNum port.userRxDesc + (ended ++ tail).length) % port.rxNum
      rw [h.fifo, List.cons_append, List.length_cons, Cyclic.add_mod_next hring.origin_lt]
    · change (ended ++ tail).length = port.rxNum at hfull
      omega
    · apply h.last
      cases ended with
      | nil => cases hlast
      | cons second ended => rwa [List.getLast?_cons_cons]

theorem TailRing.setFrame (h : TailRing ds ended tail held port) (size bytes : Int) :
    TailRing ds ended tail held { port with rxFrameSize := size, rxBytesInFrame := bytes } :=
  ⟨h.holds, h.fifo, h.held_lt, h.held_full, h.last, h.behind⟩

theorem Tailed.setFrameSize (h : Tailed ds taken held port) (size : Int) :
    Tailed ds taken held { port with rxFrameSize := size } := by
  obtain ⟨ended, tail, hring, hcount⟩ := h
  exact ⟨ended, tail, hring.setFrame size _, hcount⟩

theorem Tailed.release (h : Tailed ds taken held port)
    (hready : (fsccUserNextReadSize port).1 = true) : Tailed ds taken held (releaseUserDesc port) := by
  obtain ⟨ended, tail, hring, hcount⟩ := h
  obtain ⟨ended', hring'⟩ := hring.release hready
  exact ⟨ended', tail, hring', hcount⟩

theorem Released.tailed (hreleased : Released port port') (h : Tailed ds taken held port) :
    Tailed ds taken held port' := by
  induction hreleased with
  | refl port => exact h
  | head hready _ ih => exact ih (h.release hready)

/-- With no frame to read, a ring that is longer than what was taken of a frame has an open
descriptor. -/
theorem Tailed.ready (h : Tailed ds taken held port) (hlt : taken < port.rxNum * pieceSize ds)
    (hfull : port.fifoDesc.control &&& descCstopBit = descCstopBit) :
    (fsccUserNextReadSize port).1 = true := by
  obtain ⟨ended, tail, hring, hcount⟩ := h
  have hall : port.rxNum ≤ (ended ++ tail).length := by
    by_contra hroom
    have hopen := unfinished_of_lt (hring.shape.fifoDesc (Nat.lt_of_not_le hroom)).control
    rw [hopen.2] at hfull
    exact absurd hfull (by decide)
  rw [hring.shape.ready_iff]
  cases hlast : ended.getLast? with
  | some last =>
    exact ⟨last, List.mem_append_left _ (List.mem_of_getLast? hlast), hring.last last hlast⟩
  | none =>
    -- All of the ring is one unfinished frame.
    rw [List.getLast?_eq_none_iff.mp hlast, List.nil_append] at hall
    have hpieces := Nat.mul_le_mul_right (pieceSize ds) hall
    omega

/-! ## One round of the driver -/

theorem TailRing.room (h : TailRing ds ended tail held port)
    (hopen : ¬ port.fifoDesc.control &&& descCstopBit = descCstopBit) :
    (ended ++ tail).length < port.rxNum := by
  by_contra hfull
  exact hopen (h.shape.fifoDesc_full hfull)

theorem TailRing.fifoDesc (h : TailRing ds ended tail held port)
    (hlt : (ended ++ tail).length < port.rxNum) : OpenAt ds held port.fifoDesc := by
  have hcur := h.holds.cur hlt
  rwa [Cyclic.slot, ← h.fifo] at hcur

-- The open descriptor is finished: it ends a frame, or it is one more piece of it.
theorem TailRing.finish (h : TailRing ds ended tail held port)
    (hlt : (ended ++ tail).length < port.rxNum) (hsize : desc.dataSize = ds)
    (hcstop : ¬ desc.control &&& descCstopBit = 0) :
    (desc.EndsFrame → TailRing ds (ended ++ tail ++ [desc]) [] 0 (port.setFifoDesc desc).nextFifo) ∧
      (¬ desc.EndsFrame →
        TailRing ds ended (tail ++ [desc]) 0 (port.setFifoDesc desc).nextFifo) := by
  have hholds := h.holds.push (OpenAt ds 0) hlt ⟨rfl, hsize, hcstop⟩ fun _ ↦ id
  rw [← h.fifo] at hholds
  have hfifo : Cyclic.next port.rxNum port.fifoRxDesc =
      (port.userRxDesc + (ended ++ tail ++ [desc]).length) % port.rxNum := by
    rw [h.fifo, Cyclic.next_add_mod (Nat.lt_of_le_of_lt (Nat.zero_le _) hlt)]
    simp only [List.length_append, List.length_singleton]
  have hpos : 0 < pieceSize ds := Nat.lt_of_le_of_lt (Nat.zero_le _) h.held_lt
  constructor
  · intro hends
    refine ⟨?_, ?_, hpos, fun _ ↦ rfl, fun last hlast ↦ ?_, fun _ hmem ↦ absurd hmem List.not_mem_nil⟩
    · rw [List.append_nil]
      exact hholds
    · rw [List.append_nil]
      exact hfifo
    · rw [List.getLast?_concat] at hlast
      exact Option.some.inj hlast ▸ hends
  · intro hmid
    rw [List.append_assoc] at hholds hfifo
    exact ⟨hholds, hfifo, hpos, fun _ ↦ rfl, h.last,
      List.forall_mem_append.mpr ⟨h.behind, List.forall_mem_singleton.mpr hmid⟩⟩

theorem TailRing.fill (h : TailRing ds ended tail held port)
    (hlt : (ended ++ tail).length < port.rxNum) (hdesc : OpenAt ds (held + r) desc)
    (hheld : held + r < pieceSize ds) :
    TailRing ds ended tail (held + r) (port.setFifoDesc desc) := by
  have hholds := h.holds.setCur hlt hdesc
  rw [← h.fifo] at hholds
  exact ⟨hholds, h.fifo, hheld, fun hfull ↦ absurd hlt (hfull ▸ Nat.lt_irrefl _), h.last, h.behind⟩

-- The control word of a descriptor with `n` bytes that has just taken some of them.
theorem piece_control {n : Nat} (hfits : n ≤ ds) (hshort : n < 536870912 + 8192) :
    let control := if descHiBit + n &&& dmaMaxLength ≥ ds then
      descHiBit + n &&& not32 dmaMaxLength ||| descCstopBit else descHiBit + n
    (pieceSize ds ≤ n → ¬ control &&& descCstopBit = 0 ∧ control &&& descFeBit = 0) ∧
      (n < pieceSize ds → control = descHiBit + n ∧ control &&& descCstopBit = 0) := by
  have hhi : descHiBit = 536870912 := rfl
  have hmask := and_dmaMaxLength (descHiBit + n)
  unfold pieceSize
  rw [hmask]
  by_cases hcarry : n < 536870912
  · by_cases hfull : (descHiBit + n) % 536870912 ≥ ds
    · rw [if_pos hfull, full_control (by omega)]
      dsimp only
      rw [and_descCstopBit, and_descFeBit]
      omega
    · rw [if_neg hfull]
      dsimp only
      rw [and_descCstopBit, and_descFeBit]
      omega
  · rw [if_neg (by omega)]
    dsimp only
    rw [and_descCstopBit, and_descFeBit]
    omega

theorem or_descFeBit_ne_zero (c : Nat) : (c ||| descFeBit) &&& descFeBit ≠ 0 := by
  intro h
  rw [Nat.and_or_distrib_right, Nat.or_eq_zero_iff] at h
  exact absurd h.2 (by decide)

-- The reading of the clock, if there is one, comes last.
theorem stamp_cases (hw : Hardware H) (timestamp : BitVec 64) (s : H) :
    let stamped := if timestamp = 0 then hw.keQuerySystemTime s else (timestamp, s)
    stamped.2 = s ∨ stamped.2 = (hw.keQuerySystemTime s).2 := by
  by_cases hempty : timestamp = 0
  · rw [if_pos hempty]
    exact Or.inr rfl
  · rw [if_neg hempty]
    exact Or.inl rfl

variable {data : List Byte}

/-- A round over an open descriptor takes `r` bytes: they end the frame, or the ring holds as many
more of it. -/
theorem Tailed.fifoFill (h : Tailed ds taken held port)
    (hopen : ¬ port.fifoDesc.control &&& descCstopBit = descCstopBit) (hfits : held + r ≤ ds)
    (hshort : r ≤ 8192)
    (hrep : fsccPortGetRegisterRep hw port.channel 0 fifoOffset r s = (data, s')) :
    ∃ again port' s'', fifoFill hw r port s = (again, port', s'') ∧
      (s'' = s' ∨ s'' = (hw.keQuerySystemTime s').2) ∧ port'.rxNum = port.rxNum ∧
      ((port.rxFrameSize > 0 ∧ port.bytesAfter r ≥ port.rxFrameSize ∧ Tailed ds 0 0 port' ∧
          port'.rxFrameSize = 0 ∧ port'.rxBytesInFrame = 0) ∨
        (¬ (port.rxFrameSize > 0 ∧ port.bytesAfter r ≥ port.rxFrameSize) ∧
          (Tailed ds (taken + r) 0 port' ∨ Tailed ds (taken + r) (held + r) port') ∧
          port'.rxFrameSize = port.rxFrameSize ∧ port'.rxBytesInFrame = port.bytesAfter r)) := by
  obtain ⟨ended, tail, hring, hcount⟩ := h
  have hlt := hring.room hopen
  have hdesc := hring.fifoDesc hlt
  have hheld := hring.held_lt
  have hpiece : pieceSize ds ≤ 536870912 := Nat.min_le_right _ _
  have hcontrol : u32 ((port.fifoDesc.control : Int) + r) = descHiBit + (held + r) := by
    rw [hdesc.control, u32_add_of_lt (by rw [descHiBit]; omega), Nat.add_assoc]
  obtain ⟨hstop, hmore⟩ := piece_control hfits (by omega)
  have hstamp := stamp_cases hw port.fifoDesc.timestamp s'
  unfold FsccDriver.fifoFill
  dsimp only at hstamp ⊢
  rw [hrep]
  dsimp only
  rw [hcontrol, hdesc.dataSize]
  generalize (if descHiBit + (held + r) &&& dmaMaxLength ≥ ds then _ else _) = control at hstop hmore
  generalize (if port.fifoDesc.timestamp = 0 then _ else _) = stamped at hstamp
  obtain ⟨timestamp, s''⟩ := stamped
  generalize Bytes.write port.fifoDesc.buffer _ data = buffer
  by_cases hframe : port.rxFrameSize > 0 ∧ port.bytesAfter r ≥ port.rxFrameSize
  · have hcstop := or_descCstopBit_ne_zero (u32 port.rxFrameSize) descFeBit
    have hfe := or_descFeBit_ne_zero (u32 port.rxFrameSize ||| descCstopBit)
    simp only [if_pos hframe, if_pos hcstop]
    refine ⟨_, _, _, rfl, hstamp, rfl, Or.inl ⟨hframe.1, hframe.2, ?_, rfl, rfl⟩⟩
    exact ⟨_, [], ((hring.setFrame 0 0).finish hlt rfl hcstop).1 ⟨hfe, hcstop⟩,
      Nat.le_of_eq (Nat.zero_mul _)⟩
  · simp only [if_neg hframe]
    by_cases hpiece : pieceSize ds ≤ held + r
    · obtain ⟨hcstop, hfe⟩ := hstop hpiece
      simp only [if_pos hcstop]
      refine ⟨_, _, _, rfl, hstamp, rfl, Or.inr ⟨hframe, Or.inl ?_, rfl, rfl⟩⟩
      refine ⟨ended, tail ++ [_],
        ((hring.setFrame _ (port.bytesAfter r)).finish hlt rfl hcstop).2 fun hends ↦ hends.1 hfe, ?_⟩
      rw [List.length_append, List.length_singleton, Nat.add_mul]
      omega
    · obtain ⟨hopen', hcstop⟩ := hmore (Nat.lt_of_not_le hpiece)
      rw [if_neg (not_not.mpr hcstop)]
      refine ⟨_, _, _, rfl, Or.inl rfl, rfl, Or.inr ⟨hframe, Or.inr ?_, rfl, rfl⟩⟩
      refine ⟨ended, tail,
        (hring.setFrame _ (port.bytesAfter r)).fill hlt ⟨rfl, hopen'⟩ (Nat.lt_of_not_le hpiece), ?_⟩
      omega

theorem Tailed.fifoReadStep (h : Tailed ds taken held port) (hds : ds < 4294967296)
    (hopen : ¬ port.fifoDesc.control &&& descCstopBit = descCstopBit) {len : Nat} (size : Int)
    (hlen : receiveLength hw port s = (len, { port with rxFrameSize := size }, s')) :
    fifoReadStep hw port s = FsccDriver.fifoFill hw (min len (ds - held)) { port with rxFrameSize := size } s' := by
  obtain ⟨ended, tail, hring, -⟩ := h
  have hdesc := hring.fifoDesc (hring.room hopen)
  have hheld := hring.held_lt
  rw [pieceSize] at hheld
  have hcount : port.fifoDesc.control &&& dmaMaxLength = held := by
    rw [hdesc.control, and_dmaMaxLength, descHiBit]
    omega
  exact fifoReadStep_fill hds hopen hdesc.dataSize hcount (by omega) size hlen

/-! ## The frame on its way -/

/-- A frame whose length can be read from BC_FIFO_L and that the pieces of a ring can hold.  From
`2 ^ 31` bytes on, where the driver never finishes it, it may not fill the ring either. -/
structure FitsRing (ds rxNum length : Nat) : Prop where
  word : length < 4294967296
  fits : length ≤ rxNum * pieceSize ds
  strict : 2147483648 ≤ length → length < rxNum * pieceSize ds

/-- The frames `todo` are on their way; of the first one `taken` bytes are in the ring, `held` of them
in the open descriptor. -/
inductive Taking : List WireFrame → (taken held : Nat) → RxPort → RxFifo → Prop where
  | idle {held : Nat} {port : RxPort} {fifo : RxFifo} : port.rxFrameSize = 0 →
      Carries (onLine []) 0 [] fifo → Taking [] 0 held port fifo
  | unknown {frame : WireFrame} {frames : List WireFrame} {taken held : Nat} {port : RxPort}
      {fifo : RxFifo} : taken < frame.data.length → taken % 4 = 0 → held % 4 = 0 →
      port.rxFrameSize = 0 → Carries (onLine (frame :: frames)) taken [] fifo →
      Taking (frame :: frames) taken held port fifo
  | known {frame : WireFrame} {frames : List WireFrame} {taken held : Nat} {port : RxPort}
      {fifo : RxFifo} : taken < frame.data.length → taken % 4 = 0 → held % 4 = 0 →
      port.rxFrameSize = i32 frame.data.length →
      Carries (onLine (frame :: frames)) taken [frame.data.length] fifo →
      Taking (frame :: frames) taken held port fifo
  -- As an `int` the length is negative, and such a frame is never finished.
  | lost {frame : WireFrame} {frames : List WireFrame} {held : Nat} {port : RxPort} {fifo : RxFifo} :
      2147483648 ≤ frame.data.length → port.rxFrameSize = i32 frame.data.length →
      Taking (frame :: frames) frame.data.length held port fifo

def OnWay (ds rxNum : Nat) (port : RxPort) (fifo : RxFifo) : Prop :=
  ∃ todo taken held, Tailed ds taken held port ∧ Taking todo taken held port fifo ∧
    port.rxBytesInFrame = i32 taken ∧ port.rxNum = rxNum ∧
    ∀ frame ∈ todo, FitsRing ds rxNum frame.data.length

section OnWay

variable {rxNum : Nat} {fifo fifo' : RxFifo} {schedule : Nat → Nat} {clock : Nat → BitVec 64}
  {todo frames : List WireFrame} {frame : WireFrame} {known : List Nat}

theorem OnWay.ready (h : OnWay ds rxNum port fifo) (hpos : 0 < rxNum)
    (hfull : port.fifoDesc.control &&& descCstopBit = descCstopBit) :
    (fsccUserNextReadSize port).1 = true := by
  obtain ⟨todo, taken, held, htailed, htaking, -, rfl, hfits⟩ := h
  refine htailed.ready ?_ hfull
  cases htaking with
  | idle _ _ =>
    obtain ⟨_, _, hring, -⟩ := htailed
    exact Nat.mul_pos hpos (Nat.lt_of_le_of_lt (Nat.zero_le _) hring.held_lt)
  | unknown hlt _ _ _ _ => exact Nat.lt_of_lt_of_le hlt (hfits _ List.mem_cons_self).fits
  | known hlt _ _ _ _ => exact Nat.lt_of_lt_of_le hlt (hfits _ List.mem_cons_self).fits
  | lost hlong _ => exact (hfits _ List.mem_cons_self).strict hlong

theorem Taking.start (hsize : port.rxFrameSize = 0) (h : Carries (onLine frames) 0 [] fifo) :
    Taking frames 0 0 port fifo := by
  cases frames with
  | nil => exact Taking.idle hsize h
  | cons frame frames =>
    exact Taking.unknown (Nat.lt_of_lt_of_le Nat.two_pos frame.two_le) rfl rfl hsize h

theorem Carries.stamped {p : Nat} (h : Carries (onLine todo) p known fifo)
    (hclock : fifo' = fifo ∨ fifo' = ((rxFifo schedule clock).keQuerySystemTime fifo).2) :
    Carries (onLine todo) p known fifo' := by
  rcases hclock with rfl | rfl
  · exact h
  · exact h.queryTime

theorem bytesAfter_wrapping (hbytes : port.rxBytesInFrame = i32 taken) (hlt : taken + r < 4294967296) :
    port.bytesAfter r = i32 (taken + r) := by
  have hsum : u32 (i32 taken + r) = taken + r := by
    unfold u32 i32
    split <;> omega
  rw [RxPort.bytesAfter, hbytes, hsum]

-- What is left of the frame, unless only the length has wrapped.
theorem frameRest_wrapping {length : Nat} (hsize : port.rxFrameSize = i32 length)
    (hbytes : port.rxBytesInFrame = i32 taken) (hlt : taken < length) (hword : length < 4294967296) :
    frameRest port = length - taken ∨ (frameRest port = 0 ∧ 2147483648 ≤ length) := by
  rw [frameRest, hsize, hbytes]
  unfold i32 u32
  by_cases hlong : length < 2147483648
  · rw [if_pos hlong, if_pos (by omega)]
    omega
  · rw [if_neg hlong]
    by_cases hwrapped : taken < 2147483648
    · rw [if_pos hwrapped, if_neg (by omega)]
      exact Or.inr ⟨rfl, Nat.le_of_not_lt hlong⟩
    · rw [if_neg hwrapped, if_pos (by omega)]
      omega

-- The length is known: the round takes the rest of the frame or fills the descriptor with it.
theorem Tailed.knownRound (h : Tailed ds taken held port) (hds : BufferSize ds)
    (hopen : ¬ port.fifoDesc.control &&& descCstopBit = descCstopBit)
    (hfits : ∀ f ∈ frame :: frames, FitsRing ds port.rxNum f.data.length)
    (hlt : taken < frame.data.length) (halign : taken % 4 = 0) (hheld : held % 4 = 0)
    (hsize : port.rxFrameSize = i32 frame.data.length) (hbytes : port.rxBytesInFrame = i32 taken)
    (hc : Carries (onLine (frame :: frames)) taken [frame.data.length] fifo) :
    let (_, port', fifo') := FsccDriver.fifoFill (rxFifo schedule clock)
      (min (frameRest port) (ds - held)) port fifo
    OnWay ds port.rxNum port' fifo' := by
  have hword := (hfits frame List.mem_cons_self).word
  have hdsAlign := hds.align
  have hcap : held < pieceSize ds := by
    obtain ⟨_, _, hring, -⟩ := h
    exact hring.held_lt
  rw [pieceSize] at hcap
  have hrest := frameRest_wrapping hsize hbytes hlt hword
  generalize frameRest port = rest at hrest
  generalize hr : min rest (ds - held) = r
  obtain ⟨hroom, hle, hwhole⟩ : r ≤ ds - held ∧ taken + r ≤ frame.data.length ∧
      (taken + r < frame.data.length → r % 4 = 0) := by omega
  clear hrest hr
  have hpad : wordPadded r ≤ fifo.waiting.length ∧
      (taken + r = frame.data.length →
        taken + wordPadded r = wordPadded frame.data.length) := by
    have hwaiting := hc.complete
    unfold wordPadded at *
    omega
  have hshort : r ≤ 8192 := by
    have hfifo := hc.room
    unfold wordPadded at hpad
    omega
  have hrep := (rxFifo_popsWords schedule clock).getRegisterRep port.channel hpad.1
  obtain ⟨again, port', fifo', hrun, hclock, hnum, ⟨hpos, hdone, htailed, hsize', hbytes'⟩ |
    ⟨hmore, htailed, hsize', hbytes'⟩⟩ := h.fifoFill hopen (by omega) hshort hrep
  · rw [bytesAfter_wrapping hbytes (by omega), hsize] at hdone
    rw [hsize] at hpos
    have hsmall : frame.data.length < 2147483648 := by
      unfold i32 at hpos
      split at hpos <;> omega
    rw [i32_of_lt hsmall, i32_of_lt (by omega)] at hdone
    have hpop := hc.pop hpad.1
    rw [hpad.2 (by omega)] at hpop
    rw [hrun]
    exact ⟨frames, 0, 0, htailed, Taking.start hsize' (hpop.nextFrame.stamped hclock), hbytes', hnum,
      fun f hmem ↦ hfits f (List.mem_cons_of_mem _ hmem)⟩
  · rw [bytesAfter_wrapping hbytes (by omega)] at hmore hbytes'
    rw [hsize] at hmore
    have hlong : taken + r = frame.data.length → 2147483648 ≤ frame.data.length := by
      intro hall
      by_contra hsmall
      rw [hall, i32_of_lt (by omega)] at hmore
      omega
    have htaking : ∀ held', (taken + r < frame.data.length → held' % 4 = 0) →
        Taking (frame :: frames) (taken + r) held' port' fifo' := by
      intro held' hheld'
      rcases Nat.lt_or_eq_of_le hle with hless | hall
      · have hpop := (hc.pop hpad.1).stamped hclock
        have hwords : wordPadded r = r := by
          have hr4 := hwhole hless
          unfold wordPadded
          omega
        rw [hwords] at hpop
        exact Taking.known hless (by omega) (hheld' hless) (hsize'.trans hsize) hpop
      · rw [hall]
        exact Taking.lost (hlong hall) (hsize'.trans hsize)
    rw [hrun]
    rcases htailed with htailed | htailed
    · exact ⟨_, _, 0, htailed, htaking 0 fun _ ↦ rfl, hbytes', hnum, hfits⟩
    · exact ⟨_, _, held + r, htailed, htaking _ (by omega), hbytes', hnum, hfits⟩

-- The length is not known yet: the round takes whole words, and never the last one of the frame.
theorem Tailed.unknownRound (h : Tailed ds taken held port) (hds : BufferSize ds)
    (hopen : ¬ port.fifoDesc.control &&& descCstopBit = descCstopBit)
    (hfits : ∀ f ∈ frame :: frames, FitsRing ds port.rxNum f.data.length)
    (halign : taken % 4 = 0) (hheld : held % 4 = 0)
    (hsize : port.rxFrameSize = 0) (hbytes : port.rxBytesInFrame = i32 taken)
    (hc : Carries (onLine (frame :: frames)) taken [] fifo) (hnone : fifo.lengths = []) :
    let (_, port', fifo') := FsccDriver.fifoFill (rxFifo schedule clock)
      (min (fifo.waiting.length - fifo.waiting.length % 4) (ds - held)) port fifo
    OnWay ds port.rxNum port' fifo' := by
  have hword := (hfits frame List.mem_cons_self).word
  have hdsAlign := hds.align
  have hcap : held < pieceSize ds := by
    obtain ⟨_, _, hring, -⟩ := h
    exact hring.held_lt
  rw [pieceSize] at hcap
  generalize hr : min (fifo.waiting.length - fifo.waiting.length % 4) (ds - held) = r
  have hroom := hc.room
  have hwords : wordPadded r = r := by
    unfold wordPadded
    omega
  have hless : taken + r < frame.data.length := by
    have hpartial := hc.unannounced hnone
    unfold wordPadded at hpartial
    omega
  have hrep := (rxFifo_popsWords schedule clock).getRegisterRep port.channel
    (show wordPadded r ≤ fifo.waiting.length by omega)
  obtain ⟨again, port', fifo', hrun, hclock, hnum, ⟨hpos, -⟩ | ⟨-, htailed, hsize', hbytes'⟩⟩ :=
    h.fifoFill hopen (by omega) (by omega) hrep
  · omega
  · have hpop := (hc.pop (show wordPadded r ≤ fifo.waiting.length by omega)).stamped hclock
    rw [hwords] at hpop
    rw [bytesAfter_wrapping hbytes (by omega)] at hbytes'
    rw [hrun]
    rcases htailed with htailed | htailed
    · exact ⟨_, _, 0, htailed, Taking.unknown hless (by omega) rfl (hsize'.trans hsize) hpop, hbytes',
        hnum, hfits⟩
    · exact ⟨_, _, held + r, htailed,
        Taking.unknown hless (by omega) (by omega) (hsize'.trans hsize) hpop, hbytes', hnum, hfits⟩

-- Nothing to take, and no frame to finish.
theorem Tailed.emptyRound (h : Tailed ds taken held port)
    (hopen : ¬ port.fifoDesc.control &&& descCstopBit = descCstopBit)
    (hfits : ∀ f ∈ todo, FitsRing ds port.rxNum f.data.length) (hsize : ¬ port.rxFrameSize > 0)
    (hbytes : port.rxBytesInFrame = i32 taken) (hword : taken < 4294967296)
    (htaking : ∀ held' port' fifo', port'.rxFrameSize = port.rxFrameSize →
      fifo' = fifo ∨ fifo' = ((rxFifo schedule clock).keQuerySystemTime fifo).2 →
      Taking todo taken held' port' fifo') :
    let (_, port', fifo') := FsccDriver.fifoFill (rxFifo schedule clock) 0 port fifo
    OnWay ds port.rxNum port' fifo' := by
  have hfit : held + 0 ≤ ds := by
    obtain ⟨_, _, hring, -⟩ := h
    exact Nat.le_of_lt (Nat.lt_of_lt_of_le hring.held_lt (Nat.min_le_left _ _))
  have hrep : fsccPortGetRegisterRep (rxFifo schedule clock) port.channel 0 fifoOffset 0 fifo =
      ([], fifo) := rfl
  obtain ⟨again, port', fifo', hrun, hclock, hnum, ⟨hpos, -⟩ | ⟨-, htailed, hsize', hbytes'⟩⟩ :=
    h.fifoFill hopen hfit (Nat.zero_le _) hrep
  · exact absurd hpos hsize
  · rw [bytesAfter_wrapping hbytes hword] at hbytes'
    rw [hrun]
    rcases htailed with htailed | htailed
    · exact ⟨_, _, _, htailed, htaking _ _ _ hsize' hclock, hbytes', hnum, hfits⟩
    · exact ⟨_, _, _, htailed, htaking _ _ _ hsize' hclock, hbytes', hnum, hfits⟩

theorem OnWay.fifoReadStep (schedule : Nat → Nat) (clock : Nat → BitVec 64)
    (h : OnWay ds rxNum port fifo) (hds : BufferSize ds) :
    OnWay ds rxNum (fifoReadStep (rxFifo schedule clock) port fifo).2.1
      (fifoReadStep (rxFifo schedule clock) port fifo).2.2 := by
  by_cases hopen : port.fifoDesc.control &&& descCstopBit = descCstopBit
  · rw [fifoReadStep_full hopen]
    exact h
  obtain ⟨todo, taken, held, htailed, htaking, hbytes, rfl, hfits⟩ := h
  cases htaking with
  | idle hsize hc =>
    have hlook := hc.look schedule
    obtain ⟨hempty, hnone⟩ := hlook.idle
    have hlen := receiveLength_unknown clock hc hsize hnone
    rw [hempty, List.length_nil, Nat.zero_sub] at hlen
    rw [htailed.fifoReadStep hds.lt hopen port.rxFrameSize hlen, Nat.zero_min]
    refine htailed.emptyRound hopen hfits (by omega) hbytes (by decide) fun held' port' fifo' hsize' hclock ↦ ?_
    exact Taking.idle (hsize'.trans hsize) (hlook.stamped hclock)
  | @unknown frame frames _ _ _ _ hlt halign hheld hsize hc =>
    have hlook := hc.look schedule
    have hfit := hfits frame List.mem_cons_self
    cases hlengths : (fifo.look schedule).lengths with
    | nil =>
      rw [htailed.fifoReadStep hds.lt hopen port.rxFrameSize (receiveLength_unknown clock hc hsize hlengths)]
      exact htailed.unknownRound hds hopen hfits halign hheld hsize hbytes hlook hlengths
    | cons length lengths =>
      have hfirst := hlook.first_length hlengths
      subst hfirst
      rw [htailed.fifoReadStep hds.lt hopen _ (receiveLength_wrapping clock hc hsize hlengths
        (Nat.lt_of_le_of_lt (Nat.zero_le _) hlt) hfit.word)]
      exact (htailed.setFrameSize (i32 frame.data.length)).knownRound hds hopen hfits hlt halign hheld rfl hbytes
        (hlook.popLength hlengths)
  | @known frame frames _ _ _ _ hlt halign hheld hsize hc =>
    have hfit := hfits frame List.mem_cons_self
    have hne : port.rxFrameSize ≠ 0 := by
      rw [hsize]
      exact i32_ne_zero (Nat.lt_of_le_of_lt (Nat.zero_le _) hlt) hfit.word
    rw [htailed.fifoReadStep hds.lt hopen port.rxFrameSize (receiveLength_known hne)]
    exact htailed.knownRound hds hopen hfits hlt halign hheld hsize hbytes hc
  | @lost frame frames _ _ _ hlong hsize =>
    have hfit := hfits frame List.mem_cons_self
    have hneg : port.rxFrameSize < 0 := by
      rw [hsize]
      exact i32_neg hlong hfit.word
    have hrest : frameRest port = 0 := by
      rw [frameRest, hsize, hbytes, if_neg (lt_irrefl _)]
    have hlen : receiveLength (rxFifo schedule clock) port fifo = (frameRest port, port, fifo) :=
      receiveLength_known (Int.ne_of_lt hneg)
    rw [htailed.fifoReadStep hds.lt hopen port.rxFrameSize hlen, hrest, Nat.zero_min]
    refine htailed.emptyRound hopen hfits (by omega) hbytes hfit.word fun held' port' fifo' hsize' _ ↦ ?_
    exact Taking.lost hlong (hsize'.trans hsize)

theorem Taking.keep (h : Taking todo taken held port fifo) (hsize : port'.rxFrameSize = port.rxFrameSize)
    (hcarries : ∀ p known, Carries (onLine todo) p known fifo → Carries (onLine todo) p known fifo') :
    Taking todo taken held port' fifo' := by
  cases h with
  | idle hzero hc => exact Taking.idle (hsize.trans hzero) (hcarries _ _ hc)
  | unknown hlt halign hheld hzero hc =>
    exact Taking.unknown hlt halign hheld (hsize.trans hzero) (hcarries _ _ hc)
  | known hlt halign hheld hlength hc =>
    exact Taking.known hlt halign hheld (hsize.trans hlength) (hcarries _ _ hc)
  | lost hlong hlength => exact Taking.lost hlong (hsize.trans hlength)

theorem OnWay.arrive (h : OnWay ds rxNum port fifo) (n : Nat) :
    OnWay ds rxNum port (fifo.receiveBytes n) := by
  obtain ⟨todo, taken, held, htailed, htaking, hbytes, hnum, hfits⟩ := h
  exact ⟨todo, taken, held, htailed, htaking.keep rfl fun _ _ hc ↦ hc.receiveBytes n, hbytes, hnum,
    hfits⟩

theorem OnWay.setOptions (h : OnWay ds rxNum port fifo) (a b c : Bool) :
    OnWay ds rxNum (port.setOptions a b c) fifo := by
  obtain ⟨todo, taken, held, ⟨ended, tail, hring, hcount⟩, htaking, hbytes, hnum, hfits⟩ := h
  have hring' : TailRing ds ended tail held (port.setOptions a b c) :=
    ⟨hring.holds, hring.fifo, hring.held_lt, hring.held_full, hring.last, hring.behind⟩
  exact ⟨todo, taken, held, ⟨ended, tail, hring', hcount⟩, htaking.keep rfl fun _ _ hc ↦ hc, hbytes, hnum,
    hfits⟩

theorem OnWay.userReadFrame (schedule : Nat → Nat) (clock : Nat → BitVec 64) (bufLength : Nat)
    (h : OnWay ds rxNum port fifo) :
    OnWay ds rxNum (fsccUserReadFrame (rxFifo schedule clock) bufLength port fifo).2.1
      (fsccUserReadFrame (rxFifo schedule clock) bufLength port fifo).2.2 := by
  obtain ⟨todo, taken, held, htailed, htaking, hbytes, hnum, hfits⟩ := h
  obtain ⟨ended, tail, hring, -⟩ := id htailed
  have hcarries : ∀ p known, Carries (onLine todo) p known fifo → Carries (onLine todo) p known
      (fsccUserReadFrame (rxFifo schedule clock) bufLength port fifo).2.2 :=
    fun p known hc ↦ fsccUserReadFrame_clock (fun _ hc ↦ hc.queryTime) bufLength port hc
  have hread := fsccUserReadFrame_released (rxFifo schedule clock) bufLength fifo hring.shape
  generalize fsccUserReadFrame (rxFifo schedule clock) bufLength port fifo = read at hread hcarries
  obtain ⟨result, port', fifo'⟩ := read
  rcases hread with ⟨-, rfl⟩ | ⟨-, hready, hreleased⟩
  · exact ⟨todo, taken, held, htailed, htaking.keep rfl hcarries, hbytes, hnum, hfits⟩
  · have hall := Released.head hready hreleased
    obtain ⟨-, -, -, hkeeps⟩ := hall.shape hring.shape
    exact ⟨todo, taken, held, hall.tailed htailed, htaking.keep hkeeps.rxFrameSize hcarries,
      hkeeps.rxBytesInFrame.trans hbytes, hkeeps.rxNum.trans hnum, hfits⟩

/-! ## Runs -/

def RxState.OnWay (ds rxNum : Nat) (s : RxState) : Prop := FsccDriver.OnWay ds rxNum s.port s.fifo

theorem RxState.OnWay.step {s : RxState} (h : s.OnWay ds rxNum) (hds : BufferSize ds)
    (action : RxAction) : (rxStep schedule clock s action).OnWay ds rxNum := by
  change FsccDriver.OnWay ds rxNum s.port s.fifo at h
  cases action with
  | arrive bytes => exact h.arrive bytes
  | fifoReadData =>
    exact fifoReadLoop_invariant (P := fun port fifo ↦ FsccDriver.OnWay ds rxNum port fifo)
      (fun _ _ h ↦ h.fifoReadStep schedule clock hds) _ h
  | setOptions a b c => exact h.setOptions a b c
  | userReadFrame bufLength => exact h.userReadFrame schedule clock bufLength.toNat

theorem rxStart_onWay (hmem : RxMemory ds port)
    (hfit : ∀ frame ∈ frames, FitsRing ds port.rxNum frame.data.length) :
    (rxStart port frames).OnWay ds port.rxNum := by
  have hpos : 0 < port.rxNum := Nat.lt_of_lt_of_le Nat.two_pos hmem.slots
  have hopen : ∀ i < port.rxNum, OpenAt ds 0 ((resetRx port).rxDescriptors i) := by
    intro i hi
    show OpenAt ds 0 (if i < port.rxNum then _ else _)
    rw [if_pos hi]
    exact ⟨(hmem.descs i hi).1, rfl⟩
  have hpiece : 0 < pieceSize ds := Nat.lt_min.mpr ⟨hmem.size.pos, by decide⟩
  have hring : TailRing ds [] [] 0 (resetRx port) := by
    refine ⟨.empty hpos hopen hopen, (Nat.zero_mod _).symm, hpiece, fun _ ↦ rfl, fun _ hlast ↦ ?_,
      fun _ hmem ↦ absurd hmem List.not_mem_nil⟩
    cases hlast
  have hcarries : Carries (onLine frames) 0 [] (rxStart port frames).fifo :=
    ⟨Nat.zero_le _, Nat.zero_le _, [], rfl, Nat.le_refl _, rfl, rfl⟩
  exact ⟨frames, 0, 0, ⟨[], [], hring, Nat.le_of_eq (Nat.zero_mul _)⟩, Taking.start rfl hcarries, rfl, rfl,
    hfit⟩

/-- The framed receiver does not wedge: whenever the driver finds the descriptor it should fill
finished, a frame is ready, and a read of it with a large enough buffer gives that descriptor back. -/
theorem fscc_framed_receive_not_wedged (schedule : Nat → Nat) (clock : Nat → BitVec 64)
    (hmem : RxMemory ds port) (frames : List WireFrame)
    (hfit : ∀ frame ∈ frames, FitsRing ds port.rxNum frame.data.length) (actions : List RxAction) :
    let s := actions.foldl (rxStep schedule clock) (rxStart port frames)
    s.port.fifoDesc.control &&& descCstopBit = descCstopBit →
      ∃ size, fsccUserNextReadSize s.port = (true, size) ∧
        ∀ bufLength, bufferRequirement s.port size ≤ bufLength →
          let (result, port', _) := fsccUserReadFrame (rxFifo schedule clock) bufLength s.port s.fifo
          result.status = .success ∧ ¬ port'.fifoDesc.control &&& descCstopBit = descCstopBit := by
  intro s hfull
  have hend : s.OnWay ds port.rxNum :=
    Runs.invariant (fun _ action h ↦ h.step hmem.size action) (rxStart_onWay hmem hfit) actions
  have hready := hend.ready (Nat.lt_of_lt_of_le Nat.two_pos hmem.slots) hfull
  obtain ⟨_, _, _, ⟨_, _, hring, -⟩, -⟩ := hend
  refine ⟨_, Prod.ext hready rfl, fun bufLength hlarge ↦ ?_⟩
  exact fsccUserReadFrame_opens (rxFifo schedule clock) s.fifo hring.shape hready hlarge

end OnWay

def ringFrame : WireFrame :=
  ⟨[1, 2, 3, 4, 5, 6, 7, 8], [], eightByteFrame.two_le, eightByteFrame.padded⟩

def overlongFrame : WireFrame := ⟨[1, 2, 3, 4, 5, 6, 7, 8, 9, 10, 11, 12], [], by decide, by decide⟩

-- Twelve bytes come in at every look.
def twelveBytes : Nat → Nat := fun _ ↦ 12

-- The frame takes all of the ring.
theorem fscc_framed_receive_not_wedged_full :
    let s := [RxAction.fifoReadData].foldl (rxStep twelveBytes constClock)
      (rxStart (twoDescPort 4) [ringFrame])
    ∃ size, fsccUserNextReadSize s.port = (true, size) ∧
      ∀ bufLength, bufferRequirement s.port size ≤ bufLength →
        let (result, port', _) := fsccUserReadFrame (rxFifo twelveBytes constClock) bufLength s.port s.fifo
        result.status = .success ∧ ¬ port'.fifoDesc.control &&& descCstopBit = descCstopBit :=
  fscc_framed_receive_not_wedged twelveBytes constClock
    (twoDescPort_memory ⟨by decide, by decide, by decide⟩) [ringFrame]
    (fun frame hframe ↦ by
      rw [List.mem_singleton.mp hframe]
      exact ⟨by decide, by decide, by decide⟩)
    [.fifoReadData] (by decide)

-- Eight of its twelve bytes fill the ring.
theorem fscc_framed_receive_wedged :
    let s := [RxAction.fifoReadData].foldl (rxStep twelveBytes constClock)
      (rxStart (twoDescPort 4) [overlongFrame])
    s.port.fifoDesc.control &&& descCstopBit = descCstopBit ∧
      (fsccUserNextReadSize s.port).1 = false := by
  decide

end FsccDriver

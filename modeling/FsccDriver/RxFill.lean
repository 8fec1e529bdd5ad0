import FsccDriver.RxRead

/-!
# RxFill — one round of `fscc_fifo_read_data` on an unfinished frame

`Filling ds ready drained port`: behind the finished frames `ready` the ring holds the first bytes
`drained` of a frame that is still arriving.  A round either takes more of it or completes it.
-/

namespace FsccDriver

open Words

variable {H : Type} {ds r : Nat} {ready : List StampedFrame} {drained data : List Byte}
  {port : RxPort} {hw : Hardware H} {s s' : H}

def Filling (ds : Nat) (ready : List StampedFrame) (drained : List Byte) (port : RxPort) : Prop :=
  ∃ mids held, HoldsFrames ds ready mids held port ∧ cellBytes mids ++ held = drained ∧
    port.rxBytesInFrame = drained.length

/-- What the open descriptor still takes. -/
def descRoom (ds : Nat) (drained : List Byte) : Nat := ds - drained.length % ds

theorem held_length {mids : List Cell} {held : List Byte} (hmids : Mids ds mids)
    (hlt : held.length < ds) (hdata : cellBytes mids ++ held = drained) :
    drained.length % ds = held.length := by
  rw [← hdata, List.length_append, hmids.bytes_length, Nat.mul_add_mod, Nat.mod_eq_of_lt hlt]

theorem Filling.setFrameSize (h : Filling ds ready drained port) (size : Int) :
    Filling ds ready drained { port with rxFrameSize := size } := by
  obtain ⟨mids, held, ⟨cells, hready, hmids, hring⟩, hdata, hbytes⟩ := h
  exact ⟨mids, held, ⟨cells, hready, hmids, hring.setFrame size _⟩, hdata, hbytes⟩

theorem Filling.setOptions (h : Filling ds ready drained port) (a b c : Bool) :
    Filling ds ready drained (port.setOptions a b c) := by
  obtain ⟨mids, held, ⟨cells, hready, hmids, hring⟩, hdata, hbytes⟩ := h
  exact ⟨mids, held, ⟨cells, hready, hmids, hring.setOptions a b c⟩, hdata, hbytes⟩

-- What an open descriptor says about the ring.
theorem Filling.opened (h : Filling ds ready drained port)
    (hopen : ¬ port.fifoDesc.control &&& descCstopBit = descCstopBit) :
    ∃ mids held cells, ReadyCells ds ready cells ∧ Mids ds mids ∧
      RxRing ds (cells ++ mids) held port ∧ (cells ++ mids).length < port.rxNum ∧
      cellBytes mids ++ held = drained := by
  obtain ⟨mids, held, ⟨cells, hready, hmids, hring⟩, hdata, -⟩ := h
  exact ⟨mids, held, cells, hready, hmids, hring, hring.room hopen, hdata⟩

-- While the frame so far is shorter than the ring and no other one is in it, a descriptor is open.
theorem Filling.not_full (h : Filling ds [] drained port) (hlt : drained.length < port.rxNum * ds) :
    ¬ port.fifoDesc.control &&& descCstopBit = descCstopBit := by
  obtain ⟨mids, held, ⟨cells, hready, hmids, hring⟩, hdata, -⟩ := h
  cases hready
  rw [List.nil_append] at hring
  have hlen : drained.length = ds * mids.length + held.length := by
    rw [← hdata, List.length_append, hmids.bytes_length]
  have hroom : mids.length < port.rxNum := by
    refine Nat.lt_of_mul_lt_mul_left (a := ds) ?_
    rw [Nat.mul_comm ds port.rxNum]
    omega
  exact (hring.fifoDesc hroom).not_cstop

theorem fifoReadStep_full (h : port.fifoDesc.control &&& descCstopBit = descCstopBit) :
    fifoReadStep hw port s = (false, port, s) := by
  rw [fifoReadStep, if_pos h]

theorem Filling.fifoReadStep {hw : Hardware H} {s s' : H} (h : Filling ds ready drained port)
    (hds : ds < 4294967296) (hopen : ¬ port.fifoDesc.control &&& descCstopBit = descCstopBit)
    {len : Nat} (size : Int)
    (hlen : receiveLength hw port s = (len, { port with rxFrameSize := size }, s')) :
    fifoReadStep hw port s =
      fifoFill hw (min len (descRoom ds drained)) { port with rxFrameSize := size } s' := by
  obtain ⟨mids, held, cells, -, hmids, hring, -, hdata⟩ := h.opened hopen
  rw [hring.fifoReadStep hds hopen size hlen, descRoom, held_length hmids hring.held_lt hdata]

theorem descRoom_pos (drained : List Byte) (hds : 0 < ds) : 0 < descRoom ds drained := by
  have hlt := Nat.mod_lt drained.length hds
  unfold descRoom
  omega

-- More of the frame, which is not complete with it.
theorem Filling.more (h : Filling ds ready drained port)
    (hopen : ¬ port.fifoDesc.control &&& descCstopBit = descCstopBit)
    (hrep : fsccPortGetRegisterRep hw port.channel 0 fifoOffset r s = (data, s'))
    (hdata : data.length = r) (hroom : r ≤ descRoom ds drained)
    (hlt : drained.length + r < 536870912)
    (hframe : ¬ (port.rxFrameSize > 0 ∧ ((drained.length + r : Nat) : Int) ≥ port.rxFrameSize)) :
    ∃ port', Filling ds ready (drained ++ data) port' ∧ port'.rxFrameSize = port.rxFrameSize ∧
      FifoKeeps port port' ∧
      ((r < descRoom ds drained ∧ fifoFill hw r port s = (false, port', s')) ∨
        (r = descRoom ds drained ∧ fifoFill hw r port s = (true, port', (hw.keQuerySystemTime s').2)))
      := by
  have hbytes : port.bytesAfter r = (drained.length + r : Nat) := by
    obtain ⟨mids, held, -, -, hbytes⟩ := h
    exact RxPort.bytesAfter_of_lt hbytes (by omega)
  rw [← hbytes] at hframe
  obtain ⟨mids, held, cells, hready, hmids, hring, hcells, hdrained⟩ := h.opened hopen
  have hheldLt := hring.held_lt
  have hheld := held_length hmids hheldLt hdrained
  have hmod := Nat.mod_le drained.length ds
  unfold descRoom at hroom ⊢
  have hfill : FillReady ds (cells ++ mids) held port r :=
    ⟨hring, hcells, by omega, by omega⟩
  have hlength : (drained ++ data).length = drained.length + r := by
    rw [List.length_append, hdata]
  rcases Nat.lt_or_eq_of_le hroom with hless | heq
  · obtain ⟨port', hrun, hring', hsize, hafter, hkeeps⟩ :=
      fifoFill_open hfill hrep hdata (by omega) hframe
    refine ⟨port', ⟨mids, held ++ data, ⟨cells, hready, hmids, hring'⟩, ?_, ?_⟩, hsize, hkeeps,
      Or.inl ⟨hless, hrun⟩⟩
    · rw [← List.append_assoc, hdrained]
    · rw [hafter, hbytes, hlength]
  · obtain ⟨port', hrun, hring', hsize, hafter, hkeeps⟩ :=
      fifoFill_full hfill hrep hdata (by omega) hframe
    have hfull : (held ++ data).length = ds := by
      rw [List.length_append]
      omega
    have hmids' := hmids.concat ⟨held ++ data, none, (hw.keQuerySystemTime s').1⟩ rfl hfull
    refine ⟨port', ⟨_, [], ⟨cells, hready, hmids', ?_⟩, ?_, ?_⟩, hsize, hkeeps,
      Or.inr ⟨heq, hrun⟩⟩
    · rwa [List.append_assoc] at hring'
    · simp only [cellBytes_append, cellBytes_cons, cellBytes_nil, List.append_nil]
      rw [← List.append_assoc, hdrained]
    · rw [hafter, hbytes, hlength]

-- The rest of the frame.
theorem Filling.complete (h : Filling ds ready drained port)
    (hopen : ¬ port.fifoDesc.control &&& descCstopBit = descCstopBit)
    (hrep : fsccPortGetRegisterRep hw port.channel 0 fifoOffset r s = (data, s'))
    (hdata : data.length = r) (hpos : 0 < drained.length % ds + r)
    (hroom : r ≤ descRoom ds drained) {t : Nat}
    (htotal : drained.length + r = t) (htwo : 2 ≤ t) (hlt : t < 536870912)
    (hsize : port.rxFrameSize = t) (hclock : (hw.keQuerySystemTime s').1 ≠ 0) :
    ∃ port', fifoFill hw r port s = (true, port', (hw.keQuerySystemTime s').2) ∧
      Filling ds (ready ++ [⟨drained ++ data, (hw.keQuerySystemTime s').1⟩]) [] port' ∧
      port'.rxFrameSize = 0 ∧ FifoKeeps port port' := by
  have hbytes : port.bytesAfter r = (drained.length + r : Nat) := by
    obtain ⟨mids, held, -, -, hbytes⟩ := h
    exact RxPort.bytesAfter_of_lt hbytes (by omega)
  obtain ⟨mids, held, cells, hready, hmids, hring, hcells, hdrained⟩ := h.opened hopen
  have hheldLt := hring.held_lt
  have hheld := held_length hmids hheldLt hdrained
  have hmod := Nat.mod_le drained.length ds
  unfold descRoom at hroom
  have hfill : FillReady ds (cells ++ mids) held port r :=
    ⟨hring, hcells, by omega, by omega⟩
  obtain ⟨port', hrun, hring', hsize', hafter, hkeeps⟩ :=
    fifoFill_frame hfill hrep hdata hlt hsize (by rw [hbytes, hsize]; omega)
  have hlength : (drained ++ data).length = t := by
    rw [List.length_append, hdata, htotal]
  have hframe : FrameCells ds ⟨drained ++ data, (hw.keQuerySystemTime s').1⟩ mids
      ⟨held ++ data, some t, (hw.keQuerySystemTime s').1⟩ :=
    { full := hmids
      total := by rw [hlength]
      nonempty := by
        rw [List.length_append]
        omega
      data := by rw [← List.append_assoc, hdrained]
      stamp := rfl
      stamp_ne := hclock
      two_le := by rw [hlength]; exact htwo
      length_lt := by rw [hlength]; exact hlt }
  refine ⟨port', hrun, ⟨[], [], ⟨_, hready.concat hframe, Mids.nil, ?_⟩, rfl, hafter⟩, hsize',
    hkeeps⟩
  rwa [List.append_nil, ← List.append_assoc]

end FsccDriver

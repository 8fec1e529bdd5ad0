import FsccDriver.RxFifo
import FsccDriver.RxFill

/-!
# FramedRound — a round of `fscc_fifo_read_data` on frames in the FIFO

Frames arrive on the line, `fscc_fifo_read_data` moves them into the ring and `fscc_user_read_frame`
hands them to the user.  `Receiving` is the invariant of the whole path: the frames in the ring, then
the frames on their way, are the frames that have not been delivered yet.
-/

namespace FsccDriver

open Words

/-! ## Frames on the line -/

/-- A frame as it stands in the FIFO: its data, status bytes included, filled up to a whole word. -/
structure WireFrame where
  data : List Byte
  padding : List Byte
  two_le : 2 ≤ data.length
  padded : data.length + padding.length = wordPadded data.length

namespace WireFrame

def bytes (frame : WireFrame) : List Byte := frame.data ++ frame.padding

def arrivals (frame : WireFrame) : List Arrival :=
  frame.bytes.dropLast.map (fun byte ↦ ⟨byte, none⟩) ++
    [⟨frame.bytes.getLastD 0, some frame.data.length⟩]

theorem bytes_length (frame : WireFrame) : frame.bytes.length = wordPadded frame.data.length := by
  rw [bytes, List.length_append, frame.padded]

theorem bytes_ne_nil (frame : WireFrame) : frame.bytes ≠ [] := by
  have htwo := frame.two_le
  rw [← List.length_pos_iff, bytes, List.length_append]
  omega

theorem arrivals_length (frame : WireFrame) :
    frame.arrivals.length = wordPadded frame.data.length := by
  have hpos := List.length_pos_iff.mpr frame.bytes_ne_nil
  rw [arrivals, List.length_append, List.length_map, List.length_dropLast, List.length_singleton,
    ← bytes_length]
  omega

theorem arrivals_bytes (frame : WireFrame) : frame.arrivals.map Arrival.byte = frame.bytes := by
  rw [arrivals, List.map_append, List.map_map]
  change frame.bytes.dropLast.map id ++ [frame.bytes.getLastD 0] = frame.bytes
  rw [List.map_id, List.getLastD_eq_getLast?, List.getLast?_eq_getLast_of_ne_nil frame.bytes_ne_nil]
  exact List.dropLast_append_getLast frame.bytes_ne_nil

-- Bytes inside a frame announce nothing.
theorem map_ends (bytes : List Byte) :
    (bytes.map fun byte ↦ (⟨byte, none⟩ : Arrival)).filterMap Arrival.ends = [] := by
  induction bytes with
  | nil => rfl
  | cons byte bytes ih => exact ih

theorem arrivals_ends (frame : WireFrame) :
    frame.arrivals.filterMap Arrival.ends = [frame.data.length] := by
  rw [arrivals, List.filterMap_append, map_ends]
  rfl

-- No length comes in before the last byte of the frame.
theorem arrivals_take_ends (frame : WireFrame) {n : Nat} (h : n < frame.arrivals.length) :
    (frame.arrivals.take n).filterMap Arrival.ends = [] := by
  rw [arrivals, List.length_append, List.length_singleton] at h
  rw [arrivals, List.take_append_of_le_length (by omega), ← List.map_take, map_ends]

end WireFrame

def onLine (frames : List WireFrame) : List Arrival := frames.flatMap WireFrame.arrivals

@[simp] theorem onLine_nil : onLine [] = [] := rfl

@[simp] theorem onLine_cons (frame : WireFrame) (frames : List WireFrame) :
    onLine (frame :: frames) = frame.arrivals ++ onLine frames := rfl

section Carries

variable {fifo : RxFifo} {frame : WireFrame} {frames : List WireFrame} {p : Nat} {known : List Nat}

/-- The FIFO has announced no length exactly while the first frame is not complete in it. -/
theorem Carries.announced (h : Carries (onLine (frame :: frames)) p known fifo) :
    (known ++ fifo.lengths = [] ∧ p + fifo.waiting.length < wordPadded frame.data.length) ∨
      ((∃ lengths, known ++ fifo.lengths = frame.data.length :: lengths) ∧
        wordPadded frame.data.length ≤ p + fifo.waiting.length) := by
  obtain ⟨arrived, hsplit, hp, hwaiting, hknown⟩ := h.arrived
  have hlen : p + fifo.waiting.length = arrived.length := by
    rw [hwaiting, List.length_drop, List.length_map]
    omega
  rw [onLine_cons] at hsplit
  rw [hlen, ← frame.arrivals_length, ← hknown]
  by_cases hlt : arrived.length < frame.arrivals.length
  · refine Or.inl ⟨?_, hlt⟩
    have htake : arrived = frame.arrivals.take arrived.length := by
      rw [← List.take_append_of_le_length (Nat.le_of_lt hlt), hsplit, List.take_left]
    rw [htake]
    exact frame.arrivals_take_ends hlt
  · have hle : frame.arrivals.length ≤ arrived.length := Nat.le_of_not_lt hlt
    obtain ⟨more, hmore⟩ : frame.arrivals <+: arrived := by
      rw [List.prefix_iff_eq_take, ← List.take_append_of_le_length hle, ← hsplit, List.take_left]
    refine Or.inr ⟨?_, hle⟩
    rw [← hmore, List.filterMap_append, frame.arrivals_ends]
    exact ⟨_, rfl⟩

theorem Carries.unannounced (h : Carries (onLine (frame :: frames)) p [] fifo)
    (hnone : fifo.lengths = []) : p + fifo.waiting.length < wordPadded frame.data.length := by
  rcases h.announced with ⟨-, hpartial⟩ | ⟨⟨lengths, hsome⟩, -⟩
  · exact hpartial
  · rw [List.nil_append, hnone] at hsome
    cases hsome

theorem Carries.first_length (h : Carries (onLine (frame :: frames)) p [] fifo) {length : Nat}
    {lengths : List Nat} (hlengths : fifo.lengths = length :: lengths) : length = frame.data.length := by
  rcases h.announced with ⟨hnone, -⟩ | ⟨⟨more, hsome⟩, -⟩
  · rw [List.nil_append, hlengths] at hnone
    cases hnone
  · rw [List.nil_append, hlengths] at hsome
    exact (List.cons_eq_cons.mp hsome).1

theorem Carries.complete {known : List Nat}
    (h : Carries (onLine (frame :: frames)) p (frame.data.length :: known) fifo) :
    wordPadded frame.data.length ≤ p + fifo.waiting.length := by
  rcases h.announced with ⟨hnone, -⟩ | ⟨-, hwaiting⟩
  · cases hnone
  · exact hwaiting

-- What is popped joins what was drained before.
theorem Carries.drain {todo : List Arrival} {drained : List Byte} (h : Carries todo drained.length known fifo)
    {r : Nat} (hr : r ≤ fifo.waiting.length) :
    (drained ++ fifo.waiting.take r).length = drained.length + r ∧
      Carries todo (drained ++ fifo.waiting.take r).length known (fifo.pop r) := by
  have hlength : (drained ++ fifo.waiting.take r).length = drained.length + r := by
    rw [List.length_append, List.length_take, Nat.min_eq_left hr]
  rw [hlength]
  exact ⟨rfl, h.pop hr⟩

-- The waiting bytes continue the frame where the driver left off.
theorem Carries.take (h : Carries (onLine (frame :: frames)) p known fifo) {r : Nat}
    (hr : r ≤ fifo.waiting.length) (hle : p + r ≤ frame.data.length) :
    fifo.waiting.take r = (frame.data.drop p).take r := by
  obtain ⟨arrived, hsplit, hp, hwaiting, -⟩ := h.arrived
  have hbytes : frame.data ++ (frame.padding ++ (onLine frames).map Arrival.byte) =
      arrived.map Arrival.byte ++ fifo.line.map Arrival.byte := by
    rw [← List.map_append, ← hsplit, onLine_cons, List.map_append, frame.arrivals_bytes,
      WireFrame.bytes, List.append_assoc]
  have hlen : arrived.length = p + fifo.waiting.length := by
    rw [hwaiting, List.length_drop, List.length_map]
    omega
  calc fifo.waiting.take r
      = ((arrived.map Arrival.byte ++ fifo.line.map Arrival.byte).drop p).take r := by
        rw [List.drop_append_of_le_length (by rw [List.length_map]; omega), ← hwaiting,
          List.take_append_of_le_length hr]
    _ = (frame.data.drop p).take r := by
        rw [← hbytes, List.drop_append_of_le_length (by omega),
          List.take_append_of_le_length (by rw [List.length_drop]; omega)]

-- Once the first frame is out of the FIFO, the next one is the first.
theorem Carries.nextFrame
    (h : Carries (onLine (frame :: frames)) (wordPadded frame.data.length) [frame.data.length] fifo) :
    Carries (onLine frames) 0 [] fifo := by
  obtain ⟨arrived, hsplit, hp, hwaiting, hknown⟩ := h.arrived
  rw [onLine_cons] at hsplit
  rw [← frame.arrivals_length] at hp hwaiting
  obtain ⟨more, hmore⟩ : frame.arrivals <+: arrived := by
    rw [List.prefix_iff_eq_take, ← List.take_append_of_le_length hp, ← hsplit, List.take_left]
  subst hmore
  refine ⟨h.room, h.lengths_le, more, ?_, Nat.zero_le _, ?_, ?_⟩
  · rw [List.append_assoc] at hsplit
    exact List.append_cancel_left hsplit
  · rw [hwaiting, List.map_append, List.drop_zero, ← List.length_map (f := Arrival.byte),
      List.drop_left]
  · rw [List.filterMap_append, frame.arrivals_ends] at hknown
    exact (List.cons_eq_cons.mp hknown).2

end Carries

/-! ## The invariant -/

/-- The frames `todo` are on their way; of the first one `drained` is in the ring already. -/
inductive Arriving : List WireFrame → List Byte → RxPort → RxFifo → Prop where
  | idle {port fifo} : port.rxFrameSize = 0 → Carries (onLine []) 0 [] fifo →
      Arriving [] [] port fifo
  | unknown {frame frames drained port fifo} : drained <+: frame.data →
      drained.length < frame.data.length → drained.length % 4 = 0 → port.rxFrameSize = 0 →
      Carries (onLine (frame :: frames)) drained.length [] fifo →
      Arriving (frame :: frames) drained port fifo
  | known {frame frames drained port fifo} : drained <+: frame.data →
      drained.length < frame.data.length → drained.length % 4 = 0 →
      port.rxFrameSize = frame.data.length →
      Carries (onLine (frame :: frames)) drained.length [frame.data.length] fifo →
      Arriving (frame :: frames) drained port fifo

/-- How many descriptors of `ds` bytes a frame of `size` bytes takes up. -/
def descCount (ds size : Nat) : Nat := (size + ds - 1) / ds

theorem descCount_eq {ds size : Nat} (hds : 0 < ds) (hsize : 0 < size) :
    descCount ds size = (size - 1) / ds + 1 := by
  rw [descCount, show size + ds - 1 = size - 1 + ds by omega, Nat.add_div_right _ hds]

theorem FrameCells.count {ds : Nat} {frame : StampedFrame} {mids : List Cell} {last : Cell}
    (h : FrameCells ds frame mids last) (hle : last.bytes.length ≤ ds) :
    mids.length + 1 = descCount ds frame.data.length := by
  have hpos := h.nonempty
  have hlen : frame.data.length - 1 = ds * mids.length + (last.bytes.length - 1) := by
    rw [← h.data, List.length_append, h.full.bytes_length, Nat.add_sub_assoc hpos]
  rw [descCount_eq (by omega) (Nat.lt_of_lt_of_le Nat.two_pos h.two_le), hlen,
    Nat.mul_add_div (by omega), Nat.div_eq_of_lt (by omega), Nat.add_zero]

def descsOf (ds : Nat) (frames : List WireFrame) : Nat :=
  (frames.map fun frame ↦ descCount ds frame.data.length).sum

/-- The frames with their timestamps, when `before` descriptors were finished in front of them.  The
clock is read as each descriptor is finished, and a frame has the time of its last one. -/
def stampedFrames (ds : Nat) (clock : Nat → BitVec 64) : (before : Nat) → List WireFrame →
    List StampedFrame
  | _, [] => []
  | before, frame :: frames =>
      ⟨frame.data, clock (before + (frame.data.length - 1) / ds)⟩ ::
        stampedFrames ds clock (before + descCount ds frame.data.length) frames

/-- What has left the FIFO: the frames `done` and `drained` of the next one. -/
structure Taken (ds : Nat) (done : List WireFrame) (drained : List Byte) (fifo : RxFifo) : Prop where
  ticks : fifo.ticks = descsOf ds done + drained.length / ds
  popped : fifo.popped.length = (onLine done).length + drained.length

structure Receiving (ds : Nat) (done : List WireFrame) (ready : List StampedFrame)
    (todo : List WireFrame) (port : RxPort) (fifo : RxFifo) : Prop where
  path : ∃ drained, Filling ds ready drained port ∧ Arriving todo drained port fifo ∧
    Taken ds done drained fifo
  short : ∀ frame ∈ todo, frame.data.length < 536870912

theorem Arriving.start {frames : List WireFrame} {port : RxPort} {fifo : RxFifo}
    (hsize : port.rxFrameSize = 0) (h : Carries (onLine frames) 0 [] fifo) :
    Arriving frames [] port fifo := by
  cases frames with
  | nil => exact Arriving.idle hsize h
  | cons frame frames =>
    exact Arriving.unknown List.nil_prefix (Nat.lt_of_lt_of_le Nat.two_pos frame.two_le) rfl hsize h

-- Undelivered frames: those in the ring, then those on their way.
def undelivered (ds : Nat) (clock : Nat → BitVec 64) (done : List WireFrame)
    (ready : List StampedFrame) (todo : List WireFrame) : List StampedFrame :=
  ready ++ stampedFrames ds clock (descsOf ds done) todo

theorem descsOf_concat (ds : Nat) (frames : List WireFrame) (frame : WireFrame) :
    descsOf ds (frames ++ [frame]) = descsOf ds frames + descCount ds frame.data.length := by
  rw [descsOf, List.map_append, List.sum_append, List.map_singleton, List.sum_singleton]
  rfl

theorem onLine_concat (frames : List WireFrame) (frame : WireFrame) :
    (onLine (frames ++ [frame])).length = (onLine frames).length + wordPadded frame.data.length := by
  rw [onLine, List.flatMap_append, List.length_append, List.flatMap_cons, List.flatMap_nil,
    List.append_nil, frame.arrivals_length]
  rfl

-- A frame that is complete goes from those on their way to those in the ring.
theorem undelivered_complete (ds : Nat) (clock : Nat → BitVec 64) (done : List WireFrame)
    (ready : List StampedFrame) (frame : WireFrame) (frames : List WireFrame) :
    undelivered ds clock (done ++ [frame])
        (ready ++ [⟨frame.data, clock (descsOf ds done + (frame.data.length - 1) / ds)⟩]) frames =
      undelivered ds clock done ready (frame :: frames) := by
  rw [undelivered, descsOf_concat, List.append_assoc, undelivered, stampedFrames]
  rfl

theorem Taken.congr {ds : Nat} {done : List WireFrame} {drained : List Byte} {fifo fifo' : RxFifo}
    (h : Taken ds done drained fifo) (hticks : fifo'.ticks = fifo.ticks)
    (hpopped : fifo'.popped = fifo.popped) : Taken ds done drained fifo' :=
  ⟨hticks.trans h.ticks, hpopped ▸ h.popped⟩

/-! ## One round of the driver -/

section Round

variable {ds : Nat} {ready : List StampedFrame} {todo : List WireFrame} {port : RxPort}
  {fifo : RxFifo} {schedule : Nat → Nat} {clock : Nat → BitVec 64} {frame : WireFrame}
  {done frames : List WireFrame} {drained : List Byte} {p : Nat} {known : List Nat}

-- A state that a round can leave behind: nothing is lost, nothing comes in twice.
structure RoundKeeps (ds : Nat) (clock : Nat → BitVec 64) (done : List WireFrame)
    (ready : List StampedFrame) (todo : List WireFrame) (port port' : RxPort) (fifo' : RxFifo) :
    Prop where
  keeps : FifoKeeps port port'
  receiving : ∃ done' ready' todo', Receiving ds done' ready' todo' port' fifo' ∧
    done' ++ todo' = done ++ todo ∧
    undelivered ds clock done' ready' todo' = undelivered ds clock done ready todo

/-- No frame is complete in the FIFO, and less than a word waits in it. -/
def FifoDrained (fifo : RxFifo) : Prop := fifo.lengths = [] ∧ fifo.waiting.length < 4

-- A round that is not the last one finishes a descriptor; the last one leaves nothing it could take.
def RoundEnds (again : Bool) (port' : RxPort) (fifo fifo' : RxFifo) : Prop :=
  (again = true → fifo'.ticks = fifo.ticks + 1) ∧
    (again = false → port'.fifoDesc.control &&& descCstopBit = descCstopBit ∨ FifoDrained fifo')

theorem frameRest_eq (hfill : Filling ds ready drained port)
    (hsize : port.rxFrameSize = frame.data.length) (hlt : drained.length < frame.data.length)
    (hshort : frame.data.length < 536870912) :
    frameRest port = frame.data.length - drained.length := by
  obtain ⟨-, -, -, -, hbytes⟩ := hfill
  rw [frameRest, hsize, hbytes, if_pos (by omega), u32_sub_of_le (by omega) (Nat.le_of_lt hlt)]

theorem drained_append (hpre : drained <+: frame.data) (n : Nat) :
    drained ++ (frame.data.drop drained.length).take n = frame.data.take (drained.length + n) := by
  conv_lhs => rw [List.prefix_iff_eq_take.mp hpre]
  rw [List.take_add, List.length_take, Nat.min_eq_left hpre.length_le]

-- What the clock reading at the end of a descriptor does to the FIFO.
theorem Carries.queryTime (h : Carries (onLine todo) p known fifo) :
    Carries (onLine todo) p known ((rxFifo schedule clock).keQuerySystemTime fifo).2 := h.tick _

theorem descRoom_div (hds : 0 < ds) {n : Nat} (hn : n < descRoom ds drained) :
    (drained.length + n) / ds = drained.length / ds := by
  have hsplit := Nat.div_add_mod drained.length ds
  unfold descRoom at hn
  calc (drained.length + n) / ds
      = (ds * (drained.length / ds) + (drained.length % ds + n)) / ds := by
        rw [← Nat.add_assoc, hsplit]
    _ = drained.length / ds := by
        rw [Nat.mul_add_div hds, Nat.div_eq_of_lt (show drained.length % ds + n < ds by omega),
          Nat.add_zero]

theorem descRoom_div_full (hds : 0 < ds) :
    (drained.length + descRoom ds drained) / ds = drained.length / ds + 1 := by
  have hsplit := Nat.div_add_mod drained.length ds
  have hlt := Nat.mod_lt drained.length hds
  unfold descRoom
  calc (drained.length + (ds - drained.length % ds)) / ds
      = (ds * (drained.length / ds + 1)) / ds := by
        rw [Nat.mul_add, Nat.mul_one]
        congr 1
        omega
    _ = drained.length / ds + 1 := Nat.mul_div_cancel_left _ hds

section Taken

variable {data : List Byte} {r : Nat}

-- A part of a frame that does not fill the descriptor.
theorem Taken.part (h : Taken ds done drained fifo) (hds : 0 < ds) (hdata : data.length = r)
    (hr : r ≤ fifo.waiting.length) (hroom : r < descRoom ds drained) :
    Taken ds done (drained ++ data) (fifo.pop r) := by
  refine ⟨?_, ?_⟩
  · rw [List.length_append, hdata, descRoom_div hds hroom]
    exact h.ticks
  · rw [pop_popped_length hr, h.popped, List.length_append, hdata, Nat.add_assoc]

-- A part that fills it.
theorem Taken.full (h : Taken ds done drained fifo) (hds : 0 < ds) (hdata : data.length = r)
    (hr : r ≤ fifo.waiting.length) (hroom : r = descRoom ds drained) :
    Taken ds done (drained ++ data) ((rxFifo schedule clock).keQuerySystemTime (fifo.pop r)).2 := by
  refine ⟨?_, ?_⟩
  · rw [List.length_append, hdata, hroom, descRoom_div_full hds]
    show fifo.ticks + 1 = _
    rw [h.ticks, Nat.add_assoc]
  · show (fifo.pop r).popped.length = _
    rw [pop_popped_length hr, h.popped, List.length_append, hdata, Nat.add_assoc]

variable (schedule clock) in
-- The rest of the frame, whose last byte is in the descriptor that the round has begun with.
theorem Taken.last (h : Taken ds done drained fifo) (hds : 0 < ds) (hpos : 0 < r)
    (hroom : r ≤ descRoom ds drained) (hall : drained.length + r = frame.data.length)
    (hpad : drained.length + wordPadded r = wordPadded frame.data.length)
    (hr : wordPadded r ≤ fifo.waiting.length) :
    fifo.ticks = descsOf ds done + (frame.data.length - 1) / ds ∧
      Taken ds (done ++ [frame]) []
        ((rxFifo schedule clock).keQuerySystemTime (fifo.pop (wordPadded r))).2 := by
  have hlast : (frame.data.length - 1) / ds = drained.length / ds := by
    rw [← hall, Nat.add_sub_assoc hpos, descRoom_div hds (by omega)]
  refine ⟨hlast ▸ h.ticks, ?_, ?_⟩
  · show fifo.ticks + 1 = _
    rw [descsOf_concat, descCount_eq hds (by omega), hlast, h.ticks, List.length_nil, Nat.zero_div]
    rfl
  · show (fifo.pop (wordPadded r)).popped.length = _
    rw [pop_popped_length hr, h.popped, onLine_concat, ← hpad, Nat.add_assoc]
    rfl

end Taken

theorem descRoom_align (hds : ds % 4 = 0) (halign : drained.length % 4 = 0) :
    descRoom ds drained % 4 = 0 := by
  have hmod : drained.length % ds % 4 = drained.length % 4 :=
    Nat.mod_mod_of_dvd _ (Nat.dvd_of_mod_eq_zero hds)
  have hle : drained.length % ds ≤ ds ∨ ds = 0 := by
    rcases Nat.eq_zero_or_pos ds with hzero | hpos
    · exact Or.inr hzero
    · exact Or.inl (Nat.le_of_lt (Nat.mod_lt _ hpos))
  unfold descRoom
  omega

-- The length is known: the round takes the rest of the frame or fills the descriptor with it.
theorem Filling.knownRound (hfill : Filling ds ready drained port) (htaken : Taken ds done drained fifo)
    (hopen : ¬ port.fifoDesc.control &&& descCstopBit = descCstopBit) (hds : BufferSize ds)
    (hclock : ∀ k, clock k ≠ 0) (hshort : ∀ f ∈ frame :: frames, f.data.length < 536870912)
    (hpre : drained <+: frame.data) (hlt : drained.length < frame.data.length)
    (halign : drained.length % 4 = 0) (hsize : port.rxFrameSize = frame.data.length)
    (hc : Carries (onLine (frame :: frames)) drained.length [frame.data.length] fifo) :
    ∃ again port' fifo', fifoFill (rxFifo schedule clock)
        (min (frameRest port) (descRoom ds drained)) port fifo = (again, port', fifo') ∧
      RoundEnds again port' fifo fifo' ∧
      RoundKeeps ds clock done ready (frame :: frames) port port' fifo' := by
  have hL : frame.data.length < 536870912 := hshort frame List.mem_cons_self
  have hroom := descRoom_align hds.align halign
  have hpos := descRoom_pos drained hds.pos
  have htwo := frame.two_le
  rw [frameRest_eq hfill hsize hlt hL]
  generalize hr : min (frame.data.length - drained.length) (descRoom ds drained) = r
  have hpad : wordPadded r ≤ fifo.waiting.length ∧
      (r = frame.data.length - drained.length →
        drained.length + wordPadded r = wordPadded frame.data.length) := by
    have hwaiting := hc.complete
    unfold wordPadded at *
    omega
  have hrle : r ≤ fifo.waiting.length := Nat.le_trans (by unfold wordPadded; omega) hpad.1
  have hdata := hc.take hrle (by omega)
  have hlen : (fifo.waiting.take r).length = r := by
    rw [List.length_take, Nat.min_eq_left hrle]
  have hrep := (rxFifo_popsWords schedule clock).getRegisterRep port.channel hpad.1
  have happend := drained_append hpre r
  rw [← hdata] at happend
  by_cases hdone : r = frame.data.length - drained.length
  · obtain ⟨port', hrun, hfill', hsize', hkeeps⟩ := hfill.complete hopen hrep hlen (by omega)
      (by omega) (show drained.length + r = frame.data.length by omega) htwo hL hsize (hclock _)
    obtain ⟨hticks, htaken'⟩ := htaken.last schedule clock hds.pos
      (by omega) (by omega) (by omega) (hpad.2 hdone) hpad.1
    have hwhole : drained ++ fifo.waiting.take r = frame.data := by
      rw [happend, show drained.length + r = frame.data.length by omega, List.take_length]
    have hstamp : ((rxFifo schedule clock).keQuerySystemTime (fifo.pop (wordPadded r))).1 =
        clock (descsOf ds done + (frame.data.length - 1) / ds) := congrArg clock hticks
    rw [hwhole, hstamp] at hfill'
    refine ⟨true, port', _, hrun, ⟨fun _ ↦ rfl, fun h ↦ absurd h Bool.false_ne_true.symm⟩, hkeeps,
      done ++ [frame], _, frames, ⟨⟨[], hfill', ?_, htaken'⟩, ?_⟩, ?_, ?_⟩
    · have hpop := hc.pop hpad.1
      rw [hpad.2 hdone] at hpop
      exact Arriving.start hsize' hpop.nextFrame.queryTime
    · exact fun f hf ↦ hshort f (List.mem_cons_of_mem _ hf)
    · rw [List.append_assoc, List.singleton_append]
    · exact undelivered_complete ds clock done ready frame frames
  · have hfull : r = descRoom ds drained := by omega
    have hword : wordPadded r = r := by
      unfold wordPadded
      omega
    rw [hword] at hrep
    obtain ⟨port', hfill', hsize', hkeeps, hrun⟩ := hfill.more hopen hrep hlen (by omega)
      (by omega) (by rw [hsize]; omega)
    obtain ⟨hlen', hc'⟩ := hc.drain hrle
    rcases hrun with ⟨hless, -⟩ | ⟨-, hrun⟩
    · exact absurd hfull (Nat.ne_of_lt hless)
    · refine ⟨true, port', _, hrun, ⟨fun _ ↦ rfl, fun h ↦ absurd h Bool.false_ne_true.symm⟩, hkeeps,
        done, ready, frame :: frames, ⟨⟨drained ++ fifo.waiting.take r, hfill',
          Arriving.known ?_ ?_ ?_ ?_ hc'.queryTime, htaken.full hds.pos hlen hrle hfull⟩, hshort⟩,
        rfl, rfl⟩
      · rw [happend]
        exact List.take_prefix _ _
      · omega
      · omega
      · rw [hsize', hsize]

-- The length is not known yet: the round takes whole words, and never the last one of the frame.
theorem Filling.unknownRound (hfill : Filling ds ready drained port)
    (htaken : Taken ds done drained fifo)
    (hopen : ¬ port.fifoDesc.control &&& descCstopBit = descCstopBit) (hds : BufferSize ds)
    (hshort : ∀ f ∈ frame :: frames, f.data.length < 536870912)
    (hpre : drained <+: frame.data) (halign : drained.length % 4 = 0) (hsize : port.rxFrameSize = 0)
    (hc : Carries (onLine (frame :: frames)) drained.length [] fifo) (hnone : fifo.lengths = []) :
    ∃ again port' fifo', fifoFill (rxFifo schedule clock)
        (min (fifo.waiting.length - fifo.waiting.length % 4) (descRoom ds drained)) port fifo =
          (again, port', fifo') ∧
      RoundEnds again port' fifo fifo' ∧
      RoundKeeps ds clock done ready (frame :: frames) port port' fifo' := by
  have hL : frame.data.length < 536870912 := hshort frame List.mem_cons_self
  have hroom := descRoom_align hds.align halign
  generalize hr : min (fifo.waiting.length - fifo.waiting.length % 4) (descRoom ds drained) = r
  have hrle : r ≤ fifo.waiting.length := by omega
  have hword : wordPadded r = r := by
    unfold wordPadded
    omega
  have hless : drained.length + r < frame.data.length := by
    have hpartial := hc.unannounced hnone
    unfold wordPadded at hpartial
    omega
  have hdata := hc.take hrle (Nat.le_of_lt hless)
  have hlen : (fifo.waiting.take r).length = r := by
    rw [List.length_take, Nat.min_eq_left hrle]
  have hrep := (rxFifo_popsWords schedule clock).getRegisterRep port.channel (hword.symm ▸ hrle)
  have happend := drained_append hpre r
  rw [← hdata] at happend
  rw [hword] at hrep
  obtain ⟨port', hfill', hsize', hkeeps, hrun⟩ := hfill.more hopen hrep hlen (by omega)
    (by omega) (by rw [hsize]; omega)
  obtain ⟨hlen', hc'⟩ := hc.drain hrle
  have hkeep : ∀ fifo', Carries (onLine (frame :: frames)) (drained ++ fifo.waiting.take r).length
      [] fifo' → Taken ds done (drained ++ fifo.waiting.take r) fifo' →
      RoundKeeps ds clock done ready (frame :: frames) port port' fifo' := fun fifo' hfifo' htaken' ↦
    ⟨hkeeps, done, ready, frame :: frames, ⟨⟨_, hfill', Arriving.unknown
      (by rw [happend]; exact List.take_prefix _ _) (by omega) (by omega) (by rw [hsize', hsize])
      hfifo', htaken'⟩, hshort⟩, rfl, rfl⟩
  rcases hrun with ⟨hpart, hrun⟩ | ⟨hfull, hrun⟩
  · refine ⟨false, port', _, hrun, ⟨fun h ↦ absurd h Bool.false_ne_true, fun _ ↦ Or.inr ⟨hnone, ?_⟩⟩,
      hkeep _ hc' (htaken.part hds.pos hlen hrle hpart)⟩
    rw [RxFifo.pop, List.length_drop]
    omega
  · exact ⟨true, port', _, hrun, ⟨fun _ ↦ rfl, fun h ↦ absurd h Bool.false_ne_true.symm⟩,
      hkeep _ hc'.queryTime (htaken.full hds.pos hlen hrle hfull)⟩

theorem Carries.idle (h : Carries (onLine []) p known fifo) :
    fifo.waiting = [] ∧ known ++ fifo.lengths = [] := by
  obtain ⟨arrived, hsplit, -, hwaiting, hknown⟩ := h.arrived
  obtain ⟨rfl, -⟩ := List.append_eq_nil_iff.mp hsplit.symm
  exact ⟨by simpa using hwaiting, by simpa using hknown.symm⟩

theorem Filling.idleRound (hfill : Filling ds ready [] port) (htaken : Taken ds done [] fifo)
    (hopen : ¬ port.fifoDesc.control &&& descCstopBit = descCstopBit) (hpos : 0 < ds)
    (hsize : port.rxFrameSize = 0) (hc : Carries (onLine []) 0 [] fifo) :
    ∃ again port' fifo', fifoFill (rxFifo schedule clock) 0 port fifo = (again, port', fifo') ∧
      RoundEnds again port' fifo fifo' ∧ RoundKeeps ds clock done ready [] port port' fifo' := by
  have hroom := descRoom_pos [] hpos
  obtain ⟨hempty, hnone⟩ := hc.idle
  have hrep : fsccPortGetRegisterRep (rxFifo schedule clock) port.channel 0 fifoOffset 0 fifo =
      ([], fifo) := rfl
  obtain ⟨port', hfill', hsize', hkeeps, ⟨-, hrun⟩ | ⟨hfull, -⟩⟩ := hfill.more hopen hrep rfl
    (by omega) (by simp) (by rw [hsize]; simp)
  · refine ⟨false, port', fifo, hrun, ⟨fun h ↦ absurd h Bool.false_ne_true,
      fun _ ↦ Or.inr ⟨hnone, ?_⟩⟩, hkeeps, done, ready, [],
      ⟨⟨[], hfill', Arriving.idle (hsize'.trans hsize) hc, htaken⟩,
        fun f hf ↦ absurd hf List.not_mem_nil⟩, rfl, rfl⟩
    rw [hempty]
    decide
  · omega

theorem Receiving.fifoReadStep (schedule : Nat → Nat) (h : Receiving ds done ready todo port fifo)
    (hds : BufferSize ds) (hclock : ∀ k, clock k ≠ 0) :
    ∃ again port' fifo', fifoReadStep (rxFifo schedule clock) port fifo = (again, port', fifo') ∧
      RoundEnds again port' fifo fifo' ∧
      RoundKeeps ds clock done ready todo port port' fifo' := by
  obtain ⟨⟨drained, hfill, harriving, htaken⟩, hshort⟩ := h
  by_cases hopen : port.fifoDesc.control &&& descCstopBit = descCstopBit
  · exact ⟨false, port, fifo, fifoReadStep_full hopen, ⟨fun h ↦ absurd h Bool.false_ne_true,
      fun _ ↦ Or.inl hopen⟩, FifoKeeps.refl port, done, ready, todo,
      ⟨⟨drained, hfill, harriving, htaken⟩, hshort⟩, rfl, rfl⟩
  have hlooked := htaken.congr (look_ticks fifo schedule) (look_popped fifo schedule)
  -- What the look has let in does not count as a reading of the clock.
  have hends : ∀ {again : Bool} {port' : RxPort} {fifo' : RxFifo},
      RoundEnds again port' (fifo.look schedule) fifo' → RoundEnds again port' fifo fifo' :=
    fun h ↦ ⟨fun hagain ↦ (h.1 hagain).trans (by rw [look_ticks]), h.2⟩
  cases harriving with
  | idle hsize hc =>
    obtain ⟨hempty, hnone⟩ := (hc.look schedule).idle
    have hlen := receiveLength_unknown clock hc hsize hnone
    rw [hempty] at hlen
    rw [hfill.fifoReadStep hds.lt hopen port.rxFrameSize hlen, List.length_nil, Nat.zero_sub, Nat.zero_min]
    obtain ⟨again, port', fifo', hrun, hend, hkeeps⟩ :=
      hfill.idleRound hlooked hopen hds.pos hsize (hc.look schedule)
    exact ⟨again, port', fifo', hrun, hends hend, hkeeps⟩
  | @unknown frame frames _ _ _ hpre hlt halign hsize hc =>
    have hlook := hc.look schedule
    cases hlengths : (fifo.look schedule).lengths with
    | nil =>
      rw [hfill.fifoReadStep hds.lt hopen port.rxFrameSize
        (receiveLength_unknown clock hc hsize hlengths)]
      obtain ⟨again, port', fifo', hrun, hend, hkeeps⟩ :=
        hfill.unknownRound hlooked hopen hds hshort hpre halign hsize hlook hlengths
      exact ⟨again, port', fifo', hrun, hends hend, hkeeps⟩
    | cons length lengths =>
      have hfirst := hlook.first_length hlengths
      have htwo := frame.two_le
      have hL := hshort frame List.mem_cons_self
      subst hfirst
      rw [hfill.fifoReadStep hds.lt hopen _
        (receiveLength_counted clock hc hsize hlengths (by omega) (by omega))]
      obtain ⟨again, port', fifo', hrun, hend, hkeeps, hnext⟩ :=
        (hfill.setFrameSize frame.data.length).knownRound
          (show Taken ds done drained { fifo.look schedule with lengths } from
            ⟨hlooked.ticks, hlooked.popped⟩) hopen hds hclock hshort hpre hlt halign rfl
          (hlook.popLength hlengths)
      exact ⟨again, port', fifo', hrun, hends ⟨hend.1, hend.2⟩,
        ⟨hkeeps.1, hkeeps.2, hkeeps.3, hkeeps.4, hkeeps.5, hkeeps.6⟩, hnext⟩
  | @known frame frames _ _ _ hpre hlt halign hsize hc =>
    have hne : port.rxFrameSize ≠ 0 := by
      have htwo := frame.two_le
      omega
    rw [hfill.fifoReadStep hds.lt hopen port.rxFrameSize (receiveLength_known hne)]
    exact hfill.knownRound htaken hopen hds hclock hshort hpre hlt halign hsize hc

end Round

end FsccDriver

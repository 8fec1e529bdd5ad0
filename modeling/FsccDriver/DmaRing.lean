import FsccDriver.FramedReceive

/-!
# DmaRing — reading while the DMA engine fills the ring

The engine does not know of `board_rx_spinlock`: between two rounds of the loop of
`fscc_user_read_frame` it may fill any number of descriptors, those just freed among them.  The loop
makes `rx_num` rounds, however many descriptors the frames it takes up have.
-/

namespace FsccDriver

open Words

variable {H : Type} {hw : Hardware H}

/-! ## The engine and the rounds of a read -/

-- A frame the engine can describe: its length has 29 bits in the control word.
structure DmaInput where
  data : List Byte
  two_le : 2 ≤ data.length
  length_lt : data.length < 536870912

/-- `fscc_user_read_frame` between two rounds of its loop; `rounds` are left. -/
structure ReadCall where
  port : RxPort
  bufLength : Nat
  rounds : Nat
  st : ReadLoop

/-- `line` are the frames that have arrived and are not finished in the ring; the engine has moved
`taken` bytes of the first one and fills the descriptor `engineDesc` next. -/
structure DmaState (H : Type) where
  port : RxPort
  card : H
  engineDesc : Nat
  taken : Nat
  line : List (List Byte)
  arrived : List (List Byte)
  call : Option ReadCall
  reads : List FrameRead

def DmaState.arrive (s : DmaState H) (frame : DmaInput) : DmaState H :=
  { s with line := s.line ++ [frame.data], arrived := s.arrived ++ [frame.data] }

/-- The engine fills one descriptor.  A full one gets CSTOP and its byte count, the last one of a
frame FE, CSTOP and the length of the frame; there `dataCount` is whatever the engine leaves.
`timestamp` is 0 unless `timestamp_worker` has been at the descriptor. -/
def DmaState.fill (s : DmaState H) (dataCount : Nat) (timestamp : BitVec 64) : DmaState H :=
  let desc := s.port.rxDescriptors s.engineDesc
  match s.line with
  | [] => s
  | frame :: line =>
      if ¬ desc.Unfinished then s
      else
        let rest := frame.drop s.taken
        let buffer := Bytes.write desc.buffer 0 (rest.take desc.dataSize)
        let place (desc : DmaFrame) : RxPort :=
          { s.port with rxDescriptors := Function.update s.port.rxDescriptors s.engineDesc desc }
        let engineDesc := Cyclic.next s.port.rxNum s.engineDesc
        if rest.length ≤ desc.dataSize then
          { s with
            port := place { desc with
              buffer, dataCount, timestamp, control := frame.length + descCstopBit + descFeBit }
            engineDesc, line, taken := 0 }
        else
          { s with
            port := place { desc with
              buffer, dataCount := desc.dataSize, timestamp, control := descCstopBit }
            engineDesc, taken := s.taken + desc.dataSize }

-- Only between two calls; in `stampStep` they also change inside one.
def DmaState.setOptions (s : DmaState H) (appendStatus appendTimestamp rxMultiple : Bool) :
    DmaState H :=
  match s.call with
  | none => { s with port := s.port.setOptions appendStatus appendTimestamp rxMultiple }
  | some _ => s

-- What `fscc_user_read_frame` does before its loop.
def DmaState.enter (s : DmaState H) (bufLength : Nat) : DmaState H :=
  match s.call with
  | some _ => s
  | none =>
      let (frameReady, bytesInDescs) := fsccUserNextReadSize s.port
      if ¬ frameReady then
        { s with reads := s.reads ++ [⟨s.port, bufLength, .bufferTooSmall, [], 0⟩] }
      else if bufferRequirement s.port bytesInDescs > bufLength then
        { s with reads := s.reads ++ [⟨s.port, bufLength, .bufferTooSmall, [], 0⟩] }
      else
        { s with call := some ⟨s.port, bufLength, s.port.rxNum, readFrameStart s.port bytesInDescs⟩ }

-- One round, on the ring as the engine has left it, and the return behind the last one.
def DmaState.round (hw : Hardware H) (s : DmaState H) : DmaState H :=
  match s.call with
  | none => s
  | some call =>
      let (again, st, card) := readFrameStep hw call.bufLength { call.st with port := s.port } s.card
      if again ∧ 1 < call.rounds then
        { s with port := st.port, card, call := some { call with rounds := call.rounds - 1, st } }
      else
        { s with
          port := st.port, card, call := none
          reads := s.reads ++ [⟨call.port, call.bufLength, .success, st.out, st.outLength⟩] }

inductive DmaAction where
  | arrive (frame : DmaInput)
  | fill (dataCount : Nat) (timestamp : BitVec 64)
  | setOptions (appendStatus appendTimestamp rxMultiple : Bool)
  | userReadFrame (bufLength : BitVec 32)
  | round

def dmaStep (hw : Hardware H) (s : DmaState H) : DmaAction → DmaState H
  | .arrive frame => s.arrive frame
  | .fill dataCount timestamp => s.fill dataCount timestamp
  | .setOptions appendStatus appendTimestamp rxMultiple =>
      s.setOptions appendStatus appendTimestamp rxMultiple
  | .userReadFrame bufLength => s.enter bufLength.toNat
  | .round => s.round hw

/-- A port that has just been purged; the engine starts at its first descriptor. -/
def dmaStart (port : RxPort) (card : H) : DmaState H where
  port := resetRx port
  card := card
  engineDesc := 0
  taken := 0
  line := []
  arrived := []
  call := none
  reads := []

/-! ## The rounds are the loop -/

theorem round_none {s : DmaState H} (h : s.call = none) : s.round hw = s := by
  rw [DmaState.round, h]

theorem rounds_none {s : DmaState H} (h : s.call = none) (n : Nat) :
    (List.replicate n DmaAction.round).foldl (dmaStep hw) s = s := by
  induction n with
  | zero => rfl
  | succ n ih =>
    rw [List.replicate_succ, List.foldl_cons, dmaStep, round_none h]
    exact ih

variable (hw) in
/-- Without a step of the engine in between, the rounds are the loop of `fscc_user_read_frame`. -/
theorem rounds_readFrameLoop {s : DmaState H} {call : ReadCall} (hcall : s.call = some call)
    (hport : call.st.port = s.port) {n : Nat} (hrounds : call.rounds = n + 1) :
    (List.replicate (n + 1) DmaAction.round).foldl (dmaStep hw) s =
      let (st, card) := readFrameLoop hw call.bufLength (n + 1) call.st s.card
      { s with
        port := st.port, card, call := none
        reads := s.reads ++ [⟨call.port, call.bufLength, .success, st.out, st.outLength⟩] } := by
  have hst : { call.st with port := s.port } = call.st := by rw [← hport]
  induction n generalizing s call with
  | zero =>
    rw [List.replicate_one, List.foldl_cons, List.foldl_nil, dmaStep, DmaState.round, hcall]
    dsimp only
    rw [hst, hrounds, if_neg fun h ↦ absurd h.2 (Nat.lt_irrefl 1), readFrameLoop]
    obtain ⟨again, st, card⟩ := readFrameStep hw call.bufLength call.st s.card
    cases again <;> rfl
  | succ n ih =>
    rw [List.replicate_succ, List.foldl_cons, dmaStep, DmaState.round, hcall]
    dsimp only
    rw [hst, readFrameLoop]
    obtain ⟨again, st, card⟩ := readFrameStep hw call.bufLength call.st s.card
    cases again with
    | false =>
      rw [if_neg fun h ↦ absurd h.1 Bool.false_ne_true, rounds_none rfl]
    | true =>
      rw [if_pos ⟨rfl, by omega⟩, ih rfl rfl (by dsimp only; omega) rfl]

theorem fsccUserReadFrame_rounds {s : DmaState H} (hidle : s.call = none) (bufLength : BitVec 32) :
    (.userReadFrame bufLength :: List.replicate s.port.rxNum DmaAction.round).foldl (dmaStep hw) s =
      let (result, port, card) := fsccUserReadFrame hw bufLength.toNat s.port s.card
      { s with port, card, reads := s.reads ++ [⟨s.port, bufLength.toNat, result⟩] } := by
  rw [List.foldl_cons, dmaStep, DmaState.enter, hidle, fsccUserReadFrame]
  dsimp only
  by_cases hready : (fsccUserNextReadSize s.port).1 = true
  · rw [if_neg (not_not.mpr hready), if_neg (not_not.mpr hready)]
    by_cases hlong : bufferRequirement s.port (fsccUserNextReadSize s.port).2 > bufLength.toNat
    · rw [if_pos hlong, if_pos hlong]
      exact rounds_none rfl _
    · rw [if_neg hlong, if_neg hlong]
      -- A ring without descriptors has no frame.
      obtain ⟨n, hn⟩ : ∃ n, s.port.rxNum = n + 1 := by
        refine Nat.exists_eq_succ_of_ne_zero fun hzero ↦ ?_
        rw [fsccUserNextReadSize, hzero] at hready
        cases hready
      let call : ReadCall := ⟨s.port, bufLength.toNat, s.port.rxNum,
        readFrameStart s.port (fsccUserNextReadSize s.port).2⟩
      have hentered : ({ s with call := some call } : DmaState H).call = some call := rfl
      have hloop := rounds_readFrameLoop hw hentered rfl hn
      rw [← hn] at hloop
      exact hloop
  · rw [if_pos hready, if_pos hready]
    exact rounds_none rfl _

-- A call is refused, or it starts on the first frame.
theorem DmaState.enter_cases (s : DmaState H) (bufLength : Nat) :
    s.enter bufLength = s ∨
      (Refused s.port bufLength ∧ s.enter bufLength =
        { s with reads := s.reads ++ [⟨s.port, bufLength, .bufferTooSmall, [], 0⟩] }) ∨
      ∃ size, s.call = none ∧ fsccUserNextReadSize s.port = (true, size) ∧
        bufferRequirement s.port size ≤ bufLength ∧ s.enter bufLength =
          { s with call := some ⟨s.port, bufLength, s.port.rxNum, readFrameStart s.port size⟩ } := by
  rw [enter]
  cases hcall : s.call with
  | some call => exact Or.inl rfl
  | none =>
    right
    dsimp only
    by_cases hready : (fsccUserNextReadSize s.port).1 = true
    · rw [if_neg (not_not.mpr hready)]
      by_cases hlong : bufferRequirement s.port (fsccUserNextReadSize s.port).2 > bufLength
      · rw [if_pos hlong]
        exact Or.inl ⟨Or.inr hlong, rfl⟩
      · rw [if_neg hlong]
        exact Or.inr ⟨_, rfl, Prod.ext hready rfl, Nat.le_of_not_lt hlong, rfl⟩
    · rw [if_pos hready]
      exact Or.inl ⟨Or.inl (Bool.eq_false_iff.mpr hready), rfl⟩

/-! ## Whole frames in the ring -/

/-- The finished descriptors of the ring, from `user_rx_desc` on. -/
def HoldsCells (cells : List Cell) (port : RxPort) : Prop :=
  Cyclic.Holds CellDesc DmaFrame.Unfinished DmaFrame.Unfinished cells port.rxDescriptors port.rxNum
    port.userRxDesc

-- Every buffer has `ds` bytes.
def Buffers (ds : Nat) (port : RxPort) : Prop :=
  ∀ i < port.rxNum, (port.rxDescriptors i).dataSize = ds ∧ (port.rxDescriptors i).buffer.length = ds

/-- The descriptors of one frame. -/
structure DmaCells (ds : Nat) (data : List Byte) (mids : List Cell) (last : Cell) : Prop where
  full : Mids ds mids
  total : last.total = some data.length
  nonempty : 0 < last.bytes.length
  bytes : cellBytes mids ++ last.bytes = data
  two_le : 2 ≤ data.length
  length_lt : data.length < 536870912

inductive DmaReady (ds : Nat) : List (List Byte) → List Cell → Prop where
  | nil : DmaReady ds [] []
  | cons {data frames mids last rest} : DmaCells ds data mids last → DmaReady ds frames rest →
      DmaReady ds (data :: frames) (mids ++ last :: rest)

/-- The full descriptors `mids` hold the first `taken` bytes of the frame the engine is at. -/
structure EngineHolds (ds taken : Nat) (line : List (List Byte)) (mids : List Cell) : Prop where
  full : Mids ds mids
  idle : line = [] → mids = []
  part : ∀ frame rest, line = frame :: rest → taken < frame.length ∧ cellBytes mids = frame.take taken
  count : taken = ds * mids.length

variable {ds taken : Nat} {line frames : List (List Byte)} {data : List Byte}
  {cells pre mids rest : List Cell} {cell last : Cell} {port : RxPort}

theorem DmaReady.concat (h : DmaReady ds frames cells) (hframe : DmaCells ds data mids last) :
    DmaReady ds (frames ++ [data]) (cells ++ (mids ++ [last])) := by
  induction h with
  | nil => exact DmaReady.cons hframe DmaReady.nil
  | cons hfirst _ ih =>
    rw [List.append_assoc, List.cons_append]
    exact DmaReady.cons hfirst ih

theorem HoldsCells.userDesc (h : HoldsCells (cell :: cells) port) : CellDesc cell port.userDesc :=
  h.head

theorem HoldsCells.release (h : HoldsCells (cell :: cells) port) :
    HoldsCells cells (releaseUserDesc port) := by
  have hopen : DmaFrame.Unfinished { port.userDesc with timestamp := 0, control := descHiBit } := by
    constructor
    · show descHiBit &&& descFeBit = 0
      decide
    · show descHiBit &&& descCstopBit = 0
      decide
  exact h.pop hopen fun _ ↦ hopen

theorem Buffers.update (h : Buffers ds port) (desc : DmaFrame) (hsize : desc.dataSize = ds)
    (hlength : desc.buffer.length = ds) (index : Nat) :
    Buffers ds { port with rxDescriptors := Function.update port.rxDescriptors index desc } := by
  intro i hi
  dsimp only
  by_cases heq : i = index
  · rw [heq, Function.update_self]
    exact ⟨hsize, hlength⟩
  · rw [Function.update_of_ne heq]
    exact h i hi

theorem Buffers.release (h : Buffers ds port) (hlt : port.userRxDesc < port.rxNum) :
    Buffers ds (releaseUserDesc port) :=
  h.update { port.userDesc with timestamp := 0, control := descHiBit } (h _ hlt).1 (h _ hlt).2
    port.userRxDesc

/-! `fscc_user_next_read_size` finds the first frame, within the descriptors that it looks at. -/

theorem Mids.take (h : Mids ds mids) (n : Nat) : Mids ds (mids.take n) :=
  fun cell hmem ↦ h cell (List.mem_of_mem_take hmem)

theorem nextReadSizeLoop_reaches (h : HoldsCells (mids ++ last :: rest) port) (hmids : Mids ds mids)
    {n : Nat} (hn : n ≤ port.rxNum)
    (hfound : (nextReadSizeLoop port n port.userRxDesc 0).1 = true) : mids.length + 1 ≤ n := by
  have hloop := nextReadSizeLoop_cells h n ((Nat.zero_add n).symm ▸ hn) 0
  rw [Nat.add_zero, Nat.mod_eq_of_lt h.origin_lt, List.drop_zero] at hloop
  by_contra hfew
  rw [hloop, List.take_append_of_le_length (by omega), readSize_mids (hmids.take n)] at hfound
  cases hfound

/-! ## The engine -/

-- What the engine leaves alone.
structure FillKeeps (s s' : DmaState H) : Prop where
  port : ReadKeeps s.port s'.port
  user : s'.port.userRxDesc = s.port.userRxDesc
  arrived : s'.arrived = s.arrived
  call : s'.call = s.call
  reads : s'.reads = s.reads

structure EngineAt (s : DmaState H) (cells : List Cell) : Prop where
  holds : HoldsCells cells s.port
  engine : s.engineDesc = (s.port.userRxDesc + cells.length) % s.port.rxNum

variable {s : DmaState H}

theorem EngineAt.room (h : EngineAt s cells)
    (hopen : (s.port.rxDescriptors s.engineDesc).Unfinished) : cells.length < s.port.rxNum := by
  refine Nat.lt_of_le_of_ne h.holds.fits fun hfull ↦ ?_
  cases cells with
  | nil => exact absurd (hfull ▸ h.holds.origin_lt) (Nat.not_lt_zero _)
  | cons cell cells =>
    have hwrap : s.engineDesc = s.port.userRxDesc := by
      rw [h.engine, hfull, Nat.add_mod_right, Nat.mod_eq_of_lt h.holds.origin_lt]
    rw [hwrap] at hopen
    exact h.holds.userDesc.cstop hopen.2

-- The descriptor the engine fills goes to the end.
theorem EngineAt.push (h : EngineAt s cells) (hlt : cells.length < s.port.rxNum) {desc : DmaFrame}
    (hdesc : CellDesc cell desc) {s' : DmaState H}
    (hport : s'.port =
      { s.port with rxDescriptors := Function.update s.port.rxDescriptors s.engineDesc desc })
    (hengine : s'.engineDesc = Cyclic.next s.port.rxNum s.engineDesc) : EngineAt s' (cells ++ [cell]) := by
  constructor
  · have hholds := h.holds.push DmaFrame.Unfinished hlt hdesc fun _ ↦ id
    rw [← h.engine] at hholds
    rw [HoldsCells, hport]
    exact hholds
  · rw [hengine, hport, h.engine, Cyclic.next_add_mod (Nat.lt_of_le_of_lt (Nat.zero_le _) hlt),
      List.length_append, List.length_singleton]

theorem cellDesc_full {desc : DmaFrame} (hlength : data.length = desc.dataSize)
    (timestamp : BitVec 64) :
    CellDesc ⟨data, none, timestamp⟩ { desc with
      buffer := Bytes.write desc.buffer 0 data, dataCount := desc.dataSize, timestamp
      control := descCstopBit } := by
  refine ⟨?_, iff_of_true ?_ rfl, fun t ht ↦ ?_, fun _ ↦ hlength.symm, fun n hn ↦ ?_⟩
  · show ¬ descCstopBit &&& descCstopBit = 0
    decide
  · show descCstopBit &&& descFeBit = 0
    decide
  · cases ht
  · exact Bytes.read_write _ hn

theorem cellDesc_last (desc : DmaFrame) (data : List Byte) {total : Nat} (htotal : total < 536870912) (dataCount : Nat)
    (timestamp : BitVec 64) :
    CellDesc ⟨data, some total, timestamp⟩ { desc with
      buffer := Bytes.write desc.buffer 0 data, dataCount, timestamp
      control := total + descCstopBit + descFeBit } := by
  have hcontrol : total + descCstopBit + descFeBit = total + 1073741824 + 2147483648 := rfl
  refine ⟨?_, iff_of_false ?_ (fun hnone ↦ by cases hnone), fun t ht ↦ ?_,
    fun hnone ↦ (by cases hnone), fun n hn ↦ ?_⟩
  · show ¬ (total + descCstopBit + descFeBit) &&& descCstopBit = 0
    rw [hcontrol, and_descCstopBit]
    omega
  · show ¬ (total + descCstopBit + descFeBit) &&& descFeBit = 0
    rw [hcontrol, and_descFeBit]
    omega
  · show (total + descCstopBit + descFeBit) &&& dmaMaxLength = t
    rw [hcontrol, and_dmaMaxLength, ← Option.some.inj ht]
    omega
  · exact Bytes.read_write _ hn

-- The rest of the frame fits the descriptor: it is finished there.
theorem EngineHolds.finish {frame : List Byte} (h : EngineHolds ds taken (frame :: line) mids)
    (hline : ∀ data ∈ frame :: line, 2 ≤ data.length ∧ data.length < 536870912)
    (timestamp : BitVec 64) :
    DmaCells ds frame mids ⟨frame.drop taken, some frame.length, timestamp⟩ ∧
      EngineHolds ds 0 line [] := by
  obtain ⟨hlt, hbytes⟩ := h.part frame line rfl
  obtain ⟨htwo, hshort⟩ := hline frame List.mem_cons_self
  constructor
  · refine ⟨h.full, rfl, ?_, ?_, htwo, hshort⟩
    · show 0 < (frame.drop taken).length
      rw [List.length_drop]
      exact Nat.sub_pos_of_lt hlt
    · rw [hbytes]
      exact List.take_append_drop taken frame
  · refine ⟨Mids.nil, fun _ ↦ rfl, fun data rest heq ↦ ⟨?_, rfl⟩, rfl⟩
    have htwo' := (hline data (List.mem_cons_of_mem _ (heq ▸ List.mem_cons_self))).1
    omega

-- It does not: the descriptor is filled up.
theorem EngineHolds.extend {frame : List Byte} (h : EngineHolds ds taken (frame :: line) mids)
    (hmore : ds < (frame.drop taken).length) (timestamp : BitVec 64) :
    EngineHolds ds (taken + ds) (frame :: line)
      (mids ++ [⟨(frame.drop taken).take ds, none, timestamp⟩]) := by
  obtain ⟨hlt, hbytes⟩ := h.part frame line rfl
  have hlength : ((frame.drop taken).take ds).length = ds := by
    rw [List.length_take, Nat.min_eq_left (Nat.le_of_lt hmore)]
  refine ⟨h.full.concat _ rfl hlength, fun hnil ↦ (by cases hnil), fun data rest heq ↦ ?_, ?_⟩
  · obtain ⟨rfl, rfl⟩ := List.cons_eq_cons.mp heq
    rw [List.length_drop] at hmore
    refine ⟨by omega, ?_⟩
    rw [cellBytes_append, hbytes, List.take_add]
    simp
  · rw [List.length_append, List.length_singleton, Nat.mul_add_one, ← h.count]

/-- What one step of the engine does: nothing, one more full descriptor, or the end of a frame. -/
theorem fill_cases (h : EngineAt s (pre ++ mids)) (hholds : EngineHolds ds s.taken s.line mids)
    (hbuffers : Buffers ds s.port)
    (hline : ∀ frame ∈ s.line, 2 ≤ frame.length ∧ frame.length < 536870912) (dataCount : Nat)
    (timestamp : BitVec 64) :
    let s' := s.fill dataCount timestamp
    FillKeeps s s' ∧ Buffers ds s'.port ∧
      ((s'.line = s.line ∧ ∃ mids', EngineAt s' (pre ++ mids') ∧
          EngineHolds ds s'.taken s'.line mids') ∨
        ∃ frame last, s.line = frame :: s'.line ∧ DmaCells ds frame mids last ∧
          EngineAt s' (pre ++ (mids ++ [last])) ∧ EngineHolds ds s'.taken s'.line []) := by
  intro s'
  have hstay : s' = s → FillKeeps s s' ∧ Buffers ds s'.port ∧
      ((s'.line = s.line ∧ ∃ mids', EngineAt s' (pre ++ mids') ∧
          EngineHolds ds s'.taken s'.line mids') ∨
        ∃ frame last, s.line = frame :: s'.line ∧ DmaCells ds frame mids last ∧
          EngineAt s' (pre ++ (mids ++ [last])) ∧ EngineHolds ds s'.taken s'.line []) := by
    intro heq
    rw [heq]
    exact ⟨⟨ReadKeeps.refl _, rfl, rfl, rfl, rfl⟩, hbuffers, Or.inl ⟨rfl, mids, h, hholds⟩⟩
  cases hfirst : s.line with
  | nil =>
    rw [← hfirst]
    apply hstay
    show s.fill dataCount timestamp = s
    rw [DmaState.fill, hfirst]
  | cons frame line =>
    by_cases hopen : (s.port.rxDescriptors s.engineDesc).Unfinished
    swap
    · rw [← hfirst]
      apply hstay
      show s.fill dataCount timestamp = s
      rw [DmaState.fill, hfirst]
      exact if_pos hopen
    have hlt := h.room hopen
    have hindex : s.engineDesc < s.port.rxNum := by
      rw [h.engine]
      exact Nat.mod_lt _ (Nat.lt_of_le_of_lt (Nat.zero_le _) hlt)
    obtain ⟨hsize, hbuffer⟩ := hbuffers _ hindex
    rw [hfirst] at hholds hline
    have hwrite : ∀ piece : List Byte, piece.length ≤ ds →
        (Bytes.write (s.port.rxDescriptors s.engineDesc).buffer 0 piece).length = ds := by
      intro piece hpiece
      rw [Bytes.write_length (by omega), hbuffer]
    have hstep : s' = s.fill dataCount timestamp := rfl
    rw [DmaState.fill, hfirst] at hstep
    dsimp only at hstep
    rw [if_neg (not_not.mpr hopen)] at hstep
    by_cases hlast : (frame.drop s.taken).length ≤ (s.port.rxDescriptors s.engineDesc).dataSize
    · rw [if_pos hlast, List.take_of_length_le hlast] at hstep
      obtain ⟨hcells, hnext⟩ := hholds.finish hline timestamp
      have hport := congrArg DmaState.port hstep
      have hdesc := cellDesc_last (s.port.rxDescriptors s.engineDesc) (frame.drop s.taken)
        hcells.length_lt dataCount timestamp
      refine ⟨?_, ?_, Or.inr ⟨frame, _, ?_, hcells, ?_, ?_⟩⟩
      · rw [hstep]
        exact ⟨⟨rfl, rfl, rfl, rfl, rfl, rfl, rfl, rfl⟩, rfl, rfl, rfl, rfl⟩
      · rw [hport]
        refine hbuffers.update _ ?_ ?_ _
        · exact hsize
        · exact hwrite _ (hsize ▸ hlast)
      · rw [hstep]
      · rw [← List.append_assoc]
        exact h.push hlt hdesc hport (congrArg DmaState.engineDesc hstep)
      · rw [hstep]
        exact hnext
    · rw [if_neg hlast, hsize] at hstep
      have hmore : ds < (frame.drop s.taken).length := by omega
      have hlength : ((frame.drop s.taken).take ds).length = ds := by
        rw [List.length_take, Nat.min_eq_left (Nat.le_of_lt hmore)]
      have hport := congrArg DmaState.port hstep
      have hdesc := cellDesc_full (hlength.trans hsize.symm) timestamp
      rw [hsize] at hdesc
      refine ⟨?_, ?_, Or.inl ⟨?_, mids ++ [⟨(frame.drop s.taken).take ds, none, timestamp⟩], ?_, ?_⟩⟩
      · rw [hstep]
        exact ⟨⟨rfl, rfl, rfl, rfl, rfl, rfl, rfl, rfl⟩, rfl, rfl, rfl, rfl⟩
      · rw [hport]
        refine hbuffers.update _ ?_ ?_ _
        · rfl
        · exact hwrite _ (Nat.le_of_eq hlength)
      · rw [hstep]
      · rw [← List.append_assoc]
        exact h.push hlt hdesc hport (congrArg DmaState.engineDesc hstep)
      · rw [hstep]
        exact hholds.extend hmore timestamp

end FsccDriver

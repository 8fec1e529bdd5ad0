import FsccDriver.Control
import FsccDriver.TxPort

/-!
# TxRing — the queue of pending segments

`TxRing ds cells port` says that the transmit ring of `port`, with buffers of `ds` bytes, holds the
segments `cells` from `fifo_tx_desc` on.  `fscc_user_write_frame` appends the segments of a frame and
`fscc_fifo_write_data` takes them from the front.
-/

namespace FsccDriver

open Words

variable {H : Type}

/-! ## Descriptors -/

/-- A descriptor that waits to be sent: the words it will push, and the length of its frame if it is
the first one. -/
structure TxCell where
  words : List (BitVec 32)
  first : Option Nat

def pendingControl (first : Option Nat) (dataCount : Nat) : Nat :=
  match first with
  | some length => descHiBit ||| descFeBit ||| length
  | none => descHiBit ||| dataCount

structure PendingDesc (ds : Nat) (cell : TxCell) (desc : DmaFrame) : Prop where
  dataSize : desc.dataSize = ds
  bufferLength : desc.buffer.length = ds
  words : setRegisterRepWords desc.buffer desc.dataCount = cell.words
  count_pos : 0 < desc.dataCount
  count_le : desc.dataCount ≤ ds
  count_lt : desc.dataCount < 536870912
  control : desc.control = pendingControl cell.first desc.dataCount
  first : ∀ length, cell.first = some length → 0 < length ∧ length < 536870912

structure FreeDesc (ds : Nat) (desc : DmaFrame) : Prop where
  dataSize : desc.dataSize = ds
  bufferLength : desc.buffer.length = ds
  control : desc.control = descCstopBit

structure TxRing (ds : Nat) (cells : List TxCell) (port : TxPort) : Prop where
  holds : Cyclic.Holds (PendingDesc ds) (FreeDesc ds) (FreeDesc ds) cells port.txDescriptors
    port.txNum port.fifoTxDesc
  user : port.userTxDesc = (port.fifoTxDesc + cells.length) % port.txNum

variable {ds : Nat} {cells : List TxCell} {cell : TxCell} {port : TxPort} {desc : DmaFrame}

-- HI stands above the count, FE above both, and CSTOP is clear.
theorem hi_or {t : Nat} (ht : t < 536870912) : descHiBit ||| t = 536870912 + t :=
  (Nat.two_pow_add_eq_or_of_lt (i := 29) ht 1).symm

theorem hi_fe_or {t : Nat} (ht : t < 536870912) :
    descHiBit ||| descFeBit ||| t = 2684354560 + t :=
  (Nat.two_pow_add_eq_or_of_lt (i := 29) ht 5).symm

theorem FreeDesc.cstop (h : FreeDesc ds desc) : desc.control &&& descCstopBit = descCstopBit := by
  rw [h.control]
  decide

theorem PendingDesc.not_cstop (h : PendingDesc ds cell desc) :
    ¬ desc.control &&& descCstopBit = descCstopBit := by
  rw [and_descCstopBit_self, h.control]
  have hcount := h.count_lt
  cases hfirst : cell.first with
  | none =>
    rw [pendingControl, hi_or hcount]
    omega
  | some length =>
    have hlength := (h.first length hfirst).2
    rw [pendingControl, hi_fe_or hlength]
    omega

theorem PendingDesc.fe_iff (h : PendingDesc ds cell desc) :
    desc.control &&& descFeBit = descFeBit ↔ cell.first.isSome := by
  rw [and_descFeBit_self, h.control]
  have hcount := h.count_lt
  cases hfirst : cell.first with
  | none =>
    rw [pendingControl, hi_or hcount, Option.isSome_none]
    exact ⟨fun h ↦ by omega, fun h ↦ absurd h Bool.false_ne_true⟩
  | some length =>
    have hlength := (h.first length hfirst).2
    rw [pendingControl, hi_fe_or hlength, Option.isSome_some]
    exact ⟨fun _ ↦ rfl, fun _ ↦ by omega⟩

theorem PendingDesc.length (h : PendingDesc ds cell desc) {length : Nat}
    (hfirst : cell.first = some length) : desc.control &&& dmaMaxLength = length := by
  have hlength := (h.first length hfirst).2
  rw [and_dmaMaxLength, h.control, hfirst, pendingControl, hi_fe_or hlength]
  omega

theorem PendingDesc.packed (h : PendingDesc ds cell desc) :
    Bytes.Packed (desc.buffer.take desc.dataCount) cell.words :=
  h.words ▸ setRegisterRepWords_packed (h.bufferLength ▸ h.count_le)

theorem PendingDesc.words_length (h : PendingDesc ds cell desc) :
    cell.words.length = (desc.dataCount + 3) / 4 := by
  rw [h.packed.length, List.length_take, h.bufferLength, Nat.min_eq_left h.count_le]

-- The driver reserves at least the room the words take.
theorem PendingDesc.sizeInFifo (h : PendingDesc ds cell desc) :
    4 * cell.words.length ≤ sizeInFifo desc.dataCount ∧
      FsccDriver.sizeInFifo desc.dataCount < 4294967296 := by
  have hcount := h.count_lt
  rw [FsccDriver.sizeInFifo, u32_add_of_lt (by omega), h.words_length]
  omega

/-! ## The ring -/

theorem TxRing.cells_le (h : TxRing ds cells port) : cells.length ≤ port.txNum := h.holds.fits

theorem TxRing.fifoDesc (h : TxRing ds (cell :: cells) port) : PendingDesc ds cell port.fifoDesc :=
  h.holds.head

theorem TxRing.fifoDesc_nil (h : TxRing ds [] port) : FreeDesc ds port.fifoDesc := h.holds.cur_first

theorem TxRing.userDesc (h : TxRing ds cells port) (hlt : cells.length < port.txNum) :
    FreeDesc ds port.userDesc := by
  have hcur := h.holds.cur hlt
  rwa [Cyclic.slot, ← h.user] at hcur

-- The descriptor at `fifo_tx_desc` has been pushed.
theorem TxRing.pop (h : TxRing ds (cell :: cells) port) :
    TxRing ds cells (port.setFifoDesc
      { port.fifoDesc with dataCount := 0, control := descCstopBit }).nextFifo := by
  have hfree : FreeDesc ds { port.fifoDesc with dataCount := 0, control := descCstopBit } :=
    ⟨h.fifoDesc.dataSize, h.fifoDesc.bufferLength, rfl⟩
  refine ⟨h.holds.pop hfree fun _ ↦ hfree, ?_⟩
  show port.userTxDesc = (Cyclic.next port.txNum port.fifoTxDesc + cells.length) % port.txNum
  rw [h.user, List.length_cons, Cyclic.add_mod_next h.holds.origin_lt]

-- The descriptor at `user_tx_desc` has been filled.
theorem TxRing.push (h : TxRing ds cells port) (hlt : cells.length < port.txNum)
    (hdesc : PendingDesc ds cell desc) :
    TxRing ds (cells ++ [cell]) (port.setUserDesc desc).nextUser := by
  have hholds := h.holds.push (FreeDesc ds) hlt hdesc fun _ ↦ id
  rw [← h.user] at hholds
  refine ⟨hholds, ?_⟩
  show Cyclic.next port.txNum port.userTxDesc = _
  rw [h.user, Cyclic.next_add_mod (by omega), List.length_append, List.length_singleton]
  rfl

-- A descriptor that is not free holds a segment.
theorem TxRing.pending (h : TxRing ds cells port) {i : Nat} (hi : i < port.txNum)
    (hbusy : ¬ (port.txDescriptors i).control &&& descCstopBit = descCstopBit) :
    ∃ (k : Nat) (hk : k < cells.length), (port.fifoTxDesc + k) % port.txNum = i ∧
      PendingDesc ds cells[k] (port.txDescriptors i) := by
  rcases h.holds.cases_slot hi with hpending | ⟨-, -, hcur⟩ | hother
  · exact hpending
  · exact absurd hcur.cstop hbusy
  · exact absurd hother.cstop hbusy

/-- The transmit memory of a port: a ring of at least two descriptors with buffers of `ds` bytes. -/
structure TxMemory (ds : Nat) (port : TxPort) : Prop where
  slots : 2 ≤ port.txNum
  size : BufferSize ds
  descs : ∀ i < port.txNum,
    (port.txDescriptors i).dataSize = ds ∧ (port.txDescriptors i).buffer.length = ds

theorem TxMemory.resetTx (h : TxMemory ds port) : TxRing ds [] (resetTx port) := by
  have hpos : 0 < port.txNum := Nat.lt_of_lt_of_le Nat.two_pos h.slots
  have hfree : ∀ i < port.txNum, FreeDesc ds ((FsccDriver.resetTx port).txDescriptors i) := by
    intro i hi
    show FreeDesc ds (if i < port.txNum then _ else _)
    rw [if_pos hi]
    exact ⟨(h.descs i hi).1, (h.descs i hi).2, rfl⟩
  exact ⟨.empty hpos hfree hfree, (Nat.zero_mod _).symm⟩

/-! ## The user side -/

-- `k` slots of the turn from `fifo_tx_desc` have been passed; the turn may go on into its start.
theorem getTxSpaceLoop_ring (h : TxRing ds cells port) (n k space : Nat) (hk : cells.length ≤ k)
    (hle : k ≤ port.txNum) (hn : port.txNum - k ≤ n) (hnil : cells = [] → n = port.txNum - k) :
    getTxSpaceLoop port n ((port.fifoTxDesc + k) % port.txNum) space =
      space + ds * (port.txNum - k) := by
  have hpos : 0 < port.txNum := Nat.lt_of_le_of_lt (Nat.zero_le _) h.holds.origin_lt
  induction n generalizing k space with
  | zero =>
    have hnone : port.txNum - k = 0 := Nat.le_zero.mp hn
    rw [getTxSpaceLoop, hnone, Nat.mul_zero, Nat.add_zero]
  | succ n ih =>
    rw [getTxSpaceLoop]
    by_cases hlt : k < port.txNum
    · have hfree : FreeDesc ds (port.txDescriptors ((port.fifoTxDesc + k) % port.txNum)) := by
        rcases Nat.lt_or_eq_of_le hk with hless | heq
        · exact h.holds.free k hless hlt
        · exact heq ▸ h.holds.cur (heq ▸ hlt)
      have hmul : ds * (port.txNum - k) = ds + ds * (port.txNum - (k + 1)) := by
        rw [show port.txNum - k = port.txNum - (k + 1) + 1 by omega, Nat.mul_add, Nat.mul_one,
          Nat.add_comm]
      rw [if_neg (not_not.mpr hfree.cstop), Cyclic.next_add_mod hpos, hfree.dataSize,
        ih (k + 1) (space + ds) (by omega) hlt (by omega) fun hcells ↦ by have := hnil hcells; omega,
        hmul, Nat.add_assoc]
    · have hfull : k = port.txNum := Nat.le_antisymm hle (Nat.le_of_not_lt hlt)
      cases cells with
      | nil => exact absurd (hnil rfl) (by omega)
      | cons cell cells =>
        have hhead : port.txDescriptors ((port.fifoTxDesc + k) % port.txNum) = port.fifoDesc := by
          rw [hfull, Nat.add_mod_right, Nat.mod_eq_of_lt h.holds.origin_lt]
          rfl
        rw [hhead, if_pos h.fifoDesc.not_cstop, hfull, Nat.sub_self, Nat.mul_zero, Nat.add_zero]

/-- The space is that of the descriptors that hold no segment. -/
theorem fsccUserGetTxSpace_ring (h : TxRing ds cells port) :
    fsccUserGetTxSpace port = ds * (port.txNum - cells.length) := by
  rw [fsccUserGetTxSpace, h.user,
    getTxSpaceLoop_ring h _ _ 0 (Nat.le_refl _) h.cells_le (Nat.sub_le _ _) fun hnil ↦ by
      rw [hnil, List.length_nil, Nat.sub_zero], Nat.zero_add]

/-- The segments of `data`: each but the last holds whole words, and only the first says how long
the frame is. -/
inductive Segments : Option Nat → List Byte → List TxCell → Prop where
  | last {first : Option Nat} {data : List Byte} {words : List (BitVec 32)} (hpos : 0 < data.length)
      (hwords : Bytes.Packed data words) : Segments first data [⟨words, first⟩]
  | more {first : Option Nat} {data rest : List Byte} {words : List (BitVec 32)}
      {cells : List TxCell} (hpos : 0 < data.length) (halign : data.length % 4 = 0)
      (hwords : Bytes.Packed data words) (hrest : Segments none rest cells) :
      Segments first (data ++ rest) (⟨words, first⟩ :: cells)

theorem Segments.packed {first : Option Nat} {data : List Byte} (h : Segments first data cells) :
    Bytes.Packed data (cells.flatMap TxCell.words) := by
  induction h with
  | last hpos hwords => simpa using hwords
  | more hpos halign hwords hrest ih => exact hwords.append ih halign

theorem Segments.words_pos {first : Option Nat} {data : List Byte} (h : Segments first data cells) :
    ∀ cell ∈ cells, 0 < cell.words.length := by
  induction h with
  | last hpos hwords =>
    intro cell hcell
    rw [List.mem_singleton.mp hcell]
    exact hwords.ne_nil hpos
  | more hpos halign hwords hrest ih =>
    intro cell hcell
    rcases List.mem_cons.mp hcell with rfl | hlater
    · exact hwords.ne_nil hpos
    · exact ih cell hlater

theorem Segments.rest_first {first : Option Nat} {data : List Byte} (h : Segments first data cells) :
    ∃ cell rest, cells = cell :: rest ∧ cell.first = first ∧ ∀ cell ∈ rest, cell.first = none := by
  induction h with
  | last => exact ⟨_, [], rfl, rfl, fun _ hcell ↦ absurd hcell List.not_mem_nil⟩
  | more hpos halign hwords hrest ih =>
    obtain ⟨cell, rest, rfl, hnone, hothers⟩ := ih
    refine ⟨_, _, rfl, rfl, fun other hother ↦ ?_⟩
    rcases List.mem_cons.mp hother with rfl | hlater
    · exact hnone
    · exact hothers other hlater

-- What the two sides of the transmit path leave alone.
structure TxKeeps (port port' : TxPort) : Prop where
  toRegPort : port'.toRegPort = port.toRegPort
  txNum : port'.txNum = port.txNum

theorem TxKeeps.trans {a b c : TxPort} (hab : TxKeeps a b) (hbc : TxKeeps b c) : TxKeeps a c :=
  ⟨hbc.1.trans hab.1, hbc.2.trans hab.2⟩

-- What a write leaves alone besides.
structure WriteKeeps (port port' : TxPort) : Prop extends TxKeeps port port' where
  fifoTxDesc : port'.fifoTxDesc = port.fifoTxDesc

theorem WriteKeeps.trans {a b c : TxPort} (hab : WriteKeeps a b) (hbc : WriteKeeps b c) :
    WriteKeeps a c :=
  ⟨hab.toTxKeeps.trans hbc.toTxKeeps, hbc.fifoTxDesc.trans hab.fifoTxDesc⟩

section Write

variable {buf : List Byte} {dataLength : Nat} {st : WriteFrameLoop}

-- The loop has copied `outLength` bytes of the frame and has room for the rest.
structure WritingFrame (ds : Nat) (buf : List Byte) (cells : List TxCell) (st : WriteFrameLoop) :
    Prop where
  ring : TxRing ds cells st.port
  bufLength : buf.length < 536870912
  outLength : st.outLength < buf.length
  room : buf.length - st.outLength ≤ ds * (st.port.txNum - cells.length)

-- What a frame's first segment says about its length, and what the others say.
def firstOf (i dataLength : Nat) : Option Nat := if i = 0 then some dataLength else none

/-- The segment that one round of the loop fills. -/
def segmentCell (buf : List Byte) (st : WriteFrameLoop) : TxCell where
  words := setRegisterRepWords (Bytes.write st.port.userDesc.buffer 0
      (Bytes.read buf st.outLength (min (buf.length - st.outLength) st.port.userDesc.dataSize)))
    (min (buf.length - st.outLength) st.port.userDesc.dataSize)
  first := firstOf st.i buf.length

theorem WritingFrame.slot (h : WritingFrame ds buf cells st) : cells.length < st.port.txNum := by
  have hroom := h.room
  have hout := h.outLength
  by_contra hfull
  rw [Nat.sub_eq_zero_of_le (Nat.le_of_not_lt hfull), Nat.mul_zero] at hroom
  omega

theorem segmentControl_eq (i dataLength transmitLength : Nat) :
    segmentControl i dataLength transmitLength =
      pendingControl (firstOf i dataLength) transmitLength := by
  unfold segmentControl firstOf
  split <;> rfl

theorem writeFrameStep_ring (h : WritingFrame ds buf cells st) (hds : BufferSize ds) {len : Nat}
    (hlen : len = min (buf.length - st.outLength) ds) :
    ∃ st', writeFrameStep buf buf.length st = (decide (st.outLength + len ≠ buf.length), st') ∧
      TxRing ds (cells ++ [segmentCell buf st]) st'.port ∧
      Bytes.Packed ((buf.drop st.outLength).take len) (segmentCell buf st).words ∧
      st'.i = st.i + 1 ∧ st'.outLength = st.outLength + len ∧ st'.status = st.status ∧
      WriteKeeps st.port st'.port := by
  have hfree := h.ring.userDesc h.slot
  have hbuf := h.bufLength
  have hout := h.outLength
  have hpos := hds.pos
  have hsub : u32 ((buf.length : Int) - st.outLength) = buf.length - st.outLength :=
    u32_sub_of_le (by omega) (Nat.le_of_lt hout)
  have hadd : u32 ((st.outLength : Int) + len) = st.outLength + len := u32_add_of_lt (by omega)
  have hread : Bytes.read buf st.outLength len = (buf.drop st.outLength).take len :=
    Bytes.read_eq_take_drop (by omega)
  have hreadLen := Bytes.read_length buf st.outLength len
  have hwritten : (Bytes.write st.port.userDesc.buffer 0 (Bytes.read buf st.outLength len)).length =
      ds := by
    rw [Bytes.write_length (by rw [hreadLen, hfree.bufferLength]; omega), hfree.bufferLength]
  have hhead := Bytes.write_take (Bytes.read buf st.outLength len)
    (Nat.zero_le st.port.userDesc.buffer.length)
  rw [hreadLen, List.take_zero, List.nil_append, Nat.zero_add] at hhead
  have hcell : segmentCell buf st = ⟨setRegisterRepWords (Bytes.write st.port.userDesc.buffer 0
      (Bytes.read buf st.outLength len)) len, firstOf st.i buf.length⟩ := by
    rw [segmentCell, hfree.dataSize, ← hlen]
  have hpending : PendingDesc ds (segmentCell buf st) { st.port.userDesc with
      control := segmentControl st.i buf.length len, dataCount := len
      buffer := Bytes.write st.port.userDesc.buffer 0 (Bytes.read buf st.outLength len) } := by
    rw [hcell]
    refine ⟨hfree.dataSize, hwritten, rfl, ?_, ?_, ?_, segmentControl_eq _ _ _, ?_⟩
    · show 0 < len
      omega
    · show len ≤ ds
      omega
    · show len < 536870912
      omega
    · intro length hfirst
      change firstOf st.i buf.length = some length at hfirst
      unfold firstOf at hfirst
      split at hfirst
      · rw [← Option.some.inj hfirst]
        omega
      · cases hfirst
  have hpacked := hpending.packed
  rw [hhead, hread] at hpacked
  have hstep : writeFrameStep buf buf.length st = (decide (st.outLength + len ≠ buf.length), { st with
      port := (st.port.setUserDesc { st.port.userDesc with
        control := segmentControl st.i buf.length len, dataCount := len
        buffer := Bytes.write st.port.userDesc.buffer 0 (Bytes.read buf st.outLength len) }).nextUser
      i := st.i + 1, outLength := st.outLength + len
      startDesc := if st.startDesc = 0 then st.port.descPhysicalAddress st.port.userTxDesc
        else st.startDesc }) := by
    simp only [writeFrameStep, hfree.cstop, ne_eq, not_true_eq_false, if_false, hsub,
      hfree.dataSize, ← hlen, hadd]
  exact ⟨_, hstep, h.ring.push h.slot hpending, hpacked, rfl, rfl, rfl, ⟨⟨rfl, rfl⟩, rfl⟩⟩

theorem WritingFrame.next {st' : WriteFrameLoop} (h : WritingFrame ds buf cells st)
    (hring : TxRing ds (cells ++ [cell]) st'.port) (hnum : st'.port.txNum = st.port.txNum)
    (hout : st'.outLength = st.outLength + ds) (hlt : st.outLength + ds < buf.length) :
    WritingFrame ds buf (cells ++ [cell]) st' := by
  have hroom := h.room
  have hslot := h.slot
  refine ⟨hring, h.bufLength, hout ▸ hlt, ?_⟩
  have hmul : ds * (st.port.txNum - cells.length) =
      ds * (st.port.txNum - (cells.length + 1)) + ds := by
    rw [show st.port.txNum - cells.length = st.port.txNum - (cells.length + 1) + 1 by omega,
      Nat.mul_add, Nat.mul_one]
  rw [hnum, hout, List.length_append, List.length_singleton]
  omega

-- Induction over the rounds: each takes one free descriptor, and there are enough of them.
theorem writeFrameLoop_ring (h : WritingFrame ds buf cells st) (hds : BufferSize ds) {n : Nat}
    (hn : st.port.txNum - cells.length ≤ n) :
    ∃ segments st', writeFrameLoop buf buf.length n st = st' ∧
      Segments (firstOf st.i buf.length) (buf.drop st.outLength) segments ∧
      TxRing ds (cells ++ segments) st'.port ∧ st'.outLength = buf.length ∧
      st'.status = st.status ∧ WriteKeeps st.port st'.port := by
  induction n generalizing cells st with
  | zero => exact absurd h.slot (by omega)
  | succ n ih =>
    have hlt := h.outLength
    have hpos := hds.pos
    obtain ⟨st₁, hstep, hring, hpacked, hi, hout, hstatus, hkeeps⟩ := writeFrameStep_ring h hds rfl
    generalize hlen : min (buf.length - st.outLength) ds = len at hstep hpacked hout
    have htaken : ((buf.drop st.outLength).take len).length = len := by
      rw [List.length_take, List.length_drop]
      omega
    rw [writeFrameLoop, hstep]
    by_cases hdone : st.outLength + len = buf.length
    · have hall : (buf.drop st.outLength).take len = buf.drop st.outLength := by
        apply List.take_of_length_le
        rw [List.length_drop]
        omega
      rw [hall] at hpacked htaken
      refine ⟨[segmentCell buf st], st₁, by simp [hdone], ?_, hring, hout.trans hdone, hstatus,
        hkeeps⟩
      exact .last (by omega) hpacked
    · have hfull : len = ds := by omega
      rw [hfull] at hout htaken hpacked
      have hnext := h.next hring hkeeps.txNum hout (by omega)
      obtain ⟨segments, st', hrun, hsegments, hring', hout', hstatus', hkeeps'⟩ :=
        ih hnext (by
          rw [hkeeps.txNum, List.length_append, List.length_singleton]
          omega)
      refine ⟨segmentCell buf st :: segments, st', by simpa [hdone] using hrun, ?_, ?_, hout',
        hstatus'.trans hstatus, hkeeps.trans hkeeps'⟩
      · have hsplit : buf.drop st.outLength =
            (buf.drop st.outLength).take ds ++ buf.drop st₁.outLength := by
          rw [hout, ← List.drop_drop, List.take_append_drop]
        have hlater : firstOf st₁.i buf.length = none := by
          rw [firstOf, hi]
          exact if_neg (Nat.succ_ne_zero _)
        rw [hlater] at hsegments
        rw [hsplit]
        exact .more (by omega) (by rw [htaken]; exact hds.align) hpacked hsegments
      · rwa [List.append_assoc] at hring'

end Write

/-- A frame that fits the free descriptors is queued whole. -/
theorem fsccUserWriteFrame_ring (hw : Hardware H) {buf : List Byte} (s : H)
    (h : TxRing ds cells port) (hds : BufferSize ds)
    (hfifo : fsccPortUsesDma port.toRegPort = false) (hpos : 0 < buf.length)
    (hlt : buf.length < 536870912) (hspace : buf.length ≤ fsccUserGetTxSpace port) :
    ∃ segments port', fsccUserWriteFrame hw buf buf.length port s =
        (⟨.success, buf.length⟩, port', s) ∧ Segments (some buf.length) buf segments ∧
      TxRing ds (cells ++ segments) port' ∧ WriteKeeps port port' := by
  rw [fsccUserGetTxSpace_ring h] at hspace
  have hwriting : WritingFrame ds buf cells ⟨port, 0, 0, 0, .success⟩ :=
    ⟨h, hlt, hpos, by rwa [Nat.sub_zero]⟩
  obtain ⟨segments, st', hrun, hsegments, hring, hout, hstatus, hkeeps⟩ :=
    writeFrameLoop_ring hwriting hds (Nat.sub_le _ _)
  refine ⟨segments, st'.port, ?_, hsegments, hring, hkeeps⟩
  have hnoDma : fsccPortUsesDma st'.port.toRegPort = false := hkeeps.toRegPort ▸ hfifo
  simp only [fsccUserWriteFrame, hrun, hnoDma, Bool.false_eq_true, if_false, hout, hstatus]

end FsccDriver

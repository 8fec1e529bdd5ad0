import FsccDriver.Lib.Runs
import Mathlib.Data.List.Forall2
import FsccDriver.TxRing

/-!
# Framed transmission in FIFO mode

The segments taken off the ring and those still on it are, at any time, the segments of the written
frames in order; the words pushed are the words of the former.
-/

namespace FsccDriver

open Words

variable {answers : (bar offset : Nat) → RegLog → BitVec 32} {ds : Nat} {cells : List TxCell}
  {port : TxPort} {log : RegLog}

/-! ## One call of `fscc_fifo_write_data` -/

section Drain

variable {st : WriteDataLoop} {tfcnt : Nat}

def cellWords (cells : List TxCell) : List (BitVec 32) := cells.flatMap TxCell.words

theorem cellWords_append (cells more : List TxCell) :
    cellWords (cells ++ more) = cellWords cells ++ cellWords more := List.flatMap_append

def fifoWrites (words : List (BitVec 32)) : List RegWrite := words.map (⟨0, fifoOffset, ·⟩)

def lengthWrites (lengths : List Nat) : List RegWrite :=
  lengths.map fun length ↦ ⟨0, bcFifoLOffset, BitVec.ofNat 32 length⟩

-- `frame_size` holds the length that is still to be announced, 0 if there is none.
def toAnnounce (frameSize : Nat) : List Nat := if frameSize ≠ 0 then [frameSize] else []

theorem ioWrites_log (bar offset : Nat) (words : List (BitVec 32)) (log : RegLog) :
    (words.foldl (fun log value ↦ (answering answers).ioWrite bar offset value log) log).writes =
      log.writes ++ words.map (⟨bar, offset, ·⟩) := by
  induction words generalizing log with
  | nil => exact (List.append_nil _).symm
  | cons word words ih =>
    rw [List.foldl_cons, ih, List.map_cons]
    show log.writes ++ [_] ++ _ = _
    rw [List.append_assoc, List.singleton_append]

theorem fsccPortSetRegisterRep_writes (channel : Nat) (data : List Byte) {byteCount : Nat}
    (hpos : 0 < byteCount) (log : RegLog) :
    (fsccPortSetRegisterRep (answering answers) channel 0 fifoOffset data byteCount log).writes =
      log.writes ++ fifoWrites (setRegisterRepWords data byteCount) := by
  rw [fsccPortSetRegisterRep, if_pos hpos, fsccCardSetRegisterRep, portOffset_bar0]
  exact ioWrites_log 0 fifoOffset _ log

/-- `m` segments have been taken off the ring and pushed. -/
structure Drained (ds : Nat) (cells : List TxCell) (st : WriteDataLoop) (log : RegLog) (m : Nat)
    (st' : WriteDataLoop) (log' : RegLog) : Prop where
  le : m ≤ cells.length
  ring : TxRing ds (cells.drop m) st'.port
  keeps : TxKeeps st.port st'.port
  fifo : st'.port.fifoTxDesc = (st.port.fifoTxDesc + m) % st.port.txNum
  writes : log'.writes = log.writes ++ fifoWrites (cellWords (cells.take m))
  space : 4 * (cellWords (cells.take m)).length + st'.fifoSpace ≤ st.fifoSpace
  lengths : toAnnounce st.frameSize ++ (cells.take m).filterMap TxCell.first =
    toAnnounce st'.frameSize

theorem Drained.none (h : TxRing ds cells st.port) : Drained ds cells st log 0 st log := by
  refine ⟨Nat.zero_le _, h, ⟨rfl, rfl⟩, ?_, (List.append_nil _).symm, ?_, List.append_nil _⟩
  · rw [Nat.add_zero, Nat.mod_eq_of_lt h.holds.origin_lt]
  · exact Nat.le_of_eq (Nat.zero_add _)

theorem Drained.trans {m n : Nat} {st₁ st₂ : WriteDataLoop} {log₁ log₂ : RegLog}
    (h : Drained ds cells st log m st₁ log₁) (h' : Drained ds (cells.drop m) st₁ log₁ n st₂ log₂) :
    Drained ds cells st log (m + n) st₂ log₂ := by
  have hle := h.le
  have hle' := h'.le
  have hspace := h.space
  have hspace' := h'.space
  have htake : cells.take (m + n) = cells.take m ++ (cells.drop m).take n := List.take_add
  rw [List.length_drop] at hle'
  refine ⟨by omega, ?_, h.keeps.trans h'.keeps, ?_, ?_, ?_, ?_⟩
  · rw [← List.drop_drop]
    exact h'.ring
  · rw [h'.fifo, h.fifo, h.keeps.txNum, Nat.mod_add_mod, Nat.add_assoc]
  · rw [h'.writes, h.writes, htake, cellWords_append, fifoWrites, fifoWrites, fifoWrites,
      List.map_append, List.append_assoc]
  · rw [htake, cellWords_append, List.length_append]
    omega
  · rw [htake, List.filterMap_append, ← List.append_assoc, h.lengths, h'.lengths]

variable (answers log tfcnt) in
-- One round stops, or pushes the first segment.
theorem writeDataStep_ring (h : TxRing ds cells st.port) (hspace : st.fifoSpace < 4294967296) :
    writeDataStep (answering answers) tfcnt st log = (false, st, log) ∨
      ∃ st' log', writeDataStep (answering answers) tfcnt st log = (true, st', log') ∧
        Drained ds cells st log 1 st' log' := by
  cases cells with
  | nil =>
    left
    rw [writeDataStep, if_pos h.fifoDesc_nil.cstop]
  | cons cell cells =>
    have hdesc := h.fifoDesc
    rw [writeDataStep, if_neg hdesc.not_cstop]
    by_cases hroom : st.fifoSpace < sizeInFifo st.port.fifoDesc.dataCount
    · exact Or.inl (if_pos hroom)
    rw [if_neg hroom]
    by_cases hbusy : st.port.fifoDesc.control &&& descFeBit = descFeBit ∧
        (tfcnt > 255 ∨ st.frameSize ≠ 0)
    · exact Or.inl (if_pos hbusy)
    rw [if_neg hbusy]
    refine Or.inr ⟨_, _, rfl, ?_⟩
    obtain ⟨hfits, hsize⟩ := hdesc.sizeInFifo
    refine ⟨Nat.le_add_left 1 _, h.pop, ⟨rfl, rfl⟩, ?_, ?_, ?_, ?_⟩
    · show Cyclic.next st.port.txNum st.port.fifoTxDesc = _
      rw [Cyclic.next_eq_mod h.holds.origin_lt]
    · rw [fsccPortSetRegisterRep_writes _ _ hdesc.count_pos, hdesc.words]
      simp [cellWords]
    · show 4 * (cellWords [cell]).length + u32 _ ≤ _
      rw [u32_sub_of_le hspace (Nat.le_of_not_lt hroom)]
      simp only [cellWords, List.flatMap_cons, List.flatMap_nil, List.append_nil]
      omega
    · show toAnnounce st.frameSize ++ [cell].filterMap TxCell.first = _
      cases hfirst : cell.first with
      | none =>
        have hfe : ¬ st.port.fifoDesc.control &&& descFeBit = descFeBit := by
          rw [hdesc.fe_iff, hfirst]
          exact Bool.false_ne_true
        rw [if_neg hfe, List.filterMap_cons_none hfirst]
        exact List.append_nil _
      | some length =>
        have hfe : st.port.fifoDesc.control &&& descFeBit = descFeBit := by
          rw [hdesc.fe_iff, hfirst]
          rfl
        have hidle : st.frameSize = 0 := by
          by_contra hne
          exact hbusy ⟨hfe, Or.inr hne⟩
        have hne : length ≠ 0 := Nat.ne_of_gt (hdesc.first length hfirst).1
        rw [if_pos hfe, hdesc.length hfirst, List.filterMap_cons_some hfirst, hidle]
        simp [toAnnounce, hne]

variable (answers tfcnt st log) in
theorem writeDataLoop_ring (n : Nat) (h : TxRing ds cells st.port)
    (hspace : st.fifoSpace < 4294967296) :
    ∃ m st' log', writeDataLoop (answering answers) tfcnt n st log = (st', log') ∧
      Drained ds cells st log m st' log' := by
  induction n generalizing cells st log with
  | zero => exact ⟨0, st, log, rfl, .none h⟩
  | succ n ih =>
    rw [writeDataLoop]
    rcases writeDataStep_ring answers log tfcnt h hspace with hstop | ⟨st₁, log₁, hstep, hone⟩
    · rw [hstop]
      exact ⟨0, st, log, rfl, .none h⟩
    · have hless := hone.space
      obtain ⟨m, st', log', hrun, hdrained⟩ := ih log₁ st₁ hone.ring (by omega)
      rw [hstep]
      exact ⟨1 + m, st', log', hrun, hone.trans hdrained⟩

end Drain

theorem fifoSpace_le {txcnt : Nat} (hle : ¬ fifoSpace txcnt > txFifoSize) (hlt : txcnt < 8192) :
    txcnt + fifoSpace txcnt ≤ 4095 := by
  unfold fifoSpace txFifoSize u32 at *
  dsimp only at *
  omega

theorem fsccIoGetTXCNT_lt (port : TxPort) (log : RegLog) :
    (fsccIoGetTXCNT (answering answers) port log).1 < 8192 := by
  show (_ &&& 0x1FFF0000) >>> 16 < 8192
  rw [Nat.shiftRight_eq_div_pow]
  exact Nat.div_lt_of_lt_mul (Nat.lt_of_le_of_lt Nat.and_le_right (by decide))

/-- What TXCNT reads as in a call of `fscc_fifo_write_data`, behind the reading of TFCNT. -/
def txcntRead (hw : Hardware RegLog) (port : TxPort) (log : RegLog) : Nat :=
  (fsccIoGetTXCNT hw port (fsccIoGetTFCNT hw port log).2).1

-- The ring side of a port and the registers it shares with the rest of the driver.
structure TxSame (port port' : TxPort) : Prop where
  regs : RegKeeps port.toRegPort port'.toRegPort
  txNum : port'.txNum = port.txNum
  txDescriptors : port'.txDescriptors = port.txDescriptors
  userTxDesc : port'.userTxDesc = port.userTxDesc
  fifoTxDesc : port'.fifoTxDesc = port.fifoTxDesc

theorem TxRing.same {port' : TxPort} (h : TxRing ds cells port) (hsame : TxSame port port') :
    TxRing ds cells port' := by
  constructor
  · rw [hsame.txDescriptors, hsame.txNum, hsame.fifoTxDesc]
    exact h.holds
  · rw [hsame.userTxDesc, hsame.txNum, hsame.fifoTxDesc]
    exact h.user

variable (answers) in
theorem setRegister_length (port : TxPort) (length : BitVec 32) (log : RegLog) :
    ∃ port' log', port.setRegister (answering answers) 0 bcFifoLOffset length log = (port', log') ∧
      TxSame port port' ∧ log'.writes = log.writes ++ [⟨0, bcFifoLOffset, length⟩] := by
  obtain ⟨registers, log', hrun, hkeeps, hwrites⟩ := fsccPortSetRegister_writes answers
    port.toRegPort log 0 bcFifoLOffset length fun h ↦ absurd h.1 (by decide)
  refine ⟨{ port with toRegPort := registers }, log', ?_, ⟨hkeeps, rfl, rfl, rfl, rfl⟩, ?_⟩
  · rw [TxPort.setRegister, hrun]
  · rw [hwrites, portOffset_bar0, forcedValue_bar0]

/-- What one call of `fscc_fifo_write_data` does to the ring and to the card. -/
structure Pushed (ds : Nat) (cells : List TxCell) (port : TxPort) (log : RegLog) (txcnt m : Nat)
    (port' : TxPort) (log' : RegLog) : Prop where
  le : m ≤ cells.length
  ring : TxRing ds (cells.drop m) port'
  regs : RegKeeps port.toRegPort port'.toRegPort
  txNum : port'.txNum = port.txNum
  fifo : port'.fifoTxDesc = (port.fifoTxDesc + m) % port.txNum
  writes : log'.writes = log.writes ++ fifoWrites (cellWords (cells.take m)) ++
    lengthWrites ((cells.take m).filterMap TxCell.first)
  one : ((cells.take m).filterMap TxCell.first).length ≤ 1
  room : m = 0 ∨ txcnt + 4 * (cellWords (cells.take m)).length ≤ 4095

theorem Pushed.none {log' : RegLog} {txcnt : Nat} (h : TxRing ds cells port)
    (hwrites : log'.writes = log.writes) : Pushed ds cells port log txcnt 0 port log' := by
  refine ⟨Nat.zero_le _, h, RegKeeps.refl _, rfl, ?_, ?_, Nat.zero_le 1, Or.inl rfl⟩
  · rw [Nat.add_zero, Nat.mod_eq_of_lt h.holds.origin_lt]
  · rw [hwrites]
    exact ((List.append_nil _).trans (List.append_nil _)).symm

variable (answers log) in
theorem fsccFifoWriteData_ring (h : TxRing ds cells port) :
    ∃ m written port' log', fsccFifoWriteData (answering answers) port log =
        (written, port', log') ∧
      Pushed ds cells port log (txcntRead (answering answers) port log) m port' log' := by
  rw [fsccFifoWriteData]
  dsimp only
  split
  · exact ⟨0, 0, port, _, rfl, .none h rfl⟩
  have hread : (fsccIoGetTXCNT (answering answers) port
      (fsccIoGetTFCNT (answering answers) port log).2).1 =
      txcntRead (answering answers) port log := rfl
  rw [hread]
  split
  next hover => exact ⟨0, 0, port, _, rfl, .none h rfl⟩
  next hspace =>
    have hfits := fifoSpace_le hspace (fsccIoGetTXCNT_lt port _)
    generalize hlog : (fsccIoGetTXCNT (answering answers) port
      (fsccIoGetTFCNT (answering answers) port log).2).2 = log₁
    have hsame : log₁.writes = log.writes := by rw [← hlog]; rfl
    generalize hspaceIs : fifoSpace (txcntRead (answering answers) port log) = space at hfits
    obtain ⟨m, st', log₂, hrun, hdrained⟩ := writeDataLoop_ring answers log₁
      ⟨port, space, 0, 0⟩ (fsccIoGetTFCNT (answering answers) port log).1 port.txNum h (by
        show space < _
        omega)
    have hfirsts : (cells.take m).filterMap TxCell.first = toAnnounce st'.frameSize :=
      hdrained.lengths
    have hless : 4 * (cellWords (cells.take m)).length + st'.fifoSpace ≤ space := hdrained.space
    have hroom : m = 0 ∨ txcntRead (answering answers) port log +
        4 * (cellWords (cells.take m)).length ≤ 4095 := Or.inr (by omega)
    have hwrites := hdrained.writes
    rw [hsame] at hwrites
    rw [hrun]
    by_cases hnone : st'.frameSize = 0
    · have hquiet : (cells.take m).filterMap TxCell.first = [] := by rw [hfirsts, hnone]; rfl
      refine ⟨m, st'.dataWritten, st'.port, log₂, if_neg (not_not.mpr hnone), hdrained.le,
        hdrained.ring, hdrained.keeps.toRegPort ▸ RegKeeps.refl _, hdrained.keeps.txNum,
        hdrained.fifo, ?_, ?_, hroom⟩
      · rw [hwrites, hquiet]
        exact (List.append_nil _).symm
      · rw [hquiet]
        exact Nat.zero_le 1
    · have hone : (cells.take m).filterMap TxCell.first = [st'.frameSize] :=
        hfirsts.trans (if_pos hnone)
      obtain ⟨port', log', hset, hsame', hwrites'⟩ := setRegister_length answers
        st'.port (BitVec.ofNat 32 st'.frameSize) log₂
      have hregs : RegKeeps port.toRegPort port'.toRegPort := by
        have hkeep := hsame'.regs
        rwa [hdrained.keeps.toRegPort] at hkeep
      refine ⟨m, st'.dataWritten, port', log', ?_, hdrained.le, hdrained.ring.same hsame', hregs,
        hsame'.txNum.trans hdrained.keeps.txNum, hsame'.fifoTxDesc.trans hdrained.fifo, ?_, ?_,
        hroom⟩
      · dsimp only
        rw [if_pos hnone, hset]
      · rw [hwrites', hwrites, hone]
        rfl
      · rw [hone]
        exact Nat.le_refl 1

/-! ## Frames -/

/-- How many words a frame packs into. -/
def wordCount (data : List Byte) : Nat := (data.length + 3) / 4

/-- The lengths of those frames whose first word is one of the words `lo`, …, `hi - 1` that are
pushed.  The first frame of the list starts at word `start`. -/
def lengthsIn (lo hi : Nat) : (start : Nat) → List (List Byte) → List (BitVec 32)
  | _, [] => []
  | start, data :: frames =>
      (if lo ≤ start ∧ start < hi then [BitVec.ofNat 32 data.length] else []) ++
        lengthsIn lo hi (start + wordCount data) frames

section Lengths

variable {lo mid hi start : Nat} {frames : List (List Byte)}

theorem lengthsIn_past (hpast : hi ≤ start) : lengthsIn lo hi start frames = [] := by
  induction frames generalizing start with
  | nil => rfl
  | cons data frames ih =>
    rw [lengthsIn, if_neg (by omega), ih (by omega)]
    rfl

theorem lengthsIn_self : lengthsIn lo lo start frames = [] := by
  induction frames generalizing start with
  | nil => rfl
  | cons data frames ih =>
    rw [lengthsIn, if_neg (by omega), ih]
    rfl

theorem lengthsIn_append (hlo : lo ≤ mid) (hhi : mid ≤ hi) :
    lengthsIn lo hi start frames = lengthsIn lo mid start frames ++ lengthsIn mid hi start frames := by
  induction frames generalizing start with
  | nil => rfl
  | cons data frames ih =>
    rw [lengthsIn, lengthsIn, lengthsIn, ih]
    by_cases hless : start < mid
    · have hnot : ¬ (mid ≤ start ∧ start < hi) := by omega
      rw [if_neg hnot, List.nil_append, List.append_assoc]
      congr 1
      by_cases hfrom : lo ≤ start
      · rw [if_pos (by omega), if_pos (by omega)]
      · rw [if_neg (by omega), if_neg (by omega)]
    · have hnone : lengthsIn lo mid (start + wordCount data) frames = [] :=
        lengthsIn_past (by omega)
      have hnot : ¬ (lo ≤ start ∧ start < mid) := by omega
      rw [if_neg hnot, hnone, List.nil_append, List.nil_append, List.nil_append]
      congr 1
      by_cases hupto : start < hi
      · rw [if_pos (by omega), if_pos (by omega)]
      · rw [if_neg (by omega), if_neg (by omega)]

theorem lengthsIn_prefix :
    lengthsIn 0 hi start frames <+: frames.map fun data ↦ BitVec.ofNat 32 data.length := by
  induction frames generalizing start with
  | nil => exact List.prefix_refl []
  | cons data frames ih =>
    rw [lengthsIn]
    by_cases hless : start < hi
    · rw [if_pos ⟨Nat.zero_le _, hless⟩, List.map_cons]
      exact List.cons_prefix_cons.mpr ⟨rfl, ih⟩
    · rw [if_neg (by omega), lengthsIn_past (by omega)]
      exact List.nil_prefix

end Lengths

/-- The segments of every frame that was written. -/
def FrameSegments : List (List Byte) → List (List TxCell) → Prop :=
  List.Forall₂ fun data segments ↦ Segments (some data.length) data segments

theorem Segments.wordCount {first : Option Nat} {data : List Byte}
    (h : Segments first data cells) : (cellWords cells).length = wordCount data := h.packed.length

-- The segments that were pushed say which frames have been begun.
theorem FrameSegments.lengths {frames : List (List Byte)} {segments : List (List TxCell)}
    (h : FrameSegments frames segments) {pushed : List TxCell} (start : Nat)
    (hsplit : segments.flatten = pushed ++ cells) :
    (pushed.filterMap TxCell.first).map (BitVec.ofNat 32) =
      lengthsIn 0 (start + (cellWords pushed).length) start frames := by
  induction h generalizing start pushed with
  | nil =>
    have hnil : pushed = [] := (List.append_eq_nil_iff.mp hsplit.symm).1
    rw [hnil]
    rfl
  | @cons data segment frames segments hsegment hrest ih =>
    obtain ⟨cell, others, rfl, hfirst, hnone⟩ := hsegment.rest_first
    have hcount := hsegment.wordCount
    have hpos := hsegment.words_pos cell List.mem_cons_self
    have hnoFirst : ∀ rest : List TxCell, (∀ other ∈ rest, other ∈ others) →
        rest.filterMap TxCell.first = [] := by
      intro rest hmem
      exact List.filterMap_eq_nil_iff.mpr fun other hother ↦ hnone other (hmem other hother)
    have hfirsts : ∀ rest : List TxCell, (∀ other ∈ rest, other ∈ others) →
        (cell :: rest).filterMap TxCell.first = [data.length] := by
      intro rest hmem
      rw [List.filterMap_cons_some hfirst, hnoFirst rest hmem]
    rw [List.flatten_cons] at hsplit
    rcases List.append_eq_append_iff.mp hsplit with ⟨more, hpushed, hmore⟩ | ⟨more, hseg, hmore⟩
    · -- All of this frame has been pushed.
      have hlater := ih (start + FsccDriver.wordCount data) hmore
      have hwords : (cellWords pushed).length =
          FsccDriver.wordCount data + (cellWords more).length := by
        rw [hpushed, cellWords_append, List.length_append, hcount]
      have hbegun : 0 < FsccDriver.wordCount data := by
        rw [← hcount, cellWords, List.flatMap_cons, List.length_append]
        omega
      rw [hwords, lengthsIn, if_pos (by omega), hpushed, List.filterMap_append,
        hfirsts others fun _ h ↦ h, List.map_append, hlater, ← Nat.add_assoc]
      rfl
    · cases pushed with
      | nil =>
        exact (lengthsIn_past (Nat.le_refl start)).symm
      | cons cell' rest =>
        -- The frame is begun, and the next one starts behind what was pushed.
        obtain ⟨rfl, hrestOthers⟩ := List.cons_eq_cons.mp hseg
        have hpart : (cellWords (cell :: rest)).length ≤ FsccDriver.wordCount data := by
          rw [← hcount, hseg, cellWords_append, List.length_append]
          exact Nat.le_add_right _ _
        have hbegun : 0 < (cellWords (cell :: rest)).length := by
          rw [cellWords, List.flatMap_cons, List.length_append]
          omega
        rw [lengthsIn, if_pos (by omega), lengthsIn_past (by omega), hfirsts rest]
        · rfl
        · intro other hother
          rw [hrestOthers]
          exact List.mem_append_left _ hother

theorem FrameSegments.packed {frames : List (List Byte)} {segments : List (List TxCell)}
    (h : FrameSegments frames segments) :
    List.Forall₂ Bytes.Packed frames (segments.map cellWords) := by
  induction h with
  | nil => exact .nil
  | cons hsegment hrest ih => exact .cons hsegment.packed ih

theorem cellWords_flatten (segments : List (List TxCell)) :
    cellWords segments.flatten = (segments.map cellWords).flatten := by
  induction segments with
  | nil => rfl
  | cons segment segments ih => rw [List.flatten_cons, cellWords_append, ih, List.map_cons,
      List.flatten_cons]

/-! ## Runs -/

inductive TxAction where
  | userWriteFrame (data : List Byte)
  | fifoWriteData

structure TxState where
  port : TxPort
  log : RegLog
  -- The frames handed to `fscc_user_write_frame`, in order.
  frames : List (List Byte)

def TxState.pushed (s : TxState) : List (BitVec 32) := writesTo 0 fifoOffset s.log.writes
def TxState.lengths (s : TxState) : List (BitVec 32) := writesTo 0 bcFifoLOffset s.log.writes

def txStep (answers : (bar offset : Nat) → RegLog → BitVec 32) (s : TxState) : TxAction → TxState
  | .userWriteFrame data =>
      let (_, port, log) := fsccUserWriteFrame (answering answers) data data.length s.port s.log
      { port, log, frames := s.frames ++ [data] }
  | .fifoWriteData =>
      let (_, port, log) := fsccFifoWriteData (answering answers) s.port s.log
      { s with port, log }

/-- A frame is written only if it fits the free descriptors and its length the control word. -/
def TxAllowed (s : TxState) : TxAction → Prop
  | .userWriteFrame data =>
      0 < data.length ∧ data.length ≤ fsccUserGetTxSpace s.port ∧ data.length ≤ dmaMaxLength
  | .fifoWriteData => True

/-- The state after a purge. -/
def txStart (port : TxPort) : TxState := { port := resetTx port, log := ⟨[], 0⟩, frames := [] }

/-- The invariant of a run: `pushed` has left the ring, `cells` is in it, and together they are the
segments of the frames. -/
structure TxInvariant (ds n : Nat) (s : TxState) (segments : List (List TxCell))
    (pushed cells : List TxCell) : Prop where
  frames : FrameSegments s.frames segments
  split : segments.flatten = pushed ++ cells
  ring : TxRing ds cells s.port
  txNum : s.port.txNum = n
  fifoMode : fsccPortUsesDma s.port.toRegPort = false
  words : s.pushed = cellWords pushed
  lengths : s.lengths = (pushed.filterMap TxCell.first).map (BitVec.ofNat 32)

section Run

variable {s : TxState} {segments : List (List TxCell)} {pushed : List TxCell} {n : Nat}

theorem writesTo_fifoWrites (words : List (BitVec 32)) :
    writesTo 0 fifoOffset (fifoWrites words) = words ∧
      writesTo 0 bcFifoLOffset (fifoWrites words) = [] := by
  induction words with
  | nil => exact ⟨rfl, rfl⟩
  | cons word words ih =>
    have hcons : fifoWrites (word :: words) = [⟨0, fifoOffset, word⟩] ++ fifoWrites words := rfl
    rw [hcons, writesTo_append, writesTo_append, ih.1, ih.2]
    exact ⟨rfl, rfl⟩

theorem writesTo_lengthWrites (lengths : List Nat) :
    writesTo 0 fifoOffset (lengthWrites lengths) = [] ∧
      writesTo 0 bcFifoLOffset (lengthWrites lengths) = lengths.map (BitVec.ofNat 32) := by
  induction lengths with
  | nil => exact ⟨rfl, rfl⟩
  | cons length lengths ih =>
    have hcons : lengthWrites (length :: lengths) =
        [⟨0, bcFifoLOffset, BitVec.ofNat 32 length⟩] ++ lengthWrites lengths := rfl
    rw [hcons, writesTo_append, writesTo_append, ih.1, ih.2]
    exact ⟨rfl, rfl⟩

variable (answers) in
theorem TxInvariant.write (h : TxInvariant ds n s segments pushed cells) (hds : BufferSize ds)
    {data : List Byte} (hallowed : TxAllowed s (.userWriteFrame data)) :
    ∃ segment, TxInvariant ds n (txStep answers s (.userWriteFrame data)) (segments ++ [segment])
        pushed (cells ++ segment) ∧ (txStep answers s (.userWriteFrame data)).log = s.log ∧
      (txStep answers s (.userWriteFrame data)).port.fifoTxDesc = s.port.fifoTxDesc := by
  obtain ⟨hpos, hspace, hmax⟩ := hallowed
  have hlt : data.length < 536870912 := Nat.lt_of_le_of_lt hmax (by decide)
  obtain ⟨segment, port', hrun, hsegment, hring, hkeeps⟩ := fsccUserWriteFrame_ring
    (answering answers) s.log h.ring hds h.fifoMode hpos hlt hspace
  have hstep : txStep answers s (.userWriteFrame data) = ⟨port', s.log, s.frames ++ [data]⟩ := by
    simp only [txStep, hrun]
  rw [hstep]
  refine ⟨segment, ⟨?_, ?_, hring, hkeeps.txNum.trans h.txNum, ?_, h.words, h.lengths⟩, rfl,
    hkeeps.fifoTxDesc⟩
  · exact List.rel_append h.frames (.cons hsegment .nil)
  · rw [List.flatten_append, h.split, List.flatten_singleton, List.append_assoc]
  · rw [hkeeps.toRegPort]
    exact h.fifoMode

variable (answers) in
theorem TxInvariant.drain (h : TxInvariant ds n s segments pushed cells) :
    ∃ m, Pushed ds cells s.port s.log (txcntRead (answering answers) s.port s.log) m
        (txStep answers s .fifoWriteData).port (txStep answers s .fifoWriteData).log ∧
      TxInvariant ds n (txStep answers s .fifoWriteData) segments (pushed ++ cells.take m)
        (cells.drop m) := by
  obtain ⟨m, written, port', log', hrun, hpushed⟩ := fsccFifoWriteData_ring answers s.log h.ring
  have hstep : txStep answers s .fifoWriteData = ⟨port', log', s.frames⟩ := by
    simp only [txStep, hrun]
  obtain ⟨hfifoWords, hfifoLengths⟩ := writesTo_fifoWrites (cellWords (cells.take m))
  obtain ⟨hlenWords, hlenLengths⟩ :=
    writesTo_lengthWrites ((cells.take m).filterMap TxCell.first)
  rw [hstep]
  refine ⟨m, hpushed, h.frames, ?_, hpushed.ring, hpushed.txNum.trans h.txNum, ?_, ?_, ?_⟩
  · rw [h.split, List.append_assoc, List.take_append_drop]
  · rw [hpushed.regs.usesDma]
    exact h.fifoMode
  · have hold : writesTo 0 fifoOffset s.log.writes = cellWords pushed := h.words
    show writesTo 0 fifoOffset log'.writes = _
    rw [hpushed.writes, writesTo_append, writesTo_append, hfifoWords, hlenWords, hold,
      List.append_nil, cellWords_append]
  · have hold : writesTo 0 bcFifoLOffset s.log.writes =
        (pushed.filterMap TxCell.first).map (BitVec.ofNat 32) := h.lengths
    show writesTo 0 bcFifoLOffset log'.writes = _
    rw [hpushed.writes, writesTo_append, writesTo_append, hfifoLengths, hlenLengths, hold,
      List.append_nil, List.filterMap_append, List.map_append]

-- The frames whose first word is out are those whose length has been announced.
theorem TxInvariant.lengthsIn (h : TxInvariant ds n s segments pushed cells) :
    s.lengths = lengthsIn 0 s.pushed.length 0 s.frames := by
  have hlengths := h.frames.lengths 0 h.split
  rw [h.lengths, h.words, hlengths, Nat.zero_add]

theorem TxInvariant.packed (h : TxInvariant ds n s segments pushed cells) :
    ∃ packed, List.Forall₂ Bytes.Packed s.frames packed ∧ s.pushed <+: packed.flatten := by
  refine ⟨segments.map cellWords, h.frames.packed, cellWords cells, ?_⟩
  rw [h.words, ← cellWords_append, ← h.split, cellWords_flatten]

-- A descriptor that becomes free in a call is one of those the call has pushed.
theorem Pushed.released {txcnt m : Nat} {port' : TxPort} {log' : RegLog} {i : Nat}
    (h : Pushed ds cells port log txcnt m port' log') (hring : TxRing ds cells port)
    (hi : i < port.txNum) (hbusy : ¬ (port.txDescriptors i).control &&& descCstopBit = descCstopBit)
    (hfree : (port'.txDescriptors i).control &&& descCstopBit = descCstopBit) :
    ∃ cell ∈ cells.take m, PendingDesc ds cell (port.txDescriptors i) := by
  obtain ⟨k, hk, hindex, hpending⟩ := hring.pending hi hbusy
  refine ⟨cells[k], List.mem_iff_getElem.mpr ⟨k, ?_, ?_⟩, hpending⟩
  · rw [List.length_take]
    by_contra hlate
    -- It is still pending behind the call.
    have hkm : k - m < (cells.drop m).length := by
      rw [List.length_drop]
      omega
    have hstill := h.ring.holds.busy (k - m) hkm
    have hsame : (port'.fifoTxDesc + (k - m)) % port'.txNum = i := by
      rw [h.fifo, h.txNum, Nat.mod_add_mod, Nat.add_assoc, Nat.add_sub_cancel' (by omega), hindex]
    rw [Cyclic.slot, hsame] at hstill
    exact hstill.not_cstop hfree
  · rw [List.getElem_take]

-- A descriptor that holds a segment does not become free in a write.
theorem TxRing.stays_pending {more : List TxCell} {port' : TxPort} {i : Nat}
    (h : TxRing ds cells port) (h' : TxRing ds (cells ++ more) port')
    (hnum : port'.txNum = port.txNum) (hfifo : port'.fifoTxDesc = port.fifoTxDesc)
    (hi : i < port.txNum) (hbusy : ¬ (port.txDescriptors i).control &&& descCstopBit = descCstopBit) :
    ¬ (port'.txDescriptors i).control &&& descCstopBit = descCstopBit := by
  obtain ⟨k, hk, hindex, -⟩ := h.pending hi hbusy
  have hstill := h'.holds.busy k (by rw [List.length_append]; omega)
  rw [Cyclic.slot, hfifo, hnum, hindex] at hstill
  exact hstill.not_cstop

/-- What one step of a run sends to the card. -/
structure Sends (txcnt : Nat) (s s' : TxState) (words announced : List (BitVec 32)) : Prop where
  pushed : s'.pushed = s.pushed ++ words
  lengths : s'.lengths = s.lengths ++ announced
  one : announced.length ≤ 1
  begun : announced = lengthsIn s.pushed.length s'.pushed.length 0 s.frames
  room : words ≠ [] → txcnt + 4 * words.length ≤ 4095
  released : ∀ i < s.port.txNum,
    ¬ (s.port.txDescriptors i).control &&& descCstopBit = descCstopBit →
    (s'.port.txDescriptors i).control &&& descCstopBit = descCstopBit →
    ∃ own, Bytes.Packed ((s.port.txDescriptors i).buffer.take (s.port.txDescriptors i).dataCount) own ∧
      own <:+: words

variable (answers) in
theorem TxInvariant.sends_write (h : TxInvariant ds n s segments pushed cells) (hds : BufferSize ds)
    {data : List Byte} (hallowed : TxAllowed s (.userWriteFrame data)) (txcnt : Nat) :
    Sends txcnt s (txStep answers s (.userWriteFrame data)) [] [] := by
  obtain ⟨segment, hinv, hlog, hfifo⟩ := h.write answers hds hallowed
  generalize txStep answers s (.userWriteFrame data) = s' at hinv hlog hfifo ⊢
  have hpushed : s'.pushed = s.pushed := by rw [TxState.pushed, hlog]; rfl
  refine ⟨?_, ?_, Nat.zero_le 1, ?_, fun hne ↦ absurd rfl hne, ?_⟩
  · rw [hpushed, List.append_nil]
  · rw [TxState.lengths, hlog, List.append_nil]
    rfl
  · rw [hpushed]
    exact lengthsIn_self.symm
  · intro i hi hbusy hfree
    exact absurd hfree
      (h.ring.stays_pending hinv.ring (hinv.txNum.trans h.txNum.symm) hfifo hi hbusy)

variable (answers) in
theorem TxInvariant.sends_drain (h : TxInvariant ds n s segments pushed cells) :
    ∃ words announced, Sends (txcntRead (answering answers) s.port s.log) s
      (txStep answers s .fifoWriteData) words announced := by
  obtain ⟨m, hpushed, hinv⟩ := h.drain answers
  have hframes : (txStep answers s .fifoWriteData).frames = s.frames := rfl
  generalize txcntRead (answering answers) s.port s.log = txcnt at hpushed ⊢
  generalize txStep answers s .fifoWriteData = s' at hpushed hinv hframes ⊢
  have hwords : s'.pushed = s.pushed ++ cellWords (cells.take m) := by
    rw [hinv.words, h.words, cellWords_append]
  have hlengths : s'.lengths =
      s.lengths ++ ((cells.take m).filterMap TxCell.first).map (BitVec.ofNat 32) := by
    rw [hinv.lengths, h.lengths, List.filterMap_append, List.map_append]
  refine ⟨_, _, hwords, hlengths, ?_, ?_, ?_, ?_⟩
  · rw [List.length_map]
    exact hpushed.one
  · have hsplit := hlengths
    rw [hinv.lengthsIn, h.lengthsIn, hframes, FsccDriver.lengthsIn_append (Nat.zero_le _)
      (show s.pushed.length ≤ s'.pushed.length by rw [hwords, List.length_append]; omega)] at hsplit
    exact (List.append_cancel_left hsplit).symm
  · intro hsome
    rcases hpushed.room with hnone | hroom
    · rw [hnone] at hsome
      exact absurd rfl hsome
    · exact hroom
  · intro i hi hbusy hfree
    obtain ⟨cell, hcell, hpending⟩ := hpushed.released h.ring hi hbusy hfree
    obtain ⟨before, after, htaken⟩ := List.append_of_mem hcell
    refine ⟨cell.words, hpending.packed, cellWords before, cellWords after, ?_⟩
    rw [htaken, cellWords_append, cellWords, cellWords, cellWords, List.flatMap_cons,
      List.append_assoc]

theorem txStart_invariant (hmem : TxMemory ds port)
    (hfifo : fsccPortUsesDma port.toRegPort = false) :
    TxInvariant ds port.txNum (txStart port) [] [] [] :=
  ⟨.nil, rfl, hmem.resetTx, rfl, hfifo, rfl, rfl⟩

end Run

/-- FIFO-mode transmission: in every run from a purge the words pushed are a prefix of the packed
frames and the lengths announced are those of the frames begun; each step announces at most the
frame it begins, a call that pushes something leaves the FIFO a byte short of full at most, and a
descriptor is freed only by a call that pushed its bytes. -/
theorem fscc_framed_transmit_pushes (answers : (bar offset : Nat) → RegLog → BitVec 32)
    (hmem : TxMemory ds port) (hfifo : fsccPortUsesDma port.toRegPort = false)
    (actions : List TxAction)
    (hallowed : Runs.Along TxAllowed (txStep answers) (txStart port) actions) :
    let s := actions.foldl (txStep answers) (txStart port)
    (∃ packed, List.Forall₂ Bytes.Packed s.frames packed ∧ s.pushed <+: packed.flatten) ∧
      s.lengths <+: s.frames.map (fun data ↦ BitVec.ofNat 32 data.length) ∧
      ∀ action, TxAllowed s action → ∃ words announced,
        Sends (txcntRead (answering answers) s.port s.log) s (txStep answers s action) words
          announced := by
  intro s
  have hstep : ∀ s action, TxAllowed s action →
      (∃ segments pushed cells, TxInvariant ds port.txNum s segments pushed cells) →
      ∃ segments pushed cells, TxInvariant ds port.txNum (txStep answers s action) segments pushed
        cells := by
    intro s action hallowed ⟨segments, pushed, cells, h⟩
    cases action with
    | userWriteFrame data =>
      obtain ⟨segment, hinv, -⟩ := h.write answers hmem.size hallowed
      exact ⟨_, _, _, hinv⟩
    | fifoWriteData =>
      obtain ⟨m, -, hinv⟩ := h.drain answers
      exact ⟨_, _, _, hinv⟩
  obtain ⟨segments, pushed, cells, h⟩ :=
    hallowed.invariant hstep ⟨[], [], [], txStart_invariant hmem hfifo⟩
  refine ⟨h.packed, ?_, fun action hallowed ↦ ?_⟩
  · rw [h.lengthsIn]
    exact lengthsIn_prefix
  · cases action with
    | userWriteFrame data => exact ⟨[], [], h.sends_write answers hmem.size hallowed _⟩
    | fifoWriteData => exact h.sends_drain answers

/-- A port with two transmit buffers of four bytes. -/
def twoBufferPort : TxPort where
  channel := 0
  ignoreTimeout := false
  forceFifo := false
  hasDma := false
  registerStorage := .init
  txModifiers := 0
  txNum := 2
  txDescriptors := fun _ ↦ ⟨0, 0, 4, [0, 0, 0, 0], 0⟩
  descPhysicalAddress := fun _ ↦ 0
  userTxDesc := 0
  fifoTxDesc := 0

theorem twoBufferPort_memory : TxMemory 4 twoBufferPort :=
  ⟨by decide, ⟨by decide, by decide, by decide⟩, fun _ _ ↦ ⟨rfl, rfl⟩⟩

-- A frame of six bytes is written and pushed while every register reads 0.
theorem fscc_framed_transmit_pushes_six_bytes :
    let answers := fun (_ _ : Nat) (_ : RegLog) ↦ (0 : BitVec 32)
    let s := [TxAction.userWriteFrame [1, 2, 3, 4, 5, 6], .fifoWriteData].foldl (txStep answers)
      (txStart twoBufferPort)
    (∃ packed, List.Forall₂ Bytes.Packed s.frames packed ∧ s.pushed <+: packed.flatten) ∧
      s.lengths <+: s.frames.map (fun data ↦ BitVec.ofNat 32 data.length) ∧
      ∀ action, TxAllowed s action → ∃ words announced,
        Sends (txcntRead (answering answers) s.port s.log) s (txStep answers s action) words
          announced :=
  fscc_framed_transmit_pushes (fun _ _ _ ↦ 0) twoBufferPort_memory rfl
    [.userWriteFrame [1, 2, 3, 4, 5, 6], .fifoWriteData]
    ⟨⟨by decide, by decide, by decide⟩, trivial, trivial⟩

-- TXCNT may read as 8191, and the call that sees it pushes nothing.
theorem fscc_framed_transmit_full_fifo :
    let answers := fun (_ offset : Nat) (_ : RegLog) ↦
      if offset = fifoBcOffset then (0x1FFF0000 : BitVec 32) else 0
    let s := txStart twoBufferPort
    let s' := txStep answers s .fifoWriteData
    ¬ txcntRead (answering answers) s.port s.log + 4 * (s'.pushed.length - s.pushed.length) ≤
      4095 := by
  decide

end FsccDriver

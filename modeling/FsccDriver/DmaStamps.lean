import FsccDriver.DmaReceive
import FsccDriver.Lib.Stamps
import FsccDriver.PortWorkers
import FsccDriver.RxShape

/-!
# DmaStamps — timestamps in DMA mode

The engine knows nothing of timestamps.  `timestamp_worker` records them behind it, in the order of the
ring, and a read that comes before the worker takes the time itself: whatever the interleaving, the
timestamps that go to the callers never go back.
-/

namespace FsccDriver

open Words

variable {H : Type} {hw : Hardware H} {clock : H → Nat}

/-! ## The machine -/

/-- What `fscc_user_read_frame` copies to the buffer of a caller. -/
inductive Copied where
  | data (bytes : List Byte)
  | stamp (timestamp : BitVec 64)

def Copied.bytes : Copied → List Byte
  | .data bytes => bytes
  | .stamp timestamp => timestampBytes timestamp

def Copied.stamp? : Copied → Option (BitVec 64)
  | .data _ => none
  | .stamp timestamp => some timestamp

/-- `copied` is what all calls have copied, in that order. -/
structure StampState (H : Type) extends DmaState H where
  copied : List Copied

def StampState.given (s : StampState H) : List (BitVec 64) := s.copied.filterMap Copied.stamp?

/-- What the callers have got: from the calls that have returned and from the one on its way. -/
def StampState.out (s : StampState H) : List Byte :=
  s.reads.flatMap (fun read ↦ read.result.out) ++ (s.call.map fun call ↦ call.st.out).getD []

/-- A worker or a purge waits as long as a call holds `board_rx_spinlock`. -/
inductive StampAction (H : Type) where
  | arrive (frame : DmaInput)
  | fill (dataCount : Nat)
  | setOptions (appendStatus appendTimestamp rxMultiple : Bool)
  | userReadFrame (bufLength : BitVec 32)
  | round
  | timestampWorker
  | purge
  | others (card : H)

-- What `appendTimestamp` copies in one round.
def addedTimestamps (hw : Hardware H) (st : ReadLoop) (h : H) : List (BitVec 64) :=
  if (moveData st).bytesInDescs = 0 ∧ st.port.appendTimestamp then
    [if st.port.userDesc.timestamp = 0 then (hw.keQuerySystemTime h).1
      else st.port.userDesc.timestamp]
  else []

-- What one round copies.
def roundCopies (hw : Hardware H) (st : ReadLoop) (h : H) : List Copied :=
  .data (Bytes.read st.port.userDesc.buffer 0 (realMoveSize st)) ::
    (addedTimestamps hw st h).map Copied.stamp

def stampStep (hw : Hardware H) (s : StampState H) : StampAction H → StampState H
  | .arrive frame => { s with toDmaState := s.toDmaState.arrive frame }
  -- The timestamp is not part of what the engine writes.
  | .fill dataCount =>
      { s with toDmaState :=
          s.toDmaState.fill dataCount (s.port.rxDescriptors s.engineDesc).timestamp }
  -- The setters take no lock, so a round may find other options than the one before it.
  | .setOptions appendStatus appendTimestamp rxMultiple =>
      { s with port := s.port.setOptions appendStatus appendTimestamp rxMultiple }
  | .userReadFrame bufLength => { s with toDmaState := s.toDmaState.enter bufLength.toNat }
  | .round =>
      match s.call with
      | none => s
      | some call =>
          ⟨s.toDmaState.round hw,
            s.copied ++ roundCopies hw { call.st with port := s.port } s.card⟩
  | .timestampWorker =>
      match s.call with
      | none =>
          let (port, card) := fsccDmaApplyTimestamps hw s.port s.card
          { s with port, card }
      | some _ => s
  | .purge =>
      match s.call with
      | none => { s with port := resetRx s.port, engineDesc := 0, taken := 0, line := [] }
      | some _ => s
  | .others card => { s with card }

def stampStart (port : RxPort) (card : H) : StampState H := ⟨dmaStart port card, []⟩

theorem nextFrame_out (bufLength : Nat) (st : ReadLoop) : (nextFrame bufLength st).2.out = st.out := by
  by_cases hzero : st.bytesInDescs = 0
  · rcases nextFrame_boundary bufLength hzero with hstop | ⟨size, -, -, -, hnext⟩
    · rw [hstop]
    · rw [hnext]
  · rw [nextFrame, if_neg hzero]

/-- What a round copies, and where it takes the timestamp from. -/
structure Added (hw : Hardware H) (st st' : ReadLoop) (h h' : H) : Prop where
  out : st'.out = st.out ++ (roundCopies hw st h).flatMap Copied.bytes
  source : (addedTimestamps hw st h = [] ∧ h' = h) ∨
    (st.port.userDesc.timestamp = 0 ∧ addedTimestamps hw st h = [(hw.keQuerySystemTime h).1] ∧
      h' = (hw.keQuerySystemTime h).2) ∨
    (st.port.userDesc.timestamp ≠ 0 ∧ addedTimestamps hw st h = [st.port.userDesc.timestamp] ∧ h' = h)

variable (hw) in
theorem readFrameStep_added (bufLength : Nat) (st : ReadLoop) (h : H) :
    Added hw st (readFrameStep hw bufLength st h).2.1 h (readFrameStep hw bufLength st h).2.2 := by
  have hcopies : (roundCopies hw st h).flatMap Copied.bytes =
      Bytes.read st.port.userDesc.buffer 0 (realMoveSize st) ++
        (addedTimestamps hw st h).flatMap timestampBytes := by
    rw [roundCopies, List.flatMap_cons, List.flatMap_map]
    rfl
  have hmoved : (moveData st).out =
      st.out ++ Bytes.read st.port.userDesc.buffer 0 (realMoveSize st) := rfl
  have hadded : Added hw st (appendTimestamp hw (moveData st) h).1 h
      (appendTimestamp hw (moveData st) h).2 := by
    by_cases hends : (moveData st).bytesInDescs = 0 ∧ st.port.appendTimestamp = true
    · have hends' : (moveData st).bytesInDescs = 0 ∧ (moveData st).port.appendTimestamp = true := hends
      by_cases hopen : st.port.userDesc.timestamp = 0
      · have hopen' : (moveData st).port.userDesc.timestamp = 0 := hopen
        have hlist : addedTimestamps hw st h = [(hw.keQuerySystemTime h).1] := by
          rw [addedTimestamps, if_pos hends, if_pos hopen]
        rw [appendTimestamp, if_pos hends', if_pos hopen']
        refine ⟨?_, Or.inr (Or.inl ⟨hopen, hlist, rfl⟩)⟩
        rw [hcopies, hlist, List.flatMap_singleton, ← List.append_assoc, ← hmoved]
      · have hopen' : ¬ (moveData st).port.userDesc.timestamp = 0 := hopen
        have hlist : addedTimestamps hw st h = [st.port.userDesc.timestamp] := by
          rw [addedTimestamps, if_pos hends, if_neg hopen]
        rw [appendTimestamp, if_pos hends', if_neg hopen']
        refine ⟨?_, Or.inr (Or.inr ⟨hopen, hlist, rfl⟩)⟩
        rw [hcopies, hlist, List.flatMap_singleton, ← List.append_assoc, ← hmoved]
        rfl
    · have hlist : addedTimestamps hw st h = [] := if_neg hends
      have hsame : appendTimestamp hw (moveData st) h = (moveData st, h) := if_neg hends
      rw [hsame]
      refine ⟨?_, Or.inl ⟨hlist, rfl⟩⟩
      rw [hcopies, hlist, List.flatMap_nil, List.append_nil, hmoved]
  rw [readFrameStep]
  refine ⟨?_, hadded.source⟩
  dsimp only
  rw [nextFrame_out]
  exact hadded.out

/-! ## The clock -/

/-- The system time is not set back and never reads 0, the mark of a descriptor without a timestamp;
`clock` is a time that has certainly come. -/
structure SystemClock (hw : Hardware H) (clock : H → Nat) : Prop where
  before : ∀ h, clock h ≤ (hw.keQuerySystemTime h).1.toNat
  after : ∀ h, (hw.keQuerySystemTime h).1.toNat ≤ clock (hw.keQuerySystemTime h).2
  pos : ∀ h, (hw.keQuerySystemTime h).1 ≠ 0

/-- Whatever else happens to the card, time goes on. -/
def TimePasses (clock : H → Nat) (s : StampState H) : StampAction H → Prop
  | .others card => clock s.card ≤ clock card
  | _ => True

instance (s : StampState H) : DecidablePred (TimePasses clock s)
  | .others card => inferInstanceAs (Decidable (clock s.card ≤ clock card))
  | .arrive _ => inferInstanceAs (Decidable True)
  | .fill _ => inferInstanceAs (Decidable True)
  | .setOptions _ _ _ => inferInstanceAs (Decidable True)
  | .userReadFrame _ => inferInstanceAs (Decidable True)
  | .round => inferInstanceAs (Decidable True)
  | .timestampWorker => inferInstanceAs (Decidable True)
  | .purge => inferInstanceAs (Decidable True)

/-! ## The finished descriptors -/

structure DoneDesc (item desc : DmaFrame) : Prop where
  item : desc = item
  finished : ¬ desc.Unfinished

structure UntimedDesc (desc : DmaFrame) : Prop where
  unfinished : desc.Unfinished
  timestamp : desc.timestamp = 0

/-- The finished descriptors from `user_rx_desc` on; none of the others has a timestamp. -/
def DoneRing (finished : List DmaFrame) (port : RxPort) : Prop :=
  Cyclic.Holds DoneDesc UntimedDesc UntimedDesc finished port.rxDescriptors port.rxNum port.userRxDesc

def stampOf (desc : DmaFrame) : WithTop Nat :=
  if desc.timestamp = 0 then ⊤ else (desc.timestamp.toNat : WithTop Nat)

/-- A read on its way through a frame that ends among the finished descriptors. -/
def MidRead (finished : List DmaFrame) (st : ReadLoop) : Prop :=
  ∃ bytes length, frameScan finished bytes = (true, length) ∧
    st.filledFrameSize + st.bytesInDescs ≤ length

section Ring

variable {finished rest : List DmaFrame} {desc : DmaFrame} {port : RxPort} {st : ReadLoop} {h : H}
  {bufLength : Nat}

theorem DoneRing.userDesc (hring : DoneRing (desc :: rest) port) :
    port.userDesc = desc ∧ ¬ desc.Unfinished := by
  have hhead : DoneDesc desc port.userDesc := hring.head
  exact ⟨hhead.item, hhead.item ▸ hhead.finished⟩

theorem DoneRing.scan (hring : DoneRing finished port) {length : Nat}
    (hready : fsccUserNextReadSize port = (true, length)) : frameScan finished 0 = (true, length) := by
  obtain ⟨others, hturn, hothers⟩ := hring.turn_append fun _ _ hdone ↦ hdone.item
  rw [fsccUserNextReadSize_ahead hring.origin_lt, RxPort.ahead, hturn] at hready
  exact frameScan_append (fun desc hmem ↦ (hothers desc hmem).elim (·.unfinished) (·.unfinished)) hready

theorem untimedDesc_of_hi (hcontrol : desc.control = descHiBit) (htimestamp : desc.timestamp = 0) :
    UntimedDesc desc := by
  refine ⟨?_, htimestamp⟩
  rw [DmaFrame.Unfinished, hcontrol]
  decide

theorem DoneRing.release (hring : DoneRing (desc :: rest) port) :
    DoneRing rest (releaseUserDesc port) := by
  have hopen : UntimedDesc { port.userDesc with timestamp := 0, control := descHiBit } :=
    untimedDesc_of_hi rfl rfl
  exact hring.pop hopen fun _ ↦ hopen

theorem resetRx_doneRing (hpos : 0 < port.rxNum) : DoneRing [] (resetRx port) := by
  have hopen : ∀ i < port.rxNum, UntimedDesc ((resetRx port).rxDescriptors i) := by
    intro i hi
    show UntimedDesc (if i < port.rxNum then _ else _)
    rw [if_pos hi]
    exact untimedDesc_of_hi rfl rfl
  exact .empty hpos hopen hopen

-- What has been found is still found when more descriptors are finished behind it.
theorem frameScan_more {bytes length : Nat} (hscan : frameScan finished bytes = (true, length))
    (more : List DmaFrame) : frameScan (finished ++ more) bytes = (true, length) := by
  induction finished generalizing bytes with
  | nil => cases hscan
  | cons desc finished ih =>
    rw [List.cons_append, frameScan]
    rw [frameScan] at hscan
    by_cases hopen : desc.Unfinished
    · rw [if_pos hopen] at hscan
      cases hscan
    rw [if_neg hopen] at hscan ⊢
    by_cases hends : desc.EndsFrame
    · rwa [if_pos hends] at hscan ⊢
    · rw [if_neg hends] at hscan ⊢
      exact ih hscan

theorem nextFrame_midRead (hring : DoneRing finished st.port) (hzero : st.bytesInDescs = 0)
    (hagain : (nextFrame bufLength st).1 = true) : MidRead finished (nextFrame bufLength st).2 := by
  rcases nextFrame_boundary bufLength hzero with hstop | ⟨size, -, hsize, -, hnext⟩
  · rw [hstop] at hagain
    cases hagain
  · rw [hnext]
    exact ⟨0, size, hring.scan hsize, Nat.le_of_eq (Nat.zero_add size)⟩

variable (hw st h bufLength) in
/-- A round that goes on is on its way through a frame again. -/
theorem MidRead.step (hmid : MidRead (desc :: rest) st) (hring : DoneRing (desc :: rest) st.port)
    (hagain : (readFrameStep hw bufLength st h).1 = true) :
    MidRead rest (readFrameStep hw bufLength st h).2.1 := by
  obtain ⟨bytes, length, hscan, hcount⟩ := hmid
  have hlt := frameScan_lt hscan
  obtain ⟨huser, hdone⟩ := hring.userDesc
  obtain ⟨hport, hbytes, hfilled⟩ := appendTimestamp_port hw (moveData st) h
  have hrest := hring.release
  rw [readFrameStep] at hagain ⊢
  generalize appendTimestamp hw (moveData st) h = stamped at hport hbytes hfilled hagain ⊢
  obtain ⟨st₁, h₁⟩ := stamped
  dsimp only at hport hbytes hfilled hagain ⊢
  have hport : st₁.port = st.port := hport
  rw [← hport] at hrest
  by_cases hzero : st₁.bytesInDescs = 0
  · exact nextFrame_midRead hrest hzero hagain
  · have hgo : nextFrame bufLength { st₁ with port := releaseUserDesc st₁.port } =
        (true, { st₁ with port := releaseUserDesc st₁.port }) := if_neg hzero
    rw [hgo]
    rw [hbytes] at hzero
    rw [frameScan, if_neg hdone] at hscan
    by_cases hends : desc.EndsFrame
    · rw [if_pos hends] at hscan
      have hlength : desc.control &&& dmaMaxLength = length := congrArg Prod.snd hscan
      exact absurd (moveData_ends (huser ▸ hends) (huser ▸ hlength) hcount hlt) hzero
    · rw [if_neg hends] at hscan
      refine ⟨_, length, hscan, ?_⟩
      show st₁.filledFrameSize + st₁.bytesInDescs ≤ length
      rw [hfilled, hbytes]
      exact moveData_mid (huser ▸ hends) hcount hlt hzero

end Ring

/-! ## The invariant -/

structure StampHolds (clock : H → Nat) (s : StampState H) (finished : List DmaFrame) : Prop where
  ring : DoneRing finished s.port
  engine : s.engineDesc = (s.port.userRxDesc + finished.length) % s.port.rxNum
  line : ∀ frame ∈ s.line, frame.length < 536870912
  call : ∀ call ∈ s.call, MidRead finished call.st
  order : Stamps.InOrder (clock s.card) (s.given.map BitVec.toNat) (finished.map stampOf)
  nonzero : ∀ t ∈ s.given, t ≠ 0
  out : s.out = s.copied.flatMap Copied.bytes

def StampInvariant (clock : H → Nat) (s : StampState H) : Prop :=
  ∃ finished, StampHolds clock s finished

section Steps

variable {s : StampState H} {finished front rest : List DmaFrame} {desc : DmaFrame} {port : RxPort}
  {st st' : ReadLoop} {h h' : H} {gone : List Nat}

theorem StampHolds.arrive (hs : StampHolds clock s finished) (frame : DmaInput) :
    StampHolds clock { s with toDmaState := s.toDmaState.arrive frame } finished := by
  refine ⟨hs.ring, hs.engine, ?_, hs.call, hs.order, hs.nonzero, hs.out⟩
  exact List.forall_mem_append.mpr ⟨hs.line, List.forall_mem_singleton.mpr frame.length_lt⟩

theorem not_unfinished_of_cstop (hstop : ¬ desc.control &&& descCstopBit = 0) : ¬ desc.Unfinished :=
  fun hopen ↦ hstop hopen.2

-- The engine leaves everything alone, or it finishes the descriptor it is at.
theorem DmaState.fill_stops (s : DmaState H) (hline : ∀ frame ∈ s.line, frame.length < 536870912)
    (dataCount : Nat) (timestamp : BitVec 64) :
    s.fill dataCount timestamp = s ∨
      ((s.port.rxDescriptors s.engineDesc).Unfinished ∧ ∃ desc taken line,
        ¬ desc.Unfinished ∧ desc.timestamp = timestamp ∧ (∀ frame ∈ line, frame ∈ s.line) ∧
        s.fill dataCount timestamp = { s with
          port := { s.port with
            rxDescriptors := Function.update s.port.rxDescriptors s.engineDesc desc }
          engineDesc := Cyclic.next s.port.rxNum s.engineDesc, taken, line }) := by
  rw [fill]
  cases hfirst : s.line with
  | nil => exact Or.inl rfl
  | cons frame line =>
    rw [hfirst] at hline
    have hlength := hline frame List.mem_cons_self
    dsimp only
    by_cases hopen : (s.port.rxDescriptors s.engineDesc).Unfinished
    swap
    · exact Or.inl (if_pos hopen)
    rw [if_neg (not_not.mpr hopen)]
    right
    refine ⟨hopen, ?_⟩
    by_cases hlast : (frame.drop s.taken).length ≤ (s.port.rxDescriptors s.engineDesc).dataSize
    · rw [if_pos hlast]
      refine ⟨_, 0, line, ?_, ?_, fun _ ↦ List.mem_cons_of_mem _, rfl⟩
      · exact not_unfinished_of_cstop
          (cellDesc_last (s.port.rxDescriptors s.engineDesc) _ hlength dataCount timestamp).cstop
      · rfl
    · rw [if_neg hlast]
      refine ⟨_, _, frame :: line, ?_, ?_, fun _ hmem ↦ hmem, rfl⟩
      · apply not_unfinished_of_cstop
        show ¬ descCstopBit &&& descCstopBit = 0
        decide
      · rfl

-- The engine is at a descriptor that is not finished, so the ring has room.
theorem StampHolds.room (hs : StampHolds clock s finished)
    (hopen : (s.port.rxDescriptors s.engineDesc).Unfinished) : finished.length < s.port.rxNum := by
  refine Nat.lt_of_le_of_ne hs.ring.fits fun hfull ↦ ?_
  cases finished with
  | nil => exact absurd (hfull ▸ hs.ring.origin_lt) (Nat.not_lt_zero _)
  | cons desc rest =>
    obtain ⟨huser, hdone⟩ := hs.ring.userDesc
    rw [hs.engine, hfull, Nat.add_mod_right, Nat.mod_eq_of_lt hs.ring.origin_lt] at hopen
    exact hdone (huser ▸ hopen)

theorem StampHolds.fill (hs : StampHolds clock s finished) (dataCount : Nat) :
    StampInvariant clock (stampStep hw s (.fill dataCount)) := by
  rw [stampStep]
  rcases s.toDmaState.fill_stops hs.line dataCount (s.port.rxDescriptors s.engineDesc).timestamp with
    hsame | ⟨hopen, desc, taken, line, hdone, hstamp, hline, hstep⟩
  · rw [hsame]
    exact ⟨finished, hs⟩
  · have hlt := hs.room hopen
    have hcur : UntimedDesc (s.port.rxDescriptors s.engineDesc) := by
      have hcur := hs.ring.cur hlt
      rwa [Cyclic.slot, ← hs.engine] at hcur
    have hring := hs.ring.push UntimedDesc hlt (⟨rfl, hdone⟩ : DoneDesc desc desc) fun _ ↦ id
    rw [← hs.engine] at hring
    have hopenStamp : stampOf desc = ⊤ := if_pos (hstamp.trans hcur.timestamp)
    rw [hstep]
    refine ⟨finished ++ [desc], hring, ?_, fun frame hmem ↦ hs.line frame (hline frame hmem), ?_, ?_,
      hs.nonzero, hs.out⟩
    · show Cyclic.next s.port.rxNum s.engineDesc = _
      rw [hs.engine, Cyclic.next_add_mod (Nat.lt_of_le_of_lt (Nat.zero_le _) hlt), List.length_append,
        List.length_singleton]
    · intro call hcall
      obtain ⟨bytes, length, hscan, hcount⟩ := hs.call call hcall
      exact ⟨bytes, length, frameScan_more hscan [desc], hcount⟩
    · rw [List.map_append, List.map_singleton, hopenStamp]
      exact hs.order.join

theorem StampHolds.setOptions (hs : StampHolds clock s finished) (a b c : Bool) :
    StampHolds clock { s with port := s.port.setOptions a b c } finished :=
  ⟨hs.ring, hs.engine, hs.line, hs.call, hs.order, hs.nonzero, hs.out⟩

theorem StampHolds.enter (hs : StampHolds clock s finished) (bufLength : Nat) :
    StampHolds clock { s with toDmaState := s.toDmaState.enter bufLength } finished := by
  rcases s.toDmaState.enter_cases bufLength with hsame | ⟨-, hstep⟩ | ⟨size, hnone, hsize, -, hstep⟩
  · rw [hsame]
    exact hs
  · rw [hstep]
    refine ⟨hs.ring, hs.engine, hs.line, hs.call, hs.order, hs.nonzero, ?_⟩
    rw [← hs.out, StampState.out, StampState.out]
    dsimp only
    rw [List.flatMap_append, List.flatMap_singleton, List.append_nil]
  · rw [hstep]
    refine ⟨hs.ring, hs.engine, hs.line, fun call hcall ↦ ?_, hs.order, hs.nonzero, ?_⟩
    · obtain rfl := Option.mem_some_iff.mp hcall
      exact ⟨0, size, hs.ring.scan hsize, Nat.le_of_eq (Nat.zero_add size)⟩
    · rw [← hs.out, StampState.out, StampState.out, hnone]
      rfl

/-! A round takes the first finished descriptor off, with its timestamp or without. -/

theorem Added.order (hclock : SystemClock hw clock) (hadded : Added hw st st' h h')
    (horder : Stamps.InOrder (clock h) gone ((st.port.userDesc :: rest).map stampOf)) :
    Stamps.InOrder (clock h') (gone ++ (addedTimestamps hw st h).map BitVec.toNat)
      (rest.map stampOf) := by
  rw [List.map_cons] at horder
  rcases hadded.source with ⟨hlist, rfl⟩ | ⟨hopen, hlist, rfl⟩ | ⟨hstamped, hlist, rfl⟩
  · rw [hlist, List.map_nil, List.append_nil]
    exact horder.sublist (List.sublist_cons_self _ _)
  · have htop : stampOf st.port.userDesc = ⊤ := if_pos hopen
    rw [htop] at horder
    rw [hlist, List.map_singleton]
    have hnow : Stamps.InOrder _ gone ([].map WithTop.some ++ _ :: rest.map stampOf) :=
      Stamps.InOrder.stamp horder (hclock.before h)
    exact hnow.leave.later (hclock.after h)
  · have hstamp : stampOf st.port.userDesc = (st.port.userDesc.timestamp.toNat : WithTop Nat) :=
      if_neg hstamped
    rw [hstamp] at horder
    rw [hlist, List.map_singleton]
    exact horder.leave

theorem Added.nonzero (hclock : SystemClock hw clock) (hadded : Added hw st st' h h') :
    ∀ t ∈ addedTimestamps hw st h, t ≠ 0 := by
  intro t ht
  rcases hadded.source with ⟨hlist, -⟩ | ⟨-, hlist, -⟩ | ⟨hstamped, hlist, -⟩
  · rw [hlist] at ht
    exact absurd ht List.not_mem_nil
  · rw [hlist] at ht
    rw [List.mem_singleton.mp ht]
    exact hclock.pos h
  · rw [hlist] at ht
    rwa [List.mem_singleton.mp ht]

theorem roundCopies_stamps (hw : Hardware H) (st : ReadLoop) (h : H) :
    (roundCopies hw st h).filterMap Copied.stamp? = addedTimestamps hw st h := by
  rw [roundCopies, List.filterMap_cons_none rfl, List.filterMap_map]
  exact List.filterMap_some

variable (hw) in
-- A round goes on with the call, or it is the last one.
theorem DmaState.round_cases (s : DmaState H) {call : ReadCall} (hcall : s.call = some call) :
    let r := readFrameStep hw call.bufLength { call.st with port := s.port } s.card
    (r.1 = true ∧ s.round hw = { s with
      port := r.2.1.port, card := r.2.2
      call := some { call with rounds := call.rounds - 1, st := r.2.1 } }) ∨
    s.round hw = { s with
      port := r.2.1.port, card := r.2.2, call := none
      reads := s.reads ++ [⟨call.port, call.bufLength, .success, r.2.1.out, r.2.1.outLength⟩] } := by
  rw [round, hcall]
  dsimp only
  generalize readFrameStep hw call.bufLength { call.st with port := s.port } s.card = r
  obtain ⟨again, st, card⟩ := r
  dsimp only
  by_cases hagain : again = true ∧ 1 < call.rounds
  · rw [if_pos hagain]
    exact Or.inl ⟨hagain.1, rfl⟩
  · rw [if_neg hagain]
    exact Or.inr rfl

theorem StampHolds.took {s' : StampState H} (hs : StampHolds clock s (desc :: rest))
    (hclock : SystemClock hw clock) (hadded : Added hw st st' s.card s'.card) (hst : st.port = s.port)
    (hport : s'.port = releaseUserDesc s.port) (hengine : s'.engineDesc = s.engineDesc)
    (hline : s'.line = s.line) (hcopied : s'.copied = s.copied ++ roundCopies hw st s.card)
    (hcall : ∀ call ∈ s'.call, MidRead rest call.st)
    (hout : s'.out = s.out ++ (roundCopies hw st s.card).flatMap Copied.bytes) :
    StampHolds clock s' rest := by
  have hgiven : s'.given = s.given ++ addedTimestamps hw st s.card := by
    rw [StampState.given, hcopied, List.filterMap_append, roundCopies_stamps]
    rfl
  obtain ⟨huser, -⟩ := hs.ring.userDesc
  refine ⟨hport ▸ hs.ring.release, ?_, hline ▸ hs.line, hcall, ?_, ?_, ?_⟩
  · rw [hengine, hport, hs.engine]
    show _ = (Cyclic.next s.port.rxNum s.port.userRxDesc + rest.length) % s.port.rxNum
    rw [List.length_cons, Cyclic.add_mod_next hs.ring.origin_lt]
  · have horder := hs.order
    rw [← huser, ← hst] at horder
    rw [hgiven, List.map_append]
    exact hadded.order hclock horder
  · rw [hgiven]
    exact List.forall_mem_append.mpr ⟨hs.nonzero, hadded.nonzero hclock⟩
  · rw [hout, hs.out, hcopied, List.flatMap_append]

theorem StampHolds.round (hclock : SystemClock hw clock) (hs : StampHolds clock s finished) :
    StampInvariant clock (stampStep hw s .round) := by
  rw [stampStep]
  cases hcall : s.call with
  | none => exact ⟨finished, hs⟩
  | some call =>
    dsimp only
    have hmid := hs.call call hcall
    obtain ⟨bytes, length, hscan, -⟩ := id hmid
    cases finished with
    | nil => cases hscan
    | cons desc rest =>
      have hadded := readFrameStep_added hw call.bufLength { call.st with port := s.port } s.card
      have hport := readFrameStep_port hw call.bufLength { call.st with port := s.port } s.card
      have hnext := MidRead.step hw { call.st with port := s.port } s.card call.bufLength hmid hs.ring
      have hbefore : s.out = s.reads.flatMap (fun read ↦ read.result.out) ++ call.st.out := by
        rw [StampState.out, hcall]
        rfl
      rcases s.toDmaState.round_cases hw hcall with ⟨hagain, hstep⟩ | hstep
      · rw [hstep]
        refine ⟨rest, hs.took hclock hadded rfl hport rfl rfl rfl (fun call' hcall' ↦ ?_) ?_⟩
        · obtain rfl := Option.mem_some_iff.mp hcall'
          exact hnext hagain
        · rw [hbefore, List.append_assoc]
          exact congrArg _ hadded.out
      · rw [hstep]
        refine ⟨rest, hs.took hclock hadded rfl hport rfl rfl rfl
          (fun call' hcall' ↦ absurd hcall' (Option.not_mem_none call')) ?_⟩
        rw [hbefore, List.append_assoc, StampState.out]
        dsimp only
        rw [List.flatMap_append, List.flatMap_singleton, Option.map_none, Option.getD_none,
          List.append_nil]
        exact congrArg _ hadded.out

/-! The worker goes over the finished descriptors: those in front of it have their timestamps. -/

theorem DoneRing.atFront (hring : DoneRing (front ++ desc :: rest) port) :
    port.rxDescriptors ((port.userRxDesc + front.length) % port.rxNum) = desc ∧ ¬ desc.Unfinished := by
  have hlt : front.length < (front ++ desc :: rest).length := by simp
  have hbusy := hring.busy front.length hlt
  rw [List.getElem_append_right (Nat.le_refl _)] at hbusy
  simp only [Nat.sub_self, List.getElem_cons_zero] at hbusy
  exact ⟨hbusy.item, hbusy.item ▸ hbusy.finished⟩

theorem DoneRing.atEnd (hring : DoneRing finished port) (hlt : finished.length < port.rxNum) :
    (port.rxDescriptors ((port.userRxDesc + finished.length) % port.rxNum)).Unfinished :=
  (hring.cur hlt).unfinished

theorem DoneRing.setFront (hring : DoneRing (front ++ desc :: rest) port) (desc' : DmaFrame)
    (hdone : ¬ desc'.Unfinished) :
    DoneRing ((front ++ [desc']) ++ rest) { port with
      rxDescriptors :=
        Function.update port.rxDescriptors ((port.userRxDesc + front.length) % port.rxNum) desc' } := by
  have hlt : front.length < (front ++ desc :: rest).length := by simp
  have hset := hring.set hlt (⟨rfl, hdone⟩ : DoneDesc desc' desc')
  rw [List.set_append_right _ _ (Nat.le_refl _), Nat.sub_self, List.set_cons_zero,
    List.append_cons] at hset
  exact hset

theorem stampOf_front (hfront : ∀ desc ∈ front, desc.timestamp ≠ 0) :
    front.map stampOf = (front.map fun desc ↦ desc.timestamp.toNat).map WithTop.some := by
  rw [List.map_map]
  exact List.map_congr_left fun desc hmem ↦ if_neg (hfront desc hmem)

theorem applyTimestampsLoop_stop {curDesc : Nat} (hopen : (port.rxDescriptors curDesc).Unfinished)
    (n : Nat) : applyTimestampsLoop hw (n + 1) curDesc port h = (port, h) := by
  rw [applyTimestampsLoop]
  exact if_pos hopen

theorem applyTimestampsLoop_go {curDesc : Nat} (hdesc : port.rxDescriptors curDesc = desc)
    (hdone : ¬ desc.Unfinished) {t : BitVec 64}
    (ht : (if desc.timestamp = 0 then hw.keQuerySystemTime h else (desc.timestamp, h)) = (t, h'))
    (n : Nat) :
    applyTimestampsLoop hw (n + 1) curDesc port h =
      applyTimestampsLoop hw n (Cyclic.next port.rxNum curDesc) { port with
        rxDescriptors :=
          Function.update port.rxDescriptors curDesc { desc with timestamp := t } } h' := by
  rw [applyTimestampsLoop, hdesc]
  dsimp only
  rw [ht]
  exact if_neg hdone

-- The time of a descriptor that has none is now, that of another one stays.
theorem stamp_order (hclock : SystemClock hw clock) (hfront : ∀ desc ∈ front, desc.timestamp ≠ 0)
    (horder : Stamps.InOrder (clock h) gone ((front ++ desc :: rest).map stampOf)) :
    ∃ t h', (if desc.timestamp = 0 then hw.keQuerySystemTime h else (desc.timestamp, h)) = (t, h') ∧
      t ≠ 0 ∧ Stamps.InOrder (clock h') gone
        ((front ++ { desc with timestamp := t } :: rest).map stampOf) := by
  by_cases hopen : desc.timestamp = 0
  · refine ⟨_, _, if_pos hopen, hclock.pos h, ?_⟩
    have htop : stampOf desc = ⊤ := if_pos hopen
    have hnow : stampOf { desc with timestamp := (hw.keQuerySystemTime h).1 } =
        ((hw.keQuerySystemTime h).1.toNat : WithTop Nat) := if_neg (hclock.pos h)
    rw [List.map_append, List.map_cons, stampOf_front hfront] at horder ⊢
    rw [htop] at horder
    rw [hnow]
    exact (horder.stamp (hclock.before h)).later (hclock.after h)
  · exact ⟨_, _, if_neg hopen, hopen, horder⟩

theorem applyTimestampsLoop_stamps (hclock : SystemClock hw clock) (n : Nat)
    (hring : DoneRing (front ++ rest) port) (hn : front.length + n = port.rxNum)
    (hfront : ∀ desc ∈ front, desc.timestamp ≠ 0)
    (horder : Stamps.InOrder (clock h) gone ((front ++ rest).map stampOf)) :
    let r := applyTimestampsLoop hw n ((port.userRxDesc + front.length) % port.rxNum) port h
    ∃ finished', DoneRing finished' r.1 ∧ finished'.length = (front ++ rest).length ∧
      r.1.userRxDesc = port.userRxDesc ∧ r.1.rxNum = port.rxNum ∧
      Stamps.InOrder (clock r.2) gone (finished'.map stampOf) := by
  induction n generalizing front rest port h with
  | zero => exact ⟨front ++ rest, hring, rfl, rfl, rfl, horder⟩
  | succ n ih =>
    cases rest with
    | nil =>
      rw [List.append_nil] at hring horder ⊢
      rw [applyTimestampsLoop_stop (hring.atEnd (by omega))]
      exact ⟨front, hring, rfl, rfl, rfl, horder⟩
    | cons desc rest =>
      obtain ⟨hdesc, hdone⟩ := hring.atFront
      obtain ⟨t, h', ht, hpos, horder'⟩ := stamp_order hclock hfront horder
      have hlength : (front ++ [{ desc with timestamp := t }]).length = front.length + 1 :=
        List.length_append
      rw [List.append_cons] at horder'
      have hring' := hring.setFront { desc with timestamp := t } hdone
      have hnext := ih hring' (by rw [hlength]; dsimp only; omega)
        (List.forall_mem_append.mpr ⟨hfront, List.forall_mem_singleton.mpr hpos⟩) horder'
      rw [hlength] at hnext
      rw [applyTimestampsLoop_go hdesc hdone ht, Cyclic.next_add_mod (by omega)]
      obtain ⟨finished', hdone', hlength', huser, hnum, hlater⟩ := hnext
      refine ⟨finished', hdone', ?_, huser, hnum, hlater⟩
      rw [hlength', ← List.append_cons, List.length_append, List.length_append, List.length_cons,
        List.length_cons]

theorem StampHolds.timestampWorker (hclock : SystemClock hw clock) (hs : StampHolds clock s finished) :
    StampInvariant clock (stampStep hw s .timestampWorker) := by
  rw [stampStep]
  cases hcall : s.call with
  | some call => exact ⟨finished, hs⟩
  | none =>
    have hout := hs.out
    rw [StampState.out, hcall] at hout
    have hring : DoneRing ([] ++ finished) s.port := hs.ring
    have hloop := applyTimestampsLoop_stamps hclock s.port.rxNum hring (Nat.zero_add _)
      (fun _ hmem ↦ absurd hmem List.not_mem_nil) hs.order
    rw [List.length_nil, Nat.add_zero, Nat.mod_eq_of_lt hs.ring.origin_lt] at hloop
    obtain ⟨finished', hring, hlength, huser, hnum, horder⟩ := hloop
    refine ⟨finished', hring, ?_, hs.line, fun call hmem ↦ absurd hmem (Option.not_mem_none call),
      horder, hs.nonzero, hout⟩
    show s.engineDesc = ((applyTimestampsLoop hw _ _ _ _).1.userRxDesc + finished'.length) %
      (applyTimestampsLoop hw _ _ _ _).1.rxNum
    rw [huser, hnum, hlength]
    exact hs.engine

theorem StampHolds.purge (hs : StampHolds clock s finished) :
    StampInvariant clock (stampStep hw s .purge) := by
  rw [stampStep]
  cases hcall : s.call with
  | some call => exact ⟨finished, hs⟩
  | none =>
    have hpos := Nat.lt_of_le_of_lt (Nat.zero_le _) hs.ring.origin_lt
    have hout := hs.out
    rw [StampState.out, hcall] at hout
    exact ⟨[], resetRx_doneRing hpos, (Nat.zero_mod _).symm, fun _ hmem ↦ absurd hmem List.not_mem_nil,
      fun call hmem ↦ absurd hmem (Option.not_mem_none call), hs.order.sublist (List.nil_sublist _),
      hs.nonzero, hout⟩

theorem StampInvariant.step (hclock : SystemClock hw clock) (hs : StampInvariant clock s)
    (action : StampAction H) (htime : TimePasses clock s action) :
    StampInvariant clock (stampStep hw s action) := by
  obtain ⟨finished, hs⟩ := hs
  cases action with
  | arrive frame => exact ⟨_, hs.arrive frame⟩
  | fill dataCount => exact hs.fill dataCount
  | setOptions a b c => exact ⟨_, hs.setOptions a b c⟩
  | userReadFrame bufLength => exact ⟨_, hs.enter bufLength.toNat⟩
  | round => exact hs.round hclock
  | timestampWorker => exact hs.timestampWorker hclock
  | purge => exact hs.purge
  | others card =>
    exact ⟨finished, hs.ring, hs.engine, hs.line, hs.call, hs.order.later htime, hs.nonzero, hs.out⟩

theorem stampStart_invariant (clock : H → Nat) (hpos : 0 < port.rxNum) (card : H) :
    StampInvariant clock (stampStart port card) :=
  ⟨[], resetRx_doneRing hpos, (Nat.zero_mod _).symm, fun _ hmem ↦ absurd hmem List.not_mem_nil,
    fun call hmem ↦ absurd hmem (Option.not_mem_none call), Stamps.InOrder.empty _,
    fun _ hmem ↦ absurd hmem List.not_mem_nil, rfl⟩

end Steps

/-- Timestamps in DMA mode: in every run in which the system time is not set back, the callers have
got the copied data and timestamps, and each timestamp among them is a time that has come, no earlier
than those before it. -/
theorem fscc_dma_timestamps_in_order {port : RxPort} (card : H) (hclock : SystemClock hw clock)
    (hpos : 0 < port.rxNum) (actions : List (StampAction H))
    (htime : Runs.Along (TimePasses clock) (stampStep hw) (stampStart port card) actions) :
    let s := actions.foldl (stampStep hw) (stampStart port card)
    s.out = s.copied.flatMap Copied.bytes ∧ (s.given.map BitVec.toNat).Pairwise (· ≤ ·) ∧
      ∀ t ∈ s.given, t ≠ 0 ∧ t.toNat ≤ clock s.card := by
  intro s
  obtain ⟨finished, hs⟩ := htime.invariant (fun _ action hallowed hs ↦ hs.step hclock action hallowed)
    (stampStart_invariant clock hpos card)
  refine ⟨hs.out, hs.order.gone_sorted, fun t ht ↦ ⟨hs.nonzero t ht, ?_⟩⟩
  exact hs.order.bounded t.toNat
    (List.mem_append_left _ (List.mem_map_of_mem (List.mem_map_of_mem ht)))

-- The time of day, which stops at its last value.
def tickingCard : Hardware (BitVec 64) where
  ioRead _ _ h := (0, h)
  ioWrite _ _ _ h := h
  keQuerySystemTime h := if h = BitVec.allOnes 64 then (h, h) else (h + 1, h + 1)

theorem tickingCard_time (h : BitVec 64) :
    ∃ t, tickingCard.keQuerySystemTime h = (t, t) ∧ h.toNat ≤ t.toNat ∧ t ≠ 0 := by
  by_cases hlast : h = BitVec.allOnes 64
  · refine ⟨h, if_pos hlast, Nat.le_refl _, ?_⟩
    rw [hlast]
    decide
  · have hmax : h.toNat ≠ 18446744073709551615 := fun heq ↦ hlast (BitVec.eq_of_toNat_eq heq)
    have hlt := h.isLt
    have htick : (h + 1).toNat = h.toNat + 1 := by
      rw [BitVec.toNat_add]
      exact Nat.mod_eq_of_lt (by show h.toNat + 1 < 2 ^ 64; omega)
    refine ⟨h + 1, if_neg hlast, by omega, fun hzero ↦ ?_⟩
    rw [hzero] at htick
    cases htick

theorem tickingCard_clock : SystemClock tickingCard BitVec.toNat := by
  constructor
  all_goals
    intro h
    obtain ⟨t, hread, hle, hpos⟩ := tickingCard_time h
    rw [hread]
  · exact hle
  · exact hpos

-- The engine ends the second frame, which no worker has seen, while the first one is read.
theorem fscc_dma_timestamps_in_order_two :
    let s := [StampAction.setOptions true true true, .arrive shortInput, .arrive otherInput, .fill 2,
      .timestampWorker, .others 7, .userReadFrame 100, .fill 2, .round, .round].foldl
        (stampStep tickingCard) (stampStart threeDescPort 0)
    s.out = s.copied.flatMap Copied.bytes ∧ (s.given.map BitVec.toNat).Pairwise (· ≤ ·) ∧
      ∀ t ∈ s.given, t ≠ 0 ∧ t.toNat ≤ s.card.toNat :=
  fscc_dma_timestamps_in_order 0 tickingCard_clock (by decide)
    [.setOptions true true true, .arrive shortInput, .arrive otherInput, .fill 2, .timestampWorker,
      .others 7, .userReadFrame 100, .fill 2, .round, .round] (by decide)

end FsccDriver

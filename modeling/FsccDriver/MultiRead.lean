import FsccDriver.RxShape

/-!
# MultiRead — a read of several frames as reads of one frame each

With `rx_multiple` the loop of `fscc_user_read_frame` goes on at the end of a frame.  Frame for frame
it does what a call of its own would do with the rest of the buffer.
-/

namespace FsccDriver

open Words

variable {H : Type} {bufLength : Nat} {port : RxPort} {desc : DmaFrame} {finished : List DmaFrame}
  {st : ReadLoop}

def RxPort.multiple (port : RxPort) (rxMultiple : Bool) : RxPort := { port with rxMultiple }

/-- `fscc_user_read_frame` again and again, on what is left of the buffer, until a call fails: the
bytes stored, their number and the ring.  `none` when `calls` calls do not get there. -/
def readUntilTooSmall (hw : Hardware H) :
    (calls bufLength : Nat) → RxPort → H → Option (List Byte × Nat × RxPort × H)
  | 0, _, _, _ => none
  | calls + 1, bufLength, port, h =>
      let (result, port, h) := fsccUserReadFrame hw bufLength port h
      if result.status = .bufferTooSmall then some ([], 0, port, h)
      else
        (readUntilTooSmall hw calls (bufLength - result.outLength) port h).map
          fun (out, outLength, last) ↦ (result.out ++ out, result.outLength + outLength, last)

/-! ## The finished descriptors -/

/-- The finished descriptors of the ring are `finished`, from `user_rx_desc` on.  Each has a time, and
where one ends a frame it counts at least the two status bytes. -/
structure FinishedSegment (finished : List DmaFrame) (port : RxPort) : Prop where
  user_lt : port.userRxDesc < port.rxNum
  ahead : ∃ others, port.ahead = finished ++ others ∧ ∀ desc ∈ others, desc.Unfinished
  stopped : ∀ desc ∈ finished, ¬ desc.Unfinished
  stamped : ∀ desc ∈ finished, desc.timestamp ≠ 0
  two_le : ∀ desc ∈ finished, desc.EndsFrame → 2 ≤ desc.control &&& dmaMaxLength

theorem FinishedSegment.length_le (h : FinishedSegment finished port) :
    finished.length ≤ port.rxNum := by
  obtain ⟨others, hahead, -⟩ := h.ahead
  have hlength : port.ahead.length = port.rxNum := Cyclic.turn_length _ _ _
  rw [hahead, List.length_append] at hlength
  omega

theorem FinishedSegment.multiple (h : FinishedSegment finished port) (rxMultiple : Bool) :
    FinishedSegment finished (port.multiple rxMultiple) :=
  ⟨h.user_lt, h.ahead, h.stopped, h.stamped, h.two_le⟩

-- A round gives the first of them back.
theorem FinishedSegment.release (h : FinishedSegment (desc :: finished) port) :
    port.userDesc = desc ∧ FinishedSegment finished (releaseUserDesc port) := by
  obtain ⟨others, hahead, hothers⟩ := h.ahead
  have hcons := ahead_cons h.user_lt
  rw [hahead, List.cons_append] at hcons
  obtain ⟨huser, htail⟩ := List.cons_eq_cons.mp hcons
  refine ⟨huser.symm, Cyclic.next_lt h.user_lt, ?_, ?_, ?_, ?_⟩
  · refine ⟨others ++ [{ port.userDesc with timestamp := 0, control := descHiBit }], ?_, ?_⟩
    · rw [ahead_release h.user_lt, hahead, List.cons_append, List.tail_cons, List.append_assoc]
    · rw [List.forall_mem_append]
      refine ⟨hothers, fun desc hmem ↦ ?_⟩
      rw [List.mem_singleton.mp hmem]
      exact released_unfinished _
  · exact fun d hmem ↦ h.stopped d (List.mem_cons_of_mem _ hmem)
  · exact fun d hmem ↦ h.stamped d (List.mem_cons_of_mem _ hmem)
  · exact fun d hmem ↦ h.two_le d (List.mem_cons_of_mem _ hmem)

theorem FinishedSegment.scan (h : FinishedSegment finished port) {length : Nat}
    (hready : fsccUserNextReadSize port = (true, length)) :
    frameScan finished 0 = (true, length) := by
  obtain ⟨others, hahead, hothers⟩ := h.ahead
  rw [fsccUserNextReadSize_ahead h.user_lt, hahead] at hready
  exact frameScan_append hothers hready

theorem FinishedSegment.nextReadSize (h : FinishedSegment finished port) (rxMultiple : Bool) :
    fsccUserNextReadSize (port.multiple rxMultiple) = fsccUserNextReadSize port := by
  rw [fsccUserNextReadSize_ahead h.user_lt, fsccUserNextReadSize_ahead (h.multiple rxMultiple).user_lt]
  rfl

-- The length that is found stands in a descriptor that ends a frame.
theorem frameScan_found {descs : List DmaFrame} {bytes length : Nat}
    (h : frameScan descs bytes = (true, length)) :
    ∃ desc ∈ descs, desc.EndsFrame ∧ desc.control &&& dmaMaxLength = length := by
  induction descs generalizing bytes with
  | nil => cases h
  | cons desc descs ih =>
    rw [frameScan] at h
    by_cases hopen : desc.Unfinished
    · rw [if_pos hopen] at h
      cases h
    · rw [if_neg hopen] at h
      by_cases hends : desc.EndsFrame
      · rw [if_pos hends] at h
        exact ⟨desc, List.mem_cons_self, hends, congrArg Prod.snd h⟩
      · rw [if_neg hends] at h
        obtain ⟨found, hmem, hfound⟩ := ih h
        exact ⟨found, List.mem_cons_of_mem _ hmem, hfound⟩

/-! ## One round -/

-- What a round stores behind the data.
def stampData (st : ReadLoop) : List Byte :=
  if st.bytesInDescs = 0 ∧ st.port.appendTimestamp then timestampBytes st.port.userDesc.timestamp
  else []

def roundData (st : ReadLoop) : List Byte :=
  Bytes.read st.port.userDesc.buffer 0 (realMoveSize st) ++ stampData (moveData st)

-- The variables behind a round, before the test for another frame.
def roundEnd (st : ReadLoop) : ReadLoop :=
  { moveData st with
    port := releaseUserDesc st.port
    outLength := st.outLength + (roundData st).length
    out := st.out ++ roundData st }

/-- From the end of a round on: the test for another frame, and at most `n` more rounds. -/
def goOn (hw : Hardware H) (bufLength n : Nat) (st : ReadLoop) (h : H) : ReadLoop × H :=
  match nextFrame bufLength st with
  | (true, st) => readFrameLoop hw bufLength n st h
  | (false, st) => (st, h)

theorem stampData_length (st : ReadLoop) : (stampData st).length =
    if st.bytesInDescs = 0 ∧ st.port.appendTimestamp then 8 else 0 := by
  rw [stampData, apply_ite List.length, timestampBytes_length, List.length_nil]

theorem roundData_length (st : ReadLoop) :
    (roundData st).length = realMoveSize st + (stampData (moveData st)).length := by
  rw [roundData, List.length_append, Bytes.read_length]

-- With a time in the descriptor the clock is not asked.
theorem appendTimestamp_stampData (hw : Hardware H) (st : ReadLoop) (h : H)
    (hstamp : st.port.userDesc.timestamp ≠ 0)
    (hout : st.outLength + (stampData st).length < 4294967296) :
    appendTimestamp hw st h =
      ({ st with
        outLength := st.outLength + (stampData st).length, out := st.out ++ stampData st }, h) := by
  rw [stampData_length] at hout ⊢
  unfold appendTimestamp stampData
  by_cases hboth : st.bytesInDescs = 0 ∧ st.port.appendTimestamp
  · rw [if_pos hboth] at hout
    rw [if_pos hboth, if_neg hstamp, if_pos hboth, if_pos hboth]
    dsimp only
    rw [show (8 : Int) = ((8 : Nat) : Int) from rfl, u32_add_of_lt hout]
  · rw [if_neg hboth, if_neg hboth, if_neg hboth, List.append_nil, Nat.add_zero]

theorem readFrameLoop_round (hw : Hardware H) (bufLength n : Nat) (st : ReadLoop) (h : H)
    (hstamp : st.port.userDesc.timestamp ≠ 0)
    (hout : st.outLength + (roundData st).length < 4294967296) :
    readFrameLoop hw bufLength (n + 1) st h = goOn hw bufLength n (roundEnd st) h := by
  have hlength := roundData_length st
  have hmoved : (moveData st).outLength = st.outLength + realMoveSize st :=
    u32_add_of_lt (by omega)
  have hend : { moveData st with
      port := releaseUserDesc st.port
      outLength := (moveData st).outLength + (stampData (moveData st)).length
      out := (moveData st).out ++ stampData (moveData st) } = roundEnd st := by
    rw [roundEnd, hmoved, hlength, Nat.add_assoc, roundData, ← List.append_assoc]
    rfl
  have hstep : readFrameStep hw bufLength st h = ((nextFrame bufLength (roundEnd st)).1,
      (nextFrame bufLength (roundEnd st)).2, h) := by
    rw [readFrameStep, appendTimestamp_stampData hw (moveData st) h hstamp (by omega), ← hend]
    rfl
  rw [readFrameLoop, hstep, goOn]
  generalize nextFrame bufLength (roundEnd st) = next
  obtain ⟨again, st'⟩ := next
  cases again with
  | false => rfl
  | true => rfl

/-! ## One frame -/

/-- A read in the middle of a frame.  `finished` are the finished descriptors that are left. -/
structure InRead (finished : List DmaFrame) (st : ReadLoop) : Prop where
  segment : FinishedSegment finished st.port
  scan : ∃ bytes length, frameScan finished bytes = (true, length) ∧
    st.filledFrameSize + st.bytesInDescs ≤ length
  valid : st.totalValidData ≤ st.bytesInDescs

-- The same round of a read with another setting, another buffer or more in front of it.
def ReadLoop.within (st : ReadLoop) (rxMultiple : Bool) (outLength : Nat) (out : List Byte) : ReadLoop :=
  { st with port := st.port.multiple rxMultiple, outLength, out }

theorem realMoveSize_le (st : ReadLoop) : realMoveSize st ≤ st.totalValidData := by
  unfold realMoveSize
  split <;> omega

-- What is left of a frame behind a round that does not end it.
theorem InRead.round (h : InRead (desc :: finished) st) :
    FinishedSegment finished (roundEnd st).port ∧ st.port.userDesc.timestamp ≠ 0 ∧
      ((moveData st).bytesInDescs = 0 ∧ realMoveSize st = st.totalValidData ∨
        (moveData st).bytesInDescs ≠ 0 ∧ InRead finished (roundEnd st)) := by
  obtain ⟨huser, hsegment⟩ := h.segment.release
  obtain ⟨bytes, length, hscan, hcount⟩ := h.scan
  have hvalid := h.valid
  have hlt := frameScan_lt hscan
  have hstamp := h.segment.stamped desc List.mem_cons_self
  refine ⟨hsegment, huser ▸ hstamp, ?_⟩
  rw [frameScan, if_neg (h.segment.stopped desc List.mem_cons_self)] at hscan
  by_cases hzero : (moveData st).bytesInDescs = 0
  · refine Or.inl ⟨hzero, ?_⟩
    have hall : st.bytesInDescs ≤ plannedMoveSize st := by
      change (if plannedMoveSize st > st.bytesInDescs then 0 else _) = 0 at hzero
      split at hzero <;> omega
    unfold realMoveSize
    split <;> omega
  · refine Or.inr ⟨hzero, hsegment, ?_, ?_⟩
    · by_cases hends : desc.EndsFrame
      · rw [if_pos hends] at hscan
        have hlength : desc.control &&& dmaMaxLength = length := congrArg Prod.snd hscan
        exact absurd (moveData_ends (huser ▸ hends) (huser ▸ hlength) hcount hlt) hzero
      · rw [if_neg hends] at hscan
        exact ⟨_, length, hscan, moveData_mid (huser ▸ hends) hcount hlt hzero⟩
    · change st.totalValidData - realMoveSize st ≤
        if plannedMoveSize st > st.bytesInDescs then 0 else st.bytesInDescs - plannedMoveSize st
      change (if plannedMoveSize st > st.bytesInDescs then 0 else _) ≠ 0 at hzero
      unfold realMoveSize
      split at hzero <;> split <;> omega

/-- `k` rounds take the rest of a frame out as `data` and end at `st'`: with every setting of
`rx_multiple`, in every buffer with room for it and whatever stands in front of it. -/
structure TakesFrame (H : Type) (st : ReadLoop) (k : Nat) (data : List Byte) (st' : ReadLoop) : Prop where
  pos : 0 < k
  ends : st'.bytesInDescs = 0
  length : data.length = st.totalValidData + if st.port.appendTimestamp then 8 else 0
  loop (hw : Hardware H) (s : H) (bufLength : Nat) (rxMultiple : Bool) (outLength : Nat)
    (out : List Byte) (n : Nat) : outLength + data.length < 4294967296 →
      readFrameLoop hw bufLength (k + n) (st.within rxMultiple outLength out) s =
        goOn hw bufLength n (st'.within rxMultiple (outLength + data.length) (out ++ data)) s

variable (H) in
theorem InRead.rounds (h : InRead finished st) :
    ∃ k rest data st', TakesFrame H st k data st' ∧ FinishedSegment rest st'.port ∧
      k + rest.length = finished.length := by
  induction finished generalizing st with
  | nil =>
    obtain ⟨bytes, length, hscan, -⟩ := h.scan
    cases hscan
  | cons desc finished ih =>
    obtain ⟨hsegment, hstamp, hround⟩ := h.round
    have hdata := roundData_length st
    rw [stampData_length] at hdata
    have hstep : ∀ (hw : Hardware H) (s : H) bufLength rxMultiple outLength out n,
        outLength + (roundData st).length < 4294967296 →
        readFrameLoop hw bufLength (n + 1) (st.within rxMultiple outLength out) s =
          goOn hw bufLength n ((roundEnd st).within rxMultiple (outLength + (roundData st).length)
            (out ++ roundData st)) s := by
      intro hw s bufLength rxMultiple outLength out n hout
      rw [readFrameLoop_round hw bufLength n (st.within rxMultiple outLength out) s hstamp hout]
      rfl
    rcases hround with ⟨hzero, hall⟩ | ⟨hleft, hin⟩
    · refine ⟨1, finished, roundData st, roundEnd st, ⟨Nat.one_pos, hzero, ?_, ?_⟩, hsegment,
        Nat.add_comm _ _⟩
      · rw [hdata, hall]
        congr 1
        exact if_congr (and_iff_right hzero) rfl rfl
      · intro hw s bufLength rxMultiple outLength out n hout
        rw [Nat.add_comm 1 n]
        exact hstep hw s bufLength rxMultiple outLength out n hout
    · -- The frame goes on in the next descriptor.
      obtain ⟨k, rest, data, st', htakes, hrest, hk⟩ := ih hin
      have hquiet : ¬ ((moveData st).bytesInDescs = 0 ∧ (moveData st).port.appendTimestamp) :=
        fun hboth ↦ hleft hboth.1
      rw [if_neg hquiet, Nat.add_zero] at hdata
      refine ⟨k + 1, rest, roundData st ++ data, st', ⟨Nat.succ_pos k, htakes.ends, ?_, ?_⟩, hrest, ?_⟩
      · have hlength : data.length = st.totalValidData - realMoveSize st +
            if st.port.appendTimestamp then 8 else 0 := htakes.length
        have hle := realMoveSize_le st
        rw [List.length_append, hlength, hdata]
        omega
      · intro hw s bufLength rxMultiple outLength out n hout
        rw [List.length_append, ← Nat.add_assoc] at hout
        have hnext : nextFrame bufLength ((roundEnd st).within rxMultiple
            (outLength + (roundData st).length) (out ++ roundData st)) =
              (true, (roundEnd st).within rxMultiple (outLength + (roundData st).length)
                (out ++ roundData st)) := if_neg hleft
        rw [Nat.add_right_comm, hstep hw s bufLength rxMultiple outLength out (k + n) (by omega), goOn,
          hnext, List.length_append, ← Nat.add_assoc, ← List.append_assoc]
        exact htakes.loop hw s bufLength rxMultiple _ _ n hout
      · rw [List.length_cons, ← hk]
        omega

/-! ## All frames -/

-- The read of the first frame, when it is ready.
theorem FinishedSegment.start (h : FinishedSegment finished port) {length : Nat}
    (hready : fsccUserNextReadSize port = (true, length)) :
    InRead finished (readFrameStart port length) := by
  have hscan := h.scan hready
  refine ⟨h, ⟨0, length, hscan, Nat.le_of_eq (Nat.zero_add _)⟩, ?_⟩
  obtain ⟨desc, hmem, hends, rfl⟩ := frameScan_found hscan
  show validData port _ ≤ _
  rw [validData_le port (h.two_le desc hmem hends) (frameScan_lt hscan)]
  exact validLength_le port _

theorem FinishedSegment.requirement (h : FinishedSegment finished port) {length : Nat}
    (hready : fsccUserNextReadSize port = (true, length)) : bufferRequirement port length =
      validData port length + if port.appendTimestamp then 8 else 0 := by
  have hscan := h.scan hready
  obtain ⟨desc, hmem, hends, rfl⟩ := frameScan_found hscan
  have htwo := h.two_le desc hmem hends
  have hlt := frameScan_lt hscan
  rw [bufferRequirement_valid port htwo hlt, validData_le port htwo hlt]

-- A single read that has room: it stops where the loop would look for the next frame.
theorem TakesFrame.single {length k : Nat} {data : List Byte} {st' : ReadLoop}
    (h : TakesFrame H (readFrameStart port length) k data st')
    (hready : fsccUserNextReadSize (port.multiple false) = (true, length))
    (hfits : bufferRequirement port length ≤ bufLength) (hk : k ≤ port.rxNum)
    (hdata : data.length < 4294967296) (hw : Hardware H) (s : H) :
    fsccUserReadFrame hw bufLength (port.multiple false) s =
      (⟨.success, data, data.length⟩, st'.port.multiple false, s) := by
  obtain ⟨n, hn⟩ := Nat.exists_eq_add_of_le hk
  have hstop : nextFrame bufLength (st'.within false data.length data) =
      (false, st'.within false data.length data) := by
    rw [nextFrame_single _ _ rfl]
    congr 1
    exact decide_eq_false (not_not.mpr h.ends)
  have hloop := h.loop hw s bufLength false 0 [] n
  rw [Nat.zero_add, List.nil_append, goOn, hstop] at hloop
  have hrounds : readFrameLoop hw bufLength (port.multiple false).rxNum
      (readFrameStart (port.multiple false) length) s = (st'.within false data.length data, s) := by
    show readFrameLoop hw bufLength port.rxNum _ s = _
    rw [hn]
    exact hloop hdata
  have hfits' : ¬ bufferRequirement (port.multiple false) length > bufLength := Nat.not_lt_of_le hfits
  rw [fsccUserReadFrame, hready]
  dsimp only
  rw [if_neg (not_not.mpr rfl), if_neg hfits', hrounds]
  rfl

-- Where a read stops: nothing is ready, or it does not fit into what is left.
def Stops (port : RxPort) (bufLength : Nat) : Prop :=
  (fsccUserNextReadSize port).1 = true →
    bufferRequirement port (fsccUserNextReadSize port).2 > bufLength

theorem fsccUserReadFrame_stops (hw : Hardware H) (s : H) (h : Stops port bufLength) :
    fsccUserReadFrame hw bufLength port s = (⟨.bufferTooSmall, [], 0⟩, port, s) := by
  unfold Stops at h
  unfold fsccUserReadFrame
  generalize fsccUserNextReadSize port = size at h
  obtain ⟨ready, length⟩ := size
  cases ready with
  | false => rfl
  | true =>
    dsimp only
    rw [if_neg (not_not.mpr rfl), if_pos (h rfl)]

instance (port : RxPort) (bufLength : Nat) : Decidable (Stops port bufLength) :=
  inferInstanceAs (Decidable (_ → _))

theorem FinishedSegment.stops_iff (h : FinishedSegment finished port) (rxMultiple : Bool) :
    Stops (port.multiple rxMultiple) bufLength ↔ Stops port bufLength := by
  unfold Stops
  rw [h.nextReadSize rxMultiple]
  exact Iff.rfl

variable (st) in
-- The loop tests what the entry of the next call would test.
theorem nextFrame_within (h : FinishedSegment finished st.port) (hzero : st.bytesInDescs = 0)
    {outLength : Nat} (out : List Byte) (hbuf : bufLength < 4294967296) (hle : outLength ≤ bufLength) :
    (Stops st.port (bufLength - outLength) ∧ nextFrame bufLength (st.within true outLength out) =
        (false, st.within true outLength out)) ∨
      ∃ length, fsccUserNextReadSize st.port = (true, length) ∧
        bufferRequirement st.port length ≤ bufLength - outLength ∧
        nextFrame bufLength (st.within true outLength out) =
          (true, (readFrameStart st.port length).within true outLength out) := by
  have hsize : fsccUserNextReadSize (st.within true outLength out).port =
      fsccUserNextReadSize st.port := h.nextReadSize true
  have hroom : u32 ((bufLength : Int) - outLength) = bufLength - outLength := u32_sub_of_le hbuf hle
  have hboundary : (st.within true outLength out).bytesInDescs = 0 := hzero
  have hmultiple : (st.within true outLength out).port.rxMultiple = true := rfl
  unfold Stops
  rw [nextFrame, if_pos hboundary, if_neg (not_not.mpr hmultiple), hsize]
  generalize fsccUserNextReadSize st.port = size
  obtain ⟨ready, length⟩ := size
  cases ready with
  | false => exact Or.inl ⟨fun htrue ↦ absurd htrue Bool.false_ne_true, rfl⟩
  | true =>
    dsimp only
    rw [if_neg (not_not.mpr rfl)]
    have hlong : bufferRequirement (st.within true outLength out).port length >
        u32 ((bufLength : Int) - (st.within true outLength out).outLength) ↔
          bufferRequirement st.port length > bufLength - outLength := by
      show bufferRequirement st.port length > u32 ((bufLength : Int) - outLength) ↔ _
      rw [hroom]
    by_cases hfits : bufferRequirement st.port length > bufLength - outLength
    · exact Or.inl ⟨fun _ ↦ hfits, if_pos (hlong.mpr hfits)⟩
    · exact Or.inr ⟨length, rfl, Nat.le_of_not_lt hfits, if_neg fun h ↦ hfits (hlong.mp h)⟩

variable (st) in
/-- From the end of a frame on, the loop and single calls on the rest of the buffer take the same
bytes out and leave the same ring. -/
theorem goOn_single_reads (hw hw' : Hardware H) (s s' : H) {n calls outLength : Nat}
    (h : FinishedSegment finished st.port) (hzero : st.bytesInDescs = 0) (out : List Byte)
    (hbuf : bufLength < 4294967296) (hle : outLength ≤ bufLength) (hn : finished.length ≤ n)
    (hcalls : finished.length < calls) :
    ∃ (data : List Byte) (st' : ReadLoop), goOn hw bufLength n (st.within true outLength out) s =
        (st'.within true (outLength + data.length) (out ++ data), s) ∧
      readUntilTooSmall hw' calls (bufLength - outLength) (st.port.multiple false) s' =
        some (data, data.length, st'.port.multiple false, s') := by
  induction hlength : finished.length using Nat.strong_induction_on
    generalizing finished st n calls outLength out with
  | _ m ih =>
    obtain ⟨calls, rfl⟩ : ∃ m, calls = m + 1 := ⟨calls - 1, by omega⟩
    rcases nextFrame_within st h hzero out hbuf hle with ⟨hstops, hnext⟩ |
      ⟨length, hready, hfits, hnext⟩
    · refine ⟨[], st, ?_, ?_⟩
      · rw [goOn, hnext, List.append_nil]
        rfl
      · rw [readUntilTooSmall, fsccUserReadFrame_stops hw' s' ((h.stops_iff false).mpr hstops)]
        rfl
    · obtain ⟨k, rest, data, st', htakes, hrest, hk⟩ := (h.start hready).rounds H
      have hpos := htakes.pos
      have hdata : data.length = bufferRequirement st.port length :=
        htakes.length.trans (h.requirement hready).symm
      obtain ⟨n', rfl⟩ := Nat.exists_eq_add_of_le (show k ≤ n by omega)
      have hsingle := htakes.single ((h.nextReadSize false).trans hready) hfits
        (Nat.le_trans (by omega) h.length_le) (by omega) hw' s'
      have hloop := htakes.loop hw s bufLength true outLength out n' (by omega)
      obtain ⟨data', last, hmulti, hrepeat⟩ := ih rest.length (by omega) st' hrest
        htakes.ends (out ++ data) (show outLength + data.length ≤ bufLength by omega)
        (show rest.length ≤ n' by omega) (show rest.length < calls by omega) rfl
      refine ⟨data ++ data', last, ?_, ?_⟩
      · rw [goOn, hnext]
        dsimp only
        rw [hloop, hmulti, List.length_append, Nat.add_assoc, List.append_assoc]
      · rw [readUntilTooSmall, hsingle]
        dsimp only
        rw [if_neg (by decide), Nat.sub_sub, hrepeat, List.length_append]
        rfl

-- A call with `rx_multiple`: its entry is the test in front of every later frame.
theorem fsccUserReadFrame_multiple (hw : Hardware H) (s : H) (h : FinishedSegment finished port)
    (hbuf : bufLength < 4294967296) {st : ReadLoop} {s' : H}
    (hgo : goOn hw bufLength port.rxNum ((readFrameStart port 0).within true 0 []) s = (st, s')) :
    fsccUserReadFrame hw bufLength (port.multiple true) s =
      (⟨if Stops port bufLength then .bufferTooSmall else .success, st.out, st.outLength⟩, st.port,
        s') := by
  rcases nextFrame_within (readFrameStart port 0) h rfl [] hbuf (Nat.zero_le _) with
    ⟨hstops, hnext⟩ | ⟨length, hready, hfits, hnext⟩
  · have hstops : Stops port bufLength := hstops
    rw [goOn, hnext] at hgo
    cases hgo
    rw [fsccUserReadFrame_stops hw s ((h.stops_iff true).mpr hstops), if_pos hstops]
    rfl
  · have hready : fsccUserNextReadSize port = (true, length) := hready
    have hgoes : ¬ Stops port bufLength := by
      unfold Stops
      rw [hready]
      exact fun hlong ↦ Nat.not_lt_of_le hfits (hlong rfl)
    have hfits' : ¬ bufferRequirement (port.multiple true) length > bufLength :=
      Nat.not_lt_of_le hfits
    have hrounds : readFrameLoop hw bufLength (port.multiple true).rxNum
        (readFrameStart (port.multiple true) length) s = (st, s') := by
      rw [goOn, hnext] at hgo
      exact hgo
    rw [fsccUserReadFrame, h.nextReadSize true, hready, if_neg hgoes]
    dsimp only
    rw [if_neg (not_not.mpr rfl), if_neg hfits', hrounds]

/-- A read with `rx_multiple` stores the same bytes, returns the same length and leaves the same ring
as single reads on what is left of the buffer until one of them fails, and it fails when the first of
them does.  Neither looks at the clock. -/
theorem fscc_multiple_read_eq_single_reads (hw hw' : Hardware H) (s s' : H)
    (h : FinishedSegment finished port) (bufLength : BitVec 32) (appendStatus appendTimestamp : Bool) :
    let asked := port.setOptions appendStatus appendTimestamp
    let (result, port', after) := fsccUserReadFrame hw bufLength.toNat (asked true) s
    ∃ last, readUntilTooSmall hw' (port.rxNum + 1) bufLength.toNat (asked false) s' =
        some (result.out, result.outLength, last, s') ∧
      port' = last.multiple true ∧ last.rxMultiple = false ∧ after = s ∧
      (result.status = .bufferTooSmall ↔
        (fsccUserReadFrame hw' bufLength.toNat (asked false) s').1.status = .bufferTooSmall) := by
  intro asked
  have hasked : FinishedSegment finished (asked true) :=
    ⟨h.user_lt, h.ahead, h.stopped, h.stamped, h.two_le⟩
  obtain ⟨data, st, hgo, hsingle⟩ := goOn_single_reads (readFrameStart (asked true) 0) hw hw' s s'
    hasked rfl [] bufLength.isLt (Nat.zero_le _) h.length_le (Nat.lt_succ_of_le h.length_le)
  have hread := fsccUserReadFrame_multiple hw s hasked bufLength.isLt hgo
  rw [Nat.zero_add, List.nil_append] at hread
  have hsame : (asked true).multiple true = asked true := rfl
  have hsame' : (asked true).multiple false = asked false := rfl
  rw [hsame] at hread
  rw [hread]
  refine ⟨st.port.multiple false, hsingle, rfl, rfl, rfl, ?_⟩
  rw [fsccUserReadFrame_tooSmall, ← hsame']
  show _ ↔ Stops ((asked true).multiple false) bufLength.toNat
  rw [hasked.stops_iff false]
  by_cases hstops : Stops (asked true) bufLength.toNat
  · simp [hstops]
  · simp [hstops]

-- Six bytes in two descriptors, three bytes in the next one, and a free descriptor.
def twoFramesPort : RxPort :=
  { twoDescPort 4 with
    rxNum := 4
    rxDescriptors := fun i ↦
      match i with
      | 0 => ⟨descCstopBit, 4, 4, [1, 2, 3, 4], 1⟩
      | 1 => ⟨descCstopBit ||| descFeBit ||| 6, 4, 4, [5, 6, 0, 0], 1⟩
      | 2 => ⟨descCstopBit ||| descFeBit ||| 3, 4, 4, [7, 8, 9, 0], 2⟩
      | _ => ⟨descHiBit, 4, 4, [0, 0, 0, 0], 0⟩ }

theorem twoFramesPort_segment : FinishedSegment (twoFramesPort.ahead.take 3) twoFramesPort where
  user_lt := by decide
  ahead := ⟨twoFramesPort.ahead.drop 3, (List.take_append_drop 3 _).symm, by decide⟩
  stopped := by decide
  stamped := by decide
  two_le := by decide

-- One call with `rx_multiple`, and two calls and a third that fails without it.
theorem fscc_multiple_read_eq_single_reads_two_frames :
    let multi := fsccUserReadFrame quietCard 20 (twoFramesPort.setOptions true false true) ()
    multi.1.status = .success ∧ multi.1.out = [1, 2, 3, 4, 5, 6, 7, 8, 9] ∧
      ∃ last, readUntilTooSmall quietCard 5 20 (twoFramesPort.setOptions true false false) () =
        some (multi.1.out, multi.1.outLength, last, ()) := by
  obtain ⟨last, hlast, -⟩ := fscc_multiple_read_eq_single_reads quietCard quietCard () ()
    twoFramesPort_segment 20 true false
  exact ⟨by decide, by decide, last, hlast⟩

end FsccDriver

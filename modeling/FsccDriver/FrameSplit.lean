import FsccDriver.FramedRound

/-!
# FrameSplit — one frame, however it is split into drains

`chunks` are the drains made while the driver still reads RFCNT as 0; the length of the frame is
announced behind the last one.  What a read returns afterwards does not depend on the split, unless
the drains took the whole frame and it ends on the edge of a descriptor.
-/

namespace FsccDriver

open Words

/-- A FIFO that holds one frame and shows `chunks`, one per look, before it announces the length. -/
def splitFifo (chunks : List Nat) (clock : Nat → BitVec 64) : Hardware RxFifo where
  ioRead bar offset fifo :=
    if bar = 0 then
      if offset = fifoFcOffset then
        (if fifo.looks < chunks.length then 0 else BitVec.ofNat 32 fifo.lengths.length,
          { fifo with looks := fifo.looks + 1 })
      else if offset = fifoBcOffset then (BitVec.ofNat 32 (chunks.getD (fifo.looks - 1) 0), fifo)
      else fifo.read (fun _ ↦ 0) offset
    else (0, fifo)
  ioWrite _ _ _ fifo := fifo
  keQuerySystemTime fifo := (clock fifo.ticks, { fifo with ticks := fifo.ticks + 1 })

/-- `chunks` is a way to drain a frame of `size` bytes of which `drained` are out: whole words, each
no more than RXCNT can show and no more than the descriptor takes. -/
def SplitOf (ds size : Nat) : (drained : Nat) → (chunks : List Nat) → Prop
  | _, [] => True
  | drained, chunk :: chunks =>
      chunk % 4 = 0 ∧ chunk ≤ 8192 ∧ chunk ≤ ds - drained % ds ∧ drained + chunk ≤ size ∧
        SplitOf ds size (drained + chunk) chunks

def splitStart (frame : WireFrame) : RxFifo :=
  { line := [], waiting := frame.bytes, lengths := [frame.data.length], looks := 0, ticks := 0,
    popped := [] }

section Split

variable {ds p : Nat} {frame : WireFrame} {chunks : List Nat} {clock : Nat → BitVec 64}
  {port : RxPort} {fifo : RxFifo}

theorem splitFifo_popsWords : PopsWords (splitFifo chunks clock) := fun _ ↦ rfl

theorem fsccIoGetRFCNT_split (hle : fifo.lengths.length ≤ 1) :
    fsccIoGetRFCNT (splitFifo chunks clock) port fifo =
      (if fifo.looks < chunks.length then 0 else fifo.lengths.length,
        { fifo with looks := fifo.looks + 1 }) := by
  change (BitVec.toNat (if fifo.looks < chunks.length then 0
    else BitVec.ofNat 32 fifo.lengths.length) &&& (2 ^ 10 - 1), _) = _
  split
  · rfl
  · rw [and_low, BitVec.toNat_ofNat, Nat.mod_eq_of_lt (by omega), Nat.mod_eq_of_lt (by omega)]
    rfl

-- The next chunk, while there is one.
theorem receiveLength_chunk (clock : Nat → BitVec 64) {chunk : Nat} {rest : List Nat} (hsize : port.rxFrameSize = 0)
    (hle : fifo.lengths.length ≤ 1) (hchunk : chunks.drop fifo.looks = chunk :: rest)
    (hword : chunk % 4 = 0) (hbound : chunk ≤ 8192) :
    receiveLength (splitFifo chunks clock) port fifo =
      (chunk, port, { fifo with looks := fifo.looks + 1 }) := by
  have hlt : fifo.looks < chunks.length := by
    by_contra hnot
    rw [List.drop_of_length_le (Nat.le_of_not_lt hnot)] at hchunk
    cases hchunk
  have hget : chunks.getD fifo.looks 0 = chunk := by
    rw [List.getD_eq_getElem _ _ hlt]
    rw [List.drop_eq_getElem_cons hlt] at hchunk
    exact (List.cons_eq_cons.mp hchunk).1
  have hrxcnt : fsccIoGetRXCNT (splitFifo chunks clock) port { fifo with looks := fifo.looks + 1 } =
      (chunk, { fifo with looks := fifo.looks + 1 }) := by
    change (if (BitVec.ofNat 32 (chunks.getD fifo.looks 0)).toNat &&& (2 ^ 14 - 1) > 8192 then 0
      else (BitVec.ofNat 32 (chunks.getD fifo.looks 0)).toNat &&& (2 ^ 14 - 1), _) = _
    rw [hget, and_low, BitVec.toNat_ofNat, Nat.mod_eq_of_lt (by omega),
      Nat.mod_eq_of_lt (by omega), if_neg (by omega)]
    rfl
  simp only [receiveLength, hsize, if_true, fsccIoGetRFCNT_split hle, hlt, ne_eq, not_true_eq_false,
    if_false, hrxcnt, hword, Nat.sub_zero]

-- Behind the last chunk the length is announced.
theorem receiveLength_announced (clock : Nat → BitVec 64) (hsize : port.rxFrameSize = 0) {length : Nat}
    (hlengths : fifo.lengths = [length]) (hpast : chunks.length ≤ fifo.looks) (hpos : 0 < length)
    (hlt : length < 2147483648) :
    receiveLength (splitFifo chunks clock) port fifo =
      (frameRest { port with rxFrameSize := length }, { port with rxFrameSize := length },
        { fifo with looks := fifo.looks + 1, lengths := [] }) := by
  have hle : fifo.lengths.length ≤ 1 := Nat.le_of_eq (by rw [hlengths]; rfl)
  have hpop : fsccPortGetRegister (splitFifo chunks clock) port.channel 0 bcFifoLOffset
      { fifo with looks := fifo.looks + 1 } =
        (BitVec.ofNat 32 length, { fifo with looks := fifo.looks + 1, lengths := [] }) := by
    obtain ⟨line, waiting, lengths, looks, ticks, popped⟩ := fifo
    obtain rfl : lengths = [length] := hlengths
    rfl
  have hword : i32 (BitVec.ofNat 32 length).toNat = length := by
    rw [BitVec.toNat_ofNat, Nat.mod_eq_of_lt (by omega), i32_of_lt hlt]
  have hne : (length : Int) ≠ 0 := by omega
  have hcount : fifo.lengths.length = 1 := by rw [hlengths]; rfl
  simp only [receiveLength, hsize, if_true, fsccIoGetRFCNT_split hle, Nat.not_lt.mpr hpast, if_false,
    hcount, ne_eq, one_ne_zero, not_false_eq_true, hpop, hword, hne, frameRest]
  split <;> rfl

-- Behind the frame there is nothing.
theorem receiveLength_quiet (clock : Nat → BitVec 64) (hsize : port.rxFrameSize = 0) (hlengths : fifo.lengths = [])
    (hpast : chunks.length ≤ fifo.looks) :
    receiveLength (splitFifo chunks clock) port fifo =
      (0, port, { fifo with looks := fifo.looks + 1 }) := by
  have hle : fifo.lengths.length ≤ 1 := by rw [hlengths]; exact Nat.zero_le _
  have hrxcnt : fsccIoGetRXCNT (splitFifo chunks clock) port { fifo with looks := fifo.looks + 1 } =
      (0, { fifo with looks := fifo.looks + 1 }) := by
    change (if (BitVec.ofNat 32 (chunks.getD fifo.looks 0)).toNat &&& (2 ^ 14 - 1) > 8192 then 0
      else (BitVec.ofNat 32 (chunks.getD fifo.looks 0)).toNat &&& (2 ^ 14 - 1), _) = _
    rw [List.getD_eq_default _ _ hpast]
    rfl
  have hcount : fifo.lengths.length = 0 := by rw [hlengths]; rfl
  simp only [receiveLength, hsize, if_true, fsccIoGetRFCNT_split hle, Nat.not_lt.mpr hpast, if_false,
    hcount, ne_eq, not_true_eq_false, hrxcnt, Nat.zero_mod, Nat.sub_self]

/-! ## The drains -/

/-- A frame that the ring can take and whose length a descriptor can hold. -/
structure SplitInput (ds rxNum : Nat) (frame : WireFrame) : Prop where
  size : BufferSize ds
  fits : frame.data.length ≤ rxNum * ds
  short : frame.data.length < 536870912

/-- `p` bytes are out, and the length has not been read. -/
structure Unannounced (ds rxNum p : Nat) (frame : WireFrame) (chunks : List Nat) (port : RxPort)
    (fifo : RxFifo) : Prop where
  filling : Filling ds [] (frame.data.take p) port
  rxNum : port.rxNum = rxNum
  rxFrameSize : port.rxFrameSize = 0
  le : p ≤ frame.data.length
  align : p % 4 = 0
  waiting : fifo.waiting = frame.bytes.drop p
  lengths : fifo.lengths = [frame.data.length]
  looks_le : fifo.looks ≤ chunks.length
  split : SplitOf ds frame.data.length p (chunks.drop fifo.looks)
  sum : p + (chunks.drop fifo.looks).sum = chunks.sum

/-- `p` bytes are out, and the length is known. -/
structure Announced (ds rxNum p : Nat) (frame : WireFrame) (chunks : List Nat) (port : RxPort)
    (fifo : RxFifo) : Prop where
  filling : Filling ds [] (frame.data.take p) port
  rxNum : port.rxNum = rxNum
  rxFrameSize : port.rxFrameSize = frame.data.length
  le : p ≤ frame.data.length
  align : p % 4 = 0
  waiting : fifo.waiting = frame.bytes.drop p
  lengths : fifo.lengths = []
  past : chunks.length ≤ fifo.looks

/-- The frame is in the ring. -/
structure Complete (ds rxNum : Nat) (frame : WireFrame) (chunks : List Nat) (port : RxPort)
    (fifo : RxFifo) : Prop where
  filling : ∃ stamp, Filling ds [⟨frame.data, stamp⟩] [] port
  rxNum : port.rxNum = rxNum
  rxFrameSize : port.rxFrameSize = 0
  lengths : fifo.lengths = []
  past : chunks.length ≤ fifo.looks

variable {rxNum : Nat}

-- A frame that is in the ring stays there.
theorem Complete.fifoReadLoop (clock : Nat → BitVec 64)
    (h : Complete ds rxNum frame chunks port fifo) (hds : BufferSize ds)
    (n : Nat) : ∃ port' fifo', fifoReadLoop (splitFifo chunks clock) n port fifo = (port', fifo') ∧
      FifoKeeps port port' ∧ Complete ds rxNum frame chunks port' fifo' := by
  cases n with
  | zero => exact ⟨port, fifo, rfl, FifoKeeps.refl port, h⟩
  | succ n =>
    obtain ⟨stamp, hfill⟩ := h.filling
    rw [FsccDriver.fifoReadLoop]
    by_cases hopen : port.fifoDesc.control &&& descCstopBit = descCstopBit
    · rw [fifoReadStep_full hopen]
      exact ⟨port, fifo, rfl, FifoKeeps.refl port, h⟩
    · have hlen := receiveLength_quiet clock h.rxFrameSize h.lengths h.past
      have hrep : fsccPortGetRegisterRep (splitFifo chunks clock) port.channel 0 fifoOffset 0
          { fifo with looks := fifo.looks + 1 } = ([], { fifo with looks := fifo.looks + 1 }) := rfl
      have hroom := descRoom_pos [] hds.pos
      rw [hfill.fifoReadStep hds.lt hopen port.rxFrameSize hlen, Nat.zero_min]
      obtain ⟨port', hfill', hsize', hkeeps, ⟨-, hrun⟩ | ⟨hfull, -⟩⟩ := hfill.more hopen hrep rfl
        (Nat.zero_le _) (by simp) (by rw [h.rxFrameSize]; simp)
      · refine ⟨port', { fifo with looks := fifo.looks + 1 }, by rw [hrun], hkeeps, ⟨⟨stamp, hfill'⟩, hkeeps.rxNum.trans h.rxNum,
          hsize'.trans h.rxFrameSize, h.lengths, Nat.le_succ_of_le h.past⟩⟩
      · omega

-- Filling the descriptor up moves on to the next one.
theorem add_descRoom_div (hpos : 0 < ds) (p : Nat) : (p + (ds - p % ds)) / ds = p / ds + 1 := by
  have hlt := Nat.mod_lt p hpos
  have hdiv := Nat.div_add_mod p ds
  have heq : p + (ds - p % ds) = ds * (p / ds + 1) := by
    rw [Nat.mul_add_one]
    omega
  rw [heq, Nat.mul_div_cancel_left _ hpos]

theorem take_drop_take {data : List Byte} {p r : Nat} (hle : p + r ≤ data.length) :
    data.take p ++ ((data ++ frame.padding).drop p).take r = data.take (p + r) := by
  rw [List.drop_append_of_le_length (by omega), List.take_append_of_le_length
    (by rw [List.length_drop]; omega), ← List.take_add]

/-- Where a drain of `r` bytes leaves the FIFO. -/
theorem split_rep (chunks : List Nat) (clock : Nat → BitVec 64) (channel : Nat) (fifo : RxFifo)
    (hwaiting : fifo.waiting = frame.bytes.drop p) (halign : p % 4 = 0) {r : Nat}
    (hle : p + r ≤ frame.data.length) :
    fsccPortGetRegisterRep (splitFifo chunks clock) channel 0 fifoOffset r fifo =
      ((frame.bytes.drop p).take r, fifo.pop (wordPadded r)) ∧
    ((frame.bytes.drop p).take r).length = r := by
  have hlen : (frame.bytes.drop p).length = wordPadded frame.data.length - p := by
    rw [List.length_drop, frame.bytes_length]
  have hpad : wordPadded r ≤ fifo.waiting.length := by
    rw [hwaiting, hlen]
    unfold wordPadded
    omega
  refine ⟨by rw [splitFifo_popsWords.getRegisterRep channel hpad, hwaiting], ?_⟩
  rw [List.length_take, hlen]
  unfold wordPadded
  omega

-- What the frame has drained so far does not fill the ring.
theorem drained_lt_ring (hfits : frame.data.length ≤ rxNum * ds) (hle : p ≤ frame.data.length)
    (hend : p < frame.data.length ∨ ¬ ds ∣ frame.data.length) : p < rxNum * ds := by
  rcases hend with hlt | hnot
  · exact Nat.lt_of_lt_of_le hlt hfits
  · refine Nat.lt_of_le_of_ne (Nat.le_trans hle hfits) fun heq ↦ hnot ?_
    rw [Nat.le_antisymm hfits (heq ▸ hle)]
    exact Nat.dvd_mul_left ds rxNum

-- Induction on the rounds left, which cover the descriptors that are still free.
theorem Announced.fifoReadLoop (hin : SplitInput ds rxNum frame) (hclock : ∀ k, clock k ≠ 0)
    (h : Announced ds rxNum p frame chunks port fifo)
    (hend : p < frame.data.length ∨ ¬ ds ∣ frame.data.length) {n : Nat}
    (hn : rxNum ≤ n + p / ds) :
    ∃ port' fifo', fifoReadLoop (splitFifo chunks clock) n port fifo = (port', fifo') ∧
      FifoKeeps port port' ∧ Complete ds rxNum frame chunks port' fifo' := by
  have hring := drained_lt_ring hin.fits h.le hend
  have hshort := hin.short
  induction n generalizing p port fifo with
  | zero =>
    have hfull := (Nat.le_div_iff_mul_le hin.size.pos).mp (Nat.zero_add _ ▸ hn)
    omega
  | succ n ih =>
    have htwo := frame.two_le
    have hle := h.le
    have hlen : (frame.data.take p).length = p := by
      rw [List.length_take, Nat.min_eq_left hle]
    have hopen := h.filling.not_full (by rw [hlen, h.rxNum]; exact hring)
    have hne : port.rxFrameSize ≠ 0 := by rw [h.rxFrameSize]; omega
    have hrest : frameRest port = frame.data.length - p := by
      obtain ⟨-, -, -, -, hbytes⟩ := h.filling
      rw [frameRest, h.rxFrameSize, hbytes, hlen]
      split
      · rw [u32_sub_of_le (by omega) hle]
      · omega
    rw [FsccDriver.fifoReadLoop, h.filling.fifoReadStep hin.size.lt hopen port.rxFrameSize
      (receiveLength_known hne), hrest]
    have hroom := descRoom_align hin.size.align (hlen.symm ▸ h.align : (frame.data.take p).length % 4 = 0)
    have hpos := descRoom_pos (frame.data.take p) hin.size.pos
    generalize hr : min (frame.data.length - p) (descRoom ds (frame.data.take p)) = r
    obtain ⟨hrep, hdata⟩ := split_rep chunks clock port.channel fifo h.waiting h.align
      (show p + r ≤ frame.data.length by omega)
    have happend : frame.data.take p ++ (frame.bytes.drop p).take r = frame.data.take (p + r) :=
      take_drop_take (by omega)
    by_cases hdone : r = frame.data.length - p
    · have hnonempty : 0 < (frame.data.take p).length % ds + r := by
        rcases hend with hlt | hnot
        · omega
        · rw [hlen]
          rcases Nat.lt_or_eq_of_le hle with hlt | heq
          · omega
          · have hmod : p % ds ≠ 0 := fun hzero ↦ hnot (heq ▸ Nat.dvd_of_mod_eq_zero hzero)
            exact Nat.add_pos_left (Nat.pos_of_ne_zero hmod) r
      obtain ⟨port₁, hrun, hfill, hsize, hkeeps⟩ := h.filling.complete hopen hrep hdata hnonempty
        (by omega) (show (frame.data.take p).length + r = frame.data.length by omega) htwo hin.short
        h.rxFrameSize (hclock _)
      rw [happend, show p + r = frame.data.length by omega, List.take_length] at hfill
      have hcomplete : Complete ds rxNum frame chunks port₁
          ((splitFifo chunks clock).keQuerySystemTime (fifo.pop (wordPadded r))).2 :=
        ⟨⟨_, hfill⟩, hkeeps.rxNum.trans h.rxNum, hsize, h.lengths, h.past⟩
      obtain ⟨port', fifo', hloop, hkeeps', hcomplete'⟩ := hcomplete.fifoReadLoop clock hin.size n
      exact ⟨port', fifo', by rw [hrun]; exact hloop, hkeeps.trans hkeeps', hcomplete'⟩
    · have hfull : r = descRoom ds (frame.data.take p) := by omega
      have hword : wordPadded r = r := by
        unfold wordPadded
        omega
      obtain ⟨port₁, hfill, hsize, hkeeps, ⟨hless, -⟩ | ⟨-, hrun⟩⟩ := h.filling.more hopen hrep hdata
        (by omega) (by omega) (by rw [h.rxFrameSize, hlen]; omega)
      · exact absurd hfull (Nat.ne_of_lt hless)
      · have hnext : Announced ds rxNum (p + r) frame chunks port₁
            ((splitFifo chunks clock).keQuerySystemTime (fifo.pop (wordPadded r))).2 := by
          refine ⟨happend ▸ hfill, hkeeps.rxNum.trans h.rxNum, hsize.trans h.rxFrameSize, by omega,
            ?_, ?_, h.lengths, h.past⟩
          · have halign := h.align
            omega
          · change fifo.waiting.drop (wordPadded r) = _
            rw [hword, h.waiting, List.drop_drop]
        have hstep : (p + r) / ds = p / ds + 1 := by
          rw [hfull, descRoom, hlen, add_descRoom_div hin.size.pos]
        obtain ⟨port', fifo', hloop, hkeeps', hcomplete'⟩ := ih hnext (Or.inl (by omega))
          (by omega) (Nat.lt_of_lt_of_le (by omega) hin.fits)
        exact ⟨port', fifo', by rw [hrun]; exact hloop, hkeeps.trans hkeeps', hcomplete'⟩

-- Reading the length changes the state that the rest of the round starts from, and nothing else.
theorem Unannounced.announce (clock : Nat → BitVec 64) (hin : SplitInput ds rxNum frame)
    (h : Unannounced ds rxNum p frame chunks port fifo)
    (hopen : ¬ port.fifoDesc.control &&& descCstopBit = descCstopBit)
    (hpast : chunks.length ≤ fifo.looks) :
    ∃ port₁ fifo₁, FifoKeeps port port₁ ∧ Announced ds rxNum p frame chunks port₁ fifo₁ ∧
      fifoReadStep (splitFifo chunks clock) port fifo =
        fifoReadStep (splitFifo chunks clock) port₁ fifo₁ := by
  have htwo := frame.two_le
  have hshort := hin.short
  have hne : ((frame.data.length : Nat) : Int) ≠ 0 := by omega
  have hlen := receiveLength_announced clock h.rxFrameSize h.lengths hpast (by omega) (by omega)
  have hknown : receiveLength (splitFifo chunks clock)
      { port with rxFrameSize := (frame.data.length : Int) }
      { fifo with looks := fifo.looks + 1, lengths := [] } = _ := receiveLength_known hne
  refine ⟨{ port with rxFrameSize := frame.data.length },
    { fifo with looks := fifo.looks + 1, lengths := [] }, ⟨rfl, rfl, rfl, rfl, rfl, rfl⟩,
    ⟨h.filling.setFrameSize _, h.rxNum, rfl, h.le, h.align, h.waiting, rfl,
      Nat.le_succ_of_le hpast⟩, ?_⟩
  have hsame := h.filling.setFrameSize frame.data.length
  rw [h.filling.fifoReadStep hin.size.lt hopen _ hlen]
  exact (hsame.fifoReadStep hin.size.lt hopen frame.data.length hknown).symm

-- A drain that is made while the length is not known.
theorem Unannounced.chunk (clock : Nat → BitVec 64) (hds : BufferSize ds)
    (h : Unannounced ds rxNum p frame chunks port fifo)
    (hopen : ¬ port.fifoDesc.control &&& descCstopBit = descCstopBit) {chunk : Nat}
    {rest : List Nat} (hrest : chunks.drop fifo.looks = chunk :: rest)
    (hshort : frame.data.length < 536870912) :
    ∃ again port₁ fifo₁, fifoReadStep (splitFifo chunks clock) port fifo = (again, port₁, fifo₁) ∧
      FifoKeeps port port₁ ∧ Unannounced ds rxNum (p + chunk) frame chunks port₁ fifo₁ ∧
      fifo.looks < fifo₁.looks ∧ (again = true → chunk = ds - p % ds) := by
  obtain ⟨hword, hbound, hfit, hchunk, hsplit⟩ : SplitOf ds frame.data.length p (chunk :: rest) :=
    hrest ▸ h.split
  have hle := h.le
  have hlen : (frame.data.take p).length = p := by
    rw [List.length_take, Nat.min_eq_left hle]
  have hone : fifo.lengths.length ≤ 1 := Nat.le_of_eq (by rw [h.lengths]; rfl)
  have hdrop : chunks.drop (fifo.looks + 1) = rest := by
    rw [← List.drop_drop, hrest, List.drop_one, List.tail_cons]
  have hlooks : fifo.looks + 1 ≤ chunks.length := by
    by_contra hnot
    rw [List.drop_of_length_le (by omega)] at hrest
    cases hrest
  have hcount := receiveLength_chunk clock h.rxFrameSize hone hrest hword hbound
  have hroom : min chunk (descRoom ds (frame.data.take p)) = chunk := by
    rw [descRoom, hlen]
    exact Nat.min_eq_left hfit
  obtain ⟨hrep, hdata⟩ := split_rep chunks clock port.channel
    { fifo with looks := fifo.looks + 1 } h.waiting h.align hchunk
  have hpad : wordPadded chunk = chunk := by
    unfold wordPadded
    omega
  rw [h.filling.fifoReadStep hds.lt hopen port.rxFrameSize hcount, hroom]
  obtain ⟨port₁, hfill, hsize, hkeeps, hrun⟩ := h.filling.more hopen hrep hdata
    (by rw [descRoom, hlen]; exact hfit) (by omega) (by rw [h.rxFrameSize]; simp)
  have hnext : ∀ ticks, Unannounced ds rxNum (p + chunk) frame chunks port₁
      { fifo with
        looks := fifo.looks + 1, ticks
        waiting := fifo.waiting.drop (wordPadded chunk)
        popped := fifo.popped ++ fifo.waiting.take (wordPadded chunk) } := by
    intro ticks
    refine ⟨take_drop_take hchunk ▸ hfill, hkeeps.rxNum.trans h.rxNum,
      hsize.trans h.rxFrameSize, hchunk, ?_, ?_, h.lengths, hlooks,
      hdrop.symm ▸ hsplit, ?_⟩
    · have halign := h.align
      omega
    · change fifo.waiting.drop (wordPadded chunk) = _
      rw [hpad, h.waiting, List.drop_drop]
    · have hpart := h.sum
      rw [hrest, List.sum_cons] at hpart
      change p + chunk + (chunks.drop (fifo.looks + 1)).sum = _
      rw [hdrop]
      omega
  rcases hrun with ⟨-, hrun⟩ | ⟨hfull, hrun⟩
  · exact ⟨false, port₁, _, hrun, hkeeps, hnext fifo.ticks, Nat.lt_succ_self _,
      fun hagain ↦ absurd hagain Bool.false_ne_true⟩
  · refine ⟨true, port₁, _, hrun, hkeeps, hnext (fifo.ticks + 1), Nat.lt_succ_self _, fun _ ↦ ?_⟩
    rw [hfull, descRoom, hlen]

theorem Unannounced.fifoReadLoop (hin : SplitInput ds rxNum frame) (hclock : ∀ k, clock k ≠ 0)
    (h : Unannounced ds rxNum p frame chunks port fifo)
    (hsum : chunks.sum < frame.data.length ∨ ¬ ds ∣ frame.data.length) {n : Nat}
    (hn : rxNum ≤ n + p / ds) :
    ∃ port' fifo', fifoReadLoop (splitFifo chunks clock) n port fifo = (port', fifo') ∧
      FifoKeeps port port' ∧ (Complete ds rxNum frame chunks port' fifo' ∨
        ∃ p', Unannounced ds rxNum p' frame chunks port' fifo' ∧ fifo.looks < fifo'.looks) := by
  induction n generalizing p port fifo with
  | zero =>
    have hend : p < frame.data.length ∨ ¬ ds ∣ frame.data.length :=
      hsum.imp_left (Nat.lt_of_le_of_lt (h.sum ▸ Nat.le_add_right _ _))
    have hring := drained_lt_ring hin.fits h.le hend
    have hfull := (Nat.le_div_iff_mul_le hin.size.pos).mp (Nat.zero_add _ ▸ hn)
    omega
  | succ n ih =>
    have hend : p < frame.data.length ∨ ¬ ds ∣ frame.data.length :=
      hsum.imp_left (Nat.lt_of_le_of_lt (h.sum ▸ Nat.le_add_right _ _))
    have hlen : (frame.data.take p).length = p := by
      rw [List.length_take, Nat.min_eq_left h.le]
    have hopen := h.filling.not_full (by
      rw [hlen, h.rxNum]
      exact drained_lt_ring hin.fits h.le hend)
    rw [FsccDriver.fifoReadLoop]
    cases hrest : chunks.drop fifo.looks with
    | nil =>
      obtain ⟨port₁, fifo₁, hkeeps, hannounced, hstep⟩ := h.announce clock hin hopen
        (List.drop_eq_nil_iff.mp hrest)
      obtain ⟨port', fifo', hloop, hkeeps', hcomplete⟩ :=
        hannounced.fifoReadLoop hin hclock hend hn
      rw [hstep]
      exact ⟨port', fifo', hloop, hkeeps.trans hkeeps', Or.inl hcomplete⟩
    | cons chunk rest =>
      obtain ⟨again, port₁, fifo₁, hstep, hkeeps, hnext, hlooks, hfull⟩ :=
        h.chunk clock hin.size hopen hrest hin.short
      rw [hstep]
      cases again with
      | false => exact ⟨port₁, fifo₁, rfl, hkeeps, Or.inr ⟨_, hnext, hlooks⟩⟩
      | true =>
        have hdiv : (p + chunk) / ds = p / ds + 1 := by
          rw [hfull rfl, add_descRoom_div hin.size.pos]
        obtain ⟨port', fifo', hloop, hkeeps', hdone⟩ := ih hnext (by omega)
        refine ⟨port', fifo', hloop, hkeeps.trans hkeeps', hdone.imp_right ?_⟩
        rintro ⟨p', hp', hlooks'⟩
        exact ⟨p', hp', Nat.lt_trans hlooks hlooks'⟩

/-- Enough calls bring the frame into the ring. -/
theorem Unannounced.fifoCalls (hin : SplitInput ds rxNum frame) (hclock : ∀ k, clock k ≠ 0)
    (h : Unannounced ds rxNum 0 frame chunks port (splitStart frame))
    (hsum : chunks.sum < frame.data.length ∨ ¬ ds ∣ frame.data.length) (n : Nat) :
    ∃ port' fifo', FsccDriver.fifoCalls (splitFifo chunks clock) n port (splitStart frame) = (port', fifo') ∧
      FifoKeeps port port' ∧ (Complete ds rxNum frame chunks port' fifo' ∨
        ∃ p', Unannounced ds rxNum p' frame chunks port' fifo' ∧ n ≤ fifo'.looks) := by
  induction n with
  | zero => exact ⟨port, _, rfl, FifoKeeps.refl port, Or.inr ⟨0, h, Nat.le_refl 0⟩⟩
  | succ n ih =>
    obtain ⟨port₁, fifo₁, hcalls, hkeeps, hcomplete | ⟨p', hp', hlooks⟩⟩ := ih
    · obtain ⟨port', fifo', hloop, hkeeps', hcomplete'⟩ :=
        hcomplete.fifoReadLoop clock hin.size port₁.rxNum
      exact ⟨port', fifo', (fifoCalls_succ hcalls).trans hloop, hkeeps.trans hkeeps',
        Or.inl hcomplete'⟩
    · obtain ⟨port', fifo', hloop, hkeeps', hdone⟩ :=
        hp'.fifoReadLoop hin hclock hsum (Nat.le_add_right rxNum _)
      refine ⟨port', fifo', ?_, hkeeps.trans hkeeps', hdone.imp_right ?_⟩
      · rw [fifoCalls_succ hcalls, fsccFifoReadData, hp'.rxNum, hloop]
      · rintro ⟨p'', hp'', hless⟩
        exact ⟨p'', hp'', Nat.le_trans (Nat.succ_le_succ hlooks) hless⟩

end Split

end FsccDriver

import FsccDriver.RxPort

/-!
# RxFifo — the receive FIFO of the card

The FIFO takes in what arrives on the line, byte by byte, and counts the frames that are complete.
It holds at most 8192 bytes and at most 1023 lengths.  Bytes arrive when the driver looks at
FIFO_FC: `schedule k` is how many come in before the `k`-th look, so a schedule is an arbitrary
interleaving of the line with the driver, except that one round sees one content.
-/

namespace FsccDriver

open Words

/-- A byte on the line.  The last byte of a frame also delivers the frame's length. -/
structure Arrival where
  byte : Byte
  ends : Option Nat

structure RxFifo where
  line : List Arrival
  waiting : List Byte
  lengths : List Nat
  looks : Nat
  ticks : Nat
  popped : List Byte

namespace RxFifo

/-- The next byte of the line comes in, if there is room for it. -/
def receiveByte (fifo : RxFifo) : RxFifo :=
  match fifo.line with
  | [] => fifo
  | arrival :: line =>
      if fifo.waiting.length < 8192 ∧ (arrival.ends.isSome → fifo.lengths.length < 1023) then
        { fifo with
          line, waiting := fifo.waiting ++ [arrival.byte]
          lengths := fifo.lengths ++ arrival.ends.toList }
      else fifo

def receiveBytes : Nat → RxFifo → RxFifo
  | 0, fifo => fifo
  | n + 1, fifo => receiveBytes n fifo.receiveByte

def look (schedule : Nat → Nat) (fifo : RxFifo) : RxFifo :=
  receiveBytes (schedule fifo.looks) { fifo with looks := fifo.looks + 1 }

-- `n` bytes leave the FIFO.
def pop (fifo : RxFifo) (n : Nat) : RxFifo :=
  { fifo with waiting := fifo.waiting.drop n, popped := fifo.popped ++ fifo.waiting.take n }

def read (schedule : Nat → Nat) (offset : Nat) (fifo : RxFifo) : BitVec 32 × RxFifo :=
  if offset = fifoOffset then (Bytes.wordAt fifo.waiting 0, fifo.pop 4)
  else if offset = bcFifoLOffset then
    match fifo.lengths with
    | [] => (0, fifo)
    | length :: lengths => (BitVec.ofNat 32 length, { fifo with lengths })
  else if offset = fifoBcOffset then (BitVec.ofNat 32 fifo.waiting.length, fifo)
  else if offset = fifoFcOffset then
    let fifo := fifo.look schedule
    (BitVec.ofNat 32 fifo.lengths.length, fifo)
  else (0, fifo)

end RxFifo

-- The receive path writes no register; the clock reads `clock k` the `k`-th time.
def rxFifo (schedule : Nat → Nat) (clock : Nat → BitVec 64) : Hardware RxFifo where
  ioRead bar offset fifo := if bar = 0 then fifo.read schedule offset else (0, fifo)
  ioWrite _ _ _ fifo := fifo
  keQuerySystemTime fifo := (clock fifo.ticks, { fifo with ticks := fifo.ticks + 1 })

variable {schedule : Nat → Nat} {clock : Nat → BitVec 64} {fifo : RxFifo} {port : RxPort}

/-! ## What is in the FIFO -/

/-- `Carries todo p known fifo`: of the arrivals `todo` some have come in, of which `p` bytes have
been popped and the lengths `known` have been read; the rest of `todo` is still on the line. -/
structure Carries (todo : List Arrival) (p : Nat) (known : List Nat) (fifo : RxFifo) : Prop where
  room : fifo.waiting.length ≤ 8192
  lengths_le : fifo.lengths.length ≤ 1023
  arrived : ∃ arrived, todo = arrived ++ fifo.line ∧ p ≤ arrived.length ∧
    fifo.waiting = (arrived.map Arrival.byte).drop p ∧
    arrived.filterMap Arrival.ends = known ++ fifo.lengths

variable {todo : List Arrival} {p : Nat} {known : List Nat}

theorem Carries.receiveByte (h : Carries todo p known fifo) :
    Carries todo p known fifo.receiveByte := by
  unfold RxFifo.receiveByte
  split
  next => exact h
  next arrival line hline =>
    split
    next hfits =>
      obtain ⟨arrived, hsplit, hp, hwaiting, hknown⟩ := h.arrived
      refine ⟨?_, ?_, arrived ++ [arrival], ?_, ?_, ?_, ?_⟩
      · simp only [List.length_append, List.length_singleton]
        omega
      · have hle := h.lengths_le
        have hone := hfits.2
        cases harr : arrival.ends with
        | none => simpa [harr] using hle
        | some length =>
          rw [harr] at hone
          simpa [harr] using Nat.succ_le_of_lt (hone rfl)
      · rw [hsplit, hline, List.append_assoc]
        rfl
      · rw [List.length_append]
        exact Nat.le_add_right_of_le hp
      · dsimp only
        rw [hwaiting, List.map_append, List.drop_append_of_le_length (by rwa [List.length_map])]
        rfl
      · rw [List.filterMap_append, hknown, List.append_assoc]
        cases harr : arrival.ends <;> simp [harr]
    next => exact h

theorem Carries.receiveBytes (h : Carries todo p known fifo) (n : Nat) :
    Carries todo p known (fifo.receiveBytes n) := by
  induction n generalizing fifo with
  | zero => exact h
  | succ n ih => exact ih h.receiveByte

theorem Carries.look (h : Carries todo p known fifo) (schedule : Nat → Nat) :
    Carries todo p known (fifo.look schedule) :=
  have hlook : Carries todo p known { fifo with looks := fifo.looks + 1 } :=
    ⟨h.room, h.lengths_le, h.arrived⟩
  hlook.receiveBytes _

theorem Carries.tick (h : Carries todo p known fifo) (n : Nat) :
    Carries todo p known { fifo with ticks := n } := ⟨h.room, h.lengths_le, h.arrived⟩

theorem Carries.pop (h : Carries todo p known fifo) {n : Nat} (hn : n ≤ fifo.waiting.length) :
    Carries todo (p + n) known (fifo.pop n) := by
  obtain ⟨arrived, hsplit, hp, hwaiting, hknown⟩ := h.arrived
  have hroom := h.room
  rw [hwaiting, List.length_drop, List.length_map] at hn
  refine ⟨?_, h.lengths_le, arrived, hsplit, by omega, ?_, hknown⟩
  · rw [RxFifo.pop, List.length_drop]
    omega
  · rw [RxFifo.pop, hwaiting, List.drop_drop]

theorem Carries.popLength {length : Nat} {lengths : List Nat} (h : Carries todo p known fifo)
    (hlengths : fifo.lengths = length :: lengths) :
    Carries todo p (known ++ [length]) { fifo with lengths } := by
  obtain ⟨arrived, hsplit, hp, hwaiting, hknown⟩ := h.arrived
  refine ⟨h.room, ?_, arrived, hsplit, hp, hwaiting, ?_⟩
  · have hle := h.lengths_le
    rw [hlengths, List.length_cons] at hle
    exact Nat.le_of_succ_le hle
  · rw [hknown, hlengths, List.append_assoc]
    rfl

theorem receiveBytes_nil (fifo : RxFifo) (hline : fifo.line = []) (n : Nat) : fifo.receiveBytes n = fifo := by
  induction n with
  | zero => rfl
  | succ n ih => rw [RxFifo.receiveBytes, RxFifo.receiveByte, hline, ih]

-- What comes in when there is room for all of it.
theorem receiveBytes_room {n : Nat} (hroom : fifo.waiting.length + n ≤ 8192)
    (hlengths : fifo.lengths.length + ((fifo.line.take n).filterMap Arrival.ends).length ≤ 1023) :
    fifo.receiveBytes n =
      { fifo with
        line := fifo.line.drop n
        waiting := fifo.waiting ++ (fifo.line.take n).map Arrival.byte
        lengths := fifo.lengths ++ (fifo.line.take n).filterMap Arrival.ends } := by
  induction n generalizing fifo with
  | zero => simp [RxFifo.receiveBytes]
  | succ n ih =>
    rw [RxFifo.receiveBytes, RxFifo.receiveByte]
    cases hline : fifo.line with
    | nil =>
      rw [hline] at hlengths
      dsimp only
      rw [ih (by omega) (by rw [hline]; simpa using hlengths), hline]
      simp
    | cons arrival line =>
      have hends : arrival.ends.toList.length + ((line.take n).filterMap Arrival.ends).length =
          (((arrival :: line).take (n + 1)).filterMap Arrival.ends).length := by
        cases harr : arrival.ends <;> simp [harr, Nat.add_comm]
      rw [hline, ← hends] at hlengths
      have hfits : fifo.waiting.length < 8192 ∧
          (arrival.ends.isSome → fifo.lengths.length < 1023) := by
        refine ⟨by omega, fun hsome ↦ ?_⟩
        obtain ⟨length, harr⟩ := Option.isSome_iff_exists.mp hsome
        rw [harr, Option.toList_some, List.length_singleton] at hlengths
        omega
      dsimp only
      rw [if_pos hfits, ih]
      · cases harr : arrival.ends <;> simp [harr]
      · dsimp only
        rw [List.length_append, List.length_singleton]
        omega
      · dsimp only
        rw [List.length_append]
        omega

-- What comes in pops nothing and does not look at the clock.
theorem receiveBytes_popped (fifo : RxFifo) (n : Nat) :
    (fifo.receiveBytes n).popped = fifo.popped ∧ (fifo.receiveBytes n).ticks = fifo.ticks := by
  induction n generalizing fifo with
  | zero => exact ⟨rfl, rfl⟩
  | succ n ih =>
    rw [RxFifo.receiveBytes, (ih _).1, (ih _).2, RxFifo.receiveByte]
    split
    · exact ⟨rfl, rfl⟩
    · split <;> exact ⟨rfl, rfl⟩

theorem look_popped (fifo : RxFifo) (schedule : Nat → Nat) :
    (fifo.look schedule).popped = fifo.popped := (receiveBytes_popped _ _).1

theorem look_ticks (fifo : RxFifo) (schedule : Nat → Nat) :
    (fifo.look schedule).ticks = fifo.ticks := (receiveBytes_popped _ _).2

theorem pop_popped_length {n : Nat} (hn : n ≤ fifo.waiting.length) :
    (fifo.pop n).popped.length = fifo.popped.length + n := by
  rw [RxFifo.pop, List.length_append, List.length_take, Nat.min_eq_left hn]

/-! ## Reading the FIFO -/

theorem read_word (fifo : RxFifo) (h : 4 ≤ fifo.waiting.length) :
    Bytes.ofWord (Bytes.wordAt fifo.waiting 0) = fifo.waiting.take 4 := by
  rw [Bytes.ofWord_wordAt, Bytes.read_eq_take_drop (by omega), List.drop_zero]

theorem RxFifo.pop_pop (fifo : RxFifo) (m n : Nat) : (fifo.pop m).pop n = fifo.pop (m + n) := by
  simp only [RxFifo.pop, List.drop_drop, List.append_assoc, List.take_add]

/-- Hardware whose FIFO register pops one word of the waiting bytes per read. -/
def PopsWords (hw : Hardware RxFifo) : Prop :=
  ∀ fifo, hw.ioRead 0 fifoOffset fifo = (Bytes.wordAt fifo.waiting 0, fifo.pop 4)

theorem rxFifo_popsWords (schedule : Nat → Nat) (clock : Nat → BitVec 64) :
    PopsWords (rxFifo schedule clock) := fun _ ↦ rfl

section Pops

variable {hw : Hardware RxFifo}

theorem PopsWords.ioReadChunks (hpops : PopsWords hw) {chunks : Nat}
    (h : 4 * chunks ≤ fifo.waiting.length) :
    ∃ words, ioReadChunks hw 0 fifoOffset chunks fifo = (words, fifo.pop (4 * chunks)) ∧
      Bytes.ofWords words = fifo.waiting.take (4 * chunks) := by
  induction chunks generalizing fifo with
  | zero => exact ⟨[], by simp [FsccDriver.ioReadChunks, RxFifo.pop], by simp⟩
  | succ chunks ih =>
    have hrest : 4 * chunks ≤ (fifo.pop 4).waiting.length := by
      rw [RxFifo.pop, List.length_drop]
      omega
    obtain ⟨words, hread, hwords⟩ := ih hrest
    refine ⟨Bytes.wordAt fifo.waiting 0 :: words, ?_, ?_⟩
    · rw [FsccDriver.ioReadChunks, hpops]
      dsimp only
      rw [hread, RxFifo.pop_pop, show 4 + 4 * chunks = 4 * (chunks + 1) by omega]
    · rw [Bytes.ofWords_cons, hwords, read_word fifo (by omega), RxFifo.pop,
        show 4 * (chunks + 1) = 4 + 4 * chunks by omega, List.take_add]

/-- The bytes that whole words of `n` bytes take up. -/
def wordPadded (n : Nat) : Nat := (n + 3) / 4 * 4

/-- Reading `n` bytes takes the first `n` waiting bytes and pops whole words. -/
theorem PopsWords.getRegisterRep (hpops : PopsWords hw) (channel : Nat) {n : Nat}
    (h : wordPadded n ≤ fifo.waiting.length) :
    fsccPortGetRegisterRep hw channel 0 fifoOffset n fifo =
      (fifo.waiting.take n, fifo.pop (wordPadded n)) := by
  unfold fsccPortGetRegisterRep wordPadded at *
  split
  next hpos =>
    have hchunks : 4 * ((n - n % 4) / 4) ≤ fifo.waiting.length := by omega
    obtain ⟨words, hread, hwords⟩ := hpops.ioReadChunks hchunks
    rw [portOffset_bar0, fsccCardGetRegisterRep]
    simp only [hread]
    split
    next hleft =>
      simp only [hpops (fifo.pop (4 * ((n - n % 4) / 4)))]
      have hword : 4 ≤ (fifo.pop (4 * ((n - n % 4) / 4))).waiting.length := by
        rw [RxFifo.pop, List.length_drop]
        omega
      rw [hwords, read_word _ hword, List.take_take, Nat.min_eq_left (by omega), RxFifo.pop_pop,
        RxFifo.pop, ← List.take_add, show 4 * ((n - n % 4) / 4) + n % 4 = n by omega,
        show 4 * ((n - n % 4) / 4) + 4 = (n + 3) / 4 * 4 by omega]
    next hwhole =>
      rw [hwords, show 4 * ((n - n % 4) / 4) = n by omega, show (n + 3) / 4 * 4 = n by omega]
  next hzero =>
    obtain rfl : n = 0 := by omega
    simp [RxFifo.pop]

end Pops

/-! ## How much a round takes -/

-- What is left of a frame whose length is known.
def frameRest (port : RxPort) : Nat :=
  if port.rxFrameSize > port.rxBytesInFrame then u32 (port.rxFrameSize - port.rxBytesInFrame) else 0

theorem receiveLength_known {H : Type} {hw : Hardware H} {s : H} (hsize : port.rxFrameSize ≠ 0) :
    receiveLength hw port s = (frameRest port, port, s) := by
  unfold receiveLength frameRest
  rw [if_neg hsize]
  dsimp only
  rw [if_pos hsize]
  split <;> rfl

theorem fsccIoGetRFCNT_rxFifo (hle : (fifo.look schedule).lengths.length ≤ 1023) :
    fsccIoGetRFCNT (rxFifo schedule clock) port fifo =
      ((fifo.look schedule).lengths.length, fifo.look schedule) := by
  change ((BitVec.ofNat 32 (fifo.look schedule).lengths.length).toNat &&& (2 ^ 10 - 1), _) = _
  rw [and_low, BitVec.toNat_ofNat, Nat.mod_eq_of_lt (by omega), Nat.mod_eq_of_lt (by omega)]
  rfl

theorem fsccIoGetRXCNT_rxFifo (hle : fifo.waiting.length ≤ 8192) :
    fsccIoGetRXCNT (rxFifo schedule clock) port fifo = (fifo.waiting.length, fifo) := by
  change (if (BitVec.ofNat 32 fifo.waiting.length).toNat &&& (2 ^ 14 - 1) > 8192 then 0
    else (BitVec.ofNat 32 fifo.waiting.length).toNat &&& (2 ^ 14 - 1), fifo) = _
  rw [and_low, BitVec.toNat_ofNat, Nat.mod_eq_of_lt (by omega), Nat.mod_eq_of_lt (by omega),
    if_neg (by omega)]

theorem receiveLength_unknown (clock : Nat → BitVec 64) (h : Carries todo p known fifo)
    (hsize : port.rxFrameSize = 0)
    (hlengths : (fifo.look schedule).lengths = []) :
    receiveLength (rxFifo schedule clock) port fifo =
      ((fifo.look schedule).waiting.length - (fifo.look schedule).waiting.length % 4, port,
        fifo.look schedule) := by
  have hlook := h.look schedule
  simp only [receiveLength, hsize, if_true, fsccIoGetRFCNT_rxFifo hlook.lengths_le, hlengths,
    List.length_nil, ne_eq, not_true_eq_false, if_false, fsccIoGetRXCNT_rxFifo hlook.room]

-- A length of 32 bits is read into an `int`.
theorem receiveLength_wrapping (clock : Nat → BitVec 64) (h : Carries todo p known fifo)
    (hsize : port.rxFrameSize = 0)
    {length : Nat} {lengths : List Nat} (hlengths : (fifo.look schedule).lengths = length :: lengths)
    (hpos : 0 < length) (hlt : length < 4294967296) :
    receiveLength (rxFifo schedule clock) port fifo =
      (frameRest { port with rxFrameSize := i32 length }, { port with rxFrameSize := i32 length },
        { fifo.look schedule with lengths }) := by
  have hlook := h.look schedule
  have hpop : fsccPortGetRegister (rxFifo schedule clock) port.channel 0 bcFifoLOffset
      (fifo.look schedule) = (BitVec.ofNat 32 length, { fifo.look schedule with lengths }) := by
    change (match (fifo.look schedule).lengths with
      | [] => (0, fifo.look schedule)
      | length :: lengths => (BitVec.ofNat 32 length, { fifo.look schedule with lengths })) = _
    rw [hlengths]
  have hword : (BitVec.ofNat 32 length).toNat = length := by
    rw [BitVec.toNat_ofNat, Nat.mod_eq_of_lt hlt]
  have hne := i32_ne_zero hpos hlt
  simp only [receiveLength, hsize, if_true, fsccIoGetRFCNT_rxFifo hlook.lengths_le, hlengths,
    List.length_cons, ne_eq, Nat.succ_ne_zero, not_false_eq_true, hpop, hword, hne, frameRest]
  split <;> rfl

theorem receiveLength_counted (clock : Nat → BitVec 64) (h : Carries todo p known fifo)
    (hsize : port.rxFrameSize = 0)
    {length : Nat} {lengths : List Nat} (hlengths : (fifo.look schedule).lengths = length :: lengths)
    (hpos : 0 < length) (hlt : length < 2147483648) :
    receiveLength (rxFifo schedule clock) port fifo =
      (frameRest { port with rxFrameSize := length }, { port with rxFrameSize := length },
        { fifo.look schedule with lengths }) := by
  rw [receiveLength_wrapping clock h hsize hlengths hpos (by omega), i32_of_lt hlt]

end FsccDriver

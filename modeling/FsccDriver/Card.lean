import FsccDriver.Defines

/-!
# Card — register access (`card.c`, `utils.c` and the accessors of `port.c`)
-/

namespace FsccDriver

variable {H : Type}

-- A card on which every register reads 0.
def quietCard : Hardware Unit where
  ioRead _ _ _ := (0, ())
  ioWrite _ _ _ _ := ()
  keQuerySystemTime _ := (0, ())

def fsccCardGetRegister (hw : Hardware H) (bar offset : Nat) (h : H) : BitVec 32 × H :=
  hw.ioRead bar offset h

def fsccCardSetRegister (hw : Hardware H) (bar offset : Nat) (value : BitVec 32) (h : H) : H :=
  hw.ioWrite bar offset value h

/-- The `chunks` loop of `fscc_card_get_register_rep`. -/
def ioReadChunks (hw : Hardware H) (bar offset : Nat) : Nat → H → List (BitVec 32) × H
  | 0, h => ([], h)
  | chunks + 1, h =>
      let (value, h) := hw.ioRead bar offset h
      let (values, h) := ioReadChunks hw bar offset chunks h
      (value :: values, h)

/-- The bytes `fscc_card_get_register_rep` stores at `buf`. -/
def fsccCardGetRegisterRep (hw : Hardware H) (bar offset byteCount : Nat) (h : H) :
    List Byte × H :=
  let leftoverCount := byteCount % 4
  let chunks := (byteCount - leftoverCount) / 4
  let (values, h) := ioReadChunks hw bar offset chunks h
  if leftoverCount ≠ 0 then
    let (incomingData, h) := hw.ioRead bar offset h
    (Bytes.ofWords values ++ (Bytes.ofWord incomingData).take leftoverCount, h)
  else
    (Bytes.ofWords values, h)

def charsToU32 (data : List Byte) (offset : Nat) : BitVec 32 := Bytes.wordAt data offset

/-- The words `fscc_card_set_register_rep` writes, in order.  The last one is read in full from the
caller's buffer even when fewer than four bytes are left. -/
def setRegisterRepWords (data : List Byte) (byteCount : Nat) : List (BitVec 32) :=
  let leftoverCount := byteCount % 4
  let chunks := (byteCount - leftoverCount) / 4
  (List.range chunks).map (fun i ↦ charsToU32 data (i * 4)) ++
    if leftoverCount ≠ 0 then [charsToU32 data (byteCount - leftoverCount)] else []

def fsccCardSetRegisterRep (hw : Hardware H) (bar offset : Nat) (data : List Byte)
    (byteCount : Nat) (h : H) : H :=
  (setRegisterRepWords data byteCount).foldl (fun h value ↦ hw.ioWrite bar offset value h) h

/-- `port_offset`: where a register of one port lives on the card. -/
def portOffset (channel bar offset : Nat) : Nat :=
  if bar = 2 then
    if offset = dmaccrOffset then
      if channel = 0 then offset else offset + 0x04
    else if offset = dmaRxBaseOffset ∨ offset = dmaTxBaseOffset ∨
        offset = dmaCurrentRxBaseOffset ∨ offset = dmaCurrentTxBaseOffset then
      if channel = 0 then offset else offset + 0x08
    else offset
  else offset

def fsccPortGetRegister (hw : Hardware H) (channel bar registerOffset : Nat) (h : H) :
    BitVec 32 × H :=
  fsccCardGetRegister hw bar (portOffset channel bar registerOffset) h

/-- `fscc_port_get_register_rep`; a request for no bytes returns at once. -/
def fsccPortGetRegisterRep (hw : Hardware H) (channel bar registerOffset byteCount : Nat) (h : H) :
    List Byte × H :=
  if 0 < byteCount then
    fsccCardGetRegisterRep hw bar (portOffset channel bar registerOffset) byteCount h
  else ([], h)

/-- `fscc_port_set_register_rep`; a request for no bytes returns at once. -/
def fsccPortSetRegisterRep (hw : Hardware H) (channel bar registerOffset : Nat) (data : List Byte)
    (byteCount : Nat) (h : H) : H :=
  if 0 < byteCount then
    fsccCardSetRegisterRep hw bar (portOffset channel bar registerOffset) data byteCount h
  else h

/-! ## What the transfers return -/

theorem portOffset_bar0 (channel offset : Nat) : portOffset channel 0 offset = offset := rfl

theorem ioReadChunks_length (hw : Hardware H) (bar offset chunks : Nat) (h : H) :
    (ioReadChunks hw bar offset chunks h).1.length = chunks := by
  induction chunks generalizing h with
  | zero => rfl
  | succ chunks ih => rw [ioReadChunks, List.length_cons, ih]

/-- A block read delivers exactly the bytes asked for. -/
theorem fsccPortGetRegisterRep_length (hw : Hardware H) (channel bar offset byteCount : Nat)
    (h : H) : (fsccPortGetRegisterRep hw channel bar offset byteCount h).1.length = byteCount := by
  unfold fsccPortGetRegisterRep
  split
  next hpos =>
    unfold fsccCardGetRegisterRep
    dsimp only
    have hwords := ioReadChunks_length hw bar (portOffset channel bar offset)
      ((byteCount - byteCount % 4) / 4) h
    split
    · rw [List.length_append, Bytes.ofWords_length, hwords, List.length_take, Bytes.ofWord_length]
      omega
    · rw [Bytes.ofWords_length, hwords]
      omega
  next hzero =>
    rw [List.length_nil]
    omega

/-! ## What the transfers send -/

/-- A block write sends the bytes it was asked to send. -/
theorem setRegisterRepWords_packed {data : List Byte} {byteCount : Nat}
    (hcount : byteCount ≤ data.length) :
    Bytes.Packed (data.take byteCount) (setRegisterRepWords data byteCount) := by
  have htake : data.take byteCount = Bytes.read data 0 byteCount := by
    rw [Bytes.read_eq_take_drop (by omega), List.drop_zero]
  have hchunks : (byteCount - byteCount % 4) / 4 * 4 = byteCount - byteCount % 4 := by omega
  unfold setRegisterRepWords charsToU32
  dsimp only
  by_cases hleft : byteCount % 4 = 0
  · rw [if_neg (not_not.mpr hleft), List.append_nil]
    constructor
    · rw [List.length_map, List.length_range, List.length_take]
      omega
    · rw [Bytes.ofWords_wordAt, hchunks, hleft, Nat.sub_zero, htake, Bytes.read_length,
        Bytes.take_read _ _ (Nat.le_refl _)]
  · rw [if_pos hleft]
    constructor
    · rw [List.length_append, List.length_map, List.length_range, List.length_take,
        List.length_singleton]
      omega
    · have hall := Bytes.read_append data 0 (byteCount - byteCount % 4) 4
      rw [Nat.zero_add] at hall
      rw [Bytes.ofWords_append, Bytes.ofWords_wordAt, hchunks, Bytes.ofWords_cons, Bytes.ofWords_nil,
        List.append_nil, Bytes.ofWord_wordAt, htake, Bytes.read_length, ← hall,
        Bytes.take_read _ _ (by omega)]

end FsccDriver

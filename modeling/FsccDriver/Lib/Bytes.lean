import Mathlib.Data.List.Basic
import Mathlib.Data.List.GetD
import Mathlib.Data.List.TakeDrop

/-!
# Bytes — memory copies and little-endian words

Buffers are lists of bytes.  `read` and `write` are the two halves of a `memcpy`, and
`ofWord` / `wordAt` are the two directions of a 32-bit little-endian access.
-/

abbrev Byte := BitVec 8

namespace Bytes

/-! ## Copies -/

/-- `len` bytes of a buffer from offset `off`.  What lies behind the buffer is not modelled and
reads as `0`. -/
def read (buf : List Byte) (off len : Nat) : List Byte :=
  (List.range len).map fun k ↦ buf.getD (off + k) 0

/-- The buffer after `src` has been copied to offset `off`. -/
def write (buf : List Byte) (off : Nat) (src : List Byte) : List Byte :=
  buf.take off ++ src ++ buf.drop (off + src.length)

@[simp] theorem read_length (buf : List Byte) (off len : Nat) : (read buf off len).length = len := by
  simp [read]

@[simp] theorem read_zero (buf : List Byte) (off : Nat) : read buf off 0 = [] := rfl

theorem read_eq_take_drop {buf : List Byte} {off len : Nat} (h : off + len ≤ buf.length) :
    read buf off len = (buf.drop off).take len := by
  apply List.ext_getElem
  · rw [read_length, List.length_take, List.length_drop]
    omega
  · intro k hk _
    rw [read_length] at hk
    simp only [read, List.getElem_map, List.getElem_range, List.getElem_take, List.getElem_drop]
    rw [List.getD_eq_getElem _ _ (by omega)]

theorem read_append (buf : List Byte) (off a b : Nat) :
    read buf off (a + b) = read buf off a ++ read buf (off + a) b := by
  simp only [read, List.range_add, List.map_append, List.map_map, Nat.add_assoc]
  rfl

theorem take_read (buf : List Byte) (off : Nat) {a b : Nat} (h : a ≤ b) :
    (read buf off b).take a = read buf off a := by
  rw [← Nat.add_sub_cancel' h, read_append]
  exact List.take_left' (read_length buf off a)

theorem write_length {buf src : List Byte} {off : Nat} (h : off + src.length ≤ buf.length) :
    (write buf off src).length = buf.length := by
  simp only [write, List.length_append, List.length_take, List.length_drop]
  omega

/-- A copy that continues a prefix extends it. -/
theorem write_take {buf : List Byte} (src : List Byte) {off : Nat} (h : off ≤ buf.length) :
    (write buf off src).take (off + src.length) = buf.take off ++ src := by
  have hlen : (buf.take off ++ src).length = off + src.length := by
    rw [List.length_append, List.length_take, Nat.min_eq_left h]
  rw [write, ← hlen, List.take_left]

/-- A copy leaves what lies behind it. -/
theorem write_drop {buf : List Byte} (src : List Byte) {off : Nat} (h : off ≤ buf.length) :
    (write buf off src).drop (off + src.length) = buf.drop (off + src.length) := by
  have hlen : (buf.take off ++ src).length = off + src.length := by
    rw [List.length_append, List.length_take, Nat.min_eq_left h]
  rw [write, List.drop_left' hlen]

/-- Two copies, the second behind the first, are one. -/
theorem write_write {buf : List Byte} (src more : List Byte) {off : Nat} (h : off ≤ buf.length) :
    write (write buf off src) (off + src.length) more = write buf off (src ++ more) := by
  rw [write, write_take src h, ← List.drop_drop, write_drop src h, List.drop_drop, write,
    List.length_append, List.append_assoc (buf.take off), Nat.add_assoc]

-- What has been copied to the front of a buffer is read back.
theorem read_write (buf : List Byte) {src : List Byte} {n : Nat} (hn : n ≤ src.length) :
    read (write buf 0 src) 0 n = src.take n := by
  have hwrite : write buf 0 src = src ++ buf.drop (0 + src.length) := by
    rw [write, List.take_zero, List.nil_append]
  rw [hwrite, read_eq_take_drop, List.drop_zero, List.take_append_of_le_length hn]
  rw [List.length_append]
  omega

@[simp] theorem write_nil (buf : List Byte) (off : Nat) : write buf off [] = buf := by
  simp [write]

/-! ## Words -/

/-- The four bytes of a word in memory order. -/
def ofWord (w : BitVec 32) : List Byte :=
  [w.extractLsb' 0 8, w.extractLsb' 8 8, w.extractLsb' 16 8, w.extractLsb' 24 8]

/-- The word read from the four bytes at offset `off`. -/
def wordAt (buf : List Byte) (off : Nat) : BitVec 32 :=
  buf.getD (off + 3) 0 ++ buf.getD (off + 2) 0 ++ buf.getD (off + 1) 0 ++ buf.getD off 0

@[simp] theorem ofWord_length (w : BitVec 32) : (ofWord w).length = 4 := rfl

/-- Storing a word that was read puts the same four bytes back. -/
theorem ofWord_wordAt (buf : List Byte) (off : Nat) : ofWord (wordAt buf off) = read buf off 4 := by
  have hread : read buf off 4 =
      [buf.getD off 0, buf.getD (off + 1) 0, buf.getD (off + 2) 0, buf.getD (off + 3) 0] := rfl
  rw [hread]
  unfold ofWord wordAt
  generalize buf.getD off 0 = a
  generalize buf.getD (off + 1) 0 = b
  generalize buf.getD (off + 2) 0 = c
  generalize buf.getD (off + 3) 0 = d
  refine List.cons_eq_cons.mpr ⟨?_, List.cons_eq_cons.mpr ⟨?_, List.cons_eq_cons.mpr ⟨?_,
    List.cons_eq_cons.mpr ⟨?_, rfl⟩⟩⟩⟩ <;>
  · apply BitVec.eq_of_getLsbD_eq
    intro i hi
    simp only [BitVec.getLsbD_extractLsb', BitVec.getLsbD_append, hi, decide_true, Bool.true_and]
    grind

/-- The bytes of a sequence of words. -/
def ofWords (ws : List (BitVec 32)) : List Byte := ws.flatMap ofWord

@[simp] theorem ofWords_nil : ofWords [] = [] := rfl

@[simp] theorem ofWords_cons (w : BitVec 32) (ws : List (BitVec 32)) :
    ofWords (w :: ws) = ofWord w ++ ofWords ws := rfl

@[simp] theorem ofWords_append (ws vs : List (BitVec 32)) :
    ofWords (ws ++ vs) = ofWords ws ++ ofWords vs := by
  simp [ofWords]

@[simp] theorem ofWords_length (ws : List (BitVec 32)) : (ofWords ws).length = 4 * ws.length := by
  induction ws with
  | nil => rfl
  | cons w ws ih =>
    rw [ofWords_cons, List.length_append, ofWord_length, ih, List.length_cons]
    omega

theorem wordAt_append (front rest : List Byte) (off : Nat) :
    wordAt (front ++ rest) (front.length + off) = wordAt rest off := by
  simp only [wordAt, Nat.add_assoc, List.getD_append_right _ _ _ _ (Nat.le_add_right _ _),
    Nat.add_sub_cancel_left]

/-- Reading a word that was stored gives it back. -/
theorem wordAt_ofWord (w : BitVec 32) (rest : List Byte) : wordAt (ofWord w ++ rest) 0 = w := by
  show w.extractLsb' 24 8 ++ w.extractLsb' 16 8 ++ w.extractLsb' 8 8 ++ w.extractLsb' 0 8 = w
  apply BitVec.eq_of_getLsbD_eq
  intro i hi
  simp only [BitVec.getLsbD_append, BitVec.getLsbD_extractLsb']
  grind

theorem wordAt_ofWords (ws : List (BitVec 32)) :
    (List.range ws.length).map (fun i ↦ wordAt (ofWords ws) (i * 4)) = ws := by
  induction ws with
  | nil => rfl
  | cons w ws ih =>
    rw [List.length_cons, List.range_succ_eq_map, List.map_cons, List.map_map, ofWords_cons,
      Nat.zero_mul, wordAt_ofWord]
    congr 1
    conv_rhs => rw [← ih]
    apply List.map_congr_left
    intro i _
    show wordAt (ofWord w ++ ofWords ws) ((i + 1) * 4) = _
    rw [Nat.add_mul, Nat.one_mul, Nat.add_comm]
    exact wordAt_append (ofWord w) (ofWords ws) (i * 4)

theorem ofWords_wordAt (buf : List Byte) (n : Nat) :
    ofWords ((List.range n).map fun i ↦ wordAt buf (i * 4)) = read buf 0 (n * 4) := by
  induction n with
  | zero => rfl
  | succ n ih =>
    rw [List.range_succ, List.map_append, ofWords_append, ih, Nat.add_mul, Nat.one_mul, read_append,
      Nat.zero_add]
    simp [ofWord_wordAt]

/-! ## Packing -/

/-- `ws` carries `data` in memory order, with padding behind its last byte only. -/
structure Packed (data : List Byte) (ws : List (BitVec 32)) : Prop where
  length : ws.length = (data.length + 3) / 4
  bytes : (ofWords ws).take data.length = data

theorem Packed.append {data rest : List Byte} {ws vs : List (BitVec 32)} (h : Packed data ws)
    (hrest : Packed rest vs) (halign : data.length % 4 = 0) : Packed (data ++ rest) (ws ++ vs) := by
  have hlen := h.length
  have hexact : (ofWords ws).length = data.length := by
    rw [ofWords_length]
    omega
  have hdata : ofWords ws = data := by
    rw [← h.bytes, ← hexact, List.take_length]
  constructor
  · rw [List.length_append, List.length_append, hlen, hrest.length]
    omega
  · rw [ofWords_append, hdata, List.length_append, List.take_length_add_append, hrest.bytes]

/-- A string can be cut where a word ends, and at its end. -/
theorem Packed.split {data : List Byte} {ws : List (BitVec 32)} (h : Packed data ws) {n : Nat}
    (hle : n ≤ data.length) (hcut : n % 4 = 0 ∨ n = data.length) :
    ∃ front back, ws = front ++ back ∧ Packed (data.take n) front ∧ Packed (data.drop n) back := by
  have hlen := h.length
  have hwords : ofWords ws = ofWords (ws.take ((n + 3) / 4)) ++ ofWords (ws.drop ((n + 3) / 4)) := by
    rw [← ofWords_append, List.take_append_drop]
  have hfront : (ws.take ((n + 3) / 4)).length = (n + 3) / 4 := by
    rw [List.length_take]
    omega
  have hbytes := h.bytes
  rw [hwords] at hbytes
  refine ⟨_, _, (List.take_append_drop ((n + 3) / 4) ws).symm, ⟨?_, ?_⟩, ⟨?_, ?_⟩⟩
  · rw [hfront, List.length_take, Nat.min_eq_left hle]
  · have hfits : n ≤ (ofWords (ws.take ((n + 3) / 4))).length := by
      rw [ofWords_length, hfront]
      omega
    conv_rhs => rw [← hbytes]
    rw [List.take_take, List.length_take, Nat.min_eq_left hle, List.take_append_of_le_length hfits]
  · rw [List.length_drop, List.length_drop]
    omega
  · rcases hcut with halign | rfl
    · have hexact : (ofWords (ws.take ((n + 3) / 4))).length = n := by
        rw [ofWords_length, hfront]
        omega
      conv_rhs => rw [← hbytes]
      rw [List.drop_take, List.length_drop, List.drop_left' hexact]
    · rw [List.drop_length, List.length_nil, List.take_zero]

theorem Packed.ne_nil {data : List Byte} {ws : List (BitVec 32)} (h : Packed data ws)
    (hdata : 0 < data.length) : 0 < ws.length := by
  rw [h.length]
  omega

end Bytes

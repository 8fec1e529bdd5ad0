import FsccDriver.ClockBits
import Mathlib.Data.Fin.VecNotation
import Mathlib.Data.List.OfFn

/-!
# ClockEncoder — the programming word of the ICS307-03

The last part of `GetICS30703Data` packs the dividers, the loop filter resistor and the charge pump
current the search has found into the 20 bytes of the programming word.
-/

namespace FsccDriver

/-! ## The source -/

abbrev ProgData := Fin 20 → Byte

/-- One statement on an entry of `progdata`. -/
inductive Edit where
  | set (i : Fin 20) (value : Byte)
  | and (i : Fin 20) (mask : Byte)
  | or (i : Fin 20) (mask : Byte)
  deriving DecidableEq

def Edit.byte (i : Fin 20) (b : Byte) : Edit → Byte
  | .set j value => if j = i then value else b
  | .and j mask => if j = i then b &&& mask else b
  | .or j mask => if j = i then b ||| mask else b

-- What a sequence of statements makes of entry `i`.
def editByte (edits : List Edit) (i : Fin 20) (b : Byte) : Byte :=
  edits.foldl (fun b edit ↦ edit.byte i b) b

def ProgData.edit (progdata : ProgData) (edits : List Edit) : ProgData :=
  fun i ↦ editByte edits i (progdata i)

-- The two low bytes of `temp`, an `unsigned long`.
def lowByte (temp : BitVec 32) : Byte := (temp &&& 0xff).setWidth 8
def nextByte (temp : BitVec 32) : Byte := ((temp >>> 8) &&& 0xff).setWidth 8

/-- What the search has found. -/
@[ext] structure ClockSettings where
  inputDivider : Nat
  vcoDivider : Nat
  loopFilterResistor : Nat
  chargePumpCurrent : Nat
  outputDividerOut1 : Nat
  deriving DecidableEq

/-! Each table gives its statements, or nothing where the driver returns an error. -/

-- Table 1.
def inputDividerEdits (inputDivider : Nat) : Option (List Edit) :=
  if inputDivider = 1 then some [.and 0 0xfc, .and 1 0xf0]
  else if inputDivider = 2 then some [.and 0 0xfc, .or 0 0x01, .and 1 0xf0]
  else if inputDivider ≥ 3 ∧ inputDivider ≤ 17 then
    let temp := (~~~BitVec.ofNat 32 (inputDivider - 2)) <<< 2
    some [.set 0 (lowByte temp), .and 0 0x3e, .or 0 0x02]
  else if inputDivider ≥ 18 ∧ inputDivider ≤ 2055 then
    let temp := BitVec.ofNat 32 (inputDivider - 8) <<< 2
    some [.set 0 (lowByte temp), .set 1 (nextByte temp), .or 0 0x03]
  else none

-- Table 2.
def vcoDividerEdits (vcoDivider : Nat) : Option (List Edit) :=
  if vcoDivider ≥ 12 ∧ vcoDivider ≤ 2055 then
    let temp := BitVec.ofNat 32 (vcoDivider - 8) <<< 5
    some [.or 1 (lowByte temp), .or 2 (nextByte temp)]
  else none

-- Table 4.
def loopFilterResistorEdits : (loopFilterResistor : Nat) → Option (List Edit)
  | 64000 => some [.and 11 0xf9]
  | 52000 => some [.and 11 0xf9, .or 11 0x04]
  | 16000 => some [.and 11 0xf9, .or 11 0x02]
  | 4000 => some [.or 11 0x06]
  | _ => none

-- Table 3.
def chargePumpCurrentEdits : (chargePumpCurrent : Nat) → Option (List Edit)
  | 125 => some [.or 11 0x38, .and 15 0x7f, .and 16 0xfe]
  | 250 => some [.or 11 0x38, .or 15 0x80, .and 16 0xfe]
  | 375 => some [.or 11 0x38, .and 15 0x7f, .or 16 0x01]
  | 500 => some [.or 11 0x38, .or 15 0x80, .or 16 0x01]
  | 625 => some [.or 11 0x18, .and 11 0xdf, .and 15 0x7f, .and 16 0xfe]
  | 750 => some [.or 11 0x10, .and 11 0xd7, .and 15 0x7f, .and 16 0xfe]
  | 875 => some [.or 11 0x08, .and 11 0xcf, .and 15 0x7f, .and 16 0xfe]
  | 1000 => some [.and 11 0xc7, .and 15 0x7f, .and 16 0xfe]
  | 1125 => some [.or 11 0x28, .and 11 0xef, .and 15 0x7f, .or 16 0x01]
  | 1250 => some [.or 11 0x18, .and 11 0xdf, .or 15 0x80, .and 16 0xfe]
  | 1500 => some [.or 11 0x28, .and 11 0xef, .or 15 0x80, .or 16 0x01]
  | 1750 => some [.or 11 0x08, .and 11 0xcf, .or 15 0x80, .and 16 0xfe]
  | 1875 => some [.or 11 0x18, .and 11 0xdf, .and 15 0x7f, .or 16 0x01]
  | 2000 => some [.and 11 0xc7, .or 15 0x80, .and 16 0xfe]
  | 2250 => some [.or 11 0x10, .and 15 0x7f, .or 16 0x01]
  | 2500 => some [.or 11 0x18, .and 11 0xdf, .or 15 0x80, .or 16 0x01]
  | 2625 => some [.or 11 0x08, .and 11 0xcf, .and 15 0x7f, .or 16 0x01]
  | 3000 => some [.and 11 0xc7, .and 15 0x7f, .or 16 0x01]
  | 3500 => some [.or 11 0x08, .and 11 0xcf, .or 15 0x80, .or 16 0x01]
  | 4000 => some [.and 11 0xc7, .or 15 0x80, .or 16 0x01]
  | _ => none

/-- One of the eight ways to write an output divider. -/
structure OutputForm where
  y : Nat
  factor : Nat
  edits : List Edit

def OutputForm.divider (form : OutputForm) (x : Nat) : Nat := ((x + 3) * 2 + form.y) * form.factor

-- In the order in which they are tried for each `x`.
def outputForms : List OutputForm :=
  [⟨0, 1, [.and 12 0xe7, .or 12 0x04]⟩, ⟨0, 2, [.and 12 0xef, .or 12 0x0c]⟩,
    ⟨0, 4, [.and 12 0xf7, .or 12 0x14]⟩, ⟨0, 8, [.or 12 0x1c]⟩,
    ⟨1, 1, [.and 12 0xe3]⟩, ⟨1, 2, [.and 12 0xeb, .or 12 0x08]⟩,
    ⟨1, 4, [.and 12 0xf7, .or 12 0x10]⟩, ⟨1, 8, [.and 12 0xfb, .or 12 0x18]⟩]

def outputXEdits (x : Nat) : List Edit :=
  let temp := BitVec.ofNat 32 x <<< 5
  [.or 12 (lowByte temp), .or 13 (nextByte temp)]

-- The loop leaves the bytes alone if it finds no form.
def outputLoop (outputDivider : Nat) : List Edit :=
  ((List.range 512).findSome? fun x ↦
    (outputForms.find? fun form ↦ outputDivider = form.divider x).map fun form ↦
      outputXEdits x ++ form.edits).getD []

-- Table 5.
def outputDividerEdits (outputDivider : Nat) : Option (List Edit) :=
  if outputDivider ≥ 2 ∧ outputDivider ≤ 8232 then
    match outputDivider with
    | 2 => some [.and 11 0x7f, .and 12 0x00, .and 13 0xc0]
    | 3 => some [.or 11 0x80, .and 12 0x00, .and 13 0xc0]
    | 4 => some [.and 11 0x7f, .or 12 0x04, .and 13 0xc0]
    | 5 => some [.and 11 0x7f, .or 12 0x01, .and 13 0xc0]
    | 6 => some [.or 11 0x80, .or 12 0x04, .and 13 0xc0]
    | 7 => some [.or 11 0x80, .or 12 0x01, .and 13 0xc0]
    | 11 => some [.or 11 0x80, .or 12 0x09, .and 13 0xc0]
    | 9 => some [.or 11 0x80, .or 12 0x05, .and 13 0xc0]
    | 13 => some [.or 11 0x80, .or 12 0x0d, .and 13 0xc0]
    | outputDivider =>
        if outputDivider ≤ 37 then
          let temp := (~~~BitVec.ofNat 32 (outputDivider - 6)) <<< 2
          some [.set 12 (lowByte temp &&& 0x7f), .and 11 0x7f, .and 12 0xfe, .or 12 0x02, .and 13 0xc0]
        else some (outputLoop outputDivider ++ [.or 11 0x80, .and 12 0xfe, .or 12 0x02])
  else none

def startProgData : ProgData :=
  ![0x00, 0x00, 0x00, 0x00, 0x00, 0x00, 0x00, 0x00, 0x00, 0x00, 0x00, 0x00, 0x00, 0x00, 0x00, 0x04, 0x00,
    0xff, 0xff, 0xff]

-- A table, or its error exit.
def applyTable (edits : Option (List Edit)) (exit : Nat) (progdata : ProgData) : Except Nat ProgData :=
  match edits with
  | none => .error exit
  | some edits => .ok (progdata.edit edits)

/-- The encoding part of `GetICS30703Data`: `progdata`, or the error it returns. -/
def encodeICS30703Data (s : ClockSettings) : Except Nat ProgData := do
  let progdata := startProgData.edit [.or 14 0x01, .or 13 0x40]
  let progdata ← applyTable (inputDividerEdits s.inputDivider) 3 progdata
  let progdata ← applyTable (vcoDividerEdits s.vcoDivider) 4 progdata
  let progdata ← applyTable (loopFilterResistorEdits s.loopFilterResistor) 5 progdata
  let progdata ← applyTable (chargePumpCurrentEdits s.chargePumpCurrent) 6 progdata
  applyTable (outputDividerEdits s.outputDividerOut1) 7 progdata

def clockBitsOf (progdata : ProgData) : List Byte := List.ofFn progdata

/-! ## What the search visits -/

def nextOd (od : Nat) : Nat :=
  if od ≤ 1030 then od - 1
  else if od ≤ 2060 then od - 2
  else if od ≤ 4120 then od - 4
  else od - 8

/-- The output dividers of `while(od > 1)`. -/
inductive VisitedOd : Nat → Prop where
  | start : VisitedOd 8232
  | next {od : Nat} (h : VisitedOd od) (hgo : nextOd od > 1) : VisitedOd (nextOd od)

def searchResistors : List Nat := [64000, 52000, 16000, 4000]

def searchCurrents : List Nat :=
  [125, 250, 375, 500, 625, 750, 875, 1000, 1125, 1250, 1500, 1750, 1875, 2000, 2250, 2500, 2625, 3000,
    3500, 4000]

structure SearchedSettings (s : ClockSettings) : Prop where
  inputDivider : 1 ≤ s.inputDivider ∧ s.inputDivider ≤ 1200
  vcoDivider : 12 ≤ s.vcoDivider ∧ s.vcoDivider ≤ 2055
  loopFilterResistor : s.loopFilterResistor ∈ searchResistors
  chargePumpCurrent : s.chargePumpCurrent ∈ searchCurrents
  outputDividerOut1 : VisitedOd s.outputDividerOut1

/-! ## Reading the word back -/

def clockByte (clockBits : List Byte) (i : Nat) : Nat := (clockBits.getD i 0).toNat

def inputDividerOf (low high : Nat) : Nat :=
  match low % 4 with
  | 0 => 1
  | 1 => 2
  | 2 => 17 - low / 4 % 16
  | _ => 8 + low / 4 + 64 * (high % 32)

def vcoDividerOf (low high : Nat) : Nat := 8 + low / 32 + 8 * high

def loopFilterResistorOf (b : Nat) : Nat := [64000, 16000, 52000, 4000].getD (b / 2 % 4) 0

-- Indexed by bits 3 to 5 of byte 11, bit 7 of byte 15 and bit 0 of byte 16.
def chargePumpCurrents : List Nat :=
  [1000, 3000, 2000, 4000, 875, 2625, 1750, 3500, 750, 2250, 0, 0, 625, 1875, 1250, 2500,
    0, 0, 0, 0, 0, 1125, 0, 1500, 0, 0, 0, 0, 125, 375, 250, 500]

def chargePumpCurrentOf (b11 b15 b16 : Nat) : Nat :=
  chargePumpCurrents.getD (b11 / 8 % 8 * 4 + b15 / 128 * 2 + b16 % 2) 0

-- The fields of the form `((x + 3) * 2 + y) * 2 ^ z`.
def outputX (b12 b13 : Nat) : Nat := b13 % 64 * 8 + b12 / 32
def outputY (b12 : Nat) : Nat := 1 - b12 / 4 % 2
def outputZ (b12 : Nat) : Nat := b12 / 8 % 4

def outputDividerOf (b11 b12 b13 : Nat) : Nat :=
  match b11 / 128, b12 % 4 with
  | 0, 2 => 37 - b12 / 4 % 32
  | _, 2 => ((outputX b12 b13 + 3) * 2 + outputY b12) * 2 ^ outputZ b12
  | 0, _ => [2, 5, 0, 0, 4].getD b12 0
  | _, _ => [3, 7, 0, 0, 6, 9, 0, 0, 0, 11, 0, 0, 0, 13].getD b12 0

/-- The settings that a programming word stands for. -/
def settingsOf (clockBits : List Byte) : ClockSettings where
  inputDivider := inputDividerOf (clockByte clockBits 0) (clockByte clockBits 1)
  vcoDivider := vcoDividerOf (clockByte clockBits 1) (clockByte clockBits 2)
  loopFilterResistor := loopFilterResistorOf (clockByte clockBits 11)
  chargePumpCurrent :=
    chargePumpCurrentOf (clockByte clockBits 11) (clockByte clockBits 15) (clockByte clockBits 16)
  outputDividerOut1 :=
    outputDividerOf (clockByte clockBits 11) (clockByte clockBits 12) (clockByte clockBits 13)

/-! ## Edits -/

def Edit.entry : Edit → Fin 20
  | .set i _ => i
  | .and i _ => i
  | .or i _ => i

theorem Edit.byte_other {edit : Edit} {i : Fin 20} (hi : edit.entry ≠ i) (b : Byte) :
    edit.byte i b = b := by
  cases edit <;> exact if_neg hi

/-- The statements are about these entries only. -/
def EditsOnly (entries : List (Fin 20)) (edits : List Edit) : Prop :=
  ∀ entry ∈ edits.map Edit.entry, entry ∈ entries

instance (entries : List (Fin 20)) (edits : List Edit) : Decidable (EditsOnly entries edits) :=
  inferInstanceAs (Decidable (∀ entry ∈ edits.map Edit.entry, entry ∈ entries))

theorem EditsOnly.mono {entries more : List (Fin 20)} (hsub : entries ⊆ more) {edits : List Edit}
    (hedits : EditsOnly entries edits) : EditsOnly more edits :=
  fun entry hentry ↦ hsub (hedits entry hentry)

theorem EditsOnly.append {entries : List (Fin 20)} {edits more : List Edit}
    (hedits : EditsOnly entries edits) (hmore : EditsOnly entries more) : EditsOnly entries (edits ++ more) := by
  intro entry hentry
  rw [List.map_append] at hentry
  exact (List.mem_append.mp hentry).elim (hedits entry) (hmore entry)

theorem editByte_append (edits more : List Edit) (i : Fin 20) (b : Byte) :
    editByte (edits ++ more) i b = editByte more i (editByte edits i b) := List.foldl_append

theorem editByte_other {entries : List (Fin 20)} {edits : List Edit} (hedits : EditsOnly entries edits)
    {i : Fin 20} (hi : i ∉ entries) (b : Byte) : editByte edits i b = b := by
  induction edits generalizing b with
  | nil => rfl
  | cons edit edits ih =>
    have hentry : edit.entry ≠ i := by
      rintro rfl
      exact hi (hedits _ List.mem_cons_self)
    have hrest := ih (fun entry hmem ↦ hedits entry (List.mem_cons_of_mem _ hmem)) b
    rw [editByte, List.foldl_cons, Edit.byte_other hentry]
    exact hrest

theorem lowByte_toNat (temp : BitVec 32) : (lowByte temp).toNat = temp.toNat % 256 := by
  have hmask : temp.toNat &&& (0xff : BitVec 32).toNat = temp.toNat % 256 :=
    Nat.and_two_pow_sub_one_eq_mod temp.toNat 8
  rw [lowByte, BitVec.toNat_setWidth, BitVec.toNat_and, hmask, Nat.mod_mod]

theorem nextByte_toNat (temp : BitVec 32) : (nextByte temp).toNat = temp.toNat / 256 % 256 := by
  rw [show nextByte temp = lowByte (temp >>> 8) from rfl, lowByte_toNat, BitVec.toNat_ushiftRight,
    Nat.shiftRight_eq_div_pow]

theorem ofNat_shift_toNat {n k : Nat} (hn : n * 2 ^ k < 2 ^ 32) :
    (BitVec.ofNat 32 n <<< k).toNat = n * 2 ^ k := by
  have hsmall : n < 2 ^ 32 := lt_of_le_of_lt (Nat.le_mul_of_pos_right n (Nat.two_pow_pos k)) hn
  rw [BitVec.toNat_shiftLeft, BitVec.toNat_ofNat, Nat.mod_eq_of_lt hsmall, Nat.shiftLeft_eq,
    Nat.mod_eq_of_lt hn]

theorem lowByte_shift {n k : Nat} (hn : n * 2 ^ k < 2 ^ 32) :
    (lowByte (BitVec.ofNat 32 n <<< k)).toNat = n * 2 ^ k % 256 := by
  rw [lowByte_toNat, ofNat_shift_toNat hn]

theorem nextByte_shift {n k : Nat} (hn : n * 2 ^ k < 2 ^ 32) :
    (nextByte (BitVec.ofNat 32 n <<< k)).toNat = n * 2 ^ k / 256 % 256 := by
  rw [nextByte_toNat, ofNat_shift_toNat hn]

/-- Statements on other entries can be left out. -/
theorem editByte_filter (edits : List Edit) (i : Fin 20) (b : Byte) :
    editByte (edits.filter (·.entry = i)) i b = editByte edits i b := by
  induction edits generalizing b with
  | nil => rfl
  | cons edit edits ih =>
    have hcons : editByte (edit :: edits) i b = editByte edits i (edit.byte i b) := rfl
    by_cases hentry : edit.entry = i
    · rw [List.filter_cons_of_pos (by exact decide_eq_true hentry), hcons]
      exact ih _
    · rw [List.filter_cons_of_neg (by simpa using hentry), hcons, Edit.byte_other hentry]
      exact ih b

theorem forall_byte {n : Nat} {P : Byte → Prop} (h : ∀ b : Fin n, P (BitVec.ofNat 8 b)) :
    ∀ b : Byte, b.toNat < n → P b := by
  intro b hb
  have hP := h ⟨b.toNat, hb⟩
  rwa [BitVec.ofNat_toNat, BitVec.setWidth_eq] at hP

theorem zero_or_byte (b : Byte) : (0 : Byte) ||| b = b := BitVec.zero_or

/-! ## The tables -/

theorem inputDivider_small : ∀ r : Fin 17, ∃ edits ∈ inputDividerEdits (r + 1),
    EditsOnly [0, 1] edits ∧ (editByte edits 1 0).toNat < 32 ∧
    inputDividerOf (editByte edits 0 0).toNat (editByte edits 1 0).toNat = r + 1 := by
  decide

theorem inputDivider_edits {r : Nat} (hlow : 1 ≤ r) (hhigh : r ≤ 1200) :
    ∃ edits ∈ inputDividerEdits r, EditsOnly [0, 1] edits ∧ (editByte edits 1 0).toNat < 32 ∧
      inputDividerOf (editByte edits 0 0).toNat (editByte edits 1 0).toNat = r := by
  rcases Nat.lt_or_ge r 18 with hr | hr
  · have hsmall := inputDivider_small ⟨r - 1, by omega⟩
    rwa [Nat.sub_add_cancel hlow] at hsmall
  have hedits : inputDividerEdits r = some [.set 0 (lowByte (BitVec.ofNat 32 (r - 8) <<< 2)),
      .set 1 (nextByte (BitVec.ofNat 32 (r - 8) <<< 2)), .or 0 0x03] := by
    rw [inputDividerEdits, if_neg (by omega), if_neg (by omega), if_neg (by omega), if_pos (by omega)]
  -- The low two bits of byte 0 are the 3 that marks this form.
  have hmark : (lowByte (BitVec.ofNat 32 (r - 8) <<< 2) ||| 0x03).toNat = (r - 8) % 64 * 4 + 3 := by
    have hor := Nat.two_pow_add_eq_or_of_lt (i := 2) (b := 3) (by decide) ((r - 8) % 64)
    rw [BitVec.toNat_or, lowByte_shift (by omega), show (r - 8) * 2 ^ 2 % 256 = 2 ^ 2 * ((r - 8) % 64) by
      omega, show (3 : Byte).toNat = 3 from rfl, ← hor]
    omega
  have hhighByte := nextByte_shift (n := r - 8) (k := 2) (by omega)
  refine ⟨_, hedits, (by decide : ∀ i ∈ ([0, 1, 0] : List (Fin 20)), i ∈ _), ?_, ?_⟩
  · show (nextByte _).toNat < 32
    omega
  · show inputDividerOf (lowByte _ ||| 0x03).toNat (nextByte _).toNat = r
    rw [hmark, hhighByte, inputDividerOf, show ((r - 8) % 64 * 4 + 3) % 4 = 3 by omega]
    show 8 + _ + 64 * _ = r
    omega

theorem vcoDivider_edits {v : Nat} (hlow : 12 ≤ v) (hhigh : v ≤ 2055) :
    ∃ edits ∈ vcoDividerEdits v, EditsOnly [1, 2] edits ∧ ∀ b : Byte, b.toNat < 32 →
      (editByte edits 1 b).toNat % 32 = b.toNat ∧
      vcoDividerOf (editByte edits 1 b).toNat (editByte edits 2 0).toNat = v := by
  have hedits : vcoDividerEdits v = some [.or 1 (lowByte (BitVec.ofNat 32 (v - 8) <<< 5)),
      .or 2 (nextByte (BitVec.ofNat 32 (v - 8) <<< 5))] := by
    rw [vcoDividerEdits, if_pos ⟨hlow, hhigh⟩]
  refine ⟨_, hedits, (by decide : ∀ i ∈ ([1, 2] : List (Fin 20)), i ∈ _), fun b hb ↦ ?_⟩
  have hlowByte : (b ||| lowByte (BitVec.ofNat 32 (v - 8) <<< 5)).toNat =
      (v - 8) % 8 * 32 + b.toNat := by
    have hor := Nat.two_pow_add_eq_or_of_lt (i := 5) hb ((v - 8) % 8)
    rw [BitVec.toNat_or, lowByte_shift (by omega), show (v - 8) * 2 ^ 5 % 256 = 2 ^ 5 * ((v - 8) % 8) by
      omega, Nat.or_comm, ← hor]
    omega
  have hhighByte : ((0 : Byte) ||| nextByte (BitVec.ofNat 32 (v - 8) <<< 5)).toNat = (v - 8) / 8 := by
    rw [zero_or_byte, nextByte_shift (by omega)]
    omega
  show (b ||| lowByte _).toNat % 32 = b.toNat ∧
    vcoDividerOf (b ||| lowByte _).toNat (0 ||| nextByte _).toNat = v
  rw [hlowByte, hhighByte, vcoDividerOf]
  omega

theorem resistor_edits : ∀ r ∈ searchResistors, ∃ edits ∈ loopFilterResistorEdits r,
    EditsOnly [11] edits ∧ (editByte edits 11 0).toNat < 8 ∧
      loopFilterResistorOf (editByte edits 11 0).toNat = r := by
  decide

theorem current_table : ∀ c ∈ searchCurrents, ∃ edits ∈ chargePumpCurrentEdits c,
    EditsOnly [11, 15, 16] edits ∧ ∀ b : Fin 8,
      (editByte edits 11 (BitVec.ofNat 8 b)).toNat < 64 ∧
      loopFilterResistorOf (editByte edits 11 (BitVec.ofNat 8 b)).toNat =
        loopFilterResistorOf (BitVec.ofNat 8 b).toNat ∧
      chargePumpCurrentOf (editByte edits 11 (BitVec.ofNat 8 b)).toNat (editByte edits 15 0x04).toNat
        (editByte edits 16 0).toNat = c := by
  decide

theorem current_edits {c : Nat} (hc : c ∈ searchCurrents) : ∃ edits ∈ chargePumpCurrentEdits c,
    EditsOnly [11, 15, 16] edits ∧ ∀ b : Byte, b.toNat < 8 →
      (editByte edits 11 b).toNat < 64 ∧
      loopFilterResistorOf (editByte edits 11 b).toNat = loopFilterResistorOf b.toNat ∧
      chargePumpCurrentOf (editByte edits 11 b).toNat (editByte edits 15 0x04).toNat
        (editByte edits 16 0).toNat = c := by
  obtain ⟨edits, hedits, hwithin, hbyte⟩ := current_table c hc
  exact ⟨edits, hedits, hwithin, forall_byte hbyte⟩

/-- What the last table does to bit 7 of byte 11. -/
def topEdits : List (List Edit) := [[.and 11 0x7f], [.or 11 0x80]]

theorem topEdits_byte : ∀ top ∈ topEdits, ∀ b : Fin 64,
    (editByte top 11 (BitVec.ofNat 8 b)).toNat = (editByte top 11 0).toNat + (BitVec.ofNat 8 b).toNat ∧
      (editByte top 11 0).toNat % 128 = 0 := by
  decide

theorem outputDivider_small : ∀ od : Fin 36, ∃ edits ∈ outputDividerEdits (od + 2),
    EditsOnly [11, 12, 13] edits ∧ edits.filter (·.entry = 11) ∈ topEdits ∧
      outputDividerOf (editByte edits 11 0).toNat (editByte edits 12 0).toNat
        (editByte edits 13 0x40).toNat = od + 2 := by
  decide

def outputEndEdits : List Edit := [.or 11 0x80, .and 12 0xfe, .or 12 0x02]

theorem outputForms_edits : ∀ form ∈ outputForms, EditsOnly [12] form.edits ∧ ∀ x : Fin 8,
    (editByte (form.edits ++ outputEndEdits) 12 (BitVec.ofNat 8 (x * 32))).toNat % 4 = 2 ∧
    (editByte (form.edits ++ outputEndEdits) 12 (BitVec.ofNat 8 (x * 32))).toNat / 32 = x ∧
    outputY (editByte (form.edits ++ outputEndEdits) 12 (BitVec.ofNat 8 (x * 32))).toNat = form.y ∧
    2 ^ outputZ (editByte (form.edits ++ outputEndEdits) 12 (BitVec.ofNat 8 (x * 32))).toNat =
      form.factor := by
  decide

/-- The bytes that the loop writes for `x` and one of the forms. -/
theorem outputForm_edits {form : OutputForm} (hform : form ∈ outputForms) {x : Nat} (hx : x < 512) :
    ∃ b12 b13 : Byte, editByte (outputXEdits x ++ form.edits ++ outputEndEdits) 12 0 = b12 ∧
      editByte (outputXEdits x ++ form.edits ++ outputEndEdits) 13 0x40 = b13 ∧ b12.toNat % 4 = 2 ∧
      (outputX b12.toNat b13.toNat + 3) * 2 + outputY b12.toNat = (x + 3) * 2 + form.y ∧
      2 ^ outputZ b12.toNat = form.factor := by
  obtain ⟨hwithin, hlow⟩ := outputForms_edits form hform
  obtain ⟨hmark, hx12, hy, hz⟩ := hlow ⟨x % 8, Nat.mod_lt x (by decide)⟩
  have hfirst : editByte (outputXEdits x) 12 0 = BitVec.ofNat 8 (x % 8 * 32) := by
    show (0 : Byte) ||| lowByte (BitVec.ofNat 32 x <<< 5) = _
    apply BitVec.eq_of_toNat_eq
    rw [zero_or_byte, lowByte_shift (by omega), BitVec.toNat_ofNat]
    omega
  have hrest : EditsOnly [11, 12] (form.edits ++ outputEndEdits) :=
    (hwithin.mono (by decide)).append (by decide)
  have hsecond : editByte (outputXEdits x ++ form.edits ++ outputEndEdits) 13 0x40 =
      0x40 ||| nextByte (BitVec.ofNat 32 x <<< 5) := by
    rw [List.append_assoc, editByte_append, editByte_other hrest (by decide)]
    rfl
  have hx13 : ((0x40 : Byte) ||| nextByte (BitVec.ofNat 32 x <<< 5)).toNat = 64 + x / 8 := by
    have hnext : (nextByte (BitVec.ofNat 32 x <<< 5)).toNat = x / 8 := by
      rw [nextByte_shift (by omega)]
      omega
    rw [BitVec.toNat_or, hnext]
    exact (Nat.two_pow_add_eq_or_of_lt (i := 6) (by omega) 1).symm
  refine ⟨_, _, by rw [List.append_assoc, editByte_append, hfirst], hsecond, hmark, ?_, hz⟩
  rw [hy, outputX, hx12]
  show (((0x40 : Byte) ||| nextByte (BitVec.ofNat 32 x <<< 5)).toNat % 64 * 8 + x % 8 + 3) * 2 + _ = _
  rw [hx13]
  omega

/-- The loop finds a form of every divider that has one. -/
theorem outputLoop_eq {od x : Nat} (hx : x < 512) {form : OutputForm} (hform : form ∈ outputForms)
    (hod : od = form.divider x) : ∃ x' < 512, ∃ form' ∈ outputForms, od = form'.divider x' ∧
      outputLoop od = outputXEdits x' ++ form'.edits := by
  cases hfound : (List.range 512).findSome? fun x ↦
      (outputForms.find? fun form ↦ od = form.divider x).map fun form ↦ outputXEdits x ++ form.edits with
  | none =>
    have hnone := List.findSome?_eq_none_iff.mp hfound x (List.mem_range.mpr hx)
    have hfind := List.find?_eq_none.mp (Option.map_eq_none_iff.mp hnone) form hform
    exact absurd (decide_eq_true hod) hfind
  | some edits =>
    obtain ⟨x', hx', hedits⟩ := List.exists_of_findSome?_eq_some hfound
    obtain ⟨form', hfind, rfl⟩ := Option.map_eq_some_iff.mp hedits
    have hod' := List.find?_some hfind
    refine ⟨x', List.mem_range.mp hx', form', List.mem_of_find?_eq_some hfind, of_decide_eq_true hod', ?_⟩
    rw [outputLoop, hfound]
    rfl

theorem VisitedOd.range {od : Nat} (h : VisitedOd od) : 2 ≤ od ∧ od ≤ 8232 ∧
    (1030 < od → od % 2 = 0) ∧ (2060 < od → od % 4 = 0) ∧ (4120 < od → od % 8 = 0) := by
  induction h with
  | start => decide
  | next h hgo ih =>
    unfold nextOd at hgo ⊢
    split_ifs at hgo ⊢ <;> omega

theorem VisitedOd.form {od : Nat} (h : VisitedOd od) (hod : 38 ≤ od) :
    ∃ x < 512, ∃ form ∈ outputForms, od = form.divider x := by
  obtain ⟨hlow, hhigh, htwo, hfour, height⟩ := h.range
  -- A multiple `m * factor` has the form with `y` the parity of `m`.
  have hmultiple : ∀ factor ∈ [1, 2, 4, 8], ∀ m, 6 ≤ m → m ≤ 1029 → od = m * factor →
      ∃ x < 512, ∃ form ∈ outputForms, od = form.divider x := by
    intro factor hfactor m hm6 hm hod
    have hforms : ∀ factor ∈ [1, 2, 4, 8], ∀ y : Fin 2, ∃ form ∈ outputForms, form.y = y ∧
        form.factor = factor := by
      decide
    obtain ⟨form, hform, hy, hf⟩ := hforms factor hfactor ⟨m % 2, Nat.mod_lt m (by decide)⟩
    refine ⟨m / 2 - 3, by omega, form, hform, ?_⟩
    rw [OutputForm.divider, hy, hf, hod]
    congr 1
    show m = (m / 2 - 3 + 3) * 2 + m % 2
    omega
  by_cases h1 : od ≤ 1029
  · exact hmultiple 1 (by decide) od (by omega) h1 (by omega)
  by_cases h2 : od ≤ 2058
  · exact hmultiple 2 (by decide) (od / 2) (by omega) (by omega) (by omega)
  by_cases h4 : od ≤ 4116
  · exact hmultiple 4 (by decide) (od / 4) (by omega) (by omega) (by omega)
  · exact hmultiple 8 (by decide) (od / 8) (by omega) (by omega) (by omega)

theorem outputDividerEdits_large {od : Nat} (hlow : 38 ≤ od) (hhigh : od ≤ 8232) :
    outputDividerEdits od = some (outputLoop od ++ outputEndEdits) := by
  rw [outputDividerEdits, if_pos ⟨by omega, hhigh⟩, if_neg (by omega)]
  · rfl
  all_goals omega

theorem outputDivider_edits {od : Nat} (h : VisitedOd od) :
    ∃ edits ∈ outputDividerEdits od, EditsOnly [11, 12, 13] edits ∧
      (∀ b : Byte, b.toNat < 64 → (editByte edits 11 b).toNat = (editByte edits 11 0).toNat + b.toNat) ∧
      (editByte edits 11 0).toNat % 128 = 0 ∧
      outputDividerOf (editByte edits 11 0).toNat (editByte edits 12 0).toNat
        (editByte edits 13 0x40).toNat = od ∧
      (38 ≤ od → ((outputX (editByte edits 12 0).toNat (editByte edits 13 0x40).toNat + 3) * 2 +
        outputY (editByte edits 12 0).toNat) * 2 ^ outputZ (editByte edits 12 0).toNat = od) := by
  obtain ⟨hlow, hhigh, -⟩ := h.range
  rcases Nat.lt_or_ge od 38 with hod | hod
  · obtain ⟨edits, hedits, hwithin, htop, hdivider⟩ := outputDivider_small ⟨od - 2, by omega⟩
    rw [Nat.sub_add_cancel hlow] at hedits hdivider
    have hbyte := topEdits_byte _ htop
    simp only [editByte_filter] at hbyte
    exact ⟨edits, hedits, hwithin, forall_byte fun b ↦ (hbyte b).1, (hbyte 0).2, hdivider,
      fun h ↦ absurd h (by omega)⟩
  obtain ⟨x, hx, form, hform, hdivider⟩ := h.form hod
  obtain ⟨x, hx, form, hform, hdivider, hloop⟩ := outputLoop_eq hx hform hdivider
  obtain ⟨b12, b13, h12, h13, hmark, hxy, hz⟩ := outputForm_edits hform hx
  have hedits : outputDividerEdits od = some (outputXEdits x ++ form.edits ++ outputEndEdits) := by
    rw [outputDividerEdits_large hod hhigh, hloop]
  have hbegin : EditsOnly [12, 13] (outputXEdits x ++ form.edits) :=
    EditsOnly.append (by decide : ∀ i ∈ ([12, 13] : List (Fin 20)), i ∈ [12, 13])
      ((outputForms_edits form hform).1.mono (by decide))
  have h11 : ∀ b, editByte (outputXEdits x ++ form.edits ++ outputEndEdits) 11 b = b ||| 0x80 := by
    intro b
    rw [editByte_append, editByte_other hbegin (by decide)]
    rfl
  have hdivide : ((outputX b12.toNat b13.toNat + 3) * 2 + outputY b12.toNat) * 2 ^ outputZ b12.toNat =
      od := by
    rw [hxy, hz, hdivider, OutputForm.divider]
  refine ⟨_, hedits, (hbegin.mono (by decide)).append (by decide), ?_, ?_, ?_, ?_⟩
  · simp only [h11]
    exact forall_byte fun b ↦ (topEdits_byte [.or 11 0x80] (by decide) b).1
  · rw [h11]
    rfl
  · rw [h11, h12, h13]
    show outputDividerOf 128 _ _ = od
    rw [outputDividerOf, hmark]
    exact hdivide
  · rw [h12, h13]
    exact fun _ ↦ hdivide

theorem clockByte_adjustXtal (disabled : Bool) (clockBits : List Byte) {i : Nat} (hi : i ≠ 15) :
    clockByte (adjustXtal disabled clockBits) i = clockByte clockBits i := by
  rw [clockByte, adjustXtal, List.getD_eq_getElem?_getD, List.getElem?_set_ne hi.symm,
    ← List.getD_eq_getElem?_getD, clockByte]

theorem clockByte_adjustXtal_top (disabled : Bool) {clockBits : List Byte}
    (hlength : 15 < clockBits.length) :
    clockByte (adjustXtal disabled clockBits) 15 / 128 = clockByte clockBits 15 / 128 := by
  have hset : ∀ b : Byte, (clockBits.set 15 b).getD 15 0 = b := by
    intro b
    rw [List.getD_eq_getElem?_getD, List.getElem?_set_self hlength]
    rfl
  rw [clockByte, adjustXtal, hset, clockByte]
  generalize clockBits.getD 15 0 = b
  cases disabled
  · show (b ||| 0x04).toNat / 2 ^ 7 = b.toNat / 2 ^ 7
    rw [BitVec.toNat_or, Nat.or_div_two_pow]
    exact Nat.or_zero _
  · show (b &&& 0xfb).toNat / 2 ^ 7 = b.toNat / 2 ^ 7
    rw [BitVec.toNat_and, Nat.and_div_two_pow, show (0xfb : Byte).toNat / 2 ^ 7 = 1 from rfl,
      Nat.and_one_is_mod]
    omega

/-- The XTAL bit is none of the fields. -/
theorem settingsOf_adjustXtal (disabled : Bool) {clockBits : List Byte}
    (hlength : 15 < clockBits.length) :
    settingsOf (adjustXtal disabled clockBits) = settingsOf clockBits := by
  have hother := fun {i : Nat} ↦ clockByte_adjustXtal disabled clockBits (i := i)
  unfold settingsOf chargePumpCurrentOf
  rw [hother (by decide : 0 ≠ 15), hother (by decide : 1 ≠ 15), hother (by decide : 2 ≠ 15),
    hother (by decide : 11 ≠ 15), hother (by decide : 12 ≠ 15), hother (by decide : 13 ≠ 15),
    hother (by decide : 16 ≠ 15), clockByte_adjustXtal_top disabled hlength]

theorem settingsOf_clockBitsOf (p : ProgData) : settingsOf (clockBitsOf p) =
    ⟨inputDividerOf (p 0).toNat (p 1).toNat, vcoDividerOf (p 1).toNat (p 2).toNat,
      loopFilterResistorOf (p 11).toNat,
      chargePumpCurrentOf (p 11).toNat (p 15).toNat (p 16).toNat,
      outputDividerOf (p 11).toNat (p 12).toNat (p 13).toNat⟩ := rfl

theorem loopFilterResistorOf_top {a : Nat} (ha : a % 128 = 0) (b : Nat) :
    loopFilterResistorOf (a + b) = loopFilterResistorOf b := by
  rw [loopFilterResistorOf, loopFilterResistorOf, show (a + b) / 2 % 4 = b / 2 % 4 by omega]

theorem chargePumpCurrentOf_top {a : Nat} (ha : a % 128 = 0) (b b15 b16 : Nat) :
    chargePumpCurrentOf (a + b) b15 b16 = chargePumpCurrentOf b b15 b16 := by
  rw [chargePumpCurrentOf, chargePumpCurrentOf, show (a + b) / 8 % 8 = b / 8 % 8 by omega]

theorem outputDividerOf_top {a b : Nat} (ha : a % 128 = 0) (hb : b < 64) (b12 b13 : Nat) :
    outputDividerOf (a + b) b12 b13 = outputDividerOf a b12 b13 := by
  rw [outputDividerOf, outputDividerOf, show (a + b) / 128 = a / 128 by omega]

/-- Each byte as the tables that name it leave it. -/
theorem ProgData.edit_tables {e1 e2 e3 e4 e5 : List Edit} (hw1 : EditsOnly [0, 1] e1)
    (hw2 : EditsOnly [1, 2] e2) (hw3 : EditsOnly [11] e3) (hw4 : EditsOnly [11, 15, 16] e4)
    (hw5 : EditsOnly [11, 12, 13] e5) (start : ProgData) :
    let progdata := ((((start.edit e1).edit e2).edit e3).edit e4).edit e5
    progdata 0 = editByte e1 0 (start 0) ∧ progdata 1 = editByte e2 1 (editByte e1 1 (start 1)) ∧
      progdata 2 = editByte e2 2 (start 2) ∧
      progdata 11 = editByte e5 11 (editByte e4 11 (editByte e3 11 (start 11))) ∧
      progdata 12 = editByte e5 12 (start 12) ∧ progdata 13 = editByte e5 13 (start 13) ∧
      progdata 15 = editByte e4 15 (start 15) ∧ progdata 16 = editByte e4 16 (start 16) := by
  simp (disch := decide) only [ProgData.edit, editByte_other hw1, editByte_other hw2, editByte_other hw3,
    editByte_other hw4, editByte_other hw5, and_self]

/-- The programming word can be read back, and it has the form the data sheet asks for. -/
theorem encodeICS30703Data_settingsOf {s : ClockSettings} (hs : SearchedSettings s) :
    ∃ progdata, encodeICS30703Data s = .ok progdata ∧ settingsOf (clockBitsOf progdata) = s ∧
      (38 ≤ s.outputDividerOut1 →
        ((outputX (progdata 12).toNat (progdata 13).toNat + 3) * 2 + outputY (progdata 12).toNat) *
          2 ^ outputZ (progdata 12).toNat = s.outputDividerOut1) := by
  obtain ⟨e1, he1, hw1, hb1, hr⟩ := inputDivider_edits hs.inputDivider.1 hs.inputDivider.2
  obtain ⟨e2, he2, hw2, hv⟩ := vcoDivider_edits hs.vcoDivider.1 hs.vcoDivider.2
  obtain ⟨e3, he3, hw3, hb3, hres⟩ := resistor_edits _ hs.loopFilterResistor
  obtain ⟨e4, he4, hw4, hcurrent⟩ := current_edits hs.chargePumpCurrent
  obtain ⟨e5, he5, hw5, htop, htop0, hod, hxyz⟩ := outputDivider_edits hs.outputDividerOut1
  obtain ⟨h0, h1, h2, h11, h12, h13, h15, h16⟩ := ProgData.edit_tables hw1 hw2 hw3 hw4 hw5
    (startProgData.edit [.or 14 0x01, .or 13 0x40])
  have hencode : encodeICS30703Data s = .ok (((((startProgData.edit [.or 14 0x01, .or 13 0x40]).edit e1).edit
      e2).edit e3).edit e4 |>.edit e5) := by
    rw [encodeICS30703Data, Option.mem_def.mp he1, Option.mem_def.mp he2, Option.mem_def.mp he3,
      Option.mem_def.mp he4, Option.mem_def.mp he5]
    rfl
  refine ⟨_, hencode, ?_, ?_⟩
  · obtain ⟨hv1, hv2⟩ := hv (editByte e1 1 0) hb1
    obtain ⟨hb4, hres4, hcurrent4⟩ := hcurrent _ hb3
    have hinput : inputDividerOf (editByte e1 0 0).toNat (editByte e2 1 (editByte e1 1 0)).toNat =
        s.inputDivider := by
      rw [← hr, inputDividerOf, hv1, inputDividerOf, Nat.mod_eq_of_lt hb1]
    have hresistor : loopFilterResistorOf
        (editByte e5 11 (editByte e4 11 (editByte e3 11 0))).toNat = s.loopFilterResistor := by
      rw [← hres, ← hres4, htop _ hb4, loopFilterResistorOf_top htop0]
    have hcharge : chargePumpCurrentOf (editByte e5 11 (editByte e4 11 (editByte e3 11 0))).toNat
        (editByte e4 15 0x04).toNat (editByte e4 16 0).toNat = s.chargePumpCurrent := by
      rw [← hcurrent4, htop _ hb4, chargePumpCurrentOf_top htop0]
    have houtput : outputDividerOf (editByte e5 11 (editByte e4 11 (editByte e3 11 0))).toNat
        (editByte e5 12 0).toNat (editByte e5 13 0x40).toNat = s.outputDividerOut1 := by
      rw [← hod, htop _ hb4, outputDividerOf_top htop0 hb4]
    rw [settingsOf_clockBitsOf, h0, h1, h2, h11, h12, h13, h15, h16]
    exact ClockSettings.ext hinput hv2 hresistor hcharge houtput
  · rw [h12, h13]
    exact hxyz

/-- The programming word loses nothing of what the search has found, whatever the driver does to the
XTAL bit afterwards. -/
theorem encodeICS30703Data_injective {s s' : ClockSettings} (hs : SearchedSettings s)
    (hs' : SearchedSettings s') :
    ∃ progdata progdata', encodeICS30703Data s = .ok progdata ∧ encodeICS30703Data s' = .ok progdata' ∧
      (38 ≤ s.outputDividerOut1 →
        ((outputX (progdata 12).toNat (progdata 13).toNat + 3) * 2 + outputY (progdata 12).toNat) *
          2 ^ outputZ (progdata 12).toNat = s.outputDividerOut1) ∧
      (clockBitsOf progdata = clockBitsOf progdata' → s = s') ∧
      ∀ disabled disabled', adjustXtal disabled (clockBitsOf progdata) =
        adjustXtal disabled' (clockBitsOf progdata') → s = s' := by
  obtain ⟨progdata, hencode, hsettings, hform⟩ := encodeICS30703Data_settingsOf hs
  obtain ⟨progdata', hencode', hsettings', -⟩ := encodeICS30703Data_settingsOf hs'
  have hlength : ∀ progdata, 15 < (clockBitsOf progdata).length := by
    intro progdata
    rw [clockBitsOf, List.length_ofFn]
    decide
  refine ⟨progdata, progdata', hencode, hencode', hform, fun hbits ↦ ?_,
    fun disabled disabled' hbits ↦ ?_⟩
  · rw [← hsettings, ← hsettings', hbits]
  · rw [← hsettings, ← hsettings', ← settingsOf_adjustXtal disabled (hlength progdata), hbits,
      settingsOf_adjustXtal disabled' (hlength progdata')]

theorem encodeICS30703Data_injective_extremes :
    ∃ progdata progdata', encodeICS30703Data ⟨1, 12, 64000, 125, 8232⟩ = .ok progdata ∧
      encodeICS30703Data ⟨1200, 2055, 4000, 4000, 8224⟩ = .ok progdata' ∧
      clockBitsOf progdata ≠ clockBitsOf progdata' := by
  have hfirst : SearchedSettings ⟨1, 12, 64000, 125, 8232⟩ :=
    ⟨by decide, by decide, by decide, by decide, .start⟩
  have hlast : SearchedSettings ⟨1200, 2055, 4000, 4000, 8224⟩ :=
    ⟨by decide, by decide, by decide, by decide, VisitedOd.start.next (by decide)⟩
  obtain ⟨progdata, progdata', hencode, hencode', -, hinjective, -⟩ :=
    encodeICS30703Data_injective hfirst hlast
  refine ⟨progdata, progdata', hencode, hencode', fun hbits ↦ ?_⟩
  have hsame := hinjective hbits
  exact absurd hsame (by decide)

end FsccDriver

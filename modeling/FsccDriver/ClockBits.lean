import FsccDriver.Card

/-!
# ClockBits — `fscc_port_set_clock_bits`

The clock generator is programmed through lines that are bits of FCR: the driver computes the 323
values FCR goes through and writes them in one block transfer.
-/

namespace FsccDriver

variable {H : Type}

def fsccPortGetPREV (hw : Hardware H) (channel : Nat) (h : H) : BitVec 32 × H :=
  let (vstrValue, h) := fsccPortGetRegister hw channel 0 vstrOffset h
  ((vstrValue &&& 0x0000FF00) >>> 8, h)

def fsccPortGetPDEV (hw : Hardware H) (channel : Nat) (h : H) : BitVec 32 × H :=
  let (vstrValue, h) := fsccPortGetRegister hw channel 0 vstrOffset h
  ((vstrValue &&& 0xFFFF0000) >>> 16, h)

-- The condition under which XTAL is switched off, with the register reads in the order of `||`.
def xtalDisabled (hw : Hardware H) (channel : Nat) (h : H) : Bool × H :=
  let (pdev, h) := fsccPortGetPDEV hw channel h
  let (green, h) :=
    if pdev = 0x0f then
      let (prev, h) := fsccPortGetPREV hw channel h
      (decide (prev ≤ 6), h)
    else (false, h)
  if green then (true, h)
  else
    let (pdev, h) := fsccPortGetPDEV hw channel h
    (decide (pdev = 0x16), h)

/-- `clock_bits` after the XTAL bit of byte 15 has been settled. -/
def adjustXtal (disabled : Bool) (clockBits : List Byte) : List Byte :=
  clockBits.set 15
    (if disabled then clockBits.getD 15 0 &&& 0xfb else clockBits.getD 15 0 ||| 0x04)

def strbBase : BitVec 32 := 0x00000008
def dtaBase : BitVec 32 := 0x00000001
def clkBase : BitVec 32 := 0x00000002

/-- The bits from byte 19 bit 7 down to byte 0 bit 0. -/
def clockSequence (clockBits : List Byte) : List Bool :=
  (List.range 20).reverse.flatMap fun i ↦
    (List.range 8).reverse.map fun j ↦ (clockBits.getD i 0).getLsbD j

-- Each bit is put on the data line and the clock line goes up and down once.
def clockLoop (dta clk : BitVec 32) : List Bool → BitVec 32 → List (BitVec 32)
  | [], _ => []
  | bit :: bits, value =>
      let value := if bit then value ||| dta else value &&& ~~~dta
      let high := value ||| clk
      let low := high &&& ~~~clk
      high :: low :: clockLoop dta clk bits low

/-- The values FCR goes through. -/
def clockWords (channel : Nat) (origFcr : BitVec 32) (clockBits : List Byte) : List (BitVec 32) :=
  let shift := if channel = 1 then 8 else 0
  let idle := origFcr &&& 0xfffff0f0
  idle :: clockLoop (dtaBase <<< shift) (clkBase <<< shift) (clockSequence clockBits) idle ++
    [(idle ||| strbBase <<< shift) &&& ~~~(clkBase <<< shift), origFcr]

-- `allocated` says whether there was memory for the values.
def fsccPortSetClockBits (hw : Hardware H) (allocated : Bool) (channel : Nat)
    (clockBits : List Byte) (h : H) : H :=
  let (disabled, h) := xtalDisabled hw channel h
  if allocated then
    let (origFcr, h) := fsccCardGetRegister hw 2 fcrOffset h
    let data := clockWords channel origFcr (adjustXtal disabled clockBits)
    fsccPortSetRegisterRep hw channel 2 fcrOffset (Bytes.ofWords data) (data.length * 4) h
  else h

theorem clockWords_last (channel : Nat) (origFcr : BitVec 32) (clockBits : List Byte) :
    ∃ words, clockWords channel origFcr clockBits = words ++ [origFcr] := by
  exact ⟨_, (List.append_assoc _ [_] [origFcr]).symm⟩

/-- A block of whole words is sent as it is. -/
theorem setRegisterRepWords_ofWords (words : List (BitVec 32)) :
    setRegisterRepWords (Bytes.ofWords words) (words.length * 4) = words := by
  have hleft : words.length * 4 % 4 = 0 := Nat.mul_mod_left _ _
  rw [setRegisterRepWords, hleft, if_neg (not_not.mpr rfl), List.append_nil, Nat.sub_zero,
    Nat.mul_div_cancel _ (by decide)]
  exact Bytes.wordAt_ofWords words

/-! ## What the values have in common -/

/-- The bits of FCR that are not lines of a clock generator. -/
def clockMask : BitVec 32 := 0xfffff0f0

theorem and_or_mask {m x b : BitVec 32} (hb : b &&& m = 0#32) : (x ||| b) &&& m = x &&& m := by
  rw [BitVec.and_or_distrib_right, hb, BitVec.or_zero]

theorem and_not_mask {m x b : BitVec 32} (hb : ~~~b &&& m = m) : x &&& ~~~b &&& m = x &&& m := by
  rw [BitVec.and_assoc, hb]

/-- A line of a clock generator: neither setting nor clearing it touches the bits of the mask. -/
def ClockLine (line : BitVec 32) : Prop := line &&& clockMask = 0#32 ∧ ~~~line &&& clockMask = clockMask

theorem clockLoop_mask {dta clk : BitVec 32} (hdta : ClockLine dta) (hclk : ClockLine clk)
    (bits : List Bool) (value : BitVec 32) :
    ∀ word ∈ clockLoop dta clk bits value, word &&& clockMask = value &&& clockMask := by
  induction bits generalizing value with
  | nil => exact fun _ hword ↦ absurd hword List.not_mem_nil
  | cons bit bits ih =>
    have hvalue : (if bit then value ||| dta else value &&& ~~~dta) &&& clockMask =
        value &&& clockMask := by
      cases bit
      · exact and_not_mask hdta.2
      · exact and_or_mask hdta.1
    intro word hword
    rw [clockLoop] at hword
    generalize (if bit then value ||| dta else value &&& ~~~dta) = settled at hword hvalue
    rw [← hvalue]
    rcases List.mem_cons.mp hword with rfl | hword
    · exact and_or_mask hclk.1
    rcases List.mem_cons.mp hword with rfl | hword
    · exact (and_not_mask hclk.2).trans (and_or_mask hclk.1)
    · exact (ih _ word hword).trans ((and_not_mask hclk.2).trans (and_or_mask hclk.1))

/-- Programming the clock touches the lines of the clock generators only. -/
theorem clockWords_mask (channel : Fin 2) (origFcr : BitVec 32) (clockBits : List Byte) :
    ∀ word ∈ clockWords channel origFcr clockBits, word &&& clockMask = origFcr &&& clockMask := by
  have hlines : ∀ channel : Fin 2, ClockLine (dtaBase <<< if channel.val = 1 then 8 else 0) ∧
      ClockLine (clkBase <<< if channel.val = 1 then 8 else 0) ∧
      ClockLine (strbBase <<< if channel.val = 1 then 8 else 0) := by
    unfold ClockLine
    decide
  obtain ⟨hdta, hclk, hstrb⟩ := hlines channel
  have hidle : origFcr &&& 0xfffff0f0 &&& clockMask = origFcr &&& clockMask := by
    rw [BitVec.and_assoc]
    rfl
  intro word hword
  rw [clockWords] at hword
  rcases List.mem_append.mp hword with hfirst | hlast
  · rcases List.mem_cons.mp hfirst with rfl | hloop
    · exact hidle
    · exact (clockLoop_mask hdta hclk _ _ word hloop).trans hidle
  · rcases List.mem_cons.mp hlast with rfl | hlast
    · exact (and_not_mask hclk.2).trans ((and_or_mask hstrb.1).trans hidle)
    · rw [List.mem_singleton.mp hlast]

end FsccDriver

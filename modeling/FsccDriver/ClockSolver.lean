import FsccDriver.Lib.RunningBest
import FsccDriver.Lib.Words

/-!
# ClockSolver — `GetICS30702Data`

The solver tries all dividers of the ICS307-02, keeps the best frequency below the rate and the best
one above it, and returns the closer of the two.  `unsigned long` has 32 bits.
-/

namespace FsccDriver

open Words RunningBest

/-! ## The source -/

/-- `struct clock_data_335`. -/
structure ClockData where
  frequency : BitVec 32
  clockBits : BitVec 32

/-- Output divider, VCO divider word and reference divider word. -/
structure Dividers where
  od : Nat
  vdw : Nat
  rdw : Nat
  deriving DecidableEq

def inFreq : Nat := 18432000

def Dividers.check (d : Dividers) : Nat :=
  inFreq * 2 / ((d.rdw + 2) * d.od) * (d.vdw + 8) % 4294967296

def Dividers.range1 (d : Dividers) : Nat := inFreq * 2 * (d.vdw + 8) % 4294967296 / (d.rdw + 2)

def Dividers.range2 (d : Dividers) : Nat := inFreq / (d.rdw + 2)

/-- The test of the operating ranges, on words. -/
def Dividers.InRanges (d : Dividers) : Prop :=
  d.range1 > 60000000 ∧ d.range1 < 360000000 ∧ d.range2 > 200000

instance (d : Dividers) : Decidable d.InRanges :=
  inferInstanceAs (Decidable (d.range1 > 60000000 ∧ d.range1 < 360000000 ∧ d.range2 > 200000))

-- Whether the rate is above the maximum frequency with this output divider.
def odskip (rate : Nat) : (od : Nat) → Bool
  | 2 => decide (rate > 180000000)
  | 3 => decide (rate > 120000000)
  | 4 => decide (rate > 90000000)
  | 5 => decide (rate > 72000000)
  | 6 => decide (rate > 60000000)
  | 7 => decide (rate > 50000000)
  | 8 => decide (rate > 45000000)
  | 10 => decide (rate > 36000000)
  | _ => true

structure Search where
  low : Nat
  hi : Nat
  l : Dividers
  h : Dividers

-- A lower rdw, or the same rdw and a higher vdw.
def Dividers.Replaces (d old : Dividers) : Prop :=
  old.rdw > d.rdw ∨ old.rdw = d.rdw ∧ old.vdw < d.vdw

instance (d old : Dividers) : Decidable (d.Replaces old) :=
  inferInstanceAs (Decidable (old.rdw > d.rdw ∨ old.rdw = d.rdw ∧ old.vdw < d.vdw))

-- The body of the inner loop.
def tryDividers (rate : Nat) (s : Search) (d : Dividers) : Search :=
  let check := d.check
  if d.InRanges then
    let s :=
      if check = s.low then
        if d.Replaces s.l then { s with low := check, l := d } else s
      else if check = s.hi then
        if d.Replaces s.h then { s with hi := check, h := d } else s
      else s
    if check > s.low ∧ check < s.hi then
      if check > rate then { s with hi := check, h := d } else { s with low := check, l := d }
    else s
  else s

def vdwLoop (rate od rdw : Nat) (s : Search) : Search :=
  (List.range' 4 508).foldl (fun s vdw ↦ tryDividers rate s ⟨od, vdw, rdw⟩) s

def rdwLoop (rate od : Nat) (s : Search) : Search :=
  (List.range' 1 127).foldl (fun s rdw ↦ vdwLoop rate od rdw s) s

-- `od++` steps over 9.
def ods : List Nat := [2, 3, 4, 5, 6, 7, 8, 10]

def odLoop (rate : Nat) (s : Search) : Search :=
  ods.foldl (fun s od ↦ if odskip rate od then s else rdwLoop rate od s) s

def searchStart (rate : Nat) : Search :=
  { low := rate - rate / 10, hi := (rate + rate / 10) % 4294967296, l := ⟨1, 1, 1⟩, h := ⟨1, 1, 1⟩ }

def Search.best (rate : Nat) (s : Search) : Dividers :=
  if u32 ((s.hi : Int) - rate) < u32 ((rate : Int) - s.low) then s.h else s.l

def odBits : Nat → Option Nat
  | 2 => some 0x11
  | 3 => some 0x16
  | 4 => some 0x13
  | 5 => some 0x14
  | 6 => some 0x17
  | 7 => some 0x15
  | 8 => some 0x12
  | 10 => some 0x10
  | _ => none

def getICS30702Data (clockData : ClockData) : Nat × ClockData :=
  let rate := clockData.frequency.toNat
  let best := (odLoop rate (searchStart rate)).best rate
  match odBits best.od with
  | none => (1, { clockData with frequency := 0 })
  | some result =>
      (0, { frequency := BitVec.ofNat 32 best.check
            clockBits := BitVec.ofNat 32 ((result <<< 9 ||| best.vdw) <<< 7 ||| best.rdw) })

/-! ## What it is for -/

/-- The output frequency. -/
def Dividers.freq (d : Dividers) : Nat := inFreq * 2 / ((d.rdw + 2) * d.od) * (d.vdw + 8)

/-- `60 MHz < 2 * inFreq * (vdw + 8) / (rdw + 2) < 360 MHz` and `200 kHz < inFreq / (rdw + 2)`, in exact
arithmetic. -/
def Dividers.Operates (d : Dividers) : Prop :=
  60000000 * (d.rdw + 2) < 2 * inFreq * (d.vdw + 8) ∧
    2 * inFreq * (d.vdw + 8) < 360000000 * (d.rdw + 2) ∧ 200000 * (d.rdw + 2) < inFreq

instance (d : Dividers) : Decidable d.Operates :=
  inferInstanceAs (Decidable (_ ∧ _ ∧ _))

/-- The dividers there are for a rate. -/
structure Candidate (rate : Nat) (d : Dividers) : Prop where
  od : d.od ∈ ods
  allowed : odskip rate d.od = false
  le_vdw : 4 ≤ d.vdw
  vdw_le : d.vdw ≤ 511
  le_rdw : 1 ≤ d.rdw
  rdw_le : d.rdw ≤ 127

def distance (rate : Nat) (d : Dividers) : Nat := ((d.freq : Int) - rate).natAbs

def odOfBits : Nat → Option Nat
  | 0x11 => some 2
  | 0x16 => some 3
  | 0x13 => some 4
  | 0x14 => some 5
  | 0x17 => some 6
  | 0x15 => some 7
  | 0x12 => some 8
  | 0x10 => some 10
  | _ => none

/-- The dividers that `clock_bits` stand for. -/
def decodeClockBits (clockBits : BitVec 32) : Option Dividers :=
  (odOfBits (clockBits.toNat >>> 16)).map fun od ↦
    ⟨od, clockBits.toNat >>> 7 &&& 0x1ff, clockBits.toNat &&& 0x7f⟩

/-- The solver is sound and optimal, and it does not give up on a rate it can come close to. -/
def SolvesExactly (clockData : ClockData) : Prop :=
  let rate := clockData.frequency.toNat
  let (ret, solved) := getICS30702Data clockData
  (ret = 0 → ∃ d, decodeClockBits solved.clockBits = some d ∧ Candidate rate d ∧ d.Operates ∧
    solved.frequency.toNat = d.freq ∧
    ∀ d', Candidate rate d' → d'.Operates → distance rate d ≤ distance rate d') ∧
  ((∃ d, Candidate rate d ∧ d.Operates ∧ distance rate d < rate / 10) → ret = 0)

/-! ## The search -/

section Search

variable {rate : Nat} {d d' : Dividers} {xs : List Dividers} {s : Search} {l h : Option Dividers}

def candidates (rate : Nat) : List Dividers :=
  ods.flatMap fun od ↦
    if odskip rate od then []
    else (List.range' 1 127).flatMap fun rdw ↦ (List.range' 4 508).map fun vdw ↦ ⟨od, vdw, rdw⟩

theorem mem_candidates : d ∈ candidates rate ↔ Candidate rate d := by
  obtain ⟨od, vdw, rdw⟩ := d
  have hinner : ∀ od', (⟨od, vdw, rdw⟩ : Dividers) ∈
      (if odskip rate od' then [] else (List.range' 1 127).flatMap fun rdw ↦
        (List.range' 4 508).map fun vdw ↦ (⟨od', vdw, rdw⟩ : Dividers)) ↔
      od' = od ∧ odskip rate od' = false ∧ (1 ≤ rdw ∧ rdw < 128) ∧ 4 ≤ vdw ∧ vdw < 512 := by
    intro od'
    cases odskip rate od' with
    | true => simp
    | false =>
      simp
      omega
  rw [candidates, List.mem_flatMap]
  simp only [hinner]
  constructor
  · rintro ⟨_, hod, rfl, hskip, hrdw, hvdw⟩
    exact ⟨hod, hskip, hvdw.1, Nat.le_of_lt_succ hvdw.2, hrdw.1, Nat.le_of_lt_succ hrdw.2⟩
  · intro h
    exact ⟨od, h.od, rfl, h.allowed, ⟨h.le_rdw, Nat.lt_succ_of_le h.rdw_le⟩, h.le_vdw,
      Nat.lt_succ_of_le h.vdw_le⟩

theorem odLoop_eq (rate : Nat) (s : Search) :
    odLoop rate s = (candidates rate).foldl (tryDividers rate) s := by
  have hrdw : ∀ od s, rdwLoop rate od s = ((List.range' 1 127).flatMap fun rdw ↦
      (List.range' 4 508).map fun vdw ↦ (⟨od, vdw, rdw⟩ : Dividers)).foldl (tryDividers rate) s := by
    intro od s
    rw [List.foldl_flatMap]
    simp only [List.foldl_map]
    rfl
  rw [candidates, List.foldl_flatMap, odLoop]
  congr 1
  funext s od
  cases hskip : odskip rate od with
  | true => rfl
  | false => exact hrdw od s

-- The product in `check` stays below `2 ^ 32`.
theorem check_eq_freq (hod : 2 ≤ d.od) (hrdw : 1 ≤ d.rdw) (hvdw : d.vdw ≤ 511) :
    d.check = d.freq := by
  have hle : inFreq * 2 / ((d.rdw + 2) * d.od) ≤ inFreq * 2 / (3 * 2) :=
    Nat.div_le_div_left (Nat.mul_le_mul (by omega) hod) (by decide)
  have hmul : d.freq ≤ 6144000 * 519 := Nat.mul_le_mul hle (by omega)
  exact Nat.mod_eq_of_lt (Nat.lt_of_le_of_lt hmul (by decide))

theorem Candidate.two_le (h : Candidate rate d) : 2 ≤ d.od := by
  have hall : ∀ od ∈ ods, 2 ≤ od := by decide
  exact hall _ h.od

/-- The order in which the search prefers dividers: the closer frequency, of two at the same distance
the lower one, and for one frequency the lower `rdw`, then the higher `vdw`. -/
def Preferred (rate : Nat) (d d' : Dividers) : Prop :=
  distance rate d < distance rate d' ∨ distance rate d = distance rate d' ∧
    (d.freq < d'.freq ∨ d.freq = d'.freq ∧ ¬ d'.Replaces d)

theorem Preferred.refl (rate : Nat) (d : Dividers) : Preferred rate d d := by
  unfold Preferred Dividers.Replaces
  omega

theorem Preferred.trans (a b c : Dividers) (hab : Preferred rate a b) (hbc : Preferred rate b c) :
    Preferred rate a c := by
  unfold Preferred Dividers.Replaces at *
  omega

-- What the search can take: dividers less than a tenth of the rate away, and those just as far below
-- with `rdw = 1`, the value the best `rdw` starts with.
def Within (rate : Nat) (d : Dividers) : Prop :=
  distance rate d < rate / 10 ∨ d.freq + rate / 10 = rate ∧ d.rdw = 1

def GoodLow (rate : Nat) (d : Dividers) : Prop := d.InRanges ∧ Within rate d ∧ d.freq ≤ rate

def GoodHigh (rate : Nat) (d : Dividers) : Prop := d.InRanges ∧ Within rate d ∧ rate < d.freq

theorem good_iff : GoodLow rate d ∨ GoodHigh rate d ↔ d.InRanges ∧ Within rate d := by
  unfold GoodLow GoodHigh
  have htotal := le_or_gt d.freq rate
  tauto

theorem distance_eq (rate : Nat) (d : Dividers) :
    distance rate d = (d.freq - rate) + (rate - d.freq) := by
  unfold distance
  omega

-- What the variables of the search hold of the best dividers on either side.
def HoldsLow (rate : Nat) (s : Search) : Option Dividers → Prop
  | none => s.low = rate - rate / 10 ∧ s.l = ⟨1, 1, 1⟩
  | some d => s.low = d.freq ∧ s.l = d

def HoldsHigh (rate : Nat) (s : Search) : Option Dividers → Prop
  | none => s.hi = rate + rate / 10
  | some d => s.hi = d.freq ∧ s.h = d

/-- The search after `xs`: `l` and `h` are the best dividers on the two sides of the rate. -/
structure Searched (rate : Nat) (xs : List Dividers) (s : Search) (l h : Option Dividers) : Prop where
  bestLow : IsBest (GoodLow rate) (Preferred rate) xs l
  bestHigh : IsBest (GoodHigh rate) (Preferred rate) xs h
  low : HoldsLow rate s l
  high : HoldsHigh rate s h

theorem Searched.start (hrate : rate ≤ 180000000) : Searched rate [] (searchStart rate) none none where
  bestLow := IsBest.nil
  bestHigh := IsBest.nil
  low := ⟨rfl, rfl⟩
  high := Nat.mod_eq_of_lt (by omega)

-- What one round of the inner loop does.
theorem tryDividers_cases (rate : Nat) (s : Search) (d : Dividers) :
    (¬ d.InRanges ∧ tryDividers rate s d = s) ∨
    (d.InRanges ∧ d.check = s.low ∧
      tryDividers rate s d = if d.Replaces s.l then { s with l := d } else s) ∨
    (d.InRanges ∧ d.check ≠ s.low ∧ d.check = s.hi ∧
      tryDividers rate s d = if d.Replaces s.h then { s with h := d } else s) ∨
    (d.InRanges ∧ s.low < d.check ∧ d.check < s.hi ∧ rate < d.check ∧
      tryDividers rate s d = { s with hi := d.check, h := d }) ∨
    (d.InRanges ∧ s.low < d.check ∧ d.check < s.hi ∧ d.check ≤ rate ∧
      tryDividers rate s d = { s with low := d.check, l := d }) ∨
    (d.InRanges ∧ (d.check < s.low ∨ s.hi < d.check) ∧ tryDividers rate s d = s) := by
  unfold tryDividers
  generalize d.check = check
  by_cases hranges : d.InRanges
  · simp only [if_pos hranges]
    by_cases hlow : check = s.low
    · subst hlow
      refine Or.inr (Or.inl ⟨hranges, rfl, ?_⟩)
      by_cases hbetter : d.Replaces s.l
      · simp [hbetter]
      · simp [hbetter]
    · by_cases hhigh : check = s.hi
      · subst hhigh
        refine Or.inr (Or.inr (Or.inl ⟨hranges, hlow, rfl, ?_⟩))
        by_cases hbetter : d.Replaces s.h
        · simp [hlow, hbetter]
        · simp [hlow, hbetter]
      · by_cases hbetween : check > s.low ∧ check < s.hi
        · by_cases habove : check > rate
          · refine Or.inr (Or.inr (Or.inr (Or.inl ⟨hranges, hbetween.1, hbetween.2, habove, ?_⟩)))
            simp [hlow, hhigh, hbetween, habove]
          · refine Or.inr (Or.inr (Or.inr (Or.inr (Or.inl
              ⟨hranges, hbetween.1, hbetween.2, Nat.le_of_not_lt habove, ?_⟩))))
            simp [hlow, hhigh, hbetween, habove]
        · refine Or.inr (Or.inr (Or.inr (Or.inr (Or.inr ⟨hranges, by omega, ?_⟩))))
          simp [hlow, hhigh, hbetween]
  · exact Or.inl ⟨hranges, if_neg hranges⟩

theorem goodLow_iff (hranges : d.InRanges) : GoodLow rate d ↔
    d.freq ≤ rate ∧ (rate - rate / 10 < d.freq ∨ d.freq = rate - rate / 10 ∧ d.rdw = 1) := by
  have hdist := distance_eq rate d
  unfold GoodLow Within
  rw [and_iff_right hranges]
  omega

theorem goodHigh_iff (hranges : d.InRanges) :
    GoodHigh rate d ↔ rate < d.freq ∧ d.freq < rate + rate / 10 := by
  have hdist := distance_eq rate d
  unfold GoodHigh Within
  rw [and_iff_right hranges]
  omega

theorem preferred_low (hle : d.freq ≤ rate) (hlt : d'.freq < d.freq) : Preferred rate d d' := by
  have hdist := distance_eq rate d
  have hdist' := distance_eq rate d'
  exact Or.inl (by omega)

theorem preferred_high (hle : rate ≤ d.freq) (hlt : d.freq < d'.freq) : Preferred rate d d' := by
  have hdist := distance_eq rate d
  have hdist' := distance_eq rate d'
  exact Or.inl (by omega)

theorem preferred_tie (heq : d.freq = d'.freq) (hkeep : ¬ d'.Replaces d) : Preferred rate d d' := by
  have hdist := distance_eq rate d
  have hdist' := distance_eq rate d'
  exact Or.inr ⟨by omega, Or.inr ⟨heq, hkeep⟩⟩

theorem Dividers.Replaces.not_symm (h : d.Replaces d') : ¬ d'.Replaces d := by
  unfold Dividers.Replaces at *
  omega

theorem Searched.bounds (hs : Searched rate xs s l h) :
    rate - rate / 10 ≤ s.low ∧ s.low ≤ rate ∧ (rate < s.hi ∨ rate / 10 = 0 ∧ s.hi = rate) ∧
      s.hi ≤ rate + rate / 10 := by
  have hl : rate - rate / 10 ≤ s.low ∧ s.low ≤ rate := by
    cases l with
    | none =>
      have hlow : s.low = rate - rate / 10 := hs.low.1
      omega
    | some d =>
      have hgood := (goodLow_iff hs.bestLow.2.1.1).mp hs.bestLow.2.1
      have hlow : s.low = d.freq := hs.low.1
      omega
  have hh : (rate < s.hi ∨ rate / 10 = 0 ∧ s.hi = rate) ∧ s.hi ≤ rate + rate / 10 := by
    cases h with
    | none =>
      have hhigh : s.hi = rate + rate / 10 := hs.high
      omega
    | some d =>
      have hgood := (goodHigh_iff hs.bestHigh.2.1.1).mp hs.bestHigh.2.1
      have hhigh : s.hi = d.freq := hs.high.1
      omega
  exact ⟨hl.1, hl.2, hh.1, hh.2⟩

/-! One round of the loop, branch by branch. -/

-- The frequency of the best dividers below, once more.
theorem Searched.tieLow (hs : Searched rate xs s l h) (hranges : d.InRanges) (hrdw : 1 ≤ d.rdw)
    (hvdw : 4 ≤ d.vdw) (heq : d.freq = s.low) :
    ∃ l', Searched rate (xs ++ [d]) (if d.Replaces s.l then { s with l := d } else s) l' h := by
  obtain ⟨hlow₀, hlow, -, -⟩ := hs.bounds
  have hgoodLow : GoodLow rate d ↔ _ := goodLow_iff hranges
  have hhigh : IsBest (GoodHigh rate) (Preferred rate) (xs ++ [d]) h := by
    apply hs.bestHigh.pass
    rw [goodHigh_iff hranges]
    omega
  cases l with
  | none =>
    obtain ⟨hstart, hl⟩ := hs.low
    by_cases hbetter : d.Replaces s.l
    · rw [if_pos hbetter]
      have hone : d.rdw = 1 := by
        rw [hl] at hbetter
        unfold Dividers.Replaces at hbetter
        dsimp only at hbetter
        omega
      refine ⟨some d, hs.bestLow.replace Preferred.trans ?_ (Preferred.refl rate d) ?_, hhigh,
        ⟨heq.symm, rfl⟩, hs.high⟩
      · rw [hgoodLow]
        omega
      · intro b hb
        cases hb
    · rw [if_neg hbetter]
      refine ⟨none, hs.bestLow.pass ?_, hhigh, hs.low, hs.high⟩
      rw [hl] at hbetter
      unfold Dividers.Replaces at hbetter
      dsimp only at hbetter
      rw [hgoodLow]
      omega
  | some b =>
    obtain ⟨hfreq, hl⟩ := hs.low
    have hgood := (goodLow_iff hs.bestLow.2.1.1).mp hs.bestLow.2.1
    rw [hl]
    by_cases hbetter : d.Replaces b
    · rw [if_pos hbetter]
      refine ⟨some d, hs.bestLow.replace Preferred.trans ?_ (Preferred.refl rate d) ?_, hhigh,
        ⟨heq.symm, rfl⟩, hs.high⟩
      · unfold Dividers.Replaces at hbetter
        rw [hgoodLow]
        omega
      · rintro _ ⟨⟩
        exact preferred_tie (heq.trans hfreq) hbetter.not_symm
    · rw [if_neg hbetter]
      exact ⟨some b, hs.bestLow.keep (preferred_tie (heq.trans hfreq).symm hbetter), hhigh,
        ⟨hfreq, hl⟩, hs.high⟩

-- The frequency of the best dividers above, once more.
theorem Searched.tieHigh (hs : Searched rate xs s l h) (hranges : d.InRanges) (hne : d.freq ≠ s.low)
    (heq : d.freq = s.hi) :
    ∃ h', Searched rate (xs ++ [d]) (if d.Replaces s.h then { s with h := d } else s) l h' := by
  obtain ⟨hlow₀, hlow, hhi, hhi₀⟩ := hs.bounds
  have hpassLow : IsBest (GoodLow rate) (Preferred rate) (xs ++ [d]) l := by
    apply hs.bestLow.pass
    rw [goodLow_iff hranges]
    omega
  cases h with
  | none =>
    have hstart : s.hi = rate + rate / 10 := hs.high
    refine ⟨none, hpassLow, hs.bestHigh.pass ?_, ?_, ?_⟩
    · rw [goodHigh_iff hranges]
      omega
    · split
      · exact hs.low
      · exact hs.low
    · split
      · exact hs.high
      · exact hs.high
  | some b =>
    obtain ⟨hfreq, hh⟩ := hs.high
    have hgood := (goodHigh_iff hs.bestHigh.2.1.1).mp hs.bestHigh.2.1
    rw [hh]
    by_cases hbetter : d.Replaces b
    · rw [if_pos hbetter]
      refine ⟨some d, hpassLow, hs.bestHigh.replace Preferred.trans ?_ (Preferred.refl rate d) ?_,
        hs.low, heq.symm, rfl⟩
      · rw [goodHigh_iff hranges]
        omega
      · rintro _ ⟨⟩
        exact preferred_tie (heq.trans hfreq) hbetter.not_symm
    · rw [if_neg hbetter]
      exact ⟨some b, hpassLow, hs.bestHigh.keep (preferred_tie (heq.trans hfreq).symm hbetter),
        hs.low, hfreq, hh⟩

-- A frequency that comes closer on either side.
theorem Searched.closerHigh (hs : Searched rate xs s l h) (hranges : d.InRanges)
    (hrate : rate < d.freq) (hlt : d.freq < s.hi) :
    Searched rate (xs ++ [d]) { s with hi := d.freq, h := d } l (some d) := by
  obtain ⟨-, -, -, hhi₀⟩ := hs.bounds
  refine ⟨hs.bestLow.pass ?_, hs.bestHigh.replace Preferred.trans ?_ (Preferred.refl rate d) ?_,
    hs.low, rfl, rfl⟩
  · rw [goodLow_iff hranges]
    omega
  · rw [goodHigh_iff hranges]
    omega
  · rintro b rfl
    have hfreq : s.hi = b.freq := hs.high.1
    exact preferred_high (Nat.le_of_lt hrate) (by omega)

theorem Searched.closerLow (hs : Searched rate xs s l h) (hranges : d.InRanges)
    (hrate : d.freq ≤ rate) (hlt : s.low < d.freq) :
    Searched rate (xs ++ [d]) { s with low := d.freq, l := d } (some d) h := by
  obtain ⟨hlow₀, -, -, -⟩ := hs.bounds
  refine ⟨hs.bestLow.replace Preferred.trans ?_ (Preferred.refl rate d) ?_, hs.bestHigh.pass ?_,
    ⟨rfl, rfl⟩, hs.high⟩
  · rw [goodLow_iff hranges]
    omega
  · rintro b rfl
    have hfreq : s.low = b.freq := hs.low.1
    exact preferred_low hrate (by omega)
  · rw [goodHigh_iff hranges]
    omega

-- A frequency that is further away.
theorem Searched.further (hs : Searched rate xs s l h) (hranges : d.InRanges)
    (hout : d.freq < s.low ∨ s.hi < d.freq) : Searched rate (xs ++ [d]) s l h := by
  obtain ⟨hlow₀, hlow, hhi, hhi₀⟩ := hs.bounds
  refine ⟨?_, ?_, hs.low, hs.high⟩
  · by_cases hgood : GoodLow rate d
    · have hbelow := (goodLow_iff hranges).mp hgood
      cases l with
      | none =>
        have hstart : s.low = rate - rate / 10 := hs.low.1
        omega
      | some b =>
        have hfreq : s.low = b.freq := hs.low.1
        exact hs.bestLow.keep (preferred_low (by omega) (by omega))
    · exact hs.bestLow.pass hgood
  · by_cases hgood : GoodHigh rate d
    · have habove := (goodHigh_iff hranges).mp hgood
      cases h with
      | none =>
        have hstart : s.hi = rate + rate / 10 := hs.high
        omega
      | some b =>
        have hfreq : s.hi = b.freq := hs.high.1
        exact hs.bestHigh.keep (preferred_high (by omega) (by omega))
    · exact hs.bestHigh.pass hgood

theorem Searched.step (hs : Searched rate xs s l h) (hcheck : d.check = d.freq) (hrdw : 1 ≤ d.rdw)
    (hvdw : 4 ≤ d.vdw) : ∃ l' h', Searched rate (xs ++ [d]) (tryDividers rate s d) l' h' := by
  have hcases := tryDividers_cases rate s d
  rw [hcheck] at hcases
  rcases hcases with ⟨hout, hstep⟩ | ⟨hranges, heq, hstep⟩ | ⟨hranges, hne, heq, hstep⟩ |
    ⟨hranges, hlow, hhi, hrate, hstep⟩ | ⟨hranges, hlow, hhi, hrate, hstep⟩ | ⟨hranges, hout, hstep⟩
  all_goals rw [hstep]
  · exact ⟨l, h, hs.bestLow.pass fun hgood ↦ hout hgood.1,
      hs.bestHigh.pass fun hgood ↦ hout hgood.1, hs.low, hs.high⟩
  · obtain ⟨l', hs'⟩ := hs.tieLow hranges hrdw hvdw heq
    exact ⟨l', h, hs'⟩
  · obtain ⟨h', hs'⟩ := hs.tieHigh hranges hne heq
    exact ⟨l, h', hs'⟩
  · exact ⟨l, some d, hs.closerHigh hranges hrate hhi⟩
  · exact ⟨some d, h, hs.closerLow hranges hrate hlow⟩
  · exact ⟨l, h, hs.further hranges hout⟩

-- Induction over the dividers that are left to be tried.
theorem Searched.run {ys : List Dividers} (hs : Searched rate xs s l h)
    (hall : ∀ d ∈ ys, Candidate rate d) :
    ∃ l' h', Searched rate (xs ++ ys) (ys.foldl (tryDividers rate) s) l' h' := by
  induction ys generalizing xs s l h with
  | nil => exact ⟨l, h, by rwa [List.append_nil]⟩
  | cons d ys ih =>
    have hd := hall d List.mem_cons_self
    obtain ⟨l', h', hs'⟩ := hs.step (check_eq_freq hd.two_le hd.le_rdw hd.vdw_le) hd.le_rdw hd.le_vdw
    obtain ⟨l'', h'', hs''⟩ := ih hs' fun d hmem ↦ hall d (List.mem_cons_of_mem _ hmem)
    exact ⟨l'', h'', by rwa [List.append_assoc] at hs''⟩

/-- The better of the two sides. -/
theorem Searched.best (hs : Searched rate xs s l h) (hrate : rate ≤ 180000000) :
    ∃ best, IsBest (fun d ↦ GoodLow rate d ∨ GoodHigh rate d) (Preferred rate) xs best ∧
      s.best rate = best.getD ⟨1, 1, 1⟩ := by
  obtain ⟨hlow₀, hlow, hhi, hhi₀⟩ := hs.bounds
  have hup : u32 ((s.hi : Int) - rate) = s.hi - rate := u32_sub_of_le (by omega) (by omega)
  have hdown : u32 ((rate : Int) - s.low) = rate - s.low := u32_sub_of_le (by omega) hlow
  unfold Search.best
  rw [hup, hdown]
  cases l with
  | none =>
    obtain ⟨hl, hstart⟩ := hs.low
    cases h with
    | none =>
      have hh : s.hi = rate + rate / 10 := hs.high
      refine ⟨none, hs.bestLow.or_none hs.bestHigh, ?_⟩
      rw [if_neg (by omega), hstart]
      rfl
    | some b =>
      obtain ⟨hh, hb⟩ := hs.high
      have hgood := (goodHigh_iff hs.bestHigh.2.1.1).mp hs.bestHigh.2.1
      refine ⟨some b, ?_, ?_⟩
      · apply (hs.bestHigh.or_left fun x hx hlow ↦ absurd hlow (hs.bestLow x hx)).congr
        exact fun x ↦ or_comm
      · rw [if_pos (by omega), hb]
        rfl
  | some a =>
    obtain ⟨hl, ha⟩ := hs.low
    have hgoodLow := (goodLow_iff hs.bestLow.2.1.1).mp hs.bestLow.2.1
    cases h with
    | none =>
      have hh : s.hi = rate + rate / 10 := hs.high
      refine ⟨some a, hs.bestLow.or_left fun x hx hhigh ↦ absurd hhigh (hs.bestHigh x hx), ?_⟩
      rw [if_neg (by omega), ha]
      rfl
    | some b =>
      obtain ⟨hh, hb⟩ := hs.high
      have hgoodHigh := (goodHigh_iff hs.bestHigh.2.1.1).mp hs.bestHigh.2.1
      have hdist := distance_eq rate a
      have hdist' := distance_eq rate b
      by_cases hcloser : s.hi - rate < rate - s.low
      · refine ⟨some b, ?_, ?_⟩
        · have hba : Preferred rate b a := Or.inl (by omega)
          apply (hs.bestHigh.or_left fun x hx hlow ↦
            hba.trans _ _ _ (hs.bestLow.2.2 x hx hlow)).congr
          exact fun x ↦ or_comm
        · rw [if_pos hcloser, hb]
          rfl
      · refine ⟨some a, ?_, ?_⟩
        · have hab : Preferred rate a b := by
            unfold Preferred
            omega
          exact hs.bestLow.or_left fun x hx hhigh ↦
            Preferred.trans _ _ _ hab (hs.bestHigh.2.2 x hx hhigh)
        · rw [if_neg hcloser, ha]
          rfl

theorem le_of_odskip {od : Nat} (h : odskip rate od = false) : rate ≤ 180000000 := by
  unfold odskip at h
  split at h
  all_goals
    simp at h
    try omega

/-- What the search finds: the dividers it prefers among those that pass its test and are near. -/
theorem odLoop_best (rate : Nat) : ∃ best,
    IsBest (fun d ↦ d.InRanges ∧ Within rate d) (Preferred rate) (candidates rate) best ∧
      (odLoop rate (searchStart rate)).best rate = best.getD ⟨1, 1, 1⟩ := by
  rw [odLoop_eq]
  by_cases hrate : rate ≤ 180000000
  · obtain ⟨l, h, hs⟩ := (Searched.start hrate).run fun d hmem ↦ mem_candidates.mp hmem
    obtain ⟨best, hbest, heq⟩ := hs.best hrate
    rw [List.nil_append] at hbest
    exact ⟨best, hbest.congr fun d ↦ good_iff, heq⟩
  · -- All output dividers are skipped.
    have hnone : candidates rate = [] := by
      rw [List.eq_nil_iff_forall_not_mem]
      intro d hmem
      exact hrate (le_of_odskip (mem_candidates.mp hmem).allowed)
    rw [hnone]
    refine ⟨none, IsBest.nil, ?_⟩
    unfold Search.best
    exact ite_self _

end Search

/-! ## The result -/

section Solver

variable {rate : Nat} {d d' : Dividers}

theorem odOfBits_odBits {od : Nat} (hod : od ∈ ods) :
    ∃ bits < 32, odBits od = some bits ∧ odOfBits bits = some od := by
  have hall : ∀ od ∈ ods, ∃ bits < 32, odBits od = some bits ∧ odOfBits bits = some od := by decide
  exact hall od hod

theorem decodeClockBits_encode {bits od vdw rdw : Nat} (hbits : bits < 32) (hvdw : vdw ≤ 511)
    (hrdw : rdw ≤ 127) (hod : odOfBits bits = some od) :
    decodeClockBits (BitVec.ofNat 32 ((bits <<< 9 ||| vdw) <<< 7 ||| rdw)) = some ⟨od, vdw, rdw⟩ := by
  have hvalue : (bits <<< 9 ||| vdw) <<< 7 ||| rdw = (bits * 512 + vdw) * 128 + rdw := by
    rw [← Nat.shiftLeft_add_eq_or_of_lt (show vdw < 2 ^ 9 by omega),
      ← Nat.shiftLeft_add_eq_or_of_lt (show rdw < 2 ^ 7 by omega), Nat.shiftLeft_eq, Nat.shiftLeft_eq]
  have hword : (BitVec.ofNat 32 ((bits <<< 9 ||| vdw) <<< 7 ||| rdw)).toNat =
      (bits * 512 + vdw) * 128 + rdw := by
    rw [hvalue, BitVec.toNat_ofNat, Nat.mod_eq_of_lt (by omega)]
  unfold decodeClockBits
  rw [hword, Nat.shiftRight_eq_div_pow, Nat.shiftRight_eq_div_pow,
    show (0x1ff : Nat) = 2 ^ 9 - 1 from rfl, show (0x7f : Nat) = 2 ^ 7 - 1 from rfl,
    Nat.and_two_pow_sub_one_eq_mod, Nat.and_two_pow_sub_one_eq_mod]
  have htop : ((bits * 512 + vdw) * 128 + rdw) / 2 ^ 16 = bits := by omega
  have hmid : ((bits * 512 + vdw) * 128 + rdw) / 2 ^ 7 % 2 ^ 9 = vdw := by omega
  have hlow : ((bits * 512 + vdw) * 128 + rdw) % 2 ^ 7 = rdw := by omega
  rw [htop, hmid, hlow, hod]
  rfl

/-- The two ways the solver can end. -/
theorem getICS30702Data_cases (clockData : ClockData) :
    ((getICS30702Data clockData).1 = 1 ∧
      ∀ d, Candidate clockData.frequency.toNat d → d.InRanges → ¬ Within clockData.frequency.toNat d) ∨
    ∃ d, Candidate clockData.frequency.toNat d ∧ d.InRanges ∧ Within clockData.frequency.toNat d ∧
      (∀ d', Candidate clockData.frequency.toNat d' → d'.InRanges →
        Within clockData.frequency.toNat d' → Preferred clockData.frequency.toNat d d') ∧
      (getICS30702Data clockData).1 = 0 ∧
      decodeClockBits (getICS30702Data clockData).2.clockBits = some d ∧
      (getICS30702Data clockData).2.frequency.toNat = d.freq := by
  obtain ⟨best, hbest, heq⟩ := odLoop_best clockData.frequency.toNat
  unfold getICS30702Data
  dsimp only
  rw [heq]
  cases best with
  | none =>
    refine Or.inl ⟨rfl, fun d hd hranges hwithin ↦ ?_⟩
    exact hbest d (mem_candidates.mpr hd) ⟨hranges, hwithin⟩
  | some d =>
    obtain ⟨hmem, ⟨hranges, hwithin⟩, hfirst⟩ := hbest
    have hd := mem_candidates.mp hmem
    obtain ⟨bits, hlt, hbits, hod⟩ := odOfBits_odBits hd.od
    have hcheck := check_eq_freq hd.two_le hd.le_rdw hd.vdw_le
    refine Or.inr ⟨d, hd, hranges, hwithin, fun d' hd' hranges' hwithin' ↦
      hfirst d' (mem_candidates.mpr hd') ⟨hranges', hwithin'⟩, ?_⟩
    rw [Option.getD_some, hbits]
    refine ⟨rfl, decodeClockBits_encode hlt hd.vdw_le hd.rdw_le hod, ?_⟩
    show (BitVec.ofNat 32 d.check).toNat = d.freq
    rw [BitVec.toNat_ofNat, ← hcheck]
    exact Nat.mod_eq_of_lt (Nat.mod_lt _ (by decide))

-- Up to `vdw = 108` the product in `range1` fits, and rounding down makes no difference.
theorem inRanges_iff (hvdw : d.vdw < 109) (hrdw : d.rdw ≤ 127) : d.InRanges ↔ d.Operates := by
  have hprod : inFreq * 2 * (d.vdw + 8) % 4294967296 = 36864000 * (d.vdw + 8) := by
    rw [show inFreq * 2 = 36864000 from rfl]
    omega
  unfold Dividers.InRanges Dividers.Operates Dividers.range1 Dividers.range2
  rw [hprod, show 2 * inFreq = 36864000 from rfl, show inFreq = 18432000 from rfl]
  have hpos : 0 < d.rdw + 2 := by omega
  have hmin : 60000000 < 36864000 * (d.vdw + 8) / (d.rdw + 2) ↔
      60000001 * (d.rdw + 2) ≤ 36864000 * (d.vdw + 8) := Nat.le_div_iff_mul_le hpos
  have hmax : 36864000 * (d.vdw + 8) / (d.rdw + 2) < 360000000 ↔
      36864000 * (d.vdw + 8) < 360000000 * (d.rdw + 2) := Nat.div_lt_iff_lt_mul hpos
  have href : 200000 < 18432000 / (d.rdw + 2) ↔ 200001 * (d.rdw + 2) ≤ 18432000 :=
    Nat.le_div_iff_mul_le hpos
  rw [gt_iff_lt, gt_iff_lt, hmin, hmax, href]
  omega

/-- Dividers whose exact frequencies are in the operating ranges, while the words say otherwise or
the other way round, come second to dividers that both agree on. -/
structure RangesHarmless (rate : Nat) : Prop where
  accepted : ∀ d, Candidate rate d → 109 ≤ d.vdw → d.InRanges → ¬ d.Operates → Within rate d →
    ∃ d', Candidate rate d' ∧ d'.InRanges ∧ d'.Operates ∧ Preferred rate d' d
  rejected : ∀ d, Candidate rate d → 109 ≤ d.vdw → d.Operates → ¬ d.InRanges →
    distance rate d < rate / 10 →
    ∃ d', Candidate rate d' ∧ d'.InRanges ∧ d'.Operates ∧ distance rate d' ≤ distance rate d

theorem Candidate.vdw_large (hd : Candidate rate d) (hne : ¬ (d.InRanges ↔ d.Operates)) :
    109 ≤ d.vdw :=
  Nat.le_of_not_lt fun hlt ↦ hne (inRanges_iff hlt hd.rdw_le)

theorem Preferred.distance_le (h : Preferred rate d d') : distance rate d ≤ distance rate d' := by
  unfold Preferred at h
  omega

-- What is preferred to dividers the search can take can be taken itself.
theorem Preferred.within (h : Preferred rate d d') (hd : Candidate rate d) (hwithin : Within rate d') :
    Within rate d := by
  have hdist := distance_eq rate d
  have hdist' := distance_eq rate d'
  have hrdw := hd.le_rdw
  unfold Preferred Dividers.Replaces at h
  unfold Within at *
  omega

-- Neither is preferred to the other only when they differ in nothing the ranges depend on.
theorem Preferred.same (h : Preferred rate d d') (h' : Preferred rate d' d) :
    d.vdw = d'.vdw ∧ d.rdw = d'.rdw := by
  unfold Preferred Dividers.Replaces at *
  omega

theorem operates_congr (hvdw : d.vdw = d'.vdw) (hrdw : d.rdw = d'.rdw) (h : d.Operates) :
    d'.Operates := by
  unfold Dividers.Operates at *
  rw [← hvdw, ← hrdw]
  exact h

-- For dividers in the ranges that are near, the search has some that are at least as close.
theorem RangesHarmless.accepted_near (h : RangesHarmless rate) (hd : Candidate rate d)
    (hoperates : d.Operates) (hnear : distance rate d < rate / 10) :
    ∃ a, Candidate rate a ∧ a.InRanges ∧ distance rate a ≤ distance rate d := by
  by_cases hranges : d.InRanges
  · exact ⟨d, hd, hranges, Nat.le_refl _⟩
  · have hlarge := hd.vdw_large fun hiff ↦ hranges (hiff.mpr hoperates)
    obtain ⟨a, ha, haRanges, -, hle⟩ := h.rejected d hd hlarge hoperates hranges hnear
    exact ⟨a, ha, haRanges, hle⟩

section Found

variable (h : RangesHarmless rate) (hwithin : Within rate d)
  (hfirst : ∀ d', Candidate rate d' → d'.InRanges → Within rate d' → Preferred rate d d')

include h hwithin hfirst

-- Otherwise dividers that both tests accept would be preferred, and differ from them in `od` only.
theorem RangesHarmless.operates (hd : Candidate rate d) (hranges : d.InRanges) : d.Operates := by
  by_contra hnot
  have hlarge := hd.vdw_large fun hiff ↦ hnot (hiff.mp hranges)
  obtain ⟨a, ha, haRanges, haOperates, hpref⟩ := h.accepted d hd hlarge hranges hnot hwithin
  have hpref' := hfirst a ha haRanges (hpref.within ha hwithin)
  obtain ⟨hvdw, hrdw⟩ := hpref.same hpref'
  exact hnot (operates_congr hvdw hrdw haOperates)

theorem RangesHarmless.closest (hd' : Candidate rate d') (hoperates' : d'.Operates) :
    distance rate d ≤ distance rate d' := by
  by_contra hcloser
  have hdist := distance_eq rate d
  have hnear : distance rate d' < rate / 10 := by
    unfold Within at hwithin
    omega
  obtain ⟨a, ha, haRanges, hle⟩ := h.accepted_near hd' hoperates' hnear
  have hpref := hfirst a ha haRanges (Or.inl (Nat.lt_of_le_of_lt hle hnear))
  exact hcloser (Nat.le_trans hpref.distance_le hle)

end Found

/-- For every rate: the solver is sound and optimal if and only if no dividers that the product in
`range1` misjudges, by going past `2 ^ 32`, come before those it judges right. -/
theorem getICS30702Data_exact_iff (clockData : ClockData) :
    SolvesExactly clockData ↔ RangesHarmless clockData.frequency.toNat := by
  have hcases := getICS30702Data_cases clockData
  unfold SolvesExactly
  generalize getICS30702Data clockData = result at hcases
  obtain ⟨ret, solved⟩ := result
  generalize clockData.frequency.toNat = rate at *
  dsimp only at hcases ⊢
  constructor
  · rintro ⟨hsound, hcomplete⟩
    constructor
    · intro w hw _ hranges _ hwithin
      rcases hcases with ⟨-, hnone⟩ | ⟨d, hd, hdRanges, -, hfirst, hret, hdecode, -⟩
      · exact absurd hwithin (hnone w hw hranges)
      · obtain ⟨d', hdecode', -, hoperates, -, -⟩ := hsound hret
        obtain rfl : d = d' := Option.some.inj (hdecode.symm.trans hdecode')
        exact ⟨d, hd, hdRanges, hoperates, hfirst w hw hranges hwithin⟩
    · intro e he _ hoperates _ hnear
      have hret := hcomplete ⟨e, he, hoperates, hnear⟩
      rcases hcases with ⟨hfail, -⟩ | ⟨d, hd, hdRanges, -, -, -, hdecode, -⟩
      · omega
      · obtain ⟨d', hdecode', -, hdOperates, -, hclosest⟩ := hsound hret
        obtain rfl : d = d' := Option.some.inj (hdecode.symm.trans hdecode')
        exact ⟨d, hd, hdRanges, hdOperates, hclosest e he hoperates⟩
  · intro hharmless
    constructor
    · intro hret
      rcases hcases with ⟨hfail, -⟩ | ⟨d, hd, hranges, hwithin, hfirst, -, hdecode, hfreq⟩
      · omega
      · exact ⟨d, hdecode, hd, hharmless.operates hwithin hfirst hd hranges, hfreq,
          fun d' hd' hoperates' ↦ hharmless.closest hwithin hfirst hd' hoperates'⟩
    · rintro ⟨e, he, hoperates, hnear⟩
      obtain ⟨a, ha, haRanges, hle⟩ := hharmless.accepted_near he hoperates hnear
      rcases hcases with ⟨-, hnone⟩ | ⟨-, -, -, -, -, hret, -⟩
      · exact absurd (Or.inl (Nat.lt_of_le_of_lt hle hnear)) (hnone a ha haRanges)
      · exact hret

end Solver

/-- Dividers for 8 MHz: their product with the reference, 4608000000, does not fit in a word. -/
def eightMhz : Dividers := ⟨8, 117, 70⟩

theorem eightMhz_candidate : Candidate 8000000 eightMhz :=
  ⟨by decide, by decide, by decide, by decide, by decide, by decide⟩

-- The search finds 268 Hz more; nothing that passes its test gives 8 MHz.
theorem getICS30702Data_misses_eightMhz : ¬ SolvesExactly ⟨8000000, 0⟩ := by
  have hnone : ∀ od ∈ ods, ∀ rdw < 128, let unit := inFreq * 2 / ((rdw + 2) * od)
      unit * (8000000 / unit) = 8000000 →
        ¬ Dividers.InRanges ⟨od, 8000000 / unit - 8, rdw⟩ := by decide +kernel
  have hrate : (8000000 : BitVec 32).toNat = 8000000 := by simp
  rw [getICS30702Data_exact_iff, hrate]
  intro hharmless
  obtain ⟨a, ha, hranges, -, hle⟩ := hharmless.rejected eightMhz eightMhz_candidate (by decide)
    (by decide) (by decide) (by decide)
  have hzero : distance 8000000 a ≤ 0 := hle
  have hdist := distance_eq 8000000 a
  have hfreq : inFreq * 2 / ((a.rdw + 2) * a.od) * (a.vdw + 8) = 8000000 :=
    (show a.freq = 8000000 by omega)
  obtain ⟨od, vdw, rdw⟩ := a
  dsimp only at hfreq
  generalize hunit : inFreq * 2 / ((rdw + 2) * od) = unit at hfreq
  have hpos : 0 < unit := Nat.pos_of_ne_zero fun hzero ↦ by
    rw [hzero, Nat.zero_mul] at hfreq
    omega
  have hvdw : vdw = 8000000 / unit - 8 := by
    rw [← hfreq, Nat.mul_div_cancel_left _ hpos, Nat.add_sub_cancel]
  apply hnone od ha.od rdw (Nat.lt_succ_of_le ha.rdw_le)
  · show inFreq * 2 / ((rdw + 2) * od) * (8000000 / (inFreq * 2 / ((rdw + 2) * od))) = _
    rw [hunit, ← hfreq, Nat.mul_div_cancel_left _ hpos]
  · show Dividers.InRanges ⟨od, 8000000 / (inFreq * 2 / ((rdw + 2) * od)) - 8, rdw⟩
    rw [hunit, ← hvdw]
    exact hranges

end FsccDriver

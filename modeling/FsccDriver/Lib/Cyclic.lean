import Mathlib.Logic.Function.Basic
import Mathlib.Data.Nat.ModEq

/-!
# Cyclic — index arithmetic of a ring of slots

A ring keeps its cells in an array of `n` slots and walks it with an index that is reset to `0`
when it reaches `n`.  `slot f n u k` is the cell `k` steps after index `u`; every operation on a
ring becomes an operation on the sequence `k ↦ slot f n u k`, so no proof has to speak about
wrapping.  `Holds` is the queue a ring implements: the cells from `u` on stand for a list of items,
the cell behind them is being worked on, and the others are free.
-/

namespace Cyclic

variable {α : Type*}

/-- The index after `i` in a ring of `n` slots. -/
def next (n i : Nat) : Nat := if i + 1 = n then 0 else i + 1

/-- The cell that stands `k` steps after index `u`. -/
def slot (f : Nat → α) (n u k : Nat) : α := f ((u + k) % n)

theorem next_eq_mod {n i : Nat} (h : i < n) : next n i = (i + 1) % n := by
  unfold next
  split
  next heq => rw [heq, Nat.mod_self]
  next hne => rw [Nat.mod_eq_of_lt (by omega)]

theorem next_lt {n i : Nat} (h : i < n) : next n i < n := by
  rw [next_eq_mod h]
  exact Nat.mod_lt _ (by omega)

/-- Stepping an index that stands `k` steps after `u`. -/
theorem next_add_mod {n : Nat} (hn : 0 < n) (u k : Nat) :
    next n ((u + k) % n) = (u + (k + 1)) % n := by
  rw [next_eq_mod (Nat.mod_lt _ hn), Nat.mod_add_mod, Nat.add_assoc]

theorem add_mod_next {n u : Nat} (hu : u < n) (k : Nat) :
    (next n u + k) % n = (u + (k + 1)) % n := by
  rw [next_eq_mod hu, Nat.mod_add_mod, Nat.add_assoc, Nat.add_comm 1 k]

theorem slot_zero {n u : Nat} (f : Nat → α) (hu : u < n) : slot f n u 0 = f u := by
  rw [slot, Nat.add_zero, Nat.mod_eq_of_lt hu]

/-- Moving the origin one slot on shifts the whole sequence by one. -/
theorem slot_next {n u : Nat} (f : Nat → α) (hu : u < n) (k : Nat) :
    slot f n (next n u) k = slot f n u (k + 1) := by
  rw [slot, slot, add_mod_next hu]

/-- A whole turn comes back to the origin. -/
theorem slot_turn (f : Nat → α) (n u : Nat) : slot f n u n = slot f n u 0 := by
  rw [slot, slot, Nat.add_mod_right, Nat.add_zero]

theorem add_mod_ne {n u j k : Nat} (hj : j < n) (hk : k < n) (hjk : k ≠ j) :
    (u + k) % n ≠ (u + j) % n := by
  intro h
  have hmod : u + k ≡ u + j [MOD n] := h
  have hkj : k % n = j % n := Nat.ModEq.add_left_cancel' u hmod
  rw [Nat.mod_eq_of_lt hk, Nat.mod_eq_of_lt hj] at hkj
  exact hjk hkj

-- Less than a whole turn does not come back.
theorem add_mod_succ_ne {n u k : Nat} (hu : u < n) (hk : k + 1 < n) : (u + (k + 1)) % n ≠ u := by
  have h : (u + (k + 1)) % n ≠ (u + 0) % n :=
    add_mod_ne (Nat.lt_of_le_of_lt (Nat.zero_le u) hu) hk (Nat.succ_ne_zero k)
  rwa [Nat.add_zero u, Nat.mod_eq_of_lt hu] at h

/-- Writing one slot changes that slot of the sequence and no other. -/
theorem slot_update {n u j k : Nat} (f : Nat → α) (x : α) (hj : j < n) (hk : k < n) :
    slot (Function.update f ((u + j) % n) x) n u k = if k = j then x else slot f n u k := by
  unfold slot
  by_cases hkj : k = j
  · rw [if_pos hkj, hkj, Function.update_self]
  · rw [if_neg hkj, Function.update_of_ne (add_mod_ne hj hk hkj)]

theorem slot_update_origin {n u k : Nat} (f : Nat → α) (x : α) (hu : u < n) (hk : k < n) :
    slot (Function.update f u x) n u k = if k = 0 then x else slot f n u k := by
  have h := slot_update (u := u) f x (Nat.lt_of_le_of_lt (Nat.zero_le u) hu) hk
  rwa [Nat.add_zero, Nat.mod_eq_of_lt hu] at h

/-- Writing the origin and moving on puts the new value at the end of the sequence. -/
theorem slot_update_next {n u k : Nat} (f : Nat → α) (x : α) (hu : u < n) (hk : k < n) :
    slot (Function.update f u x) n (next n u) k = if k + 1 = n then x else slot f n u (k + 1) := by
  rw [slot_next _ hu]
  split
  next hn => rw [hn, slot_turn, slot_update_origin f x hu (by omega), if_pos rfl]
  next hn => rw [slot_update_origin f x hu (by omega), if_neg (by omega)]

/-- Every index of the ring stands some number of steps after `u`. -/
theorem exists_slot {n u i : Nat} (hu : u < n) (hi : i < n) : ∃ k, k < n ∧ (u + k) % n = i := by
  by_cases h : u ≤ i
  · exact ⟨i - u, by omega, by rw [Nat.add_sub_of_le h, Nat.mod_eq_of_lt hi]⟩
  · refine ⟨n - u + i, by omega, ?_⟩
    rw [show u + (n - u + i) = i + n by omega, Nat.add_mod_right, Nat.mod_eq_of_lt hi]

/-! ## Once around -/

/-- The cells of a ring in order, from index `u` on. -/
def turn (f : Nat → α) (n u : Nat) : List α := (List.range n).map (slot f n u)

@[simp] theorem turn_length (f : Nat → α) (n u : Nat) : (turn f n u).length = n := by
  rw [turn, List.length_map, List.length_range]

theorem turn_getElem {f : Nat → α} {n u k : Nat} (hk : k < (turn f n u).length) :
    (turn f n u)[k] = slot f n u k := by
  simp [turn]

theorem turn_eq_cons {n u : Nat} (f : Nat → α) (hu : u < n) :
    turn f n u = f u :: (turn f n u).tail := by
  obtain ⟨m, rfl⟩ : ∃ m, n = m + 1 := ⟨n - 1, by omega⟩
  rw [turn, List.range_succ_eq_map, List.map_cons, slot_zero f hu, List.tail_cons]

/-- Writing the origin and moving on takes the first cell off and puts the new one at the end. -/
theorem turn_update_next {n u : Nat} (f : Nat → α) (x : α) (hu : u < n) :
    turn (Function.update f u x) n (next n u) = (turn f n u).tail ++ [x] := by
  apply List.ext_getElem
  · rw [turn_length, List.length_append, List.length_tail, turn_length, List.length_singleton]
    omega
  · intro k hk _
    have hkn : k < n := by rwa [turn_length] at hk
    rw [turn_getElem hk, slot_update_next f x hu hkn]
    split
    next hlast =>
      have hlen : (turn f n u).tail.length = k := by
        rw [List.length_tail, turn_length]
        omega
      rw [List.getElem_concat_length hlen.symm]
    next hmid =>
      rw [List.getElem_append_left (by rw [List.length_tail, turn_length]; omega),
        List.getElem_tail, turn_getElem]

-- Moving on without writing anything.
theorem turn_next {n u : Nat} (f : Nat → α) (hu : u < n) :
    turn f n (next n u) = (turn f n u).tail ++ [f u] := by
  have h := turn_update_next f (f u) hu
  rwa [Function.update_eq_self] at h

/-! ## The queue held by a ring -/

section Queue

variable {β : Type*} {busy : β → α → Prop} {cur free : α → Prop}

structure Holds (busy : β → α → Prop) (cur free : α → Prop) (items : List β) (f : Nat → α)
    (n u : Nat) : Prop where
  origin_lt : u < n
  fits : items.length ≤ n
  busy : ∀ k (hk : k < items.length), busy items[k] (slot f n u k)
  cur : items.length < n → cur (slot f n u items.length)
  free : ∀ k, items.length < k → k < n → free (slot f n u k)

variable {items : List β} {f : Nat → α} {n u : Nat} {x : β} {y : α}

theorem Holds.empty (hn : 0 < n) (hcur : ∀ i < n, cur (f i)) (hfree : ∀ i < n, free (f i)) :
    Holds busy cur free [] f n 0 :=
  ⟨hn, Nat.zero_le _, fun k hk ↦ absurd hk (Nat.not_lt_zero k), fun _ ↦ hcur _ (Nat.mod_lt _ hn),
    fun _ _ _ ↦ hfree _ (Nat.mod_lt _ hn)⟩

theorem Holds.imp {busy' : β → α → Prop} {cur' free' : α → Prop}
    (h : Holds busy cur free items f n u) (hbusy : ∀ item a, busy item a → busy' item a)
    (hcur : ∀ a, cur a → cur' a) (hfree : ∀ a, free a → free' a) :
    Holds busy' cur' free' items f n u :=
  ⟨h.origin_lt, h.fits, fun k hk ↦ hbusy _ _ (h.busy k hk), fun hlt ↦ hcur _ (h.cur hlt),
    fun k hlt hk ↦ hfree _ (h.free k hlt hk)⟩

theorem Holds.head (h : Holds busy cur free (x :: items) f n u) : busy x (f u) := by
  have hx := h.busy 0 (by simp)
  rwa [slot_zero f h.origin_lt] at hx

theorem Holds.cur_first (h : Holds busy cur free ([] : List β) f n u) : cur (f u) := by
  have hx := h.cur (Nat.lt_of_le_of_lt (Nat.zero_le u) h.origin_lt)
  rwa [List.length_nil, slot_zero f h.origin_lt] at hx

-- Every slot is busy with an item, current, or free.
theorem Holds.cases_slot (h : Holds busy cur free items f n u) {i : Nat} (hi : i < n) :
    (∃ (k : Nat) (hk : k < items.length), (u + k) % n = i ∧ busy items[k] (f i)) ∨
      (items.length < n ∧ (u + items.length) % n = i ∧ cur (f i)) ∨ free (f i) := by
  obtain ⟨k, hk, rfl⟩ := exists_slot h.origin_lt hi
  rcases Nat.lt_trichotomy k items.length with hlt | heq | hgt
  · exact Or.inl ⟨k, hlt, rfl, h.busy k hlt⟩
  · subst heq
    exact Or.inr (Or.inl ⟨hk, rfl, h.cur hk⟩)
  · exact Or.inr (Or.inr (h.free k hgt hk))

/-- Where the items are the cells themselves, once around are the items and then the others. -/
theorem Holds.turn_append {items : List α} {busy : α → α → Prop}
    (h : Holds busy cur free items f n u) (hbusy : ∀ item a, busy item a → a = item) :
    ∃ others, turn f n u = items ++ others ∧ ∀ a ∈ others, cur a ∨ free a := by
  refine ⟨(turn f n u).drop items.length, ?_, ?_⟩
  · apply List.ext_getElem
    · rw [turn_length, List.length_append, List.length_drop, turn_length]
      exact (Nat.add_sub_of_le h.fits).symm
    · intro k hk _
      rw [turn_getElem]
      by_cases hlt : k < items.length
      · rw [List.getElem_append_left hlt]
        exact hbusy _ _ (h.busy k hlt)
      · rw [List.getElem_append_right (Nat.le_of_not_lt hlt), List.getElem_drop, turn_getElem,
          Nat.add_sub_of_le (Nat.le_of_not_lt hlt)]
  · intro a ha
    obtain ⟨k, hk, rfl⟩ := List.getElem_of_mem ha
    rw [List.length_drop, turn_length] at hk
    rw [List.getElem_drop, turn_getElem]
    rcases Nat.eq_zero_or_pos k with rfl | hpos
    · exact Or.inl (h.cur (by omega))
    · exact Or.inr (h.free _ (by omega) (by omega))

/-- A test that tells the busy cells from the others reads the queue off the ring. -/
theorem Holds.takeWhile_turn {items : List α} {p : α → Bool} {busy : α → α → Prop}
    (h : Holds busy cur free items f n u) (hbusy : ∀ item a, busy item a → a = item ∧ p a = true)
    (hcur : ∀ a, cur a → p a = false) (hfree : ∀ a, free a → p a = false) :
    (turn f n u).takeWhile p = items := by
  obtain ⟨others, hturn, hothers⟩ := h.turn_append fun item a hitem ↦ (hbusy item a hitem).1
  have htest : ∀ a ∈ items, p a = true := by
    intro a ha
    obtain ⟨k, hk, rfl⟩ := List.getElem_of_mem ha
    obtain ⟨heq, hp⟩ := hbusy _ _ (h.busy k hk)
    rwa [← heq]
  rw [hturn, List.takeWhile_append_of_pos htest]
  cases others with
  | nil => rw [List.takeWhile_nil, List.append_nil]
  | cons a others =>
    have ha : p a = false := (hothers a List.mem_cons_self).elim (hcur a) (hfree a)
    rw [List.takeWhile_cons_of_neg (ha ▸ Bool.false_ne_true), List.append_nil]

/-- Taking the first item out frees its slot, which becomes the last one of the sequence. -/
theorem Holds.pop (h : Holds busy cur free (x :: items) f n u) (hfree : free y)
    (hcur : items.length + 1 = n → cur y) :
    Holds busy cur free items (Function.update f u y) n (next n u) := by
  have hu := h.origin_lt
  have hfits : items.length + 1 ≤ n := h.fits
  have hslot := fun k hk ↦ slot_update_next (k := k) f y hu hk
  refine ⟨next_lt hu, by omega, ?_, ?_, ?_⟩
  · intro k hk
    rw [hslot k (by omega), if_neg (by omega)]
    exact h.busy (k + 1) (by simpa using hk)
  · intro hlt
    rw [hslot _ hlt]
    split
    next hn => exact hcur hn
    next hn => exact h.cur (by rw [List.length_cons]; omega)
  · intro k hlt hk
    rw [hslot k hk]
    split
    next hn => exact hfree
    next hn => exact h.free (k + 1) (by rw [List.length_cons]; omega) (by omega)

/-- Finishing the current slot appends an item; the slot behind it becomes the current one. -/
theorem Holds.push (cur' : α → Prop) (h : Holds busy cur free items f n u)
    (hlt : items.length < n) (hbusy : busy x y) (hcur : ∀ a, free a → cur' a) :
    Holds busy cur' free (items ++ [x]) (Function.update f ((u + items.length) % n) y) n u := by
  have hslot := fun k ↦ slot_update (u := u) (k := k) f y hlt
  refine ⟨h.origin_lt, by rw [List.length_append]; exact hlt, ?_, ?_, ?_⟩
  · intro k hk
    rw [List.length_append, List.length_singleton] at hk
    rw [hslot k (by omega)]
    split
    next heq => simpa [heq] using hbusy
    next hne =>
      rw [List.getElem_append_left (by omega)]
      exact h.busy k (by omega)
  · intro hk
    rw [List.length_append, List.length_singleton] at hk ⊢
    rw [hslot _ hk, if_neg (by omega)]
    exact hcur _ (h.free _ (by omega) hk)
  · intro k hlt' hk
    rw [List.length_append, List.length_singleton] at hlt'
    rw [hslot k hk, if_neg (by omega)]
    exact h.free k (by omega) hk

/-- Working on the current slot leaves the queue alone. -/
theorem Holds.setCur {cur' : α → Prop} (h : Holds busy cur free items f n u)
    (hlt : items.length < n) (hcur : cur' y) :
    Holds busy cur' free items (Function.update f ((u + items.length) % n) y) n u := by
  have hslot := fun k ↦ slot_update (u := u) (k := k) f y hlt
  refine ⟨h.origin_lt, h.fits, ?_, ?_, ?_⟩
  · intro k hk
    rw [hslot k (by omega), if_neg (by omega)]
    exact h.busy k hk
  · intro hk
    rw [hslot _ hk, if_pos rfl]
    exact hcur
  · intro k hlt' hk
    rw [hslot k hk, if_neg (by omega)]
    exact h.free k hlt' hk

/-- Changing the first item in place. -/
theorem Holds.setHead {x' : β} (h : Holds busy cur free (x :: items) f n u) (hbusy : busy x' y) :
    Holds busy cur free (x' :: items) (Function.update f u y) n u := by
  have hslot := fun k ↦ slot_update_origin (k := k) f y h.origin_lt
  have hfits : items.length + 1 ≤ n := h.fits
  refine ⟨h.origin_lt, h.fits, ?_, ?_, ?_⟩
  · intro k hk
    rw [List.length_cons] at hk
    rw [hslot k (by omega)]
    cases k with
    | zero => exact hbusy
    | succ k =>
      rw [if_neg (by omega)]
      exact h.busy (k + 1) (by rwa [List.length_cons])
  · intro hk
    rw [hslot _ hk, List.length_cons, if_neg (by omega)]
    exact h.cur hk
  · intro k hlt hk
    rw [List.length_cons] at hlt
    rw [hslot k hk, if_neg (by omega)]
    exact h.free k (by rwa [List.length_cons]) hk

/-- Changing any item in place. -/
theorem Holds.set {x' : β} {k : Nat} (h : Holds busy cur free items f n u) (hk : k < items.length)
    (hbusy : busy x' y) :
    Holds busy cur free (items.set k x') (Function.update f ((u + k) % n) y) n u := by
  have hfits := h.fits
  have hslot := fun j ↦ slot_update (u := u) (k := j) f y (Nat.lt_of_lt_of_le hk hfits)
  have hlength : (items.set k x').length = items.length := List.length_set
  refine ⟨h.origin_lt, by rwa [hlength], ?_, ?_, ?_⟩
  · intro j hj
    rw [hlength] at hj
    rw [hslot j (by omega), List.getElem_set]
    by_cases hjk : j = k
    · rw [if_pos hjk, if_pos hjk.symm]
      exact hbusy
    · rw [if_neg hjk, if_neg (Ne.symm hjk)]
      exact h.busy j hj
  · rw [hlength]
    intro hlt
    rw [hslot _ hlt, if_neg (by omega)]
    exact h.cur hlt
  · rw [hlength]
    intro j hlt hj
    rw [hslot j hj, if_neg (by omega)]
    exact h.free j hlt hj

end Queue

end Cyclic

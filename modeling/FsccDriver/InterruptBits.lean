import FsccDriver.Isr
import FsccDriver.Lib.Runs

/-!
# InterruptBits — what becomes of the bits in `last_isr_value`

`fscc_isr` collects bits in `last_isr_value` in one step.  A pass of `isr_alert_worker` drains it in
two, a read and a store of 0, and the interrupt routine may run between them.
-/

namespace FsccDriver

variable {H : Type} {hw : Hardware H}

/-- A pass: how many interrupts had come when it started, which is when it reads `last_isr_value`,
what it read, and whether its store is behind it. -/
structure AlertPass where
  start : Nat
  isrValue : BitVec 32
  stored : Bool

structure AlertRun (H : Type) where
  port : IsrPort
  h : H
  returned : List (BitVec 32)
  passes : List AlertPass

inductive AlertAction where
  | interrupt
  | read
  | store (i : Nat)

def AlertRun.interrupt (hw : Hardware H) (s : AlertRun H) : AlertRun H :=
  let (result, port, h) := fsccIsr hw s.port s.h
  { s with
    port, h
    returned := if result.handled then s.returned ++ [result.isrValue] else s.returned }

def AlertRun.read (s : AlertRun H) : AlertRun H :=
  { s with passes := s.passes ++ [⟨s.returned.length, s.port.lastIsrValue, false⟩] }

def AlertRun.store (s : AlertRun H) (i : Nat) : AlertRun H :=
  match s.passes[i]? with
  | some pass =>
      if pass.stored then s
      else { s with
        port := { s.port with lastIsrValue := 0 }
        passes := s.passes.set i { pass with stored := true } }
  | none => s

def alertStep (hw : Hardware H) (s : AlertRun H) : AlertAction → AlertRun H
  | .interrupt => s.interrupt hw
  | .read => s.read
  | .store i => s.store i

def alertStart (port : IsrPort) (h : H) : AlertRun H := ⟨port, h, [], []⟩

/-- Each bit an interrupt returned is still held or was read by a pass that started after it. -/
def NoBitLost (s : AlertRun H) : Prop :=
  ∀ k isrValue b, s.returned[k]? = some isrValue → isrValue.getLsbD b →
    s.port.lastIsrValue.getLsbD b ∨
      ∃ pass ∈ s.passes, k < pass.start ∧ pass.isrValue.getLsbD b

/-- Some pass has read `last_isr_value` since the last interrupt. -/
def ReadSince (s : AlertRun H) : Prop := ∃ pass ∈ s.passes, pass.start = s.returned.length

def AlertAllowed (s : AlertRun H) : AlertAction → Prop
  | .store i => (∃ pass, s.passes[i]? = some pass ∧ pass.stored = false) → ReadSince s
  | _ => True

structure AlertInvariant (s : AlertRun H) : Prop where
  noBitLost : NoBitLost s
  nonzero : ∀ isrValue ∈ s.returned, isrValue ≠ 0
  started : ∀ pass ∈ s.passes, pass.start ≤ s.returned.length
  -- What is held now was there when a pass read without an interrupt since.
  seen : ∀ pass ∈ s.passes, pass.start = s.returned.length →
    ∀ b, s.port.lastIsrValue.getLsbD b → pass.isrValue.getLsbD b

section

variable {s : AlertRun H}

theorem no_bit_zero (b : Nat) : ¬ (0 : BitVec 32).getLsbD b = true := by simp

theorem AlertInvariant.interrupt (hs : AlertInvariant s) : AlertInvariant (s.interrupt hw) := by
  rw [AlertRun.interrupt, fsccIsr]
  dsimp only
  generalize hread : fsccPortGetRegister hw s.port.channel 0 isrOffset s.h = reading
  obtain ⟨isrValue, h⟩ := reading
  dsimp only
  by_cases hzero : isrValue = 0
  · rw [if_pos hzero]
    exact ⟨hs.noBitLost, hs.nonzero, hs.started, hs.seen⟩
  rw [if_neg hzero]
  refine ⟨?_, ?_, ?_, ?_⟩
  · intro k bits b hk hb
    change (s.returned ++ [isrValue])[k]? = some bits at hk
    show (s.port.lastIsrValue ||| isrValue).getLsbD b ∨ _
    rw [BitVec.getLsbD_or]
    rcases Nat.lt_or_ge k s.returned.length with hold | hnew
    · rw [List.getElem?_append_left hold] at hk
      rcases hs.noBitLost k bits b hk hb with hheld | hpass
      · rw [hheld]
        exact Or.inl rfl
      · exact Or.inr hpass
    · rw [List.getElem?_append_right hnew, List.getElem?_singleton] at hk
      split at hk
      · rw [Option.some.inj hk, hb, Bool.or_true]
        exact Or.inl rfl
      · cases hk
  · intro bits hbits
    change bits ∈ s.returned ++ [isrValue] at hbits
    rcases List.mem_append.mp hbits with hold | hnew
    · exact hs.nonzero bits hold
    · rwa [List.mem_singleton.mp hnew]
  · intro pass hpass
    show pass.start ≤ (s.returned ++ [isrValue]).length
    have := hs.started pass hpass
    rw [List.length_append]
    omega
  · intro pass hpass hstart
    change pass.start = (s.returned ++ [isrValue]).length at hstart
    rw [List.length_append, List.length_singleton] at hstart
    exact absurd (hs.started pass hpass) (by omega)

theorem AlertInvariant.read (hs : AlertInvariant s) : AlertInvariant s.read := by
  refine ⟨?_, hs.nonzero, ?_, ?_⟩
  · intro k bits b hk hb
    rcases hs.noBitLost k bits b hk hb with hheld | ⟨pass, hpass, hread⟩
    · exact Or.inl hheld
    · exact Or.inr ⟨pass, List.mem_append_left _ hpass, hread⟩
  · intro pass hpass
    rcases List.mem_append.mp hpass with hold | hnew
    · exact hs.started pass hold
    · rw [List.mem_singleton.mp hnew]
      exact Nat.le_refl _
  · intro pass hpass hstart b hb
    rcases List.mem_append.mp hpass with hold | hnew
    · exact hs.seen pass hold hstart b hb
    · rw [List.mem_singleton.mp hnew]
      exact hb

-- The store of a pass that has it still to do.
theorem AlertRun.store_pending {i : Nat} {pass : AlertPass} (hpass : s.passes[i]? = some pass)
    (hpending : pass.stored = false) :
    s.store i = { s with
      port := { s.port with lastIsrValue := 0 }
      passes := s.passes.set i { pass with stored := true } } := by
  rw [AlertRun.store, hpass]
  exact if_neg (by rw [hpending]; exact Bool.false_ne_true)

theorem AlertRun.store_done {i : Nat}
    (hdone : ¬ ∃ pass, s.passes[i]? = some pass ∧ pass.stored = false) : s.store i = s := by
  rw [AlertRun.store]
  split
  · next pass hpass =>
    apply if_pos
    by_contra hpending
    exact hdone ⟨pass, hpass, Bool.eq_false_of_not_eq_true hpending⟩
  · rfl

-- Storing changes no pass but for the mark that it has stored.
theorem mem_set_stored {passes : List AlertPass} {i : Nat} {pass : AlertPass}
    (hpass : passes[i]? = some pass) {start : Nat} {isrValue : BitVec 32} :
    (∃ p ∈ passes.set i { pass with stored := true }, p.start = start ∧ p.isrValue = isrValue) ↔
      ∃ p ∈ passes, p.start = start ∧ p.isrValue = isrValue := by
  constructor
  · rintro ⟨p, hp, hstart, hvalue⟩
    rcases List.mem_or_eq_of_mem_set hp with hold | rfl
    · exact ⟨p, hold, hstart, hvalue⟩
    · exact ⟨pass, List.mem_of_getElem? hpass, hstart, hvalue⟩
  · rintro ⟨p, hp, hstart, hvalue⟩
    obtain ⟨j, hj⟩ := List.mem_iff_getElem?.mp hp
    by_cases hij : i = j
    · subst hij
      rw [hpass] at hj
      have hi := (List.getElem?_eq_some_iff.mp hpass).1
      refine ⟨{ pass with stored := true }, List.mem_iff_getElem?.mpr ⟨i, ?_⟩, ?_, ?_⟩
      · rw [List.getElem?_set_self hi]
      · rw [← hstart, Option.some.inj hj]
      · rw [← hvalue, Option.some.inj hj]
    · refine ⟨p, List.mem_iff_getElem?.mpr ⟨j, ?_⟩, hstart, hvalue⟩
      rw [List.getElem?_set_ne hij, hj]

theorem AlertInvariant.store {i : Nat} {pass : AlertPass} (hs : AlertInvariant s)
    (hpass : s.passes[i]? = some pass) (hpending : pass.stored = false) (hread : ReadSince s) :
    AlertInvariant (s.store i) := by
  rw [AlertRun.store_pending hpass hpending]
  refine ⟨?_, hs.nonzero, ?_, ?_⟩
  · intro k bits b hk hb
    right
    -- What is held now was read by the pass that has read since the last interrupt.
    have hseen : ∃ p ∈ s.passes, k < p.start ∧ p.isrValue.getLsbD b := by
      rcases hs.noBitLost k bits b hk hb with hheld | hpassed
      · obtain ⟨p, hp, hstart⟩ := hread
        exact ⟨p, hp, hstart ▸ (List.getElem?_eq_some_iff.mp hk).1, hs.seen p hp hstart b hheld⟩
      · exact hpassed
    obtain ⟨p, hp, hlt, hbit⟩ := hseen
    obtain ⟨p', hp', hstart, hvalue⟩ := (mem_set_stored hpass).mpr ⟨p, hp, rfl, rfl⟩
    exact ⟨p', hp', hstart ▸ hlt, hvalue ▸ hbit⟩
  · intro p hp
    obtain ⟨p', hp', hstart, -⟩ := (mem_set_stored hpass).mp ⟨p, hp, rfl, rfl⟩
    exact hstart ▸ hs.started p' hp'
  · intro p _ _ b hb
    exact absurd hb (no_bit_zero b)

theorem AlertInvariant.step (hs : AlertInvariant s) (action : AlertAction)
    (hallowed : AlertAllowed s action) : AlertInvariant (alertStep hw s action) := by
  cases action with
  | interrupt => exact hs.interrupt
  | read => exact hs.read
  | store i =>
    by_cases hpending : ∃ pass, s.passes[i]? = some pass ∧ pass.stored = false
    · obtain ⟨pass, hpass, hstored⟩ := hpending
      exact hs.store hpass hstored (hallowed ⟨pass, hpass, hstored⟩)
    · rw [alertStep, AlertRun.store_done hpending]
      exact hs

-- A store that comes too late loses the bits of the last interrupt.
theorem AlertInvariant.exact (hs : AlertInvariant s) (action : AlertAction)
    (hkept : NoBitLost (alertStep hw s action)) : AlertAllowed s action := by
  cases action with
  | interrupt => trivial
  | read => trivial
  | store i =>
    rintro ⟨pass, hpass, hpending⟩
    by_contra hlate
    have hmem := List.mem_of_getElem? hpass
    have hlast : s.returned.length - 1 < s.returned.length := by
      have := hs.started pass hmem
      have hne : pass.start ≠ s.returned.length := fun heq ↦ hlate ⟨pass, hmem, heq⟩
      omega
    obtain ⟨b, hb⟩ : ∃ b, (s.returned[s.returned.length - 1]).getLsbD b = true := by
      by_contra hnone
      apply hs.nonzero _ (List.getElem_mem hlast)
      apply BitVec.eq_of_getLsbD_eq
      intro b hb
      rw [Bool.eq_false_of_not_eq_true fun h ↦ hnone ⟨b, h⟩,
        Bool.eq_false_of_not_eq_true (no_bit_zero b)]
    rw [alertStep, AlertRun.store_pending hpass hpending] at hkept
    rcases hkept _ _ b (List.getElem?_eq_getElem hlast) hb with hheld | ⟨p, hp, hlt, -⟩
    · exact no_bit_zero b hheld
    · obtain ⟨p', hp', hstart, -⟩ := (mem_set_stored hpass).mp ⟨p, hp, rfl, rfl⟩
      have := hs.started p' hp'
      exact hlate ⟨p', hp', by omega⟩

end

theorem alertStart_invariant (port : IsrPort) (h : H) : AlertInvariant (alertStart port h) :=
  ⟨fun _ _ _ hk ↦ (Option.some_ne_none _ hk.symm).elim, fun _ hmem ↦ absurd hmem List.not_mem_nil,
    fun _ hmem ↦ absurd hmem List.not_mem_nil, fun _ hmem ↦ absurd hmem List.not_mem_nil⟩

/-- No bit is ever lost on the way to the listeners if and only if each store of 0 comes before the
next interrupt behind the last read. -/
theorem fscc_isr_no_bit_lost (hw : Hardware H) (port : IsrPort) (h : H)
    (actions : List AlertAction) :
    (∀ n, NoBitLost ((actions.take n).foldl (alertStep hw) (alertStart port h))) ↔
      Runs.Along AlertAllowed (alertStep hw) (alertStart port h) actions :=
  (Runs.along_iff_always (fun _ hs ↦ hs.noBitLost) (fun _ action hs ↦ hs.step action)
    (fun _ action hs ↦ hs.exact action) (alertStart_invariant port h)).symm

-- The second interrupt comes between the read and the store.
theorem fscc_isr_bit_lost :
    ¬ NoBitLost ([AlertAction.interrupt, .read, .interrupt, .store 0].foldl
      (alertStep ⟨fun _ _ h ↦ (0x00000100, h), fun _ _ _ h ↦ h, fun h ↦ (0, h)⟩)
      (alertStart ⟨⟨0, false, true, false, .init⟩, 0⟩ ())) := by
  intro h
  rcases h 1 0x00000100 8 rfl rfl with hheld | ⟨pass, hpass, hlt, -⟩
  · exact absurd hheld (by decide)
  · change pass ∈ [(⟨1, 0x00000100, true⟩ : AlertPass)] at hpass
    rw [List.mem_singleton.mp hpass] at hlt
    exact absurd hlt (by decide)

end FsccDriver

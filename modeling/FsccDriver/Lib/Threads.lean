import Mathlib.Algebra.GroupWithZero.Nat
import Mathlib.Data.List.Basic

/-!
# Threads — a list of threads that move one at a time

A step of thread `i` replaces one entry of the list.  Invariants that count the threads in some
phase only have to look at the entry that changes.
-/

namespace Threads

variable {τ : Type*} {threads : List τ} {i : Nat} {t t' : τ}

/-- How a count changes when one thread moves. -/
theorem countP_set (phase : τ → Bool) (h : threads[i]? = some t) (t' : τ) :
    (threads.set i t').countP phase + (if phase t then 1 else 0) =
      threads.countP phase + (if phase t' then 1 else 0) := by
  obtain ⟨hi, ht⟩ := List.getElem?_eq_some_iff.mp h
  have hpos : phase t = true → 0 < threads.countP phase := fun hphase ↦
    List.countP_pos_iff.mpr ⟨t, ht ▸ List.getElem_mem hi, hphase⟩
  rw [List.countP_set hi, ht]
  cases hphase : phase t with
  | false => simp
  | true =>
    have := hpos hphase
    simp only [if_true]
    omega

/-- How a sum changes when one thread moves. -/
theorem sum_set (f : τ → Nat) (h : threads[i]? = some t) (t' : τ) :
    ((threads.set i t').map f).sum + f t = (threads.map f).sum + f t' := by
  induction threads generalizing i with
  | nil => cases h
  | cons first threads ih =>
    cases i with
    | zero =>
      obtain rfl := Option.some.inj h
      rw [List.set_cons_zero, List.map_cons, List.map_cons, List.sum_cons, List.sum_cons]
      omega
    | succ i =>
      have hrest := ih h
      rw [List.set_cons_succ, List.map_cons, List.map_cons, List.sum_cons, List.sum_cons]
      omega

theorem countP_append_one (phase : τ → Bool) (threads : List τ) (t : τ) :
    (threads ++ [t]).countP phase = threads.countP phase + if phase t then 1 else 0 := by
  rw [List.countP_append, List.countP_singleton]

theorem forall_set {P : τ → Prop} (hall : ∀ t ∈ threads, P t) (h : P t') :
    ∀ t ∈ threads.set i t', P t := by
  intro t ht
  rcases List.mem_or_eq_of_mem_set ht with hold | rfl
  · exact hall t hold
  · exact h

-- A thread is still there, unless it is the one that has moved.
theorem mem_set_or (h : t ∈ threads) (i : Nat) (t' : τ) :
    t ∈ threads.set i t' ∨ threads[i]? = some t := by
  obtain ⟨j, hj, rfl⟩ := List.mem_iff_getElem.mp h
  by_cases hij : i = j
  · subst hij
    exact Or.inr (List.getElem?_eq_getElem hj)
  · refine Or.inl (List.mem_iff_getElem.mpr ⟨j, by rwa [List.length_set], ?_⟩)
    rw [List.getElem_set_ne hij]

theorem mem_set_self (h : threads[i]? = some t) (t' : τ) : t' ∈ threads.set i t' := by
  obtain ⟨hi, -⟩ := List.getElem?_eq_some_iff.mp h
  exact List.mem_set hi t'

theorem forall_append_one {P : τ → Prop} (hall : ∀ t ∈ threads, P t) (h : P t') :
    ∀ t ∈ threads ++ [t'], P t := by
  intro t ht
  rcases List.mem_append.mp ht with hold | hnew
  · exact hall t hold
  · rw [List.mem_singleton.mp hnew]
    exact h

end Threads

import Mathlib.Data.List.Basic

/-!
# RunningBest — the best element a scan has come by

`IsBest good le xs best` says that `best` is one of the good elements of `xs` and comes before all of
them in the order `le`, or that there is none.  The rules follow a scan that takes one element after
the other.
-/

namespace RunningBest

variable {α : Type*} {good other : α → Prop} {le : α → α → Prop} {xs : List α} {best : Option α}
  {b x : α}

def IsBest (good : α → Prop) (le : α → α → Prop) (xs : List α) : Option α → Prop
  | none => ∀ x ∈ xs, ¬ good x
  | some b => b ∈ xs ∧ good b ∧ ∀ x ∈ xs, good x → le b x

theorem IsBest.nil : IsBest good le [] none := fun _ hmem ↦ absurd hmem List.not_mem_nil

theorem IsBest.pass (h : IsBest good le xs best) (hx : ¬ good x) :
    IsBest good le (xs ++ [x]) best := by
  cases best with
  | none =>
    show ∀ y ∈ xs ++ [x], ¬ good y
    rw [List.forall_mem_append]
    exact ⟨h, fun y hy ↦ List.mem_singleton.mp hy ▸ hx⟩
  | some b =>
    refine ⟨List.mem_append_left _ h.1, h.2.1, List.forall_mem_append.mpr ⟨h.2.2, fun y hy ↦ ?_⟩⟩
    rw [List.mem_singleton.mp hy]
    exact fun hgood ↦ absurd hgood hx

theorem IsBest.keep (h : IsBest good le xs (some b)) (hle : le b x) :
    IsBest good le (xs ++ [x]) (some b) := by
  refine ⟨List.mem_append_left _ h.1, h.2.1, List.forall_mem_append.mpr ⟨h.2.2, fun y hy ↦ ?_⟩⟩
  rw [List.mem_singleton.mp hy]
  exact fun _ ↦ hle

theorem IsBest.replace (htrans : ∀ a b c, le a b → le b c → le a c) (h : IsBest good le xs best)
    (hx : good x) (hrefl : le x x) (hle : ∀ b, best = some b → le x b) :
    IsBest good le (xs ++ [x]) (some x) := by
  refine ⟨List.mem_append_right _ List.mem_cons_self, hx, List.forall_mem_append.mpr ⟨?_, ?_⟩⟩
  · intro y hy hgood
    cases best with
    | none => exact absurd hgood (h y hy)
    | some b => exact htrans _ _ _ (hle b rfl) (h.2.2 y hy hgood)
  · intro y hy _
    rw [List.mem_singleton.mp hy]
    exact hrefl

/-- Two scans side by side: the best of the one is the best of both when it comes before all of the
other. -/
theorem IsBest.or_left (h : IsBest good le xs (some b)) (hle : ∀ x ∈ xs, other x → le b x) :
    IsBest (fun x ↦ good x ∨ other x) le xs (some b) := by
  refine ⟨h.1, Or.inl h.2.1, fun x hx ↦ ?_⟩
  rintro (hgood | hother)
  · exact h.2.2 x hx hgood
  · exact hle x hx hother

theorem IsBest.or_none (h : IsBest good le xs none) (h' : IsBest other le xs none) :
    IsBest (fun x ↦ good x ∨ other x) le xs none :=
  fun x hx hboth ↦ hboth.elim (h x hx) (h' x hx)

theorem IsBest.congr (h : IsBest good le xs best) (heq : ∀ x, good x ↔ other x) :
    IsBest other le xs best := by
  obtain rfl : good = other := funext fun x ↦ propext (heq x)
  exact h

end RunningBest

import Mathlib.Data.List.Basic

/-!
# Runs — invariants along a run of a step function

A run is `actions.foldl step s`.  `Along P step s actions` says that every step of the run meets the
condition `P`, which looks at the state before the step and at the action.
-/

namespace Runs

variable {σ α : Type*} {step : σ → α → σ} {P Q : σ → α → Prop} {Inv : σ → Prop} {s : σ}
  {actions more : List α}

def Along (P : σ → α → Prop) (step : σ → α → σ) : σ → List α → Prop
  | _, [] => True
  | s, action :: actions => P s action ∧ Along P step (step s action) actions

instance decidableAlong [∀ s action, Decidable (P s action)] :
    (s : σ) → (actions : List α) → Decidable (Along P step s actions)
  | _, [] => inferInstanceAs (Decidable True)
  | s, action :: actions =>
      have := decidableAlong (step s action) actions
      inferInstanceAs (Decidable (P s action ∧ Along P step (step s action) actions))

/-- The invariant rule: what every step that meets the condition preserves holds at the end of every
run whose steps all meet it. -/
theorem Along.invariant (hstep : ∀ s action, P s action → Inv s → Inv (step s action))
    (h : Along P step s actions) (hs : Inv s) : Inv (actions.foldl step s) := by
  induction actions generalizing s with
  | nil => exact hs
  | cons action actions ih => exact ih h.2 (hstep s action h.1 hs)

/-- Under an invariant one condition along a run gives another. -/
theorem Along.imp (hstep : ∀ s action, P s action → Inv s → Inv (step s action))
    (himp : ∀ s action, P s action → Inv s → Q s action) (h : Along P step s actions) (hs : Inv s) :
    Along Q step s actions := by
  induction actions generalizing s with
  | nil => exact trivial
  | cons action actions ih => exact ⟨himp s action h.1 hs, ih h.2 (hstep s action h.1 hs)⟩

theorem invariant (hstep : ∀ s action, Inv s → Inv (step s action)) (hs : Inv s)
    (actions : List α) : Inv (actions.foldl step s) := by
  induction actions generalizing s with
  | nil => exact hs
  | cons action actions ih => exact ih (hstep s action hs)

/-- The condition is exact when a step that breaks it leaves what it is there for: then it holds at
every step if and only if every state on the way is good. -/
theorem along_iff_always {Good : σ → Prop} (hgood : ∀ s, Inv s → Good s)
    (hstep : ∀ s action, Inv s → P s action → Inv (step s action))
    (hexact : ∀ s action, Inv s → Good (step s action) → P s action) (hs : Inv s) :
    Along P step s actions ↔ ∀ n, Good ((actions.take n).foldl step s) := by
  induction actions generalizing s with
  | nil =>
    refine ⟨fun _ n ↦ ?_, fun _ ↦ trivial⟩
    rw [List.take_nil]
    exact hgood s hs
  | cons action actions ih =>
    constructor
    · rintro ⟨hP, hlater⟩ n
      cases n with
      | zero => exact hgood s hs
      | succ n => exact (ih (hstep s action hs hP)).mp hlater n
    · intro halways
      have hP : P s action := hexact s action hs (halways 1)
      exact ⟨hP, (ih (hstep s action hs hP)).mpr fun n ↦ halways (n + 1)⟩

theorem along_congr (h : ∀ s action, P s action ↔ Q s action) :
    Along P step s actions ↔ Along Q step s actions := by
  induction actions generalizing s with
  | nil => exact Iff.rfl
  | cons action actions ih => exact and_congr (h s action) ih

theorem along_append :
    Along P step s (actions ++ more) ↔
      Along P step s actions ∧ Along P step (actions.foldl step s) more := by
  induction actions generalizing s with
  | nil => exact (and_iff_right trivial).symm
  | cons action actions ih => rw [List.cons_append, Along, Along, ih, and_assoc, List.foldl_cons]

end Runs

import Mathlib.Data.List.Pairwise
import Mathlib.Order.WithBot

/-!
# Stamps — a queue whose entries are stamped from the front

Entries join a queue without a time and leave it from the front.  Every time that is given to an entry
is given to the first one that has none, and none is earlier than those given before: then the times
leave the queue in order.  An entry without a time has `⊤`, which is later than all of them.
-/

namespace Stamps

variable {T : Type*} [LinearOrder T] {now now' t : T} {gone front : List T} {item : WithTop T}
  {items rest : List (WithTop T)}

/-- `gone` are the times that have left the queue, `now` is not before any of those given. -/
structure InOrder (now : T) (gone : List T) (items : List (WithTop T)) : Prop where
  sorted : (gone.map WithTop.some ++ items).Pairwise (· ≤ ·)
  bounded : ∀ t : T, (t : WithTop T) ∈ gone.map WithTop.some ++ items → t ≤ now

theorem InOrder.empty (now : T) : InOrder now [] [] :=
  ⟨List.Pairwise.nil, fun _ hmem ↦ absurd hmem List.not_mem_nil⟩

theorem InOrder.later (h : InOrder now gone items) (hle : now ≤ now') : InOrder now' gone items :=
  ⟨h.sorted, fun t hmem ↦ (h.bounded t hmem).trans hle⟩

theorem InOrder.join (h : InOrder now gone items) : InOrder now gone (items ++ [⊤]) := by
  constructor
  · rw [← List.append_assoc]
    refine List.pairwise_append.mpr ⟨h.sorted, List.pairwise_singleton _ _, fun a _ b hb ↦ ?_⟩
    rw [List.mem_singleton.mp hb]
    exact le_top
  · intro t hmem
    rw [← List.append_assoc, List.mem_append] at hmem
    rcases hmem with hmem | hmem
    · exact h.bounded t hmem
    · exact absurd (List.mem_singleton.mp hmem) (WithTop.coe_ne_top)

-- What is left of the queue when entries leave it unseen.
theorem InOrder.sublist (h : InOrder now gone items) (hsub : rest.Sublist items) :
    InOrder now gone rest := by
  have hall := (List.Sublist.refl (gone.map WithTop.some)).append hsub
  exact ⟨h.sorted.sublist hall, fun t hmem ↦ h.bounded t (hall.subset hmem)⟩

theorem InOrder.leave (h : InOrder now gone ((t : WithTop T) :: rest)) :
    InOrder now (gone ++ [t]) rest := by
  have hsame : (gone ++ [t]).map WithTop.some ++ rest =
      gone.map WithTop.some ++ (t : WithTop T) :: rest := by
    rw [List.map_append, List.append_assoc]
    rfl
  constructor
  · rw [hsame]
    exact h.sorted
  · rw [hsame]
    exact h.bounded

/-- The first entry that has no time is given one: those behind it have none either. -/
theorem InOrder.stamp (h : InOrder now gone (front.map WithTop.some ++ ⊤ :: rest)) (hle : now ≤ t) :
    InOrder t gone (front.map WithTop.some ++ (t : WithTop T) :: rest) := by
  have hsorted := h.sorted
  have hbounded := h.bounded
  rw [← List.append_assoc, ← List.map_append] at hsorted hbounded
  obtain ⟨hfront, hrest, -⟩ := List.pairwise_append.mp hsorted
  obtain ⟨htop, hrest⟩ := List.pairwise_cons.mp hrest
  have hstamped : ∀ a ∈ (gone ++ front).map WithTop.some, a ≤ (t : WithTop T) := by
    intro a ha
    obtain ⟨t', -, rfl⟩ := List.mem_map.mp ha
    exact WithTop.coe_le_coe.mpr ((hbounded t' (List.mem_append_left _ ha)).trans hle)
  have hopen : ∀ b ∈ rest, b = ⊤ := fun b hb ↦ top_le_iff.mp (htop b hb)
  constructor
  · rw [← List.append_assoc, ← List.map_append]
    refine List.pairwise_append.mpr
      ⟨hfront, List.pairwise_cons.mpr ⟨fun b hb ↦ ?_, hrest⟩, fun a ha b hb ↦ ?_⟩
    · rw [hopen b hb]
      exact le_top
    · rcases List.mem_cons.mp hb with rfl | hb
      · exact hstamped a ha
      · rw [hopen b hb]
        exact le_top
  · intro t' hmem
    rw [← List.append_assoc, ← List.map_append] at hmem
    rcases List.mem_append.mp hmem with hmem | hmem
    · exact WithTop.coe_le_coe.mp (hstamped _ hmem)
    · rcases List.mem_cons.mp hmem with heq | hmem
      · exact le_of_eq (WithTop.coe_inj.mp heq)
      · exact absurd (hopen _ hmem) WithTop.coe_ne_top

theorem InOrder.gone_sorted (h : InOrder now gone items) : gone.Pairwise (· ≤ ·) := by
  have hgone := (List.pairwise_append.mp h.sorted).1
  rw [List.pairwise_map] at hgone
  exact hgone.imp fun hle ↦ WithTop.coe_le_coe.mp hle

end Stamps

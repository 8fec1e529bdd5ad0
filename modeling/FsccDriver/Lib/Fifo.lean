import Mathlib.Data.List.Basic
import Mathlib.Data.List.Induction

/-!
# Fifo — a queue and what goes through it

An event is what one step does to a queue: a batch joins it at the end, a batch leaves it from the
front, or all of it is dropped.  `Replays es q q'` says that the events in that order are possible on
`q` and leave `q'`; every statement about order and loss is then a statement about the events.
-/

namespace Fifo

variable {ε σ α : Type*}

inductive Event (ε : Type*) where
  | join (items : List ε)
  | leave (items : List ε)
  | drop

def Event.Does : Event ε → List ε → List ε → Prop
  | .join items, q, q' => q' = q ++ items
  | .leave items, q, q' => q = items ++ q'
  | .drop, _, q' => q' = []

def Replays : List (Event ε) → List ε → List ε → Prop
  | [], q, q' => q = q'
  | e :: es, q, q' => ∃ mid, e.Does q mid ∧ Replays es mid q'

def Event.joined : Event ε → List ε
  | .join items => items
  | _ => []

def Event.left : Event ε → List ε
  | .leave items => items
  | _ => []

def Event.batch : Event ε → List (List ε)
  | .join items => [items]
  | _ => []

def batches (es : List (Event ε)) : List (List ε) := es.flatMap Event.batch

/-- All that has joined, and all that has left, in order. -/
def joined (es : List (Event ε)) : List ε := es.flatMap Event.joined
def left (es : List (Event ε)) : List ε := es.flatMap Event.left

def Event.after (earlier : List (Event ε)) : Event ε → List (Event ε)
  | .drop => []
  | e => earlier ++ [e]

/-- The events behind the last drop. -/
def sinceDrop (es : List (Event ε)) : List (Event ε) := es.foldl Event.after []

variable {e : Event ε} {es more : List (Event ε)} {q mid q' : List ε}

theorem joined_eq_flatten (es : List (Event ε)) : joined es = (batches es).flatten := by
  induction es with
  | nil => rfl
  | cons e es ih =>
    show e.joined ++ joined es = (e.batch ++ batches es).flatten
    rw [ih, List.flatten_append]
    cases e with
    | join items => rw [Event.batch, List.flatten_singleton, Event.joined]
    | leave items => rfl
    | drop => rfl

theorem replays_append :
    Replays (es ++ more) q q' ↔ ∃ mid, Replays es q mid ∧ Replays more mid q' := by
  induction es generalizing q with
  | nil => exact ⟨fun h ↦ ⟨q, rfl, h⟩, fun ⟨_, hq, h⟩ ↦ hq ▸ h⟩
  | cons e es ih =>
    constructor
    · rintro ⟨first, hdoes, hrest⟩
      obtain ⟨mid, hes, hmore⟩ := ih.mp hrest
      exact ⟨mid, ⟨first, hdoes, hes⟩, hmore⟩
    · rintro ⟨mid, ⟨first, hdoes, hes⟩, hmore⟩
      exact ⟨first, hdoes, ih.mpr ⟨mid, hes, hmore⟩⟩

theorem Replays.trans (h : Replays es q mid) (h' : Replays more mid q') : Replays (es ++ more) q q' :=
  replays_append.mpr ⟨mid, h, h'⟩

theorem Replays.single (h : e.Does q q') : Replays [e] q q' := ⟨q', h, rfl⟩

/-- Nothing is invented, repeated or overtaken: what left and what is still there joined in that
order.  What is missing was dropped. -/
theorem Replays.sublist (h : Replays es q q') : (left es ++ q').Sublist (q ++ joined es) := by
  induction es generalizing q with
  | nil =>
    have hq : q = q' := h
    rw [hq]
    exact List.sublist_append_left _ _
  | cons e es ih =>
    obtain ⟨mid, hdoes, hrest⟩ := h
    have hlater := ih hrest
    cases e with
    | join items =>
      have hmid : mid = q ++ items := hdoes
      rw [hmid, List.append_assoc] at hlater
      exact hlater
    | leave items =>
      have hq : q = items ++ mid := hdoes
      rw [hq]
      show ((items ++ left es) ++ q').Sublist ((items ++ mid) ++ joined es)
      rw [List.append_assoc, List.append_assoc]
      exact hlater.append_left items
    | drop =>
      have hmid : mid = [] := hdoes
      rw [hmid] at hlater
      exact hlater.trans (List.sublist_append_right _ _)

/-- Without a drop the queue is what joined less what left. -/
theorem Replays.balance (h : Replays es q q') (hkept : ∀ e ∈ es, e ≠ .drop) :
    q ++ joined es = left es ++ q' := by
  induction es generalizing q with
  | nil =>
    have hq : q = q' := h
    rw [hq]
    exact List.append_nil _
  | cons e es ih =>
    obtain ⟨mid, hdoes, hrest⟩ := h
    have hlater := ih hrest fun e he ↦ hkept e (List.mem_cons_of_mem _ he)
    cases e with
    | join items =>
      have hmid : mid = q ++ items := hdoes
      rw [hmid, List.append_assoc] at hlater
      exact hlater
    | leave items =>
      have hq : q = items ++ mid := hdoes
      show q ++ joined es = (items ++ left es) ++ q'
      rw [hq, List.append_assoc, List.append_assoc, hlater]
    | drop => exact absurd rfl (hkept _ List.mem_cons_self)

theorem after_cases (e : Event ε) (earlier : List (Event ε)) :
    e = .drop ∧ e.after earlier = [] ∨ e ≠ .drop ∧ e.after earlier = earlier ++ [e] := by
  cases e with
  | drop => exact Or.inl ⟨rfl, rfl⟩
  | join items => exact Or.inr ⟨(fun h ↦ by cases h), rfl⟩
  | leave items => exact Or.inr ⟨(fun h ↦ by cases h), rfl⟩

theorem sinceDrop_append_one (es : List (Event ε)) (e : Event ε) :
    sinceDrop (es ++ [e]) = e.after (sinceDrop es) := by
  rw [sinceDrop, List.foldl_append]
  rfl

theorem sinceDrop_kept (es : List (Event ε)) : ∀ e ∈ sinceDrop es, e ≠ .drop := by
  induction es using List.reverseRecOn with
  | nil => exact fun _ he ↦ absurd he List.not_mem_nil
  | append_singleton es last ih =>
    rw [sinceDrop_append_one]
    rcases after_cases last (sinceDrop es) with ⟨-, hafter⟩ | ⟨hlast, hafter⟩
    · rw [hafter]
      exact fun _ he ↦ absurd he List.not_mem_nil
    · rw [hafter]
      intro e he
      rcases List.mem_append.mp he with hold | hnew
      · exact ih e hold
      · rwa [List.mem_singleton.mp hnew]

theorem sinceDrop_suffix (es : List (Event ε)) : sinceDrop es <:+ es := by
  induction es using List.reverseRecOn with
  | nil => exact List.suffix_refl _
  | append_singleton es last ih =>
    rw [sinceDrop_append_one]
    rcases after_cases last (sinceDrop es) with ⟨-, hafter⟩ | ⟨-, hafter⟩
    · rw [hafter]
      exact List.nil_suffix
    · obtain ⟨earlier, hes⟩ := ih
      rw [hafter]
      exact ⟨earlier, by rw [← List.append_assoc, hes]⟩

/-- A drop forgets everything before it. -/
theorem Replays.sinceDrop (h : Replays es [] q') : Replays (Fifo.sinceDrop es) [] q' := by
  induction es using List.reverseRecOn generalizing q' with
  | nil => exact h
  | append_singleton es last ih =>
    obtain ⟨mid, hes, end', hlast, hend⟩ := replays_append.mp h
    have hq : end' = q' := hend
    rw [hq] at hlast
    rw [sinceDrop_append_one]
    rcases after_cases last (Fifo.sinceDrop es) with ⟨hdrop, hafter⟩ | ⟨-, hafter⟩
    · have hempty : q' = [] := by rwa [hdrop] at hlast
      rw [hafter]
      exact hempty.symm
    · rw [hafter]
      exact (ih hes).trans (.single hlast)

/-- What joined since the last drop is what left since then and what is still there. -/
theorem Replays.since (h : Replays es [] q') :
    joined (Fifo.sinceDrop es) = left (Fifo.sinceDrop es) ++ q' :=
  h.sinceDrop.balance (sinceDrop_kept es)

/-- What the far side has got behind an event: `f` says what an item is there, and a drop empties that
side too. -/
def Event.delivered {β : Type*} (f : ε → List β) (got : List β) : Event ε → List β
  | .join _ => got
  | .leave items => got ++ items.flatMap f
  | .drop => []

theorem left_append (es more : List (Event ε)) : left (es ++ more) = left es ++ left more :=
  List.flatMap_append

theorem delivered_eq {β : Type*} (f : ε → List β) (es : List (Event ε)) :
    es.foldl (Event.delivered f) [] = (left (Fifo.sinceDrop es)).flatMap f := by
  induction es using List.reverseRecOn with
  | nil => rfl
  | append_singleton es last ih =>
    rw [List.foldl_append, ih, sinceDrop_append_one]
    cases last with
    | join items =>
      show _ = (left (Fifo.sinceDrop es ++ [.join items])).flatMap f
      rw [left_append]
      exact congrArg (List.flatMap f) (List.append_nil _).symm
    | leave items =>
      show _ ++ items.flatMap f = (left (Fifo.sinceDrop es ++ [.leave items])).flatMap f
      rw [left_append, List.flatMap_append]
      show _ = _ ++ (items ++ []).flatMap f
      rw [List.append_nil]
    | drop => rfl

/-! ## Runs whose steps do something to a queue -/

/-- The events of a run, where `emit` says what each step does. -/
def trace (emit : σ → α → List (Event ε)) (step : σ → α → σ) : σ → List α → List (Event ε)
  | _, [] => []
  | s, action :: actions => emit s action ++ trace emit step (step s action) actions

/-- The simulation rule: when each step does to the queue of the state what it emits, so does the
run. -/
theorem replays_trace {emit : σ → α → List (Event ε)} {step : σ → α → σ} {queue : σ → List ε}
    {Inv : σ → Prop} {s : σ} (hstep : ∀ s action, Inv s →
      Inv (step s action) ∧ Replays (emit s action) (queue s) (queue (step s action)))
    (hs : Inv s) (actions : List α) : Inv (actions.foldl step s) ∧
      Replays (trace emit step s actions) (queue s) (queue (actions.foldl step s)) := by
  induction actions generalizing s with
  | nil => exact ⟨hs, rfl⟩
  | cons action actions ih =>
    obtain ⟨hnext, hone⟩ := hstep s action hs
    obtain ⟨hend, hrest⟩ := ih hnext
    exact ⟨hend, hone.trans hrest⟩

/-- What every step appends to a log, the run appends. -/
theorem log_trace {β : Type*} {emit : σ → α → List (Event ε)} {step : σ → α → σ} (log : σ → List β)
    {f : Event ε → List β} (hlog : ∀ s action, log (step s action) = log s ++ (emit s action).flatMap f)
    (s : σ) (actions : List α) :
    log (actions.foldl step s) = log s ++ (trace emit step s actions).flatMap f := by
  induction actions generalizing s with
  | nil => exact (List.append_nil _).symm
  | cons action actions ih =>
    rw [List.foldl_cons, ih, hlog, trace, List.flatMap_append, List.append_assoc]

/-! ## Nobody is overtaken -/

/-- As long as `a` waits, `b` waits behind it. -/
def Behind (a b : α) (items : List α) : Prop := a ∈ items → [a, b].Sublist items

section Behind

variable {a b x : α} {items : List α}

theorem Behind.join (h : Behind a b items) (hx : x ≠ a) : Behind a b (items ++ [x]) := by
  intro hmem
  rcases List.mem_append.mp hmem with hmem | hmem
  · exact (h hmem).trans (List.sublist_append_left _ _)
  · exact absurd (List.mem_singleton.mp hmem).symm hx

-- The first one leaves.
theorem Behind.leave (h : Behind a b (x :: items)) (hx : a ∈ items → x ≠ a) : Behind a b items := by
  intro hmem
  exact List.Sublist.of_cons_of_ne (hx hmem).symm (h (List.mem_cons_of_mem x hmem))

-- Any of them leave, but not `b`.
theorem Behind.filter {p : α → Bool} (h : Behind a b items) (hb : p b = true) :
    Behind a b (items.filter p) := by
  intro hmem
  obtain ⟨hin, ha⟩ := List.mem_filter.mp hmem
  have hkept : [a, b].filter p = [a, b] := by simp [ha, hb]
  rw [← hkept]
  exact (h hin).filter p

end Behind

end Fifo

import Mathlib.Logic.Basic

/-!
# Calls — programs that call a system

A program is the tree of its calls: what it does after a call depends on the answer.  `run` lets a
system with a state answer them.  A loop that nothing bounds is unrolled some number of times and
ends in `unfinished`.
-/

namespace Calls

inductive Program (C : Type) (A : C → Type) (α : Type) where
  | done (a : α)
  | call (c : C) (next : A c → Program C A α)
  | unfinished

namespace Program

variable {C : Type} {A : C → Type} {α β σ : Type}

def bind : Program C A α → (α → Program C A β) → Program C A β
  | done a, f => f a
  | call c next, f => call c fun answer ↦ (next answer).bind f
  | unfinished, _ => unfinished

instance : Monad (Program C A) where
  pure := done
  bind := bind

-- One call, whose answer is the result.
def make (c : C) : Program C A (A c) := call c done

def run (respond : (c : C) → σ → A c × σ) : Program C A α → σ → Option α × σ
  | done a, s => (some a, s)
  | call c next, s => (next (respond c s).1).run respond (respond c s).2
  | unfinished, s => (none, s)

/-- `Q` holds of the result and of the state the program leaves. -/
def Post (respond : (c : C) → σ → A c × σ) (p : Program C A α) (Q : Option α → σ → Prop) (s : σ) :
    Prop :=
  Q (p.run respond s).1 (p.run respond s).2

section Rules

variable {respond : (c : C) → σ → A c × σ} {p : Program C A α} {f : α → Program C A β}
  {Q Q' : Option α → σ → Prop} {R : Option β → σ → Prop} {s : σ}

-- Where the first part breaks off, so does the whole.
def Then (respond : (c : C) → σ → A c × σ) (f : α → Program C A β) (R : Option β → σ → Prop) :
    Option α → σ → Prop
  | some a, s => Post respond (f a) R s
  | none, s => R none s

theorem post_bind : Post respond (p >>= f) R s ↔ Post respond p (Then respond f R) s := by
  induction p generalizing s with
  | done a => exact Iff.rfl
  | call c next ih => exact ih (respond c s).1
  | unfinished => exact Iff.rfl

theorem Post.mono (h : Post respond p Q s) (hQ : ∀ a s, Q a s → Q' a s) : Post respond p Q' s :=
  hQ _ _ h

-- A branch may use its own condition.
theorem Post.ite {c : Prop} [Decidable c] {q : Program C A α} (hp : c → Post respond p Q s)
    (hq : ¬ c → Post respond q Q s) : Post respond (if c then p else q) Q s := by
  split
  · exact hp ‹c›
  · exact hq ‹¬ c›

end Rules

/-- Whatever the calls return, the result has `P`, where there is one. -/
def Always (P : α → Prop) : Program C A α → Prop
  | done a => P a
  | call _ next => ∀ answer, (next answer).Always P
  | unfinished => True

section Always

variable {p q : Program C A α} {f : α → Program C A β} {P : α → Prop} {Q : β → Prop}

theorem Always.bind (h : p.Always P) (hf : ∀ a, P a → (f a).Always Q) : (p >>= f).Always Q := by
  induction p with
  | done a => exact hf a h
  | call c next ih => exact fun answer ↦ ih answer (h answer)
  | unfinished => exact trivial

theorem Always.mono {P' : α → Prop} (h : p.Always P) (hP : ∀ a, P a → P' a) : p.Always P' := by
  induction p with
  | done a => exact hP a h
  | call c next ih => exact fun answer ↦ ih answer (h answer)
  | unfinished => exact trivial

theorem Always.ite {c : Prop} [Decidable c] (hp : c → p.Always P) (hq : ¬ c → q.Always P) :
    (if c then p else q).Always P := by
  split
  · exact hp ‹c›
  · exact hq ‹¬ c›

theorem always_true (p : Program C A α) : p.Always fun _ ↦ True := by
  induction p with
  | done a => exact trivial
  | call c next ih => exact ih
  | unfinished => exact trivial

theorem Always.run {respond : (c : C) → σ → A c × σ} {s : σ} {a : α} (h : p.Always P)
    (hrun : (p.run respond s).1 = some a) : P a := by
  induction p generalizing s with
  | done a' =>
    rw [Program.run, Option.some_inj] at hrun
    exact hrun ▸ h
  | call c next ih => exact ih _ (h _) hrun
  | unfinished => cases hrun

end Always

/-- Every call has `P`, whatever the calls before it have returned. -/
def Only (P : C → Prop) : Program C A α → Prop
  | done _ => True
  | call c next => P c ∧ ∀ answer, (next answer).Only P
  | unfinished => True

section Only

variable {p q : Program C A α} {f : α → Program C A β} {P : C → Prop}

theorem Only.bind (h : p.Only P) (hf : ∀ a, (f a).Only P) : (p >>= f).Only P := by
  induction p with
  | done a => exact hf a
  | call c next ih => exact ⟨h.1, fun answer ↦ ih answer (h.2 answer)⟩
  | unfinished => exact trivial

theorem Only.ite {c : Prop} [Decidable c] (hp : c → p.Only P) (hq : ¬ c → q.Only P) :
    (if c then p else q).Only P := by
  split
  · exact hp ‹c›
  · exact hq ‹¬ c›

/-- What every such call preserves, the program preserves. -/
theorem Only.post {respond : (c : C) → σ → A c × σ} {Inv : σ → Prop} {s : σ}
    (hcall : ∀ c s, P c → Inv s → Inv (respond c s).2) (h : p.Only P) (hs : Inv s) :
    Post respond p (fun _ s ↦ Inv s) s := by
  induction p generalizing s with
  | done a => exact hs
  | call c next ih => exact ih _ (h.2 _) (hcall c s h.1 hs)
  | unfinished => exact hs

end Only

end Program

end Calls

import FsccDriver.Lib.Calls
import FsccDriver.Lib.Threads

/-!
# Protocol — programs that keep to the rules of the system they call

Which calls a program may make depends on what the calls before have answered.  A `Protocol` keeps
account of what a program has in its hands; a program follows it when every call it makes is allowed,
whatever the system answers.  Then it does so in any company: the other threads only change answers.
-/

namespace Calls

structure Protocol (S C : Type) (A : C → Type) where
  allowed : S → C → Prop
  after : S → (c : C) → A c → S

namespace Program

variable {S C : Type} {A : C → Type} {α β σ : Type}

/-- Every call is allowed, and the program leaves with a result and hands that have `Q`. -/
def Follows (rules : Protocol S C A) (Q : Option α → S → Prop) : Program C A α → S → Prop
  | done a, hands => Q (some a) hands
  | call c next, hands =>
      rules.allowed hands c ∧ ∀ answer, (next answer).Follows rules Q (rules.after hands c answer)
  | unfinished, hands => Q none hands

section Follows

variable {rules : Protocol S C A} {p q : Program C A α} {f : α → Program C A β} {hands : S}
  {Q Q' : Option α → S → Prop} {R : Option β → S → Prop}

theorem Follows.mono (h : p.Follows rules Q hands) (hQ : ∀ a hands, Q a hands → Q' a hands) :
    p.Follows rules Q' hands := by
  induction p generalizing hands with
  | done a => exact hQ _ _ h
  | call c next ih => exact ⟨h.1, fun answer ↦ ih answer (h.2 answer)⟩
  | unfinished => exact hQ _ _ h

theorem Follows.bind (h : p.Follows rules Q hands)
    (hf : ∀ a hands, Q (some a) hands → (f a).Follows rules R hands)
    (hnone : ∀ hands, Q none hands → R none hands) : (p >>= f).Follows rules R hands := by
  induction p generalizing hands with
  | done a => exact hf a hands h
  | call c next ih => exact ⟨h.1, fun answer ↦ ih answer (h.2 answer)⟩
  | unfinished => exact hnone hands h

theorem Follows.ite {c : Prop} [Decidable c] (hp : c → p.Follows rules Q hands)
    (hq : ¬ c → q.Follows rules Q hands) : (if c then p else q).Follows rules Q hands := by
  split
  · exact hp ‹c›
  · exact hq ‹¬ c›

/-- What every allowed call preserves holds at the end of a program that runs alone. -/
theorem Follows.post {respond : (c : C) → σ → A c × σ} {Inv : S → σ → Prop} {s : σ}
    (hcall : ∀ hands c s, rules.allowed hands c → Inv hands s →
      Inv (rules.after hands c (respond c s).1) (respond c s).2)
    (h : p.Follows rules Q hands) (hs : Inv hands s) :
    Post respond p (fun a s ↦ ∃ hands, Q a hands ∧ Inv hands s) s := by
  induction p generalizing hands s with
  | done a => exact ⟨hands, h, hs⟩
  | call c next ih => exact ih _ (h.2 _) (hcall hands c s h.1 hs)
  | unfinished => exact ⟨hands, h, hs⟩

end Follows

def nextCall : Program C A α → Option C
  | call c _ => some c
  | _ => none

theorem Follows.allowed {rules : Protocol S C A} {p : Program C A α} {hands : S}
    {Q : Option α → S → Prop} {c : C} (h : p.Follows rules Q hands) (hnext : p.nextCall = some c) :
    rules.allowed hands c := by
  cases p with
  | done a => cases hnext
  | call c' next => exact Option.some.inj hnext ▸ h.1
  | unfinished => cases hnext

-- A program that makes no further call has come to its end.
theorem Follows.ended {rules : Protocol S C A} {p : Program C A α} {hands : S} {Q : S → Prop}
    (h : p.Follows rules (fun _ hands ↦ Q hands) hands) (hended : p.nextCall = none) : Q hands := by
  cases p with
  | done a => exact h
  | call c next => cases hended
  | unfinished => exact h

end Program

/-! ## Threads -/

structure Thread (S C : Type) (A : C → Type) (α : Type) where
  hands : S
  program : Program C A α

section Move

variable {S C : Type} {A : C → Type} {α σ : Type}

/-- Thread `i` makes its next call, if it has one. -/
def move (after : S → (c : C) → A c → S) (respond : (c : C) → σ → A c × σ)
    (threads : List (Thread S C A α)) (i : Nat) (s : σ) : List (Thread S C A α) × σ :=
  match threads[i]? with
  | some ⟨hands, .call c next⟩ =>
      let (answer, s') := respond c s
      (threads.set i ⟨after hands c answer, next answer⟩, s')
  | _ => (threads, s)

def calling (threads : List (Thread S C A α)) (i : Nat) : Option (S × C) :=
  threads[i]?.bind fun thread ↦ thread.program.nextCall.map fun c ↦ (thread.hands, c)

variable {after : S → (c : C) → A c → S} {respond : (c : C) → σ → A c × σ}
  {threads : List (Thread S C A α)} {i : Nat} {s : σ}

theorem move_cases (after : S → (c : C) → A c → S) (respond : (c : C) → σ → A c × σ)
    (threads : List (Thread S C A α)) (i : Nat) (s : σ) :
    (calling threads i = none ∧ move after respond threads i s = (threads, s)) ∨
      ∃ hands c next, threads[i]? = some ⟨hands, .call c next⟩ ∧
        calling threads i = some (hands, c) ∧ move after respond threads i s =
          (threads.set i ⟨after hands c (respond c s).1, next (respond c s).1⟩, (respond c s).2) := by
  rw [calling, move]
  cases hthread : threads[i]? with
  | none => exact Or.inl ⟨rfl, rfl⟩
  | some thread =>
    obtain ⟨hands, program⟩ := thread
    cases program with
    | done a => exact Or.inl ⟨rfl, rfl⟩
    | call c next => exact Or.inr ⟨hands, c, next, rfl, rfl, rfl⟩
    | unfinished => exact Or.inl ⟨rfl, rfl⟩

theorem mem_of_calling {hands : S} {c : C} (h : calling threads i = some (hands, c)) :
    ∃ thread ∈ threads, thread.hands = hands ∧ thread.program.nextCall = some c := by
  obtain ⟨thread, hthread, hcall⟩ := Option.bind_eq_some_iff.mp h
  obtain ⟨c', hnext, heq⟩ := Option.map_eq_some_iff.mp hcall
  obtain ⟨hhands, rfl⟩ := Prod.mk.inj heq
  exact ⟨thread, List.mem_of_getElem? hthread, hhands, hnext⟩

/-- Threads that follow a protocol do so in every interleaving. -/
theorem move_follows {rules : Protocol S C A} {Q : Option α → S → Prop}
    (respond : (c : C) → σ → A c × σ) (h : ∀ thread ∈ threads, thread.program.Follows rules Q thread.hands) (i : Nat) (s : σ) :
    ∀ thread ∈ (move rules.after respond threads i s).1,
      thread.program.Follows rules Q thread.hands := by
  rcases move_cases rules.after respond threads i s with
    ⟨-, hsame⟩ | ⟨hands, c, next, hthread, -, hmoved⟩
  · rwa [hsame]
  · rw [hmoved]
    have hfollows := h _ (List.mem_of_getElem? hthread)
    exact Threads.forall_set h (hfollows.2 (respond c s).1)

end Move

end Calls

import Mathlib.Logic.Relation

/-!
# Mirror — a device with registers, and the copy its driver keeps

`Device.Holds` says which registers hold what was written to them; the others may do as they like.
A driver that stores what it writes keeps a copy that agrees with those registers.
-/

namespace Mirror

variable {K V S M : Type*}

/-- `tick` is an access to the device that is no access to a register. -/
structure Device (K V S : Type*) where
  read : K → S → V × S
  write : K → V → S → S
  tick : S → S

/-- The registers `held` are memory, and `content` is what they hold. -/
structure Device.Holds (dev : Device K V S) (held : K → Prop) (content : K → S → V) : Prop where
  read_value : ∀ k s, held k → (dev.read k s).1 = content k s
  read_keeps : ∀ k k' s, held k → content k (dev.read k' s).2 = content k s
  tick_keeps : ∀ k s, held k → content k (dev.tick s) = content k s
  write_self : ∀ k v s, held k → content k (dev.write k v s) = v
  write_other : ∀ k k' v s, held k → k' ≠ k → content k (dev.write k' v s) = content k s

/-- What the copy has for a register, if anything, and how a value that is written gets there.  The
registers that have a place in it are `placed`. -/
structure Copy (K V M : Type*) where
  placed : K → Prop
  stored : M → K → Option V
  store : K → V → M → M

structure Copy.Lawful (copy : Copy K V M) (held : K → Prop) : Prop where
  store_self : ∀ k v m, held k → copy.stored (copy.store k v m) k = some v
  store_other : ∀ k k' v m, held k → copy.placed k' → k' ≠ k →
    copy.stored (copy.store k' v m) k = copy.stored m k

section Access

variable (dev : Device K V S) (copy : Copy K V M) (held : K → Prop) (reach : M → K → V → Prop)

/-- One access of the driver.  It may write past the copy to registers that do not hold, and change
whatever else it keeps beside the copy.  What it may write to which register is its `reach`, which
stays the same. -/
inductive Access : M × S → M × S → Prop
  | read (k : K) (m : M) (s : S) : Access (m, s) (m, (dev.read k s).2)
  | tick (m : M) (s : S) : Access (m, s) (m, dev.tick s)
  | write (k : K) (v : V) (m : M) (s : S) (hplaced : copy.placed k) (hreach : reach m k v)
      (hstays : reach (copy.store k v m) = reach m) :
      Access (m, s) (copy.store k v m, dev.write k v s)
  | bypass (k : K) (v : V) (m : M) (s : S) (hfree : ¬ held k) (hreach : reach m k v) :
      Access (m, s) (m, dev.write k v s)
  | beside (m m' : M) (s : S) (hsame : ∀ k, held k → copy.stored m' k = copy.stored m k)
      (hstays : reach m' = reach m) : Access (m, s) (m', s)

abbrev Accesses : M × S → M × S → Prop := Relation.ReflTransGen (Access dev copy held reach)

end Access

/-- What is stored for one register is what it holds. -/
def AgreesAt (copy : Copy K V M) (content : K → S → V) (k : K) (state : M × S) : Prop :=
  ∀ v, copy.stored state.1 k = some v → content k state.2 = v

def Agrees (copy : Copy K V M) (held : K → Prop) (content : K → S → V) (state : M × S) : Prop :=
  ∀ k, held k → AgreesAt copy content k state

/-- Something is stored for every register that holds. -/
def Known (copy : Copy K V M) (held : K → Prop) (m : M) : Prop :=
  ∀ k, held k → ∃ v, copy.stored m k = some v

section Rules

variable {dev : Device K V S} {copy : Copy K V M} {held : K → Prop} {reach : M → K → V → Prop}
  {content : K → S → V} {state state' : M × S}

theorem agreesAt_write (hheld : dev.Holds held content) (hlawful : copy.Lawful held) {k : K}
    (hk : held k) (v : V) (m : M) (s : S) :
    AgreesAt copy content k (copy.store k v m, dev.write k v s) := by
  intro v' hstored
  rw [hlawful.store_self k v m hk, Option.some_inj] at hstored
  rw [hheld.write_self k v s hk, hstored]

theorem Access.agreesAt (hheld : dev.Holds held content) (hlawful : copy.Lawful held) {k : K}
    (hk : held k) (haccess : Access dev copy held reach state state') (h : AgreesAt copy content k state) :
    AgreesAt copy content k state' := by
  cases haccess with
  | read k' m s =>
    intro v hstored
    rw [hheld.read_keeps k k' s hk, h v hstored]
  | tick m s =>
    intro v hstored
    rw [hheld.tick_keeps k s hk, h v hstored]
  | write k' v' m s hplaced _ _ =>
    by_cases hsame : k' = k
    · subst hsame
      exact agreesAt_write hheld hlawful hk v' m s
    · intro v hstored
      rw [hlawful.store_other k k' v' m hk hplaced hsame] at hstored
      rw [hheld.write_other k k' v' s hk hsame, h v hstored]
  | bypass k' v' m s hfree _ =>
    intro v hstored
    rw [hheld.write_other k k' v' s hk fun hsame ↦ hfree (hsame ▸ hk), h v hstored]
  | beside m m' s hsame _ => exact fun v hstored ↦ h v ((hsame k hk).symm.trans hstored)

/-- However the driver goes on, what agrees goes on agreeing. -/
theorem Accesses.agreesAt (hheld : dev.Holds held content) (hlawful : copy.Lawful held) {k : K}
    (hk : held k) (haccesses : Accesses dev copy held reach state state')
    (h : AgreesAt copy content k state) : AgreesAt copy content k state' := by
  induction haccesses with
  | refl => exact h
  | tail _ haccess ih => exact haccess.agreesAt hheld hlawful hk ih

theorem Access.known (hlawful : copy.Lawful held) (haccess : Access dev copy held reach state state')
    (h : Known copy held state.1) : Known copy held state'.1 := by
  intro k hk
  cases haccess with
  | read k' m s => exact h k hk
  | tick m s => exact h k hk
  | write k' v' m s hplaced _ _ =>
    by_cases hsame : k' = k
    · subst hsame
      exact ⟨v', hlawful.store_self k' v' m hk⟩
    · obtain ⟨v, hv⟩ := h k hk
      exact ⟨v, (hlawful.store_other k k' v' m hk hplaced hsame).trans hv⟩
  | bypass k' v' m s hfree _ => exact h k hk
  | beside m m' s hsame _ =>
    obtain ⟨v, hv⟩ := h k hk
    exact ⟨v, (hsame k hk).trans hv⟩

theorem Accesses.known (hlawful : copy.Lawful held) (haccesses : Accesses dev copy held reach state state')
    (h : Known copy held state.1) : Known copy held state'.1 := by
  induction haccesses with
  | refl => exact h
  | tail _ haccess ih => exact haccess.known hlawful ih

/-! ## What the driver does not reach -/

theorem Access.reach_eq (haccess : Access dev copy held reach state state') :
    reach state'.1 = reach state.1 := by
  cases haccess with
  | read k m s => rfl
  | tick m s => rfl
  | write k v m s _ _ hstays => exact hstays
  | bypass k v m s _ _ => rfl
  | beside m m' s _ hstays => exact hstays

theorem Accesses.reach_eq (haccesses : Accesses dev copy held reach state state') :
    reach state'.1 = reach state.1 := by
  induction haccesses with
  | refl => rfl
  | tail _ haccess ih => exact haccess.reach_eq.trans ih

/-- What a register holds is what it held, or something that the driver may write to it. -/
def KeptOr (reach : M → K → V → Prop) (content : K → S → V) (k : K) (state state' : M × S) : Prop :=
  content k state'.2 = content k state.2 ∨ reach state.1 k (content k state'.2)

theorem KeptOr.trans {state'' : M × S} {k : K} (h : KeptOr reach content k state state')
    (hstays : reach state'.1 = reach state.1) (h' : KeptOr reach content k state' state'') :
    KeptOr reach content k state state'' := by
  rcases h' with hkept | hreached
  · rcases h with hfirst | hfirst
    · exact Or.inl (hkept.trans hfirst)
    · refine Or.inr ?_
      rwa [hkept]
  · rw [hstays] at hreached
    exact Or.inr hreached

theorem Access.keptOr {watched : K → Prop} (hheld : dev.Holds watched content) {k : K}
    (hk : watched k) (haccess : Access dev copy held reach state state') :
    KeptOr reach content k state state' := by
  have hwrite : ∀ k' v (m m' : M) s, reach m k' v →
      KeptOr reach content k (m, s) (m', dev.write k' v s) := by
    intro k' v m m' s hreach
    by_cases hsame : k' = k
    · subst hsame
      refine Or.inr ?_
      rwa [hheld.write_self k' v s hk]
    · exact Or.inl (hheld.write_other k k' v s hk hsame)
  cases haccess with
  | read k' m s => exact Or.inl (hheld.read_keeps k k' s hk)
  | tick m s => exact Or.inl (hheld.tick_keeps k s hk)
  | write k' v m s _ hreach _ => exact hwrite k' v m _ s hreach
  | bypass k' v m s _ hreach => exact hwrite k' v m m s hreach
  | beside m m' s _ _ => exact Or.inl rfl

theorem Accesses.keptOr {watched : K → Prop} (hheld : dev.Holds watched content) {k : K}
    (hk : watched k) (haccesses : Accesses dev copy held reach state state') :
    KeptOr reach content k state state' := by
  induction haccesses with
  | refl => exact Or.inl rfl
  | tail hbefore haccess ih => exact ih.trans (Accesses.reach_eq hbefore) (haccess.keptOr hheld hk)

-- A change of the device that no access makes, to registers that do not hold.
theorem Agrees.device {m : M} {s s' : S} (h : Agrees copy held content (m, s))
    (hkeeps : ∀ k, held k → content k s' = content k s) : Agrees copy held content (m, s') := by
  intro k hk v hstored
  rw [hkeeps k hk]
  exact h k hk v hstored

end Rules

end Mirror

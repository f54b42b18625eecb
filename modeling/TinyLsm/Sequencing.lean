/-
  TinyLsm.Sequencing

  Running `EStateM` programs step by step: what a `bind` returns is what its
  first part returns, or its error, and `Leaves` says where a call can end.  The
  manifest code and the engine are both written in `EStateM`, which keeps the
  state on an error as Go's in-place mutation does; these lemmas are how their
  proofs take a call apart.
-/

namespace TinyLsm

section Sequencing

variable {ε σ α β : Type}

theorem bind_eq_ok {x : EStateM ε σ α} {f : α → EStateM ε σ β} {s s' : σ} {b : β}
    (h : (x >>= f) s = .ok b s') : ∃ a s₁, x s = .ok a s₁ ∧ f a s₁ = .ok b s' := by
  simp only [bind, EStateM.bind] at h
  split at h
  · exact ⟨_, _, ‹_›, h⟩
  · cases h

theorem bind_of_ok {x : EStateM ε σ α} {f : α → EStateM ε σ β} {s s₁ : σ} {a : α}
    (h : x s = .ok a s₁) : (x >>= f) s = f a s₁ := by
  simp only [bind, EStateM.bind, h]

theorem bind_of_error {x : EStateM ε σ α} {f : α → EStateM ε σ β} {s s' : σ} {e : ε}
    (h : x s = .error e s') : (x >>= f) s = .error e s' := by
  simp only [bind, EStateM.bind, h]

theorem bind_eq_error {x : EStateM ε σ α} {f : α → EStateM ε σ β} {s s' : σ} {e : ε}
    (h : (x >>= f) s = .error e s') :
    x s = .error e s' ∨ ∃ a s₁, x s = .ok a s₁ ∧ f a s₁ = .error e s' := by
  simp only [bind, EStateM.bind] at h
  split at h
  · exact .inr ⟨_, _, ‹_›, h⟩
  · cases h; exact .inl ‹_›

@[simp] theorem estate_bind_apply (x : EStateM ε σ α) (f : α → EStateM ε σ β) (s : σ) :
    (x >>= f) s = match x s with
      | .ok a s => f a s
      | .error e s => .error e s := rfl

@[simp] theorem estate_get_apply (s : σ) : (get : EStateM ε σ σ) s = .ok s s := rfl

@[simp] theorem estate_set_apply (s s' : σ) : (set s' : EStateM ε σ PUnit) s = .ok ⟨⟩ s' :=
  rfl

@[simp] theorem estate_throw_apply (e : ε) (s : σ) :
    (throw e : EStateM ε σ α) s = .error e s := rfl

@[simp] theorem estate_pure_apply (a : α) (s : σ) : (pure a : EStateM ε σ α) s = .ok a s := rfl

@[simp] theorem estate_modify_apply (f : σ → σ) (s : σ) :
    (modify f : EStateM ε σ PUnit) s = .ok ⟨⟩ (f s) := rfl

/-- `x`, run from `s`, ends in `s'`: it returns there or fails there.  A crash between two
    I/O calls is a failed call after which nothing runs, so this is every way a call can end. -/
def Leaves (x : EStateM ε σ α) (s s' : σ) : Prop :=
  (∃ a, x s = .ok a s') ∨ ∃ e, x s = .error e s'

/-- A `bind` ends where its first part fails, or where its second part ends. -/
theorem Leaves.bind {x : EStateM ε σ α} {f : α → EStateM ε σ β} {s s' : σ}
    (h : Leaves (x >>= f) s s') :
    (∃ e, x s = .error e s') ∨ ∃ a s₁, x s = .ok a s₁ ∧ Leaves (f a) s₁ s' := by
  rcases h with ⟨b, h⟩ | ⟨e, h⟩
  · obtain ⟨a, s₁, h₁, h⟩ := bind_eq_ok h
    exact .inr ⟨a, s₁, h₁, .inl ⟨b, h⟩⟩
  · rcases bind_eq_error h with h | ⟨a, s₁, h₁, h⟩
    · exact .inl ⟨e, h⟩
    · exact .inr ⟨a, s₁, h₁, .inr ⟨e, h⟩⟩

theorem leaves_get_bind {f : σ → EStateM ε σ β} {s s' : σ} :
    Leaves (get >>= f) s s' ↔ Leaves (f s) s s' := Iff.rfl

theorem leaves_modify {f : σ → σ} {s s' : σ} :
    Leaves (modify f : EStateM ε σ PUnit) s s' ↔ s' = f s := by
  constructor
  · rintro (⟨_, h⟩ | ⟨_, h⟩) <;> cases h
    rfl
  · rintro rfl
    exact .inl ⟨⟨⟩, rfl⟩

end Sequencing

end TinyLsm

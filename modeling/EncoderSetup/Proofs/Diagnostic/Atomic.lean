import EncoderSetup.Proofs.Diagnostic.Outcome

/-!
# Sessions that fail without a change

A session may keep its state whatever its outcome (`Session.Keeps`), may never fail
(`Session.Succeeds`), or keep its state where it fails (`Session.Atomic`). An operation is atomic
when its checks come before its first update: what keeps the state may come before anything atomic,
and only what succeeds may come after an update.
-/

namespace EncoderSetup

namespace Session

variable {σ α β : Type}

def Keeps (x : Session σ α) : Prop := ∀ flags s o s', x.Leads flags s o s' → s' = s

def Succeeds (x : Session σ α) : Prop := ∀ flags s e s', ¬ x.Leads flags s (.error e) s'

def Atomic (x : Session σ α) : Prop := ∀ flags s e s', x.Leads flags s (.error e) s' → s' = s

theorem keeps_get : Keeps (get : Session σ σ) := fun _ _ _ _ h => (leads_get.mp h).2

theorem keeps_checked (x : Checked α) : Keeps (liftM x : Session σ α) := fun _ _ _ _ h =>
  (leads_checked.mp h).2

theorem keeps_traced (x : Traced α) : Keeps (liftM x : Session σ α) := fun _ _ _ _ h =>
  (leads_traced.mp h).2

theorem keeps_refuse (e : SetupError) : Keeps (refuse e : Session σ α) := keeps_checked _

theorem succeeds_pure (a : α) : Succeeds (pure a : Session σ α) := by
  intro flags s e s' h
  cases (leads_pure.mp h).1

theorem succeeds_modify (f : σ → σ) : Succeeds (modify f : Session σ Unit) := by
  intro flags s e s' h
  cases (leads_modify.mp h).1

theorem succeeds_traced (x : Traced α) : Succeeds (liftM x : Session σ α) := by
  intro flags s e s' h
  obtain ⟨⟨_, -, he⟩, -⟩ := leads_traced.mp h
  cases he

theorem Succeeds.bind {x : Session σ α} {f : α → Session σ β} (hx : Succeeds x)
    (hf : ∀ a, Succeeds (f a)) : Succeeds (x >>= f) := by
  intro flags s e s' h
  rcases leads_bind.mp h with ⟨a, s₁, -, hfail⟩ | ⟨e', hfail, -⟩
  · exact hf a flags s₁ e s' hfail
  · exact hx flags s e' s' hfail

theorem Keeps.atomic {x : Session σ α} (hx : Keeps x) : Atomic x := fun flags s e =>
  hx flags s (.error e)

theorem Succeeds.atomic {x : Session σ α} (hx : Succeeds x) : Atomic x := fun flags s e s' h =>
  (hx flags s e s' h).elim

/-- Checks may come before anything atomic. -/
theorem Keeps.atomic_bind {x : Session σ α} {f : α → Session σ β} (hx : Keeps x)
    (hf : ∀ a, Atomic (f a)) : Atomic (x >>= f) := by
  intro flags s e s' h
  rcases leads_bind.mp h with ⟨a, s₁, hok, hfail⟩ | ⟨e', hfail, -⟩
  · obtain rfl := hx flags s _ s₁ hok
    exact hf a flags s₁ e s' hfail
  · exact hx flags s _ s' hfail

/-- What comes after an update may not fail any more. -/
theorem Atomic.bind {x : Session σ α} {f : α → Session σ β} (hx : Atomic x)
    (hf : ∀ a, Succeeds (f a)) : Atomic (x >>= f) := by
  intro flags s e s' h
  rcases leads_bind.mp h with ⟨a, s₁, -, hfail⟩ | ⟨e', hfail, -⟩
  · exact (hf a flags s₁ e s' hfail).elim
  · exact hx flags s e' s' hfail

end Session

end EncoderSetup

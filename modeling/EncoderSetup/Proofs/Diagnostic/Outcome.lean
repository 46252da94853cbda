import EncoderSetup.Diagnostic.Traced

/-!
# Outcomes of computations that log

`Traced.Yields` is a result under one debug word, `Session.Leads` an outcome together with the state
it leaves. A computation that ends the process yields nothing. The equivalences below take a
computation apart at its binds, so that the outcome of an operation is read off without its events.
-/

namespace EncoderSetup

theorem ok_bind {ε α β : Type} (a : α) (f : α → Except ε β) : Except.ok a >>= f = f a := rfl

theorem error_bind {ε α β : Type} (e : ε) (f : α → Except ε β) :
    Except.error e >>= f = .error e := rfl

theorem bind_eq_ok_iff {ε α β : Type} {x : Except ε α} {f : α → Except ε β} {b : β} :
    x >>= f = .ok b ↔ ∃ a, x = .ok a ∧ f a = .ok b := by
  constructor
  · intro h
    cases x with
    | ok a => exact ⟨a, rfl, h⟩
    | error e => cases h
  · rintro ⟨a, rfl, h⟩
    exact h

theorem bind_eq_error_iff {ε α β : Type} {x : Except ε α} {f : α → Except ε β} {e : ε} :
    x >>= f = .error e ↔ x = .error e ∨ ∃ a, x = .ok a ∧ f a = .error e := by
  cases x with
  | ok a => simp [ok_bind]
  | error e' => simp [error_bind]

theorem bind_congr_of_ok {ε α β : Type} {x : Except ε α} {f g : α → Except ε β}
    (h : ∀ a, x = .ok a → f a = g a) : x >>= f = x >>= g := by
  cases x with
  | ok a => exact h a rfl
  | error e => rfl

namespace Traced

variable {α β : Type}

def Yields (x : Traced α) (flags : DebugFlags) (a : α) : Prop := (x.run flags).result = some a

@[simp] theorem yields_pure {flags : DebugFlags} {a b : α} :
    (pure a : Traced α).Yields flags b ↔ b = a := by
  unfold Yields
  rw [run_pure, Option.some.injEq]
  exact eq_comm

theorem yields_bind {x : Traced α} {f : α → Traced β} {flags : DebugFlags} {b : β} :
    (x >>= f).Yields flags b ↔ ∃ a, x.Yields flags a ∧ (f a).Yields flags b := by
  unfold Yields
  rw [run_bind]
  rcases h : x.run flags with ⟨events, _ | a⟩ <;> simp

@[simp] theorem yields_map {x : Traced α} {f : α → β} {flags : DebugFlags} {b : β} :
    (f <$> x).Yields flags b ↔ ∃ a, x.Yields flags a ∧ b = f a := by
  rw [map_eq_pure_bind, yields_bind]
  simp only [yields_pure]

@[simp] theorem yields_log {e : Event} {flags : DebugFlags} {u : Unit} :
    (log e).Yields flags u := rfl

theorem yields_ifSet {flag flags : DebugFlags} {x : Traced Unit} (h : x.Yields flags ()) :
    (ifSet flag x).Yields flags () := by
  by_cases hf : flags.contains flag = true
  · simpa only [Yields, run, ifSet, if_pos hf] using h
  · simp only [Yields, run, ifSet, if_neg hf]

@[simp] theorem yields_logIf {flag flags : DebugFlags} {e : Event} {u : Unit} :
    (logIf flag e).Yields flags u := yields_ifSet yields_log

/-- The debug word does not let an error of a broken contract return. -/
def Fatal (flags : DebugFlags) (e : SetupError) : Prop :=
  e.isContractViolation = true ∧ flags.contains .abort = true

@[simp] theorem yields_report {e : SetupError} {flags : DebugFlags} {u : Unit} :
    (report e).Yields flags u ↔ ¬ Fatal flags e := by
  unfold Yields Fatal report run
  by_cases he : e.isContractViolation = true
  · by_cases hf : flags.contains .abort = true <;> simp [he, hf]
  · simp [he]

end Traced

namespace Checked

variable {α β : Type}

theorem yields_bind {x : Checked α} {f : α → Checked β} {flags : DebugFlags}
    {o : Except SetupError β} :
    (x >>= f).run.Yields flags o ↔
      (∃ a, x.run.Yields flags (.ok a) ∧ (f a).run.Yields flags o) ∨
        ∃ e, x.run.Yields flags (.error e) ∧ o = .error e := by
  change (x.run >>= ExceptT.bindCont f).Yields flags o ↔ _
  rw [Traced.yields_bind]
  constructor
  · rintro ⟨_ | a, hx, hf⟩
    · exact Or.inr ⟨_, hx, Traced.yields_pure.mp hf⟩
    · exact Or.inl ⟨a, hx, hf⟩
  · rintro (⟨a, hx, hf⟩ | ⟨e, hx, rfl⟩)
    · exact ⟨.ok a, hx, hf⟩
    · exact ⟨.error e, hx, Traced.yields_pure.mpr rfl⟩

theorem yields_traced {x : Traced α} {flags : DebugFlags} {o : Except SetupError α} :
    (liftM x : Checked α).run.Yields flags o ↔ ∃ a, x.Yields flags a ∧ o = .ok a := by
  change (Except.ok <$> x).Yields flags o ↔ _
  rw [Traced.yields_map]

theorem yields_refuse {e : SetupError} {flags : DebugFlags} {o : Except SetupError α} :
    (refuse e : Checked α).run.Yields flags o ↔ ¬ Traced.Fatal flags e ∧ o = .error e := by
  unfold refuse
  rw [yields_bind]
  simp

end Checked

namespace Session

variable {σ α β : Type}

def Leads (x : Session σ α) (flags : DebugFlags) (s : σ) (o : Except SetupError α) (s' : σ) :
    Prop := (x.runFrom s).Yields flags (o, s')

variable {flags : DebugFlags} {s s' : σ}

@[simp] theorem leads_pure {a : α} {o : Except SetupError α} :
    (pure a : Session σ α).Leads flags s o s' ↔ o = .ok a ∧ s' = s := by simp [Leads]

@[simp] theorem leads_get {o : Except SetupError σ} :
    (get : Session σ σ).Leads flags s o s' ↔ o = .ok s ∧ s' = s := by simp [Leads]

@[simp] theorem leads_modify {f : σ → σ} {o : Except SetupError Unit} :
    (modify f : Session σ Unit).Leads flags s o s' ↔ o = .ok () ∧ s' = f s := by simp [Leads]

theorem leads_lift {x : Checked α} {o : Except SetupError α} :
    (lift x : Session σ α).Leads flags s o s' ↔ x.run.Yields flags o ∧ s' = s := by
  rw [Leads, runFrom_lift, Traced.yields_bind]
  simp only [Traced.yields_pure, Prod.mk.injEq]
  constructor
  · rintro ⟨_, hx, rfl, rfl⟩
    exact ⟨hx, rfl⟩
  · rintro ⟨hx, rfl⟩
    exact ⟨o, hx, rfl, rfl⟩

@[simp] theorem leads_checked {x : Checked α} {o : Except SetupError α} :
    (liftM x : Session σ α).Leads flags s o s' ↔ x.run.Yields flags o ∧ s' = s := leads_lift

@[simp] theorem leads_refuse {e : SetupError} {o : Except SetupError α} :
    (refuse e : Session σ α).Leads flags s o s' ↔
      (¬ Traced.Fatal flags e ∧ o = .error e) ∧ s' = s := by
  rw [refuse, leads_lift, Checked.yields_refuse]

@[simp] theorem leads_traced {x : Traced α} {o : Except SetupError α} :
    (liftM x : Session σ α).Leads flags s o s' ↔ (∃ a, x.Yields flags a ∧ o = .ok a) ∧ s' = s := by
  change (lift (liftM x : Checked α)).Leads flags s o s' ↔ _
  rw [leads_lift, Checked.yields_traced]

/-- What follows a failure is not done, and the state stays as the failure left it. -/
theorem leads_bind {x : Session σ α} {f : α → Session σ β} {o : Except SetupError β} :
    (x >>= f).Leads flags s o s' ↔
      (∃ a s₁, x.Leads flags s (.ok a) s₁ ∧ (f a).Leads flags s₁ o s') ∨
        ∃ e, x.Leads flags s (.error e) s' ∧ o = .error e := by
  unfold Leads
  rw [runFrom_bind, Traced.yields_bind]
  constructor
  · rintro ⟨⟨_ | a, s₁⟩, hx, hf⟩
    · obtain ⟨rfl, rfl⟩ := Prod.mk.inj (Traced.yields_pure.mp hf)
      exact Or.inr ⟨_, hx, rfl⟩
    · exact Or.inl ⟨a, s₁, hx, hf⟩
  · rintro (⟨a, s₁, hx, hf⟩ | ⟨e, hx, rfl⟩)
    · exact ⟨(.ok a, s₁), hx, hf⟩
    · exact ⟨(.error e, s'), hx, Traced.yields_pure.mpr rfl⟩

theorem leads_bind_of_ok {x : Session σ α} {f : α → Session σ β} {o : Except SetupError β} {a : α}
    {s₁ : σ} (hx : ∀ o₁ s₂, x.Leads flags s o₁ s₂ ↔ o₁ = .ok a ∧ s₂ = s₁) :
    (x >>= f).Leads flags s o s' ↔ (f a).Leads flags s₁ o s' := by
  rw [leads_bind]
  constructor
  · rintro (⟨b, s₂, h, hf⟩ | ⟨e, h, -⟩)
    · obtain ⟨hb, rfl⟩ := (hx _ _).mp h
      obtain rfl := Except.ok.inj hb
      exact hf
    · cases ((hx _ _).mp h).1
  · intro h
    exact Or.inl ⟨a, s₁, (hx _ _).mpr ⟨rfl, rfl⟩, h⟩

@[simp] theorem leads_get_bind {f : σ → Session σ β} {o : Except SetupError β} :
    (get >>= f).Leads flags s o s' ↔ (f s).Leads flags s o s' :=
  leads_bind_of_ok fun _ _ => leads_get

@[simp] theorem leads_modify_bind {g : σ → σ} {f : Unit → Session σ β} {o : Except SetupError β} :
    (modify g >>= f).Leads flags s o s' ↔ (f ()).Leads flags (g s) o s' :=
  leads_bind_of_ok fun _ _ => leads_modify

theorem leads_checked_bind {x : Checked α} {f : α → Session σ β} {o : Except SetupError β} :
    ((liftM x : Session σ α) >>= f).Leads flags s o s' ↔
      (∃ a, x.run.Yields flags (.ok a) ∧ (f a).Leads flags s o s') ∨
        ∃ e, x.run.Yields flags (.error e) ∧ o = .error e ∧ s' = s := by
  rw [leads_bind]
  constructor
  · rintro (⟨a, _, h, hf⟩ | ⟨e, h, ho⟩)
    · obtain ⟨hx, rfl⟩ := leads_checked.mp h
      exact Or.inl ⟨a, hx, hf⟩
    · obtain ⟨hx, hs⟩ := leads_checked.mp h
      exact Or.inr ⟨e, hx, ho, hs⟩
  · rintro (⟨a, hx, hf⟩ | ⟨e, hx, ho, hs⟩)
    · exact Or.inl ⟨a, s, leads_checked.mpr ⟨hx, rfl⟩, hf⟩
    · exact Or.inr ⟨e, leads_checked.mpr ⟨hx, hs⟩, ho⟩

theorem leads_traced_bind {x : Traced α} {f : α → Session σ β} {o : Except SetupError β} :
    ((liftM x : Session σ α) >>= f).Leads flags s o s' ↔
      ∃ a, x.Yields flags a ∧ (f a).Leads flags s o s' := by
  rw [leads_bind]
  constructor
  · rintro (⟨a, _, h, hf⟩ | ⟨e, h, -⟩)
    · obtain ⟨⟨b, hx, hb⟩, rfl⟩ := leads_traced.mp h
      obtain rfl := Except.ok.inj hb
      exact ⟨a, hx, hf⟩
    · obtain ⟨⟨_, -, he⟩, -⟩ := leads_traced.mp h
      cases he
  · rintro ⟨a, hx, hf⟩
    exact Or.inl ⟨a, s, leads_traced.mpr ⟨⟨a, hx, rfl⟩, rfl⟩, hf⟩

end Session

end EncoderSetup

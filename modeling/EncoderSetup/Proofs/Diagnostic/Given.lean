import EncoderSetup.Proofs.Diagnostic.Outcome

/-!
# Computations with one outcome

`Traced.Gives` says that a computation has one outcome, the same under every debug word that lets it
have any. `Checked.Gives` and `Session.Gives` say so where only misuse, by ending the process, can
withhold the outcome. They pass from the steps of an operation to the whole, so that what it answers
is stated as a function of its state.
-/

namespace EncoderSetup

namespace Traced

variable {α β : Type} {x : Traced α} {f : α → Traced β} {a a' : α} {b : β}
  {P Q : DebugFlags → Prop} {flags : DebugFlags}

/-- Under the debug words with this property there is this outcome and no other, and under the other
words there is none. -/
def Gives (P : DebugFlags → Prop) (x : Traced α) (a : α) : Prop :=
  ∀ flags b, x.Yields flags b ↔ b = a ∧ P flags

theorem gives_pure (a : α) : Gives (fun _ => True) (pure a) a := by
  intro flags b
  rw [yields_pure, and_true]

theorem Gives.congr (h : Gives P x a) (hPQ : ∀ flags, P flags ↔ Q flags) : Gives Q x a :=
  fun flags b => (h flags b).trans (and_congr_right' (hPQ flags))

theorem Gives.unique (h : Gives P x a) (h' : Gives Q x a') (hP : P flags) : a = a' :=
  ((h' flags a).mp ((h flags a).mpr ⟨rfl, hP⟩)).1

theorem Gives.bind (hx : Gives P x a) (hf : Gives Q (f a) b) :
    Gives (fun flags => P flags ∧ Q flags) (x >>= f) b := by
  intro flags c
  rw [yields_bind]
  constructor
  · rintro ⟨d, hd, hc⟩
    obtain ⟨rfl, hP⟩ := (hx flags d).mp hd
    obtain ⟨rfl, hQ⟩ := (hf flags c).mp hc
    exact ⟨rfl, hP, hQ⟩
  · rintro ⟨rfl, hP, hQ⟩
    exact ⟨a, (hx flags a).mpr ⟨rfl, hP⟩, (hf flags c).mpr ⟨rfl, hQ⟩⟩

theorem Gives.map (g : α → β) (hx : Gives P x a) : Gives P (x >>= fun c => pure (g c)) (g a) := by
  have h := hx.bind (f := fun c => pure (g c)) (gives_pure (g a))
  exact h.congr fun _ => iff_of_eq (and_true _)

theorem Gives.run_bind {ε : Type} {x : ExceptT ε Traced α} {f : α → ExceptT ε Traced β}
    {r : Except ε β} (hx : Gives P x.run (.ok a)) (hf : Gives Q (f a).run r) :
    Gives (fun flags => P flags ∧ Q flags) (x >>= f).run r := hx.bind (f := ExceptT.bindCont f) hf

theorem Gives.run_bind_of_error {ε : Type} {x : ExceptT ε Traced α} {f : α → ExceptT ε Traced β}
    {e : ε} (hx : Gives P x.run (.error e)) : Gives P (x >>= f).run (.error e) := by
  have h := hx.bind (f := ExceptT.bindCont f) (gives_pure (Except.error e))
  exact h.congr fun _ => iff_of_eq (and_true _)

end Traced

/-- The process is not ended in place of this outcome. -/
def Traced.Returns {α : Type} (flags : DebugFlags) (o : Except SetupError α) : Prop :=
  ∀ e, o = .error e → ¬ Fatal flags e

theorem Traced.returns_of_not_abort {α : Type} {flags : DebugFlags}
    (h : flags.contains .abort = false) (o : Except SetupError α) : Returns flags o := by
  rintro e - ⟨-, habort⟩
  cases h.symm.trans habort

theorem Traced.returns_ok {α : Type} {flags : DebugFlags} (a : α) : Returns flags (.ok a) := by
  intro e he
  cases he

theorem Traced.returns_error {α : Type} {flags : DebugFlags} {e : SetupError} :
    Returns flags (.error e : Except SetupError α) ↔ ¬ Fatal flags e := by
  refine ⟨fun h => h e rfl, fun h e' he => ?_⟩
  obtain rfl := Except.error.inj he
  exact h

theorem Traced.returns_map {α β : Type} {flags : DebugFlags} {f : α → β}
    {o : Except SetupError α} : Returns flags (o.map f) ↔ Returns flags o := by
  cases o with
  | ok a => exact iff_of_true (returns_ok _) (returns_ok a)
  | error e => exact returns_error.trans returns_error.symm

namespace Checked

variable {α β : Type} {x : Checked α} {f : α → Checked β}

/-- Under every debug word there is this outcome and no other, or the process ends in its place. -/
def Gives (x : Checked α) (r : Except SetupError α) : Prop :=
  ∀ flags o, x.run.Yields flags o ↔ o = r ∧ Traced.Returns flags o

theorem gives_iff {r : Except SetupError α} :
    Gives x r ↔ Traced.Gives (fun flags => Traced.Returns flags r) x.run r := by
  refine forall_congr' fun flags => forall_congr' fun o => iff_congr Iff.rfl ?_
  exact and_congr_right fun ho => by rw [ho]

theorem Gives.unique {r r' : Except SetupError α} (h : Gives x r) (h' : Gives x r') : r = r' := by
  have hclear : Traced.Returns .clear r := Traced.returns_of_not_abort rfl r
  exact (gives_iff.mp h).unique (gives_iff.mp h') hclear

theorem gives_pure (a : α) : Gives (pure a) (.ok a) :=
  gives_iff.mpr ((Traced.gives_pure _).congr fun _ => (iff_true_intro (Traced.returns_ok a)).symm)

/-- An error that is not a misuse is returned under every debug word. -/
theorem gives_throw {e : SetupError} (he : e.isContractViolation = false) :
    Gives (throw e : Checked α) (.error e) := by
  intro flags o
  refine Traced.yields_pure.trans ⟨?_, And.left⟩
  rintro rfl
  refine ⟨rfl, Traced.returns_error.mpr fun hfatal => ?_⟩
  rw [Traced.Fatal, he] at hfatal
  cases hfatal.1

theorem Gives.yields_ok {a : α} (hx : Gives x (.ok a)) {flags : DebugFlags}
    {o : Except SetupError α} : x.run.Yields flags o ↔ o = .ok a := by
  rw [hx flags o]
  refine ⟨And.left, ?_⟩
  rintro rfl
  exact ⟨rfl, Traced.returns_ok _⟩

theorem Gives.yields_error {e : SetupError} (hx : Gives x (.error e)) {flags : DebugFlags}
    {o : Except SetupError α} :
    x.run.Yields flags o ↔ ¬ Traced.Fatal flags e ∧ o = .error e := by
  rw [hx flags o]
  constructor
  · rintro ⟨rfl, hreturns⟩
    exact ⟨Traced.returns_error.mp hreturns, rfl⟩
  · rintro ⟨hfatal, rfl⟩
    exact ⟨rfl, Traced.returns_error.mpr hfatal⟩

theorem gives_refuse (e : SetupError) : Gives (refuse e : Checked α) (.error e) := by
  intro flags o
  rw [yields_refuse]
  constructor
  · rintro ⟨hfatal, rfl⟩
    exact ⟨rfl, Traced.returns_error.mpr hfatal⟩
  · rintro ⟨rfl, hreturns⟩
    exact ⟨Traced.returns_error.mp hreturns, rfl⟩

theorem gives_bind {a : α} {r : Except SetupError β} (hx : Gives x (.ok a)) (hf : Gives (f a) r) :
    Gives (x >>= f) r := by
  have h := (gives_iff.mp hx).run_bind (gives_iff.mp hf)
  exact gives_iff.mpr (h.congr fun _ => and_iff_right (Traced.returns_ok a))

theorem gives_bind_of_error {e : SetupError} (hx : Gives x (.error e)) :
    Gives (x >>= f) (.error e) := by
  have h := (gives_iff.mp hx).run_bind_of_error (f := f)
  exact gives_iff.mpr (h.congr fun _ => Traced.returns_error.trans Traced.returns_error.symm)

theorem gives_map {r : Except SetupError α} (f : α → β) (hx : Gives x r) :
    Gives (f <$> x) (f <$> r) := by
  rw [map_eq_pure_bind]
  cases r with
  | ok a => exact gives_bind hx (gives_pure (f a))
  | error e => exact gives_bind_of_error hx

theorem gives_traced {x : Traced α} {a : α} (hx : ∀ flags b, x.Yields flags b ↔ b = a) :
    Gives (liftM x : Checked α) (.ok a) := by
  intro flags o
  rw [yields_traced]
  constructor
  · rintro ⟨b, hb, rfl⟩
    obtain rfl := (hx flags b).mp hb
    exact ⟨rfl, Traced.returns_ok _⟩
  · rintro ⟨rfl, -⟩
    exact ⟨a, (hx flags a).mpr rfl, rfl⟩

theorem gives_logIf (flag : DebugFlags) (e : Event) :
    Gives (liftM (Traced.logIf flag e) : Checked Unit) (.ok ()) :=
  gives_traced fun _ _ => ⟨fun _ => rfl, fun _ => Traced.yields_logIf⟩

theorem map_refuse (f : α → β) (e : SetupError) : f <$> (refuse e : Checked α) = refuse e := by
  unfold refuse
  rw [map_bind]
  exact bind_congr fun _ => rfl

end Checked

namespace Session

variable {σ α β : Type} {s s' : σ}

/-- From this state there is this outcome with this state after it, or the process ends instead. -/
def Gives (x : Session σ α) (s : σ) (r : Except SetupError α × σ) : Prop :=
  ∀ flags o s', x.Leads flags s o s' ↔ (o, s') = r ∧ Traced.Returns flags o

theorem gives_iff {x : Session σ α} {r : Except SetupError α × σ} :
    Gives x s r ↔ Traced.Gives (fun flags => Traced.Returns flags r.1) (x.runFrom s) r := by
  refine forall_congr' fun flags => Iff.trans ?_ Prod.forall.symm
  refine forall_congr' fun o => forall_congr' fun s' => iff_congr Iff.rfl ?_
  exact and_congr_right fun h => by rw [← h]

theorem gives_pure (a : α) : Gives (pure a : Session σ α) s (.ok a, s) := by
  intro flags o s'
  rw [leads_pure, Prod.mk.injEq]
  refine ⟨?_, And.left⟩
  rintro ⟨rfl, rfl⟩
  exact ⟨⟨rfl, rfl⟩, Traced.returns_ok _⟩

theorem gives_modify (f : σ → σ) : Gives (modify f) s (.ok (), f s) := by
  intro flags o s'
  rw [leads_modify, Prod.mk.injEq]
  refine ⟨?_, And.left⟩
  rintro ⟨rfl, rfl⟩
  exact ⟨⟨rfl, rfl⟩, Traced.returns_ok _⟩

theorem gives_checked {x : Checked α} {r : Except SetupError α} (hx : x.Gives r) :
    Gives (liftM x : Session σ α) s (r, s) := by
  intro flags o s'
  rw [leads_checked, hx, Prod.mk.injEq, and_right_comm]

theorem gives_bind {x : Session σ α} {f : α → Session σ β} {a : α} {s₁ : σ}
    {r : Except SetupError β × σ} (hx : Gives x s (.ok a, s₁)) (hf : Gives (f a) s₁ r) :
    Gives (x >>= f) s r := by
  rw [gives_iff, runFrom_bind]
  refine Traced.Gives.congr (Traced.Gives.bind (gives_iff.mp hx) (gives_iff.mp hf)) fun _ => ?_
  exact and_iff_right (Traced.returns_ok a)

theorem gives_bind_of_error {x : Session σ α} {f : α → Session σ β} {e : SetupError} {s₁ : σ}
    (hx : Gives x s (.error e, s₁)) : Gives (x >>= f) s (.error e, s₁) := by
  rw [gives_iff, runFrom_bind]
  refine Traced.Gives.congr (Traced.Gives.bind (gives_iff.mp hx) (Traced.gives_pure _)) fun _ => ?_
  rw [and_true, Traced.returns_error, Traced.returns_error]

theorem gives_get_bind {f : σ → Session σ β} {r : Except SetupError β × σ}
    (hf : Gives (f s) s r) : Gives (get >>= f) s r := fun flags o s' =>
  leads_get_bind.trans (hf flags o s')

theorem gives_modify_bind {g : σ → σ} {f : Unit → Session σ β} {r : Except SetupError β × σ}
    (hf : Gives (f ()) (g s) r) : Gives (modify g >>= f) s r := gives_bind (gives_modify g) hf

theorem gives_checked_bind {x : Checked α} {f : α → Session σ β} {a : α}
    {r : Except SetupError β × σ} (hx : x.Gives (.ok a)) (hf : Gives (f a) s r) :
    Gives ((liftM x : Session σ α) >>= f) s r := gives_bind (gives_checked hx) hf

theorem gives_checked_bind_of_error {x : Checked α} {f : α → Session σ β} {e : SetupError}
    (hx : x.Gives (.error e)) : Gives ((liftM x : Session σ α) >>= f) s (.error e, s) :=
  gives_bind_of_error (gives_checked hx)

theorem Gives.leads_congr {x y : Session σ α} {r : Except SetupError α × σ} (hx : Gives x s r)
    (hy : Gives y s r) (flags : DebugFlags) (o : Except SetupError α) (s' : σ) :
    x.Leads flags s o s' ↔ y.Leads flags s o s' := (hx flags o s').trans (hy flags o s').symm

theorem Gives.leads_ok {x : Session σ α} {a : α} {t : σ} (hx : Gives x s (.ok a, t))
    {flags : DebugFlags} {o : Except SetupError α} :
    x.Leads flags s o s' ↔ o = .ok a ∧ s' = t := by
  rw [hx flags o s', Prod.mk.injEq]
  refine ⟨And.left, ?_⟩
  rintro ⟨rfl, rfl⟩
  exact ⟨⟨rfl, rfl⟩, Traced.returns_ok _⟩

variable {ι : Type} {f : ι → Session σ Unit} {next : σ → ι → σ} {bad : ι → Prop}
  [DecidablePred bad] {e : SetupError}

theorem gives_forM {l : List ι}
    (hf : ∀ i s, Gives (f i) s (if bad i then (.error e, s) else (.ok (), next s i)))
    (h : ∀ i ∈ l, ¬ bad i) (s : σ) : Gives (l.forM f) s (.ok (), l.foldl next s) := by
  induction l generalizing s with
  | nil => exact gives_pure ()
  | cons i rest ih =>
      obtain ⟨hi, hrest⟩ := List.forall_mem_cons.mp h
      have hstep := hf i s
      rw [if_neg hi] at hstep
      exact gives_bind hstep (ih hrest (next s i))

/-- The first refusal ends a loop, and what was done before it does not matter. -/
theorem gives_forM_of_error {l : List ι}
    (hf : ∀ i s, Gives (f i) s (if bad i then (.error e, s) else (.ok (), next s i)))
    (h : ∃ i ∈ l, bad i) (s : σ) : ∃ t, Gives (l.forM f) s (.error e, t) := by
  induction l generalizing s with
  | nil => simp at h
  | cons i rest ih =>
      have hstep := hf i s
      by_cases hi : bad i
      · rw [if_pos hi] at hstep
        exact ⟨s, gives_bind_of_error hstep⟩
      · have hrest : ∃ i ∈ rest, bad i := by simpa [hi] using h
        obtain ⟨t, ht⟩ := ih hrest (next s i)
        rw [if_neg hi] at hstep
        exact ⟨t, gives_bind hstep ht⟩

/-- The outcome of a session that builds a value. -/
theorem gives_final {x : Session σ Unit} {r : Except SetupError Unit × σ} (hx : Gives x s r) :
    Checked.Gives (ExceptT.mk (x.runFrom s >>= fun r => pure (r.1.map fun _ => r.2)))
      (r.1.map fun _ => r.2) := by
  have h := (gives_iff.mp hx).map fun r => r.1.map fun _ => r.2
  exact Checked.gives_iff.mpr (h.congr fun _ => Traced.returns_map.symm)

/-- What a loop builds, unless one of its steps is refused. -/
theorem gives_final_forM
    (hf : ∀ i s, Gives (f i) s (if bad i then (.error e, s) else (.ok (), next s i)))
    (l : List ι) (s : σ) :
    Checked.Gives (ExceptT.mk ((l.forM f).runFrom s >>= fun r => pure (r.1.map fun _ => r.2)))
      (if ∃ i ∈ l, bad i then .error e else .ok (l.foldl next s)) := by
  split
  · next h =>
      obtain ⟨t, ht⟩ := gives_forM_of_error hf h s
      exact gives_final ht
  · next h => exact gives_final (gives_forM hf (fun i hi hbad => h ⟨i, hi, hbad⟩) s)

end Session

end EncoderSetup

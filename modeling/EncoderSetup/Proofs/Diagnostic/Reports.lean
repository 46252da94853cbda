import EncoderSetup.Proofs.Diagnostic.Settled

/-!
# Misuse is reported once

`Traced.Reports` says what a computation tells of misuse: which errors it logs, that the debug word
adds none and changes no result, and that a word that makes misuse fatal ends the process at the
first of them. A checked computation reports its own error and nothing else, and passes this from
its steps to the whole (`Checked.Reported`, `Session.Reported`); where a result holds answers of its
own, their errors are reported too (`Session.ReportedWith`).
-/

namespace EncoderSetup

/-- The events of the level of errors. -/
def Trace.errors {α : Type} (t : Trace α) : List Event := t.events.filter fun e => e.level == .error

namespace Traced

variable {α β : Type} {a : α} {b : β} {es es' : List SetupError}

/-- The misuses `es` and no others are logged, one event for each, and the result is `a`. Where
misuse is fatal only the first is logged, and then there is no result. -/
structure Reports (x : Traced α) (a : α) (es : List SetupError) : Prop where
  returning : ∀ flags : DebugFlags, flags.contains .abort = false →
    (x.run flags).errors = es.map .violation ∧ (x.run flags).result = some a
  fatal : ∀ flags : DebugFlags, flags.contains .abort = true →
    (x.run flags).errors = (es.take 1).map .violation ∧
      (x.run flags).result = if es = [] then some a else none

theorem run_bind_of_yields {x : Traced α} (f : α → Traced β) {flags : DebugFlags}
    (h : x.Yields flags a) : (x >>= f).run flags =
      ⟨(x.run flags).events ++ ((f a).run flags).events, ((f a).run flags).result⟩ := by
  unfold Yields at h
  rw [run_bind]
  generalize x.run flags = t at h
  obtain ⟨events, result⟩ := t
  obtain rfl : result = some a := h
  rfl

namespace Reports

theorem yields {x : Traced α} (h : x.Reports a []) (flags : DebugFlags) : x.Yields flags a := by
  cases hf : flags.contains .abort with
  | false => exact (h.returning flags hf).2
  | true => exact (h.fatal flags hf).2

theorem eq_of_yields {x : Traced α} {c : α} (h : x.Reports a es) {flags : DebugFlags}
    (hx : x.Yields flags c)
    (hf : flags.contains .abort = false) : a = c :=
  Option.some.inj ((h.returning flags hf).2.symm.trans hx)

theorem errors_eq_nil {x : Traced α} (h : x.Reports a []) (flags : DebugFlags) :
    (x.run flags).errors = [] := by
  cases hf : flags.contains .abort with
  | false => exact (h.returning flags hf).1
  | true => exact (h.fatal flags hf).1

theorem settled {x : Traced α} (h : x.Reports a es) : x.Settled :=
  ⟨a, fun flags hf => (h.returning flags hf).2⟩

/-- A computation that reports nothing, under one debug word after the other. -/
theorem of_yields {x : Traced α} (hy : ∀ flags, x.Yields flags a)
    (he : ∀ flags, (x.run flags).errors = []) : x.Reports a [] :=
  ⟨fun flags _ => ⟨he flags, hy flags⟩, fun flags _ => ⟨he flags, hy flags⟩⟩

theorem pure (a : α) : (Pure.pure a : Traced α).Reports a [] :=
  of_yields (fun _ => rfl) fun _ => rfl

theorem log {e : Event} (he : e.level ≠ .error) : (Traced.log e).Reports () [] := by
  refine of_yields (fun _ => rfl) fun flags => ?_
  simp [Trace.errors, Traced.log, run, he]

theorem ifSet (flag : DebugFlags) {x : Traced Unit} (hx : x.Reports () []) :
    (Traced.ifSet flag x).Reports () [] := by
  refine of_yields (fun flags => yields_ifSet (hx.yields flags)) fun flags => ?_
  by_cases hf : flags.contains flag = true
  · have hrun : (Traced.ifSet flag x).run flags = x.run flags := if_pos hf
    rw [hrun]
    exact hx.errors_eq_nil flags
  · have hrun : (Traced.ifSet flag x).run flags = ⟨[], some ()⟩ := if_neg hf
    rw [hrun]
    rfl

theorem logIf (flag : DebugFlags) {e : Event} (he : e.level ≠ .error) :
    (Traced.logIf flag e).Reports () [] := ifSet flag (log he)

/-- What follows a fatal misuse is neither logged nor done. -/
theorem bind {x : Traced α} {f : α → Traced β} (hx : x.Reports a es) (hf : (f a).Reports b es') :
    (x >>= f).Reports b (es ++ es') := by
  refine ⟨fun flags h => ?_, fun flags h => ?_⟩
  · obtain ⟨hlog, hresult⟩ := hx.returning flags h
    obtain ⟨hlog', hresult'⟩ := hf.returning flags h
    have hrun := run_bind_of_yields f hresult
    rw [hrun, List.map_append, ← hlog, ← hlog']
    exact ⟨List.filter_append .., hresult'⟩
  · obtain ⟨hlog, hresult⟩ := hx.fatal flags h
    cases es with
    | nil =>
        obtain ⟨hlog', hresult'⟩ := hf.fatal flags h
        have hrun := run_bind_of_yields f hresult
        rw [hrun, List.nil_append, ← hlog']
        exact ⟨(List.filter_append ..).trans (congrArg (· ++ _) hlog), hresult'⟩
    | cons e rest =>
        have hrun : (x >>= f).run flags = ⟨(x.run flags).events, none⟩ := by
          rw [run_bind]
          generalize x.run flags = t at hresult
          obtain ⟨events, result⟩ := t
          obtain rfl : result = none := hresult
          rfl
        rw [hrun]
        exact ⟨hlog, rfl⟩

/-- A step at the end that reports nothing. -/
theorem bind_silent {x : Traced α} {f : α → Traced β} (hx : x.Reports a es)
    (hf : (f a).Reports b []) : (x >>= f).Reports b es := by
  have h := hx.bind hf
  rwa [List.append_nil] at h

end Reports

end Traced

/-- The error of an outcome where it is a broken contract. -/
def misuse {α : Type} : Except SetupError α → List SetupError
  | .ok _ => []
  | .error e => if e.isContractViolation then [e] else []

theorem misuse_of_violation {α : Type} {e : SetupError} (he : e.isContractViolation = true) :
    misuse (.error e : Except SetupError α) = [e] := if_pos he

theorem misuse_of_not_violation {α : Type} {e : SetupError} (he : e.isContractViolation = false) :
    misuse (.error e : Except SetupError α) = [] := by
  rw [misuse, he]
  rfl

theorem Traced.reports_report (e : SetupError) :
    (report e).Reports () (misuse (.error e : Except SetupError Unit)) := by
  cases he : e.isContractViolation with
  | false =>
      rw [misuse_of_not_violation he]
      refine Reports.of_yields (fun flags => ?_) fun flags => ?_
      · simp [Fatal, he]
      · by_cases hf : flags.contains .attributes = true <;>
          simp [report, run, he, hf, Trace.errors, Event.failed]
  | true =>
      rw [misuse_of_violation he]
      refine ⟨fun flags h => ?_, fun flags h => ?_⟩
      · simp [report, run, he, h, Trace.errors, Event.violation]
      · simp [report, run, he, h, Trace.errors, Event.violation]

namespace Checked

variable {α β : Type}

/-- There is one outcome, and it is reported where it is misuse. -/
def Reported (x : Checked α) : Prop := ∃ o, x.run.Reports o (misuse o)

theorem reported_pure (a : α) : Reported (pure a : Checked α) := ⟨.ok a, Traced.Reports.pure _⟩

/-- An error that is not reported is one that a caller reckons with. -/
theorem reported_throw {e : SetupError} (he : e.isContractViolation = false) :
    Reported (throw e : Checked α) := by
  refine ⟨.error e, ?_⟩
  rw [misuse_of_not_violation he]
  exact Traced.Reports.pure _

theorem reported_traced {x : Traced α} {a : α} (hx : x.Reports a []) :
    Reported (liftM x : Checked α) := ⟨.ok a, hx.bind (Traced.Reports.pure _)⟩

theorem reports_refuse (e : SetupError) :
    (refuse e : Checked α).run.Reports (.error e) (misuse (.error e : Except SetupError α)) := by
  have hreport : (liftM (Traced.report e) : Checked Unit).run.Reports (.ok ())
      (misuse (.error e : Except SetupError Unit)) :=
    (Traced.reports_report e).bind_silent (Traced.Reports.pure _)
  exact hreport.bind_silent (Traced.Reports.pure _)

theorem reported_refuse (e : SetupError) : Reported (refuse e : Checked α) :=
  ⟨.error e, reports_refuse e⟩

theorem reported_bind {x : Checked α} {f : α → Checked β} (hx : Reported x)
    (hf : ∀ a, Reported (f a)) : Reported (x >>= f) := by
  obtain ⟨o, ho⟩ := hx
  cases o with
  | ok a =>
      obtain ⟨o', ho'⟩ := hf a
      exact ⟨o', ho.bind ho'⟩
  | error e => exact ⟨.error e, ho.bind_silent (Traced.Reports.pure _)⟩

end Checked

namespace Session

variable {σ α β : Type}

/-- The error of an outcome where it is misuse, or else the errors that the result holds. -/
def misuseWith (inner : α → List SetupError) : Except SetupError α → List SetupError
  | .ok a => inner a
  | .error e => misuse (.error e : Except SetupError α)

@[simp] theorem misuseWith_nil : misuseWith (fun _ : α => []) = misuse := by
  funext o
  cases o <;> rfl

/-- From every state there is one outcome and one state that follows, and the misuses of the outcome
are reported. -/
def ReportedWith (inner : α → List SetupError) (x : Session σ α) : Prop :=
  ∀ s, ∃ o s', (x.runFrom s).Reports (o, s') (misuseWith inner o)

abbrev Reported (x : Session σ α) : Prop := ReportedWith (fun _ => []) x

variable {inner : α → List SetupError} {inner' : β → List SetupError}

theorem ReportedWith.settled {x : Session σ α} (h : ReportedWith inner x) : Settled x := by
  intro s
  obtain ⟨o, s', ho⟩ := h s
  exact ho.settled

theorem reported_pure {a : α} (ha : inner a = []) : ReportedWith inner (pure a : Session σ α) := by
  intro s
  refine ⟨.ok a, s, ?_⟩
  rw [misuseWith, ha]
  exact Traced.Reports.pure _

theorem reported_get : Reported (get : Session σ σ) := fun s => ⟨.ok s, s, Traced.Reports.pure _⟩

theorem reported_modify (f : σ → σ) : Reported (modify f : Session σ Unit) := fun s =>
  ⟨.ok (), f s, Traced.Reports.pure _⟩

theorem reported_bind {x : Session σ α} {f : α → Session σ β} (hx : Reported x)
    (hf : ∀ a, ReportedWith inner' (f a)) : ReportedWith inner' (x >>= f) := by
  intro s
  obtain ⟨o, s₁, ho⟩ := hx s
  rw [runFrom_bind]
  cases o with
  | ok a =>
      obtain ⟨o', s', ho'⟩ := hf a s₁
      exact ⟨o', s', ho.bind ho'⟩
  | error e => exact ⟨.error e, s₁, ho.bind_silent (Traced.Reports.pure _)⟩

/-- A result that is only wrapped holds the errors that it held before. -/
theorem ReportedWith.map {x : Session σ α} {g : α → β} (hx : ReportedWith inner x)
    (hg : ∀ a, inner' (g a) = inner a) : ReportedWith inner' (x >>= fun a => pure (g a)) := by
  intro s
  obtain ⟨o, s', ho⟩ := hx s
  rw [runFrom_bind]
  cases o with
  | ok a =>
      refine ⟨.ok (g a), s', ?_⟩
      rw [misuseWith, hg]
      exact ho.bind_silent (Traced.Reports.pure _)
  | error e => exact ⟨.error e, s', ho.bind_silent (Traced.Reports.pure _)⟩

theorem reported_checked {x : Checked α} (hx : Checked.Reported x) :
    Reported (liftM x : Session σ α) := by
  intro s
  obtain ⟨o, ho⟩ := hx
  have h : ((liftM x : Session σ α).runFrom s).Reports (o, s) (misuse o) :=
    ho.bind_silent (Traced.Reports.pure _)
  cases o with
  | ok a => exact ⟨.ok a, s, h⟩
  | error e => exact ⟨.error e, s, h⟩

theorem reported_traced {x : Traced α} {a : α} (hx : x.Reports a []) :
    Reported (liftM x : Session σ α) := reported_checked (Checked.reported_traced hx)

/-- An error holds no result, and so no errors of one. -/
theorem reported_refuse (e : SetupError) : ReportedWith inner (refuse e : Session σ α) := by
  intro s
  exact ⟨.error e, s, (Checked.reports_refuse e).bind_silent (Traced.Reports.pure _)⟩

theorem reported_get_bind {f : σ → Session σ β} (hf : ∀ s, ReportedWith inner' (f s)) :
    ReportedWith inner' (get >>= f) := reported_bind reported_get hf

/-- A step that always returns may report misuse, and then nothing after it does. -/
theorem reports_traced_bind {x : Traced α} {a : α} {es : List SetupError} {f : α → Session σ β}
    {s s' : σ} {o : Except SetupError β} (hx : x.Reports a es)
    (hf : ((f a).runFrom s).Reports (o, s') []) :
    (((liftM x : Session σ α) >>= f).runFrom s).Reports (o, s') es := by
  have hok : (liftM x : Checked α).run.Reports (.ok a) es :=
    hx.bind_silent (Traced.Reports.pure _)
  have hstep : ((liftM x : Session σ α).runFrom s).Reports (.ok a, s) es :=
    hok.bind_silent (Traced.Reports.pure _)
  rw [runFrom_bind]
  exact hstep.bind_silent hf

variable {ι : Type}

theorem yields_runEach_cons {f : ι → Session σ α} {flags : DebugFlags} {i : ι} {rest : List ι}
    {s s' : σ} {answers : List (Except SetupError α)} :
    (runEach f (i :: rest) s).Yields flags (answers, s') ↔
      ∃ o s₁ more, (f i).Leads flags s o s₁ ∧ (runEach f rest s₁).Yields flags (more, s') ∧
        answers = o :: more := by
  rw [runEach]
  simp only [Traced.yields_bind, Traced.yields_pure, Prod.mk.injEq, Prod.exists, Leads]
  constructor
  · rintro ⟨o, s₁, hi, more, s₂, hrest, rfl, rfl⟩
    exact ⟨o, s₁, more, hi, hrest, rfl⟩
  · rintro ⟨o, s₁, more, hi, hrest, rfl⟩
    exact ⟨o, s₁, hi, more, s', hrest, rfl, rfl⟩

theorem settled_runEach {f : ι → Session σ α} (hf : ∀ i, Settled (f i)) (steps : List ι) (s : σ) :
    (runEach f steps s).Settled := by
  induction steps generalizing s with
  | nil => exact Traced.settled_pure _
  | cons i rest ih =>
      refine Traced.settled_bind (hf i s) fun r => ?_
      exact Traced.settled_bind (ih r.2) fun _ => Traced.settled_pure _

/-- Each step reports its misuses, a run reports those of its answers, and where misuse is fatal the
run goes as far as it would go otherwise before the first one. -/
structure ReportsEach (inner : α → List SetupError) (f : ι → Session σ α) : Prop where
  step : ∀ i s, ∃ o s', ((f i).runFrom s).Reports (o, s') (misuseWith inner o)
  run : ∀ steps s, ∃ answers s',
    (runEach f steps s).Reports (answers, s') (answers.flatMap (misuseWith inner))
  stops : ∀ before i after s answers s₁ o s₂ e es,
    (runEach f before s).Yields .clear (answers, s₁) → answers.flatMap (misuseWith inner) = [] →
    ((f i).runFrom s₁).Yields .clear (o, s₂) → misuseWith inner o = e :: es →
      ∀ flags : DebugFlags, flags.contains .abort = true →
        (runEach f before s).Yields flags (answers, s₁) ∧
        ((runEach f (before ++ i :: after) s).run flags).errors = [.violation e] ∧
        ((runEach f (before ++ i :: after) s).run flags).result = none

variable {f : ι → Session σ α}

theorem reports_runEach_cons {i : ι} {rest : List ι} {s s₁ s' : σ} {o : Except SetupError α}
    {answers : List (Except SetupError α)} {es es' : List SetupError}
    (hi : ((f i).runFrom s).Reports (o, s₁) es)
    (hrest : (runEach f rest s₁).Reports (answers, s') es') :
    (runEach f (i :: rest) s).Reports (o :: answers, s') (es ++ es') :=
  hi.bind (hrest.bind_silent (Traced.Reports.pure _))

theorem reports_runEach (hf : ∀ i, ReportedWith inner (f i)) (steps : List ι) (s : σ) :
    ∃ answers s', (runEach f steps s).Reports (answers, s')
      (answers.flatMap (misuseWith inner)) := by
  induction steps generalizing s with
  | nil => exact ⟨[], s, Traced.Reports.pure _⟩
  | cons i rest ih =>
      obtain ⟨o, s₁, hi⟩ := hf i s
      obtain ⟨answers, s', hrest⟩ := ih s₁
      exact ⟨o :: answers, s', reports_runEach_cons hi hrest⟩

theorem runEach_append (f : ι → Session σ α) (before after : List ι) (s : σ) :
    runEach f (before ++ after) s = do
      let (answers, s) ← runEach f before s
      let (answers', s) ← runEach f after s
      return (answers ++ answers', s) := by
  induction before generalizing s with
  | nil => simp [runEach]
  | cons i rest ih => simp [runEach, ih]

theorem reportsEach (hf : ∀ i, ReportedWith inner (f i)) : ReportsEach inner f := by
  refine ⟨hf, reports_runEach hf, ?_⟩
  intro before i after s answers s₁ o s₂ e es hbefore hnone hi hsome flags habort
  obtain ⟨answers₁, t₁, hr⟩ := reports_runEach hf before s
  obtain ⟨rfl, rfl⟩ := Prod.mk.inj (hr.eq_of_yields hbefore rfl)
  obtain ⟨o₁, t₂, hstep⟩ := hf i t₁
  obtain ⟨rfl, rfl⟩ := Prod.mk.inj (hstep.eq_of_yields hi rfl)
  obtain ⟨answers₂, s', hafter⟩ := reports_runEach hf after t₂
  rw [hnone] at hr
  rw [hsome] at hstep
  have hall : (runEach f (before ++ i :: after) s).Reports (answers₁ ++ o₁ :: answers₂, s')
      (e :: (es ++ answers₂.flatMap (misuseWith inner))) := by
    rw [runEach_append]
    exact hr.bind ((reports_runEach_cons hstep hafter).bind_silent (Traced.Reports.pure _))
  obtain ⟨herrors, hresult⟩ := hall.fatal flags habort
  exact ⟨hr.yields flags, herrors, hresult⟩

end Session

end EncoderSetup

import EncoderSetup.Attribute.Staging
import EncoderSetup.Proofs.Diagnostic.Given
import EncoderSetup.Proofs.MappedValues

/-!
# Memory is reserved before anything changes

A value for a name that has none takes memory, and so does a commit of pending values. Where the
system grants it the operation goes through; a refusal is answered with its reason, and the store is
left as it was. A refused set or commit is an event where attributes are traced, a refused new store
is none (`Store.refusals_logged`).
-/

namespace EncoderSetup.Store

variable {s : Store} {name reason : String} {r : Reservation} {v : Value}

theorem gives_checkName (h : name ≠ "") : Checked.Gives (checkName name) (.ok ()) := by
  have hn : ¬ name.isEmpty = true := by simpa using h
  rw [checkName, if_neg hn]
  exact Checked.gives_pure ()

theorem gives_setValueWith_emptyName (r : Reservation) (v : Value) (s : Store) :
    Session.Gives (setValueWith r "" v) s (.error (.invalidArgument .emptyAttributeName), s) :=
  Session.gives_checked_bind_of_error (Checked.gives_refuse _)

theorem gives_setValueWith (hn : name ≠ "") (h : s.contains name = true ∨ r = .granted) :
    Session.Gives (setValueWith r name v) s (.ok (), s.put name v) := by
  apply Session.gives_checked_bind (gives_checkName hn)
  apply Session.gives_checked_bind (Checked.gives_logIf _ _)
  apply Session.gives_get_bind
  obtain hc | rfl := h
  · rw [if_pos hc]
    exact Session.gives_modify _
  · split
    · exact Session.gives_modify _
    · exact Session.gives_checked_bind (Checked.gives_pure ()) (Session.gives_modify _)

/-- A refused value is not committed, and the pending one of its name is kept. -/
theorem gives_setValueWith_refused (hn : name ≠ "") (hc : s.contains name = false) :
    Session.Gives (setValueWith (.refused reason) name v) s
      (.error (.unreserved (.insertion name) reason), s) := by
  apply Session.gives_checked_bind (gives_checkName hn)
  apply Session.gives_checked_bind (Checked.gives_logIf _ _)
  apply Session.gives_get_bind
  rw [if_neg (by simp [hc])]
  exact Session.gives_checked_bind_of_error (Checked.gives_refuse _)

theorem commit_of_not_hasPending (h : s.hasPending = false) : s.commit = s := by
  obtain ⟨committed, pending⟩ := s
  have he : pending = .empty := SortedMap.eq_empty_of_isEmpty (by simpa [hasPending] using h)
  subst he
  rfl

/-- Without pending values nothing is committed, and no memory is asked for. -/
theorem gives_commitPendingWith (h : s.hasPending = false ∨ r = .granted) :
    Session.Gives (commitPendingWith r) s (.ok s.pending.size, s.commit) := by
  apply Session.gives_get_bind
  cases hp : s.hasPending with
  | false =>
      rw [if_neg Bool.false_ne_true, commit_of_not_hasPending hp]
      exact Session.gives_pure _
  | true =>
      obtain hnone | rfl := h
      · rw [hp] at hnone
        cases hnone
      · rw [if_pos rfl]
        apply Session.gives_checked_bind (Checked.gives_pure ())
        apply Session.gives_modify_bind
        exact Session.gives_checked_bind (Checked.gives_logIf _ _) (Session.gives_pure _)

/-- A refused commit leaves every value as it was, the pending ones too. -/
theorem gives_commitPendingWith_refused (hp : s.hasPending = true) :
    Session.Gives (commitPendingWith (.refused reason)) s
      (.error (.unreserved .commit reason), s) := by
  apply Session.gives_get_bind
  rw [if_pos hp]
  exact Session.gives_checked_bind_of_error (Checked.gives_refuse _)

/-- Whatever the system answers, a set goes as it goes with memory, or is refused for want of it and
changes nothing. -/
theorem setValueWith_cases (r : Reservation) (name : String) (v : Value) (s : Store) :
    (∀ flags o s', (setValueWith r name v).Leads flags s o s' ↔
      (setValue name v).Leads flags s o s') ∨
    ∃ reason, r = .refused reason ∧ Session.Gives (setValueWith r name v) s
      (.error (.unreserved (.insertion name) reason), s) := by
  by_cases hn : name = ""
  · subst hn
    have hwith := gives_setValueWith_emptyName r v s
    have hgranted := gives_setValueWith_emptyName .granted v s
    exact Or.inl (hwith.leads_congr hgranted)
  · cases r with
    | granted => exact Or.inl fun flags o s' => Iff.rfl
    | refused reason =>
        cases hc : s.contains name with
        | false => exact Or.inr ⟨reason, rfl, gives_setValueWith_refused hn hc⟩
        | true =>
            have hwith := gives_setValueWith (r := .refused reason) (v := v) hn (Or.inl hc)
            have hgranted := gives_setValueWith (r := .granted) (v := v) hn (Or.inl hc)
            exact Or.inl (hwith.leads_congr hgranted)

theorem commitPendingWith_cases (r : Reservation) (s : Store) :
    (∀ flags o s', (commitPendingWith r).Leads flags s o s' ↔ commitPending.Leads flags s o s') ∨
    ∃ reason, r = .refused reason ∧
      Session.Gives (commitPendingWith r) s (.error (.unreserved .commit reason), s) := by
  cases r with
  | granted => exact Or.inl fun flags o s' => Iff.rfl
  | refused reason =>
      cases hp : s.hasPending with
      | true => exact Or.inr ⟨reason, rfl, gives_commitPendingWith_refused hp⟩
      | false =>
          have hwith := gives_commitPendingWith (r := .refused reason) (Or.inl hp)
          have hgranted := gives_commitPendingWith (r := .granted) (Or.inl hp)
          exact Or.inl (hwith.leads_congr hgranted)

/-- No debug word ends the process where memory is refused, and none of its events is an error. -/
theorem refusals_logged (reason : String) (flags : DebugFlags) :
    (create (.refused reason)).run.run flags = ⟨[], some (.error (.unreserved .map reason))⟩ ∧
      ∀ d, (reserve d (.refused reason)).run.run flags =
        ⟨if flags.contains .attributes then [.failed (.unreserved d reason)] else [],
          some (.error (.unreserved d reason))⟩ := by
  refine ⟨rfl, fun d => ?_⟩
  have hreport : (Traced.report (.unreserved d reason)).run flags =
      ⟨if flags.contains .attributes then [.failed (.unreserved d reason)] else [], some ()⟩ := rfl
  have hreserve : (reserve d (.refused reason)).run =
      Traced.report (.unreserved d reason) >>= fun _ => pure (.error (.unreserved d reason)) :=
    ExceptT.run_bind_lift _ _
  rw [hreserve, Traced.run_bind, hreport]
  simp

end EncoderSetup.Store

import EncoderSetup.Proofs.Attribute.Transition

/-!
# Every call answers, and reports its misuse

Each operation of a store is made of checks, reports and updates, so that it has an outcome from
every state, and the misuses in the outcome are what it reports (`Call.reported_run`). The edits of
a staged session are answered one by one, and each answer that is misuse is reported
(`Slot.reports_edits`).
-/

namespace EncoderSetup

open Session (reported_pure reported_get_bind reported_modify reported_checked reported_traced)

/-- The misuses that an answer tells of: those among the answers to the edits of a slot. -/
def Answer.misuses : Answer → List SetupError
  | edits answers => answers.flatMap misuse
  | _ => []

namespace Store

theorem reported_checkName (name : String) : Checked.Reported (checkName name) := by
  unfold checkName
  split
  · exact Checked.reported_refuse _
  · exact Checked.reported_pure ()

theorem reported_lookup (s : Store) (name : String) : Checked.Reported (s.lookup name) := by
  apply Checked.reported_bind (reported_checkName name)
  intro _
  split
  · next v _ =>
    have hlog := Traced.Reports.logIf .attributes (e := .attributeRead name v) nofun
    exact Checked.reported_bind (Checked.reported_traced hlog) fun _ => Checked.reported_pure _
  · exact Checked.reported_refuse _

theorem reported_read (s : Store) (name : String) (kind : Kind) :
    Checked.Reported (s.read name kind) := by
  apply Checked.reported_bind (s.reported_lookup name)
  intro v
  split
  · exact Checked.reported_pure v
  · exact Checked.reported_refuse _

theorem reported_fetch {α : Type} [Storable α] (s : Store) (name : String) :
    Checked.Reported (s.fetch α name) := by
  apply Checked.reported_bind (s.reported_lookup name)
  intro v
  split
  · exact Checked.reported_pure _
  · exact Checked.reported_refuse _

theorem reported_fetchBlock (s : Store) (name : String) (size : Nat) :
    Checked.Reported (s.fetchBlock name size) := by
  apply Checked.reported_bind (s.reported_fetch name)
  intro bytes
  split
  · exact Checked.reported_pure _
  · exact Checked.reported_refuse _

theorem reported_copyInto (s : Store) (name : String) : Session.Reported (s.copyInto name) := by
  apply Session.reported_bind (reported_checked (s.reported_fetch name))
  intro bytes
  apply reported_get_bind
  intro buffer
  split
  · exact reported_modify _
  · exact Session.reported_refuse _

theorem reported_reserve (d : Demand) (r : Reservation) : Checked.Reported (reserve d r) := by
  cases r with
  | granted => exact Checked.reported_pure ()
  | refused reason => exact Checked.reported_refuse _

/-- The refusal that is not reported is no misuse. -/
theorem reported_create (r : Reservation) : Checked.Reported (create r) := by
  cases r with
  | granted => exact Checked.reported_pure empty
  | refused reason => exact Checked.reported_throw rfl

theorem reported_setValueWith (r : Reservation) (name : String) (v : Value) :
    Session.Reported (setValueWith r name v) := by
  apply Session.reported_bind (reported_checked (reported_checkName name))
  intro _
  have hlog := Traced.Reports.logIf .attributes (e := .attributeSet name v) nofun
  apply Session.reported_bind (reported_traced hlog)
  intro _
  apply reported_get_bind
  intro s
  split
  · exact reported_modify _
  · exact Session.reported_bind (reported_checked (reported_reserve _ r)) fun _ => reported_modify _

theorem reported_commitPendingWith (r : Reservation) :
    Session.Reported (commitPendingWith r) := by
  apply reported_get_bind
  intro s
  split
  · have hlog := Traced.Reports.logIf .attributes (e := .committed s.pending.size) nofun
    apply Session.reported_bind (reported_checked (reported_reserve .commit r))
    intro _
    apply Session.reported_bind (reported_modify _)
    intro _
    exact Session.reported_bind (reported_traced hlog) fun _ => reported_pure rfl
  · exact reported_pure rfl

theorem reported_discardPending : Session.Reported discardPending :=
  reported_get_bind fun _ => Session.reported_bind (reported_modify _) fun _ => reported_pure rfl

theorem reports_show (s : Store) : s.show.Reports () [] := by
  refine Traced.Reports.bind (Traced.Reports.log (by nofun)) ?_
  induction s.lines with
  | nil => exact Traced.Reports.pure ()
  | cons line rest ih => exact Traced.Reports.bind (Traced.Reports.log (by nofun)) ih

theorem yields_show {flags : DebugFlags} {s : Store} : s.show.Yields flags () :=
  s.reports_show.yields flags

end Store

namespace Slot

theorem reported_fetch {α : Type} [Storable α] (slot : Slot) :
    Checked.Reported (slot.fetch α) := by
  unfold fetch
  split
  · exact Checked.reported_pure _
  · exact Checked.reported_refuse _

theorem reported_fetchBlock (slot : Slot) (size : Nat) :
    Checked.Reported (slot.fetchBlock size) := by
  apply Checked.reported_bind slot.reported_fetch
  intro bytes
  split
  · exact Checked.reported_pure _
  · exact Checked.reported_refuse _

theorem reported_change {α : Type} [Storable α] (f : α → α) : Session.Reported (change f) := by
  apply reported_get_bind
  intro slot
  apply Session.reported_bind (reported_checked slot.reported_fetch)
  intro a
  exact Session.reported_bind (reported_modify _) fun _ => reported_pure rfl

theorem reported_edit (e : Edit) : Session.Reported (edit e) := by
  cases e with
  | name | kind | value => exact reported_get_bind fun _ => reported_pure rfl
  | s32 f | u32 f | s64 f | u64 f | ptr f => exact reported_change f
  | st f =>
      apply reported_get_bind
      intro slot
      apply Session.reported_bind (reported_checked slot.reported_fetch)
      intro bytes
      exact Session.reported_bind (reported_modify _) fun _ => reported_pure rfl
  | readBlock size =>
      apply reported_get_bind
      intro slot
      exact Session.reported_bind (reported_checked (slot.reported_fetchBlock size)) fun _ =>
        reported_pure rfl
  | changeBlock size f =>
      apply reported_get_bind
      intro slot
      apply Session.reported_bind (reported_checked (slot.reported_fetchBlock size))
      intro _
      exact Session.reported_bind (reported_modify _) fun _ => reported_pure rfl

theorem reports_edits (es : List Edit) (slot : Slot) :
    ∃ answers slot', (edits es slot).Reports (answers, slot') (answers.flatMap misuse) := by
  have h := Session.reports_runEach reported_edit es slot
  rwa [Session.misuseWith_nil] at h

end Slot

namespace Store

theorem reported_openSlot (name : String) : Session.Reported (openSlot name) := by
  apply Session.reported_bind (reported_checked (reported_checkName name))
  intro _
  apply reported_get_bind
  intro s
  split
  · exact reported_pure rfl
  · exact Session.reported_bind (reported_modify _) fun _ => reported_pure rfl
  · exact Session.reported_refuse _

theorem reported_stage (name : String) (edits : List Edit) :
    Session.ReportedWith (List.flatMap misuse) (stage name edits) := by
  apply Session.reported_bind (reported_openSlot name)
  intro slot s
  obtain ⟨answers, slot', hedits⟩ := Slot.reports_edits edits slot
  exact ⟨.ok answers, s.putPending name slot'.value,
    Session.reports_traced_bind hedits (Traced.Reports.pure _)⟩

end Store

namespace Call

theorem reported_look {f : Store → Answer} (hf : ∀ s, (f s).misuses = []) :
    Session.ReportedWith Answer.misuses (look f) := reported_get_bind fun s => reported_pure (hf s)

theorem reported_copyInto (name : String) (buffer : List UInt8) :
    Session.ReportedWith Answer.misuses (run (copyInto name buffer)) := by
  apply reported_get_bind
  intro s s₁
  obtain ⟨outcome, bytes, hcopy⟩ := s.reported_copyInto name buffer
  cases outcome with
  | ok u =>
      exact ⟨.ok (.bytes bytes), s₁, Session.reports_traced_bind hcopy (Traced.Reports.pure _)⟩
  | error e =>
      exact ⟨.error e, s₁, Session.reports_traced_bind hcopy (Traced.Reports.pure _)⟩

theorem reported_run (c : Call) : Session.ReportedWith Answer.misuses c.run := by
  cases c with
  | set name v =>
      exact Session.reported_bind (Store.reported_setValueWith .granted name v) fun _ =>
        reported_pure rfl
  | read name kind =>
      apply reported_get_bind
      intro s
      exact Session.reported_bind (reported_checked (s.reported_read name kind)) fun _ =>
        reported_pure rfl
  | readBlock name size =>
      apply reported_get_bind
      intro s
      exact Session.reported_bind (reported_checked (s.reported_fetchBlock name size)) fun _ =>
        reported_pure rfl
  | copyInto name buffer => exact reported_copyInto name buffer
  | stage name edits => exact (Store.reported_stage name edits).map fun _ => rfl
  | commit =>
      exact Session.reported_bind (Store.reported_commitPendingWith .granted) fun _ =>
        reported_pure rfl
  | discard => exact Session.reported_bind Store.reported_discardPending fun _ => reported_pure rfl
  | remove name =>
      apply reported_get_bind
      intro s
      exact Session.reported_bind (reported_modify _) fun _ => reported_pure rfl
  | listing =>
      apply reported_get_bind
      intro s
      exact Session.reported_bind (reported_traced s.reports_show) fun _ => reported_pure rfl
  | _ => exact reported_look fun _ => rfl

theorem settled_run (c : Call) : Session.Settled c.run := c.reported_run.settled

end Call

end EncoderSetup

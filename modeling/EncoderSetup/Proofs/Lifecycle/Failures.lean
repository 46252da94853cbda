import EncoderSetup.Proofs.Attribute.Sessions
import EncoderSetup.Proofs.Diagnostic.Atomic
import EncoderSetup.Proofs.Lifecycle.Operations

/-!
# Failed operations change nothing

Every operation on a store, a configuration or a registry makes its checks before its first update,
so that one that fails leaves every object of the program as it was (`Operation.atomic_run`). A
session that is refused leaves no pending value, and an edit that is refused within a session may as
well be left out of it.
-/

namespace EncoderSetup

open Session (Atomic Keeps Succeeds keeps_get keeps_checked keeps_traced keeps_refuse succeeds_pure
  succeeds_modify succeeds_traced)

theorem Session.Atomic.within {σ τ α : Type} {x : Session τ α} (hx : Atomic x) {part : σ → τ}
    {put : τ → σ → σ} (hput : ∀ s, put (part s) s = s) : Atomic (x.within part put) := by
  intro flags s e s' h
  obtain ⟨⟨outcome, t⟩, hlead, h⟩ := Traced.yields_bind.mp h
  obtain ⟨rfl, rfl⟩ := Prod.mk.inj (Traced.yields_pure.mp h)
  rw [hx flags (part s) e t hlead, hput]

theorem Slot.atomic_edit (e : Edit) : Atomic (edit e) := fun _ _ _ _ => leads_edit_error

/-- A refused edit may be left out, wherever it stands among the others. -/
theorem Slot.yields_edits_refused {before after : List Edit} {e : Edit} {flags : DebugFlags}
    {slot slot' : Slot} {answers : List (Except SetupError EditAnswer)} {err : SetupError}
    (h : (edits (before ++ e :: after) slot).Yields flags (answers, slot'))
    (hrefused : answers[before.length]? = some (.error err)) :
    (edits (before ++ after) slot).Yields flags (answers.eraseIdx before.length, slot') := by
  induction before generalizing slot answers with
  | nil =>
      obtain ⟨o, slot₁, more, hedit, hafter, rfl⟩ := Session.yields_runEach_cons.mp h
      obtain rfl : o = .error err := Option.some.inj hrefused
      obtain rfl := leads_edit_error hedit
      exact hafter
  | cons b rest ih =>
      obtain ⟨o, slot₁, more, hedit, hrest, rfl⟩ := Session.yields_runEach_cons.mp h
      exact Session.yields_runEach_cons.mpr ⟨o, slot₁, _, hedit, ih hrest hrefused, rfl⟩

namespace Store

theorem atomic_setValueWith (r : Reservation) (name : String) (v : Value) :
    Atomic (setValueWith r name v) := by
  intro flags s e s' h
  obtain hgranted | ⟨reason, -, hrefused⟩ := setValueWith_cases r name v s
  · obtain ⟨-, ho, -⟩ | ⟨-, -, hs⟩ := leads_setValue ((hgranted _ _ _).mp h)
    · cases ho
    · exact hs
  · exact (Prod.mk.inj ((hrefused _ _ _).mp h).1).2

theorem atomic_openSlot (name : String) : Atomic (openSlot name) := by
  apply (keeps_checked _).atomic_bind
  intro _
  apply keeps_get.atomic_bind
  intro s
  split
  · exact (succeeds_pure _).atomic
  · exact ((succeeds_modify _).bind fun _ => succeeds_pure _).atomic
  · exact (keeps_refuse _).atomic

theorem atomic_stage (name : String) (edits : List Edit) : Atomic (stage name edits) := by
  apply (atomic_openSlot name).bind
  intro slot
  apply (succeeds_traced _).bind
  intro r
  exact (succeeds_modify _).bind fun _ => succeeds_pure _

/-- Where a session is refused there is nothing pending for the name. -/
theorem leads_stage_error {s s' : Store} {name : String} {edits : List Edit} {flags : DebugFlags}
    {e : SetupError} (hs : s.WellFormed) (h : (stage name edits).Leads flags s (.error e) s') :
    s' = s ∧ s.pending.get? name = none := by
  obtain ⟨_, _, -, ho, -⟩ | ⟨hslot, -, hs'⟩ := leads_stage h
  · cases ho
  · refine ⟨hs', ?_⟩
    unfold slot? at hslot
    split at hslot
    · next hn =>
        obtain rfl : name = "" := by simpa using hn
        exact hs.pending_emptyName
    · exact (Option.or_eq_none_iff.mp hslot).1

/-- A session is the session without an edit of it that was refused. -/
theorem leads_stage_refused {s s' : Store} {name : String} {before after : List Edit} {e : Edit}
    {flags : DebugFlags} {answers : List (Except SetupError EditAnswer)} {err : SetupError}
    (h : (stage name (before ++ e :: after)).Leads flags s (.ok answers) s')
    (hrefused : answers[before.length]? = some (.error err)) :
    (stage name (before ++ after)).Leads flags s (.ok (answers.eraseIdx before.length)) s' := by
  unfold stage at h ⊢
  rcases Session.leads_bind.mp h with ⟨slot, s₁, hopen, h⟩ | ⟨_, -, he⟩
  · refine Session.leads_bind.mpr (Or.inl ⟨slot, s₁, hopen, ?_⟩)
    simp only [Session.leads_traced_bind, Session.leads_modify_bind, Session.leads_pure] at h ⊢
    obtain ⟨⟨answers', slot'⟩, hedits, ho, rfl⟩ := h
    obtain rfl := Except.ok.inj ho
    exact ⟨_, Slot.yields_edits_refused hedits hrefused, rfl, rfl⟩
  · cases he

theorem atomic_commitPendingWith (r : Reservation) : Atomic (commitPendingWith r) := by
  intro flags s e s' h
  obtain hgranted | ⟨reason, -, hrefused⟩ := commitPendingWith_cases r s
  · cases (leads_commitPending.mp ((hgranted _ _ _).mp h)).1
  · exact (Prod.mk.inj ((hrefused _ _ _).mp h).1).2

theorem atomic_discardPending : Atomic discardPending := by
  intro flags s e s' h
  cases (leads_discardPending.mp h).1

end Store

namespace Call

theorem atomic_run (c : Call) : Atomic c.run := by
  cases c with
  | set name v => exact (Store.atomic_setValueWith .granted name v).bind fun _ => succeeds_pure _
  | read name kind | readBlock name size =>
      apply keeps_get.atomic_bind
      intro s
      exact (keeps_checked _).atomic_bind fun _ => (succeeds_pure _).atomic
  | copyInto name buffer => exact fun _ _ _ _ => leads_copyInto
  | stage name edits => exact (Store.atomic_stage name edits).bind fun _ => succeeds_pure _
  | commit => exact (Store.atomic_commitPendingWith .granted).bind fun _ => succeeds_pure _
  | discard => exact Store.atomic_discardPending.bind fun _ => succeeds_pure _
  | remove name =>
      apply keeps_get.atomic_bind
      intro s
      exact ((succeeds_modify _).bind fun _ => succeeds_pure _).atomic
  | listing =>
      apply keeps_get.atomic_bind
      intro s
      exact (keeps_traced _).atomic_bind fun _ => (succeeds_pure _).atomic
  | _ => exact keeps_get.atomic_bind fun _ => (succeeds_pure _).atomic

end Call

theorem Registry.atomic_register (name : String) (s : Stage) : Atomic (register name s) := by
  unfold register
  split
  · exact (keeps_refuse _).atomic
  · exact (succeeds_modify _).atomic

theorem StageConfig.atomic_onAttributes {α : Type} {x : Session Store α} (hx : Atomic x) :
    Atomic (onAttributes x) := by
  let put (attributes : Store) (c : StageConfig) : StageConfig := { c with attributes }
  have hput (c : StageConfig) : put c.attributes c = c := rfl
  exact hx.within hput

variable {S : Structures}

theorem StoreCall.atomic_run (c : StoreCall S) : Atomic c.run := by
  cases c with
  | plain c => exact c.atomic_run.bind fun _ => succeeds_pure _
  | setWith r name v => exact (Store.atomic_setValueWith r name v).bind fun _ => succeeds_pure _
  | commitWith r => exact (Store.atomic_commitPendingWith r).bind fun _ => succeeds_pure _
  | setStruct name t a =>
      exact (Store.atomic_setValueWith .granted name _).bind fun _ => succeeds_pure _
  | getStruct name t =>
      apply keeps_get.atomic_bind
      intro s
      exact (keeps_checked _).atomic_bind fun _ => (succeeds_pure _).atomic

namespace Operation

theorem succeeds_put (f : Workspace → Workspace) :
    Succeeds (run.put f : Session Workspace (Reply S)) :=
  (succeeds_modify f).bind fun _ => succeeds_pure _

theorem atomic_look (f : Workspace → Reply S) :
    Atomic (run.look f : Session Workspace (Reply S)) :=
  keeps_get.atomic_bind fun _ => (succeeds_pure _).atomic

/-- An operation that fails leaves every object as it was. -/
theorem atomic_run (op : Operation S) : Atomic op.run := by
  cases op with
  | newStoreWith i r | loadStore i o | newConfigRaw i raw | loadRegistry i o =>
      exact (keeps_checked _).atomic_bind fun _ => (succeeds_put _).atomic
  | newConfig i s => exact (keeps_traced _).atomic_bind fun _ => (succeeds_put _).atomic
  | onStore i c => exact c.atomic_run.within fun w => by simp [Workspace.putStore]
  | onConfig i c =>
      have hconfig := StageConfig.atomic_onAttributes c.atomic_run
      exact hconfig.within fun w => by simp [Workspace.putConfig]
  | register i name s =>
      refine Atomic.bind ?_ fun _ => succeeds_pure _
      exact (Registry.atomic_register name s).within fun w => by simp [Workspace.putRegistry]
  | releaseStore i | releaseConfig i =>
      apply keeps_get.atomic_bind
      intro w
      exact (keeps_traced _).atomic_bind fun _ => (succeeds_put _).atomic
  | newConfigNamed i registry name =>
      apply keeps_get.atomic_bind
      intro w
      exact (keeps_checked _).atomic_bind fun _ => (succeeds_put _).atomic
  | stageOf i | validate i | dumpConfig i | names i => exact atomic_look _
  | listConfig i =>
      apply keeps_get.atomic_bind
      intro w
      exact (keeps_traced _).atomic_bind fun _ => (succeeds_pure _).atomic
  | stageOfRaw raw => exact (keeps_checked _).atomic_bind fun _ => (succeeds_pure _).atomic
  | resolve i name =>
      apply keeps_get.atomic_bind
      intro w
      exact (keeps_checked _).atomic_bind fun _ => (succeeds_pure _).atomic
  | _ => exact (succeeds_put _).atomic

/-- An operation that fails leaves every store, configuration and registry as it was. In particular
a session that is refused leaves nothing pending for its name, and an edit that is refused leaves
the value in the slot; the session it belongs to leaves what it would leave without it. -/
theorem failed_operations_change_nothing (S : Structures) :
    (∀ (op : Operation S) flags w e w', op.run.Leads flags w (.error e) w' → w' = w) ∧
    (∀ (s : Store), s.Reachable → ∀ name edits flags e s',
      (Store.stage name edits).Leads flags s (.error e) s' →
        s' = s ∧ s'.pending.get? name = none) ∧
    (∀ edit flags slot e slot', (Slot.edit edit).Leads flags slot (.error e) slot' →
      slot' = slot) ∧
    ∀ name before e after flags (s : Store) answers err s',
      (Store.stage name (before ++ e :: after)).Leads flags s (.ok answers) s' →
      answers[before.length]? = some (.error err) →
        (Store.stage name (before ++ after)).Leads flags s
          (.ok (answers.eraseIdx before.length)) s' := by
  refine ⟨fun op => op.atomic_run, fun s hs name edits flags e s' h => ?_, Slot.atomic_edit,
    fun name before e after flags s answers err s' => Store.leads_stage_refused⟩
  obtain ⟨rfl, hpending⟩ := Store.leads_stage_error hs.wellFormed h
  exact ⟨rfl, hpending⟩

/-- An empty name is not registered, a session on a name without a value leaves nothing pending, and
a halving as the wrong kind between two others leaves the quarter that these make of the value. -/
theorem refused_edit_of_gop :
    let S : Structures := ⟨Empty, Empty.elim, fun t => t.elim⟩
    let half : Edit := .u32 fun gop => gop / 2
    let misread : Edit := .s32 fun gop => gop / 2
    let s := Store.empty.put "rc.gop" (.u32 60)
    let w : Workspace := ⟨fun _ => s, fun _ => ⟨.init, s⟩, fun _ => .builtin⟩
    (∃ e w', (run (S := S) (register 0 "" .init)).Leads .clear w (.error e) w' ∧ w' = w) ∧
      (∃ e s', (Store.stage "rc.mode" [half]).Leads .clear s (.error e) s' ∧
        s' = s ∧ s'.pending.get? "rc.mode" = none) ∧
      (∃ e slot', (Slot.edit misread).Leads .clear ⟨"rc.gop", .u32 60⟩ (.error e) slot' ∧
        slot' = ⟨"rc.gop", .u32 60⟩) ∧
      ∃ answers, (Store.stage "rc.gop" [half, half]).Leads .clear s (.ok answers)
        (s.putPending "rc.gop" (.u32 15)) := by
  intro S half misread s w
  obtain ⟨hop, hstage, hedit, hrefused⟩ := failed_operations_change_nothing S
  have hset : (Call.set "rc.gop" (.u32 60)).run.Leads .clear .empty (.ok .done) s := by rfl
  have hs : s.Reachable := Store.Reachable.empty.call hset
  obtain ⟨w', hregister⟩ : ∃ w', (run (S := S) (register 0 "" .init)).Leads .clear w
      (.error (.invalidArgument .emptyProfileName)) w' := ⟨_, rfl⟩
  obtain ⟨s', hmode⟩ : ∃ s', (Store.stage "rc.mode" [half]).Leads .clear s
      (.error (.notFound (.attributeName "rc.mode"))) s' := ⟨_, rfl⟩
  obtain ⟨slot', hmisread⟩ : ∃ slot', (Slot.edit misread).Leads .clear ⟨"rc.gop", .u32 60⟩
      (.error (.typeMismatch "rc.gop" .u32 .s32)) slot' := ⟨_, rfl⟩
  have hgop : (Store.stage "rc.gop" [half, misread, half]).Leads .clear s
      (.ok [.ok (.value (.u32 60)), .error (.typeMismatch "rc.gop" .u32 .s32),
        .ok (.value (.u32 30))]) (s.putPending "rc.gop" (.u32 15)) := by rfl
  exact ⟨⟨_, _, hregister, hop _ _ _ _ _ hregister⟩, ⟨_, _, hmode, hstage s hs _ _ _ _ _ hmode⟩,
    ⟨_, _, hmisread, hedit _ _ _ _ _ hmisread⟩,
    ⟨_, hrefused "rc.gop" [half] misread [half] _ _ _ _ _ hgop rfl⟩⟩

end Operation

end EncoderSetup

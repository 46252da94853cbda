import EncoderSetup.Proofs.Attribute.Answers
import EncoderSetup.Proofs.Attribute.Invariant
import EncoderSetup.Proofs.Attribute.Updates
import Mathlib.Data.List.Dedup

/-!
# Staged sessions set values

A second session on a name goes on from where the first one stopped, so that after any sessions,
in any interleaving, the pending value of a name is its committed one under all the edits that were
not refused (`Store.Staged`). A commit then leaves the store that one set for each name would leave,
in whatever order the names are set (`Call.staged_sessions_equal_sets`).
-/

namespace EncoderSetup

/-- The edits that were answered without an error. -/
def Edit.accepted (edits : List Edit) (answers : List (Except SetupError EditAnswer)) :
    List Edit :=
  ((edits.zip answers).filter fun p => p.2.isOk).map Prod.fst

namespace Slot

variable {flags : DebugFlags} {slot slot' : Slot}

theorem leads_edit_error {e : Edit} {err : SetupError}
    (h : (edit e).Leads flags slot (.error err) slot') : slot' = slot := by
  cases e with
  | name | kind | value =>
      simp only [edit, Session.leads_get_bind, Session.leads_pure] at h
      exact h.2
  | _ =>
      simp only [edit, change, Session.leads_get_bind, Session.leads_checked_bind,
        Session.leads_modify_bind, Session.leads_pure] at h
      obtain ⟨_, -, ho, -⟩ | ⟨_, -, -, hs⟩ := h
      · cases ho
      · exact hs

/-- A refused edit may as well be left out. -/
theorem yields_edits_accepted {es : List Edit} {answers : List (Except SetupError EditAnswer)}
    (h : (edits es slot).Yields flags (answers, slot')) :
    slot' = ⟨slot.name, Edit.applyAll (Edit.accepted es answers) slot.value⟩ := by
  induction es generalizing slot answers with
  | nil =>
      obtain ⟨rfl, rfl⟩ := Prod.mk.inj (Traced.yields_pure.mp h)
      rfl
  | cons e rest ih =>
      obtain ⟨o, slot₁, more, he, hrest, rfl⟩ := Session.yields_runEach_cons.mp h
      cases o with
      | ok a =>
          obtain rfl := leads_edit he
          exact ih hrest
      | error err =>
          obtain rfl := leads_edit_error he
          exact ih hrest

end Slot

namespace Store

variable {flags : DebugFlags} {s s' : Store} {name k : String} {v w : Value}

theorem leads_stage_ok {es : List Edit} {answers : List (Except SetupError EditAnswer)}
    (h : (stage name es).Leads flags s (.ok answers) s') :
    ∃ v slot, s.slot? name = some v ∧ (Slot.edits es ⟨name, v⟩).Yields flags (answers, slot) ∧
      s' = s.putPending name slot.value := by
  unfold stage at h
  rcases Session.leads_bind.mp h with ⟨slot, s₁, hopen, h⟩ | ⟨_, -, he⟩
  · obtain ⟨v, hv, ho, hput⟩ | ⟨-, ⟨_, he⟩, -⟩ := leads_openSlot hopen
    · obtain rfl := Except.ok.inj ho
      simp only [Session.leads_traced_bind, Session.leads_modify_bind, Session.leads_pure] at h
      obtain ⟨⟨answers', slot'⟩, hedits, ho, rfl⟩ := h
      obtain rfl := Except.ok.inj ho
      exact ⟨v, slot', hv, hedits, hput _⟩
    · cases he
  · cases he

theorem leads_stage_accepted {es : List Edit} {answers : List (Except SetupError EditAnswer)}
    (h : (stage name es).Leads flags s (.ok answers) s') :
    ∃ v, s.slot? name = some v ∧
      s' = s.putPending name (Edit.applyAll (Edit.accepted es answers) v) := by
  obtain ⟨v, slot, hv, hedits, rfl⟩ := leads_stage_ok h
  obtain rfl := Slot.yields_edits_accepted hedits
  exact ⟨v, hv, rfl⟩

theorem slot?_putPending_self (h : s.slot? name = some v) (w : Value) :
    (s.putPending name w).slot? name = some w := by
  have hn : name.isEmpty = false := by
    refine Bool.eq_false_iff.mpr fun hn => ?_
    rw [slot?, if_pos hn] at h
    cases h
  simp [slot?, hn, putPending]

theorem slot?_putPending_of_ne (hk : k ≠ name) (w : Value) :
    (s.putPending name w).slot? k = s.slot? k := by
  simp only [slot?, putPending, SortedMap.get?_insert_of_ne _ _ hk]

/-- A slot opens on every committed name of a store without an empty one. -/
theorem WellFormed.exists_slot (h : s.WellFormed) (hc : s.contains name = true) :
    ∃ v, s.slot? name = some v := by
  obtain ⟨v, hv⟩ := Option.isSome_iff_exists.mp hc
  have hn : name.isEmpty = false := by
    refine Bool.eq_false_iff.mpr fun hn => ?_
    obtain rfl : name = "" := by simpa using hn
    rw [value?, h.emptyName] at hv
    cases hv
  have hcommitted : s.committed.get? name = some v := hv
  unfold slot?
  rw [hn, hcommitted]
  cases s.pending.get? name with
  | none => exact ⟨v, rfl⟩
  | some w => exact ⟨w, rfl⟩

/-- What sessions on these names, with these edits accepted, make of a store. -/
structure Staged (names : List String) (edits : String → List Edit) (s s' : Store) : Prop where
  committed : s'.committed = s.committed
  staged : ∀ k ∈ names, ∃ v, s.slot? k = some v ∧
    s'.pending.get? k = some (Edit.applyAll (edits k) v)
  other : ∀ k, k ∉ names → s'.pending.get? k = s.pending.get? k

/-- One session and then others: its edits come before theirs on the same name. -/
theorem Staged.cons {names : List String} {edits : String → List Edit} {es : List Edit}
    (hv : s.slot? name = some v)
    (h : Staged names edits (s.putPending name (Edit.applyAll es v)) s')
    (hedits : name ∉ names → edits name = []) :
    Staged (name :: names) (fun k => (if name = k then es else []) ++ edits k) s s' := by
  refine ⟨h.committed, fun k hk => ?_, fun k hk => ?_⟩
  · by_cases hkn : name = k
    · subst hkn
      refine ⟨v, hv, ?_⟩
      rw [if_pos rfl, Edit.applyAll, List.foldl_append]
      by_cases hmem : name ∈ names
      · obtain ⟨w, hw, hpending⟩ := h.staged name hmem
        rw [slot?_putPending_self hv] at hw
        obtain rfl := Option.some.inj hw
        exact hpending
      · rw [h.other name hmem, hedits hmem]
        exact SortedMap.get?_insert_self _ _ _
    · have hmem : k ∈ names := (List.mem_cons.mp hk).resolve_left (Ne.symm hkn)
      obtain ⟨w, hw, hpending⟩ := h.staged k hmem
      rw [slot?_putPending_of_ne (Ne.symm hkn)] at hw
      rw [if_neg hkn, List.nil_append]
      exact ⟨w, hw, hpending⟩
  · obtain ⟨hkn, hmem⟩ := not_or.mp (mt List.mem_cons.mpr hk)
    rw [h.other k hmem]
    exact SortedMap.get?_insert_of_ne _ _ hkn

end Store

namespace Call

/-! ## Runs of sessions -/

def ofSessions (sessions : List (String × List Edit)) : List Call :=
  sessions.map fun p => .stage p.1 p.2

/-- The accepted edits of all sessions on a name, in order. -/
def acceptedOn (name : String) (sessions : List (String × List Edit))
    (answers : List (List (Except SetupError EditAnswer))) : List Edit :=
  (sessions.zip answers).flatMap fun p => if p.1.1 = name then Edit.accepted p.1.2 p.2 else []

theorem acceptedOn_of_notMem {name : String} {sessions : List (String × List Edit)}
    (h : name ∉ sessions.map Prod.fst) (answers : List (List (Except SetupError EditAnswer))) :
    acceptedOn name sessions answers = [] := by
  refine List.flatMap_eq_nil_iff.mpr fun p hp => if_neg fun hn => h ?_
  exact List.mem_map.mpr ⟨p.1, (List.of_mem_zip hp).1, hn⟩

/-- The outcome of a session whose slot opened. -/
def opened (answers : List (Except SetupError EditAnswer)) : Except SetupError Answer :=
  .ok (.edits answers)

variable {flags : DebugFlags} {s s' : Store}

theorem leads_stage_opened {name : String} {es : List Edit}
    {answers : List (Except SetupError EditAnswer)}
    (h : (stage name es).run.Leads flags s (opened answers) s') :
    ∃ v, s.slot? name = some v ∧
      s' = s.putPending name (Edit.applyAll (Edit.accepted es answers) v) := by
  simp only [run, opened, Session.leads_bind, Session.leads_pure, Except.ok.injEq,
    Answer.edits.injEq] at h
  obtain ⟨_, _, hstage, rfl, rfl⟩ | ⟨_, -, he⟩ := h
  · exact Store.leads_stage_accepted hstage
  · cases he

theorem exists_opened {name : String} {es : List Edit} {v : Value} {o : Except SetupError Answer}
    (hv : s.slot? name = some v) (h : (stage name es).run.Leads flags s o s') :
    ∃ answers, o = opened answers := by
  simp only [run, Session.leads_bind, Session.leads_pure] at h
  obtain ⟨answers, _, -, rfl, -⟩ | ⟨_, hstage, -⟩ := h
  · exact ⟨answers, rfl⟩
  · obtain ⟨_, _, -, ho, -⟩ | ⟨hnone, -, -⟩ := Store.leads_stage hstage
    · cases ho
    · rw [hv] at hnone
      cases hnone

theorem staged_of_yields {sessions : List (String × List Edit)}
    {edited : List (List (Except SetupError EditAnswer))}
    (h : (runAll (ofSessions sessions) s).Yields flags (edited.map opened, s')) :
    Store.Staged (sessions.map Prod.fst) (fun k => acceptedOn k sessions edited) s s' := by
  induction sessions generalizing s edited with
  | nil =>
      obtain ⟨-, rfl⟩ := Prod.mk.inj (Traced.yields_pure.mp h)
      exact ⟨rfl, fun _ hk => (List.not_mem_nil hk).elim, fun _ _ => rfl⟩
  | cons p rest ih =>
      obtain ⟨o, s₁, more, hstage, hrest, hanswers⟩ := Session.yields_runEach_cons.mp h
      cases edited with
      | nil => cases hanswers
      | cons answers edited =>
          obtain ⟨rfl, rfl⟩ := List.cons.inj hanswers
          obtain ⟨v, hv, rfl⟩ := leads_stage_opened hstage
          exact (ih hrest).cons hv fun hn => acceptedOn_of_notMem hn edited

/-- Where every name is committed, every slot opens. -/
theorem opened_of_yields {sessions : List (String × List Edit)}
    {answers : List (Except SetupError Answer)} (hw : s.WellFormed)
    (hc : ∀ p ∈ sessions, s.contains p.1 = true)
    (h : (runAll (ofSessions sessions) s).Yields flags (answers, s')) :
    ∃ edited : List (List (Except SetupError EditAnswer)), answers = edited.map opened := by
  induction sessions generalizing s answers with
  | nil =>
      obtain ⟨rfl, -⟩ := Prod.mk.inj (Traced.yields_pure.mp h)
      exact ⟨[], rfl⟩
  | cons p rest ih =>
      obtain ⟨o, s₁, more, hstage, hrest, rfl⟩ := Session.yields_runEach_cons.mp h
      obtain ⟨hp, hcrest⟩ := List.forall_mem_cons.mp hc
      obtain ⟨v, hv⟩ := hw.exists_slot hp
      obtain ⟨answers, rfl⟩ := exists_opened hv hstage
      have hw₁ : s₁.WellFormed := by
        rw [leads_run hstage]
        exact hw.after _
      obtain ⟨w, -, rfl⟩ := leads_stage_opened hstage
      obtain ⟨edited, rfl⟩ := ih hw₁ hcrest hrest
      exact ⟨answers :: edited, rfl⟩

def ofSets (sets : List (String × Value)) : List Call := sets.map fun e => .set e.1 e.2

theorem yields_ofSets {sets : List (String × Value)} (h : ∀ e ∈ sets, e.1 ≠ "") :
    (runAll (ofSets sets) s).Yields flags (sets.map fun _ => .ok .done, s.putAll sets) := by
  induction sets generalizing s with
  | nil => exact Traced.yields_pure.mpr rfl
  | cons e rest ih =>
      obtain ⟨he, hrest⟩ := List.forall_mem_cons.mp h
      have hset : (set e.1 e.2).run.Leads flags s (.ok .done) (s.put e.1 e.2) := by
        have hput : (Store.setValue e.1 e.2).Leads flags s (.ok ()) (s.put e.1 e.2) :=
          (Store.leads_setValue_of_named he).mpr ⟨rfl, rfl⟩
        exact Session.leads_bind.mpr (Or.inl ⟨(), _, hput, Session.leads_pure.mpr ⟨rfl, rfl⟩⟩)
      exact Session.yields_runEach_cons.mpr ⟨_, _, _, hset, ih hrest, rfl⟩

end Call

namespace Store

variable {s s' : Store} {names : List String} {edits : String → List Edit}

theorem Staged.size_pending (h : Staged names edits s s') (hp : s.pending = .empty) :
    s'.pending.size = names.dedup.length := by
  rw [← SortedMap.length_keys]
  refine List.Perm.length_eq ?_
  refine (List.perm_ext_iff_of_nodup (SortedMap.nodup_keys _) (List.nodup_dedup _)).mpr fun k => ?_
  rw [SortedMap.mem_keys, List.mem_dedup]
  constructor
  · rintro ⟨w, hw⟩
    by_contra hk
    rw [h.other k hk, hp] at hw
    cases hw
  · intro hk
    obtain ⟨v, -, hpending⟩ := h.staged k hk
    exact ⟨_, hpending⟩

/-- The value of a name is written by the commit of its sessions, and by a set of what they make of
the committed value. -/
theorem Staged.commit_eq_putAll (h : Staged names edits s s') (hp : s.pending = .empty)
    {sets : List (String × Value)} (hnames : ∀ k, k ∈ sets.map Prod.fst ↔ k ∈ names)
    (hvalues : ∀ e ∈ sets, s'.pending.get? e.1 = some e.2) : s'.commit = s.putAll sets := by
  obtain ⟨committed, pending⟩ := s
  obtain rfl : pending = .empty := hp
  rw [putAll_of_pending_empty, Store.commit, h.committed]
  refine congrArg (Store.mk · .empty) (SortedMap.ext_get? fun k => ?_)
  rw [SortedMap.get?_merge, SortedMap.get?_insertAll]
  refine congrArg (Option.or · (committed.get? k)) ?_
  by_cases hk : k ∈ names
  · obtain ⟨v, -, hpending⟩ := h.staged k hk
    obtain ⟨e, he, hek⟩ := List.mem_map.mp ((hnames k).mpr hk)
    rw [hpending]
    refine (SortedMap.lookup_eq_some_of_forall ⟨e, List.mem_reverse.mpr he, hek⟩ ?_).symm
    rintro e' he' rfl
    have hvalue := hvalues e' (List.mem_reverse.mp he')
    rw [hpending] at hvalue
    exact (Option.some.inj hvalue).symm
  · rw [h.other k hk, SortedMap.get?_empty]
    refine (SortedMap.lookup_eq_none_iff.mpr fun e he hek => hk ?_).symm
    exact (hnames k).mp (List.mem_map.mpr ⟨e, List.mem_reverse.mp he, hek⟩)

theorem value?_of_slot? {k : String} {v : Value} (hp : s.pending = .empty)
    (h : s.slot? k = some v) : k ≠ "" ∧ s.value? k = some v := by
  unfold slot? at h
  split at h
  · cases h
  · next hk =>
      rw [hp] at h
      exact ⟨fun h0 => hk (by rw [h0]; rfl), h⟩

end Store

namespace Call

/-- On a store with nothing pending, sessions in any interleaving and a commit leave the store that
one set for each of their names leaves, in any order of the names: the set of the committed value
under all the edits of the name that were not refused. The commit answers the number of names. -/
theorem staged_sessions_equal_sets {s : Store} (hs : s.Reachable) (hp : s.hasPending = false)
    (sessions : List (String × List Edit)) :
    (∀ flags : DebugFlags, flags.contains .abort = false →
      (∀ p ∈ sessions, s.contains p.1 = true) →
        ∃ edited s', (runAll (ofSessions sessions) s).Yields flags (List.map opened edited, s')) ∧
    ∀ flags edited s', (runAll (ofSessions sessions) s).Yields flags (List.map opened edited, s') →
      ∃ t, commit.run.Leads flags s' (.ok (.count (sessions.map Prod.fst).dedup.length)) t ∧
        ∀ order : List String, order.Perm (sessions.map Prod.fst).dedup →
          ∃ sets : List (String × Value), sets.map Prod.fst = order ∧
            (∀ e ∈ sets, ∃ v, s.value? e.1 = some v ∧
              e.2 = Edit.applyAll (acceptedOn e.1 sessions edited) v) ∧
            (runAll (ofSets sets) s).Yields flags (sets.map fun _ => .ok .done, t) := by
  have hempty : s.pending = .empty :=
    SortedMap.eq_empty_of_isEmpty (by simpa [Store.hasPending] using hp)
  refine ⟨fun flags hflags hc => ?_, fun flags edited s' hrun => ?_⟩
  · obtain ⟨⟨answers, s'⟩, h⟩ := Session.settled_runEach settled_run (ofSessions sessions) s
    obtain ⟨edited, rfl⟩ := opened_of_yields hs.wellFormed hc (h flags hflags)
    exact ⟨edited, s', h flags hflags⟩
  · have hstaged := staged_of_yields hrun
    refine ⟨s'.commit, ?_, fun order horder => ?_⟩
    · rw [← hstaged.size_pending hempty]
      exact leads_commit
    · have hnames : ∀ k, k ∈ order ↔ k ∈ sessions.map Prod.fst := fun k =>
        horder.mem_iff.trans List.mem_dedup
      obtain ⟨sets, rfl, hvalues⟩ : ∃ sets : List (String × Value),
          sets.map Prod.fst = order ∧ ∀ e ∈ sets, s'.pending.get? e.1 = some e.2 := by
        refine SortedMap.exists_entries fun k hk => ?_
        obtain ⟨v, -, hpending⟩ := hstaged.staged k ((hnames k).mp hk)
        exact ⟨_, hpending⟩
      have hedited : ∀ e ∈ sets, e.1 ≠ "" ∧ ∃ v, s.value? e.1 = some v ∧
          e.2 = Edit.applyAll (acceptedOn e.1 sessions edited) v := by
        intro e he
        obtain ⟨v, hv, hpending⟩ :=
          hstaged.staged e.1 ((hnames e.1).mp (List.mem_map_of_mem he))
        obtain ⟨hne, hvalue⟩ := Store.value?_of_slot? hempty hv
        rw [hvalues e he] at hpending
        exact ⟨hne, v, hvalue, Option.some.inj hpending⟩
      refine ⟨sets, rfl, fun e he => (hedited e he).2, ?_⟩
      rw [hstaged.commit_eq_putAll hempty hnames hvalues]
      exact yields_ofSets fun e he => (hedited e he).1

/-- A GOP length halved in one session and raised in another, with a refused edit and a session on
another name without an edit in between: two names are committed, as by two sets. -/
theorem halved_and_raised_gop_equals_sets :
    let s := afterAll [.set "rc.gop" (.u32 60), .set "rc.mode" (.s32 1)] .empty
    let sessions : List (String × List Edit) :=
      [("rc.gop", [.u32 fun gop => gop / 2, .s32 fun gop => gop + 5]), ("rc.mode", [.kind]),
        ("rc.gop", [.u32 fun gop => gop + 1])]
    (∃ edited s', (runAll (ofSessions sessions) s).Yields .clear (List.map opened edited, s')) ∧
    ∃ t sets, commit.run.Leads .clear (afterAll (ofSessions sessions) s) (.ok (.count 2)) t ∧
      t.value? "rc.gop" = some (.u32 31) ∧
      sets.map Prod.fst = ["rc.mode", "rc.gop"] ∧
      (runAll (ofSets sets) s).Yields .clear (sets.map fun _ => .ok .done, t) := by
  intro s sessions
  have hcalls : (runAll [.set "rc.gop" (.u32 60), .set "rc.mode" (.s32 1)] .empty).Yields .clear
      ([.ok .done, .ok .done], s) := by rfl
  have hs := Store.Reachable.empty.runAll hcalls
  obtain ⟨hruns, hsame⟩ := staged_sessions_equal_sets hs (by decide) sessions
  have hrun : (runAll (ofSessions sessions) s).Yields .clear
      (List.map opened [[.ok (.value (.u32 60)), .error (.typeMismatch "rc.gop" .u32 .s32)],
        [.ok (.kind .s32)], [.ok (.value (.u32 30))]], afterAll (ofSessions sessions) s) := by rfl
  obtain ⟨t, hcommit, hsets⟩ := hsame .clear _ _ hrun
  obtain ⟨sets, hnames, -, hset⟩ := hsets ["rc.mode", "rc.gop"] (by decide)
  refine ⟨hruns .clear (by decide) (by decide), t, sets, hcommit, ?_, hnames, hset⟩
  rw [leads_run hcommit]
  decide

end Call

end EncoderSetup

import EncoderSetup.Lifecycle.Config
import EncoderSetup.Proofs.Attribute.Answers
import EncoderSetup.Proofs.Attribute.Updates

/-!
# Staged edits are seen by nobody before their commit

Two runs are compared: one with staged sessions and discards, and the same one without them. As long
as nothing is committed both stores hold the same committed values (`ConfigCall.runs_agree`), so
that every other call answers alike, and after a discard the stores are equal. The state that may
differ in between is the pending map; of the calls, `hasPending` alone looks at it.
-/

namespace EncoderSetup

namespace Store

variable {flags : DebugFlags} {s s' : Store} {name : String}

/-- Whether a set succeeds does not depend on the store. -/
theorem leads_setValue_iff {v : Value} {o : Except SetupError Unit} :
    (setValue name v).Leads flags s o s' ↔
      (checkName name).run.Yields flags o ∧ s' = (Call.set name v).after s := by
  rw [gives_setValue name v s flags o s']
  by_cases hn : name = ""
  · subst hn
    have hname : Checked.Gives (checkName "") _ := Checked.gives_refuse _
    rw [if_pos rfl, Prod.mk.injEq, and_right_comm, hname flags o]
    rfl
  · have hafter : (Call.set name v).after s = s.put name v := if_neg (by simpa using hn)
    rw [if_neg hn, Prod.mk.injEq, and_right_comm, gives_checkName hn flags o, hafter]

end Store

namespace Call

/-- Opens a slot, or throws pending values away. -/
def staging : Call → Bool
  | stage .. | discard => true
  | _ => false

/-- Answers from the committed values alone. -/
def isDirect : Call → Bool
  | stage .. | discard | commit | hasPending => false
  | _ => true

variable {c : Call} {flags : DebugFlags} {s s' t : Store}

theorem committed_after_of_staging (h : c.staging = true) :
    (c.after s).committed = s.committed := by
  cases c with
  | stage name edits =>
      simp only [after]
      split <;> rfl
  | discard => rfl
  | _ => cases h

theorem committed_after_congr (hc : c.commits = false) (h : s.committed = t.committed) :
    (c.after s).committed = (c.after t).committed := by
  cases c with
  | set name v =>
      simp only [after]
      split
      · exact h
      · exact congrArg (·.insert name v) h
  | remove name => exact congrArg (·.erase name) h
  | stage name edits =>
      rw [committed_after_of_staging rfl, committed_after_of_staging rfl, h]
  | commit => cases hc
  | _ => exact h

/-- A direct call answers alike over every pending map. -/
theorem leads_of_isDirect (hd : c.isDirect = true) {o : Except SetupError Answer}
    (h : c.run.Leads flags s o s') (q : SortedMap String Value) :
    c.run.Leads flags ⟨s.committed, q⟩ o (c.after ⟨s.committed, q⟩) := by
  cases c with
  | set name v =>
      simp only [run, Session.leads_bind, Session.leads_pure, Store.leads_setValue_iff] at h ⊢
      obtain ⟨u, _, ⟨hn, rfl⟩, rfl, -⟩ | ⟨e, ⟨hn, -⟩, rfl⟩ := h
      · exact Or.inl ⟨u, _, ⟨hn, rfl⟩, rfl, rfl⟩
      · exact Or.inr ⟨e, ⟨hn, trivial⟩, rfl⟩
  | read name kind =>
      simp only [run, Session.leads_get_bind, Session.leads_checked_bind, Session.leads_pure] at h ⊢
      obtain ⟨v, hv, rfl, -⟩ | ⟨e, he, rfl, -⟩ := h
      · exact Or.inl ⟨v, hv, rfl, rfl⟩
      · exact Or.inr ⟨e, he, rfl, rfl⟩
  | readBlock name size =>
      simp only [run, Session.leads_get_bind, Session.leads_checked_bind, Session.leads_pure] at h ⊢
      obtain ⟨b, hb, rfl, -⟩ | ⟨e, he, rfl, -⟩ := h
      · exact Or.inl ⟨b, hb, rfl, rfl⟩
      · exact Or.inr ⟨e, he, rfl, rfl⟩
  | copyInto name buffer =>
      simp only [run, Session.leads_get_bind, Session.leads_traced_bind] at h ⊢
      obtain ⟨⟨outcome, bytes⟩, hcopy, h⟩ := h
      refine ⟨(outcome, bytes), hcopy, ?_⟩
      cases outcome with
      | ok u => exact Session.leads_pure.mpr ⟨(Session.leads_pure.mp h).1, rfl⟩
      | error e =>
          obtain ⟨rfl, -⟩ := Prod.mk.inj (Traced.yields_pure.mp h)
          exact Traced.yields_pure.mpr rfl
  | remove name =>
      simp only [run, Session.leads_get_bind, Session.leads_modify_bind, Session.leads_pure] at h ⊢
      exact ⟨h.1, rfl⟩
  | listing =>
      simp only [run, Session.leads_get_bind, Session.leads_traced_bind, Session.leads_pure] at h ⊢
      obtain ⟨u, -, rfl, -⟩ := h
      exact ⟨u, Store.yields_show, rfl, rfl⟩
  | value name | kindOf name | contains name | isEmpty | length | keys | entries | dump
  | profileText =>
      simp only [run, look, Session.leads_get_bind, Session.leads_pure] at h ⊢
      exact ⟨h.1, rfl⟩
  | stage name edits | commit | discard | hasPending => cases hd

end Call

/-- What a program may ask of a configuration: a call on its store, or its validation. -/
inductive ConfigCall where
  | onStore (c : Call)
  | validate

inductive ConfigAnswer where
  | answer (a : Answer)
  | issues (issues : List Issue)

namespace ConfigCall

/-- Carries out a call on the store of a configuration for this stage. -/
def run (stage : Stage) : ConfigCall → Session Store ConfigAnswer
  | onStore c => do return .answer (← c.run)
  | validate => do return .issues (StageConfig.issues ⟨stage, ← get⟩)

def runAll (stage : Stage) :
    List ConfigCall → Store → Traced (List (Except SetupError ConfigAnswer) × Store) :=
  Session.runEach (run stage)

def after : ConfigCall → Store → Store
  | onStore c, s => c.after s
  | validate, s => s

def commits : ConfigCall → Bool
  | onStore c => c.commits
  | validate => false

def staging : ConfigCall → Bool
  | onStore c => c.staging
  | validate => false

def isDirect : ConfigCall → Bool
  | onStore c => c.isDirect
  | validate => true

/-- The calls of a run without its staged sessions and discards. -/
def unstaged (calls : List ConfigCall) : List ConfigCall := calls.filter fun c => !c.staging

/-- The answers to the direct calls of a run. -/
def directAnswers {α : Type} (calls : List ConfigCall) (answers : List α) : List α :=
  ((calls.zip answers).filter fun p => p.1.isDirect).map Prod.snd

variable {stage : Stage} {flags : DebugFlags} {s s' t : Store}

theorem leads_run {c : ConfigCall} {o : Except SetupError ConfigAnswer}
    (h : (c.run stage).Leads flags s o s') : s' = c.after s := by
  cases c with
  | onStore c =>
      simp only [run, Session.leads_bind, Session.leads_pure] at h
      obtain ⟨_, _, hc, -, rfl⟩ | ⟨_, hc, -⟩ := h
      · exact Call.leads_run hc
      · exact Call.leads_run hc
  | validate =>
      simp only [run, Session.leads_get_bind, Session.leads_pure] at h
      exact h.2

theorem leads_of_isDirect {c : ConfigCall} (hd : c.isDirect = true)
    {o : Except SetupError ConfigAnswer} (h : (c.run stage).Leads flags s o s')
    (hc : s.committed = t.committed) : (c.run stage).Leads flags t o (c.after t) := by
  obtain ⟨committed, q⟩ := t
  obtain rfl : s.committed = committed := hc
  cases c with
  | onStore c =>
      simp only [run, Session.leads_bind, Session.leads_pure] at h ⊢
      obtain ⟨a, _, hrun, rfl, -⟩ | ⟨e, hrun, rfl⟩ := h
      · exact Or.inl ⟨a, _, Call.leads_of_isDirect hd hrun q, rfl, rfl⟩
      · exact Or.inr ⟨e, Call.leads_of_isDirect hd hrun q, rfl⟩
  | validate =>
      simp only [run, Session.leads_get_bind, Session.leads_pure] at h ⊢
      exact ⟨h.1, rfl⟩

/-- A call that is neither direct nor staging asks for pending values, and is always answered. -/
theorem exists_leads {c : ConfigCall} (hd : c.isDirect = false) (hs : c.staging = false)
    (hc : c.commits = false) (t : Store) :
    ∃ o, (c.run stage).Leads flags t o (c.after t) := by
  cases c with
  | onStore c =>
      cases c with
      | hasPending => exact ⟨_, rfl⟩
      | commit => cases hc
      | stage name edits | discard => cases hs
      | _ => cases hd
  | validate => cases hd

theorem committed_after_congr {c : ConfigCall} (hc : c.commits = false)
    (h : s.committed = t.committed) : (c.after s).committed = (c.after t).committed := by
  cases c with
  | onStore c => exact Call.committed_after_congr hc h
  | validate => exact h

theorem committed_after_of_staging {c : ConfigCall} (h : c.staging = true) :
    (c.after s).committed = s.committed := by
  cases c with
  | onStore c => exact Call.committed_after_of_staging h
  | validate => rfl

/-- Without staged sessions nothing becomes pending. -/
theorem pending_after_of_unstaged {c : ConfigCall} (h : c.staging = false)
    (hp : s.pending = .empty) : (c.after s).pending = .empty := by
  refine SortedMap.ext_get? fun k => ?_
  cases c with
  | onStore c =>
      have hstages : c.stages k = false := by
        cases c with
        | stage name edits => cases h
        | _ => rfl
      exact Call.pending_after hstages (by rw [hp]; rfl)
  | validate => rw [after, hp]

theorem settled_run (stage : Stage) (c : ConfigCall) : Session.Settled (c.run stage) := by
  cases c with
  | onStore c => exact Session.settled_bind c.settled_run fun _ => Session.settled_pure _
  | validate => exact Session.settled_get_bind fun _ => Session.settled_pure _

/-- The run without staged sessions is carried out too, answers every direct call as the run with
them does, and leaves the same committed values. -/
theorem runs_agree {calls : List ConfigCall} (hcalls : ∀ c ∈ calls, c.commits = false)
    (hst : s.committed = t.committed) {answers : List (Except SetupError ConfigAnswer)}
    (h : (runAll stage calls s).Yields flags (answers, s')) :
    ∃ answers' t', (runAll stage (unstaged calls) t).Yields flags (answers', t') ∧
      directAnswers (unstaged calls) answers' = directAnswers calls answers ∧
      s'.committed = t'.committed := by
  induction calls generalizing s t answers with
  | nil =>
      obtain ⟨rfl, rfl⟩ := Prod.mk.inj (Traced.yields_pure.mp h)
      exact ⟨[], t, Traced.yields_pure.mpr rfl, rfl, hst⟩
  | cons c rest ih =>
      obtain ⟨hcommits, hrest⟩ := List.forall_mem_cons.mp hcalls
      obtain ⟨o, s₁, more, hc, hmore, rfl⟩ := Session.yields_runEach_cons.mp h
      obtain rfl := leads_run hc
      cases hs : c.staging with
      | true =>
          have hkeep : (c.after s).committed = t.committed :=
            (committed_after_of_staging hs).trans hst
          obtain ⟨answers', t', hrun, hsame, hcommitted⟩ := ih hrest hkeep hmore
          have hd : c.isDirect = false := by
            cases c with
            | onStore c => cases c <;> first | rfl | cases hs
            | validate => cases hs
          refine ⟨answers', t', ?_, ?_, hcommitted⟩
          · simpa [unstaged, hs] using hrun
          · simpa [unstaged, directAnswers, hs, hd] using hsame
      | false =>
          have hkeep := committed_after_congr hcommits hst
          obtain ⟨answers', t', hrun, hsame, hcommitted⟩ := ih hrest hkeep hmore
          have hkept : unstaged (c :: rest) = c :: unstaged rest := by simp [unstaged, hs]
          rw [hkept]
          cases hd : c.isDirect with
          | true =>
              refine ⟨o :: answers', t', ?_, ?_, hcommitted⟩
              · have hlead := leads_of_isDirect hd hc hst
                exact Session.yields_runEach_cons.mpr ⟨o, _, _, hlead, hrun, rfl⟩
              · simpa [directAnswers, hd] using hsame
          | false =>
              have hlead : ∃ o', (c.run stage).Leads flags t o' (c.after t) :=
                exists_leads hd hs hcommits t
              obtain ⟨o', hc'⟩ := hlead
              refine ⟨o' :: answers', t', ?_, ?_, hcommitted⟩
              · exact Session.yields_runEach_cons.mpr ⟨o', _, _, hc', hrun, rfl⟩
              · simpa [directAnswers, hd] using hsame

theorem pending_of_unstaged {calls : List ConfigCall} (hs : s.pending = .empty)
    {answers : List (Except SetupError ConfigAnswer)}
    (h : (runAll stage (unstaged calls) s).Yields flags (answers, s')) : s'.pending = .empty := by
  induction calls generalizing s answers with
  | nil =>
      obtain ⟨-, rfl⟩ := Prod.mk.inj (Traced.yields_pure.mp h)
      exact hs
  | cons c rest ih =>
      cases hc : c.staging with
      | true => exact ih hs (by simpa [unstaged, hc] using h)
      | false =>
          have hkept : unstaged (c :: rest) = c :: unstaged rest := by simp [unstaged, hc]
          rw [hkept] at h
          obtain ⟨o, s₁, more, hrun, hmore, -⟩ := Session.yields_runEach_cons.mp h
          obtain rfl := leads_run hrun
          exact ih (pending_after_of_unstaged hc hs) hmore

/-- The last call of a run that ends with a discard leaves nothing pending. -/
theorem pending_of_discarded {calls : List ConfigCall}
    {answers : List (Except SetupError ConfigAnswer)}
    (h : (runAll stage (calls ++ [onStore .discard]) s).Yields flags (answers, s')) :
    s'.pending = .empty := by
  induction calls generalizing s answers with
  | nil =>
      obtain ⟨o, s₁, more, hrun, hmore, -⟩ := Session.yields_runEach_cons.mp h
      obtain ⟨-, rfl⟩ := Prod.mk.inj (Traced.yields_pure.mp hmore)
      rw [leads_run hrun]
      rfl
  | cons c rest ih =>
      obtain ⟨_, _, _, -, hmore, -⟩ := Session.yields_runEach_cons.mp h
      exact ih hmore

theorem unstaged_discarded (calls : List ConfigCall) :
    unstaged (calls ++ [onStore .discard]) = unstaged calls := by
  simp [unstaged, staging, Call.staging]

/-- Unless misuse is fatal every run is carried out. Without a commit, staged sessions and discards
change no answer of another call and no committed value, and a discard at the end leaves the very
store that the other calls alone would leave. -/
theorem staging_isolated_and_rolled_back (stage : Stage) (flags : DebugFlags)
    (calls : List ConfigCall) (hcalls : ∀ c ∈ calls, c.commits = false) (s : Store) :
    (flags.contains .abort = false →
      ∃ answers s', (runAll stage calls s).Yields flags (answers, s')) ∧
    (∀ answers s', (runAll stage calls s).Yields flags (answers, s') →
      ∃ answers' t, (runAll stage (unstaged calls) s).Yields flags (answers', t) ∧
        directAnswers (unstaged calls) answers' = directAnswers calls answers ∧
        t.committed = s'.committed) ∧
    (s.hasPending = false → ∀ answers s',
      (runAll stage (calls ++ [onStore .discard]) s).Yields flags (answers, s') →
        ∃ answers', (runAll stage (unstaged calls) s).Yields flags (answers', s')) := by
  refine ⟨fun hflags => ?_, fun answers s' h => ?_, fun hs answers s' h => ?_⟩
  · obtain ⟨⟨answers, s'⟩, hrun⟩ := Session.settled_runEach (settled_run stage) calls s
    exact ⟨answers, s', hrun flags hflags⟩
  · obtain ⟨answers', t, hrun, hsame, hcommitted⟩ := runs_agree hcalls rfl h
    exact ⟨answers', t, hrun, hsame, hcommitted.symm⟩
  · have hall : ∀ c ∈ calls ++ [onStore .discard], c.commits = false := by
      intro c hc
      rcases List.mem_append.mp hc with hc | hc
      · exact hcalls c hc
      · rw [List.mem_singleton.mp hc]
        rfl
    obtain ⟨answers', t, hrun, -, hcommitted⟩ := runs_agree hall rfl h
    rw [unstaged_discarded] at hrun
    have hempty : s.pending = .empty :=
      SortedMap.eq_empty_of_isEmpty (by simpa [Store.hasPending] using hs)
    have hpending : s'.pending = t.pending := by
      rw [pending_of_discarded h, pending_of_unstaged hempty hrun]
    obtain ⟨committed, pending⟩ := t
    obtain ⟨committed', pending'⟩ := s'
    obtain rfl : committed' = committed := hcommitted
    obtain rfl : pending' = pending := hpending
    exact ⟨answers', hrun⟩

/-- A halved GOP length that is thrown away: it shows neither in a read nor in the check, and the
store ends as if it had never been staged. -/
theorem halved_gop_rolled_back :
    let s : Store := Store.empty.put "rc.gop" (.u32 60)
    let calls : List ConfigCall := [.onStore (.stage "rc.gop" [.u32 fun gop => gop / 2]),
      .onStore (.read "rc.gop" .u32), .onStore (.set "rc.mode" (.s32 1)), .validate]
    (∃ answers s', (runAll .init calls s).Yields .clear (answers, s')) ∧
    (∃ answers t, (runAll .init (unstaged calls) s).Yields .clear (answers, t) ∧
      directAnswers (unstaged calls) answers =
        [.ok (.answer (.value (some (.u32 60)))), .ok (.answer .done),
          .ok (.issues [.wrongKind "rc.gop" .u32 .s32])] ∧
      t.value? "rc.gop" = some (.u32 60)) ∧
    ∃ answers, (runAll .init (unstaged calls) s).Yields .clear
      (answers, s.put "rc.mode" (.s32 1)) := by
  intro s calls
  have hcalls : ∀ c ∈ calls, c.commits = false := by decide
  obtain ⟨hanswers, hisolated, hback⟩ :=
    staging_isolated_and_rolled_back .init .clear calls hcalls s
  refine ⟨hanswers (by decide), ?_, ?_⟩
  · obtain ⟨answers, t, hrun, hsame, hcommitted⟩ := hisolated
      [.ok (.answer (.edits [.ok (.value (.u32 60))])), .ok (.answer (.value (some (.u32 60)))),
        .ok (.answer .done), .ok (.issues [.wrongKind "rc.gop" .u32 .s32])]
      ((s.putPending "rc.gop" (.u32 30)).put "rc.mode" (.s32 1)) (by rfl)
    refine ⟨answers, t, hrun, hsame, ?_⟩
    rw [Store.value?, hcommitted]
    decide
  · exact hback (by decide) [.ok (.answer (.edits [.ok (.value (.u32 60))])),
      .ok (.answer (.value (some (.u32 60)))), .ok (.answer .done),
      .ok (.issues [.wrongKind "rc.gop" .u32 .s32]), .ok (.answer (.count 1))] _ (by rfl)

end ConfigCall

end EncoderSetup

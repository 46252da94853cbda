import EncoderSetup.Proofs.Attribute.Transition

/-!
# No update is lost and none comes back

Direct calls write the committed map at once, staged edits wait in the pending map for a commit. The
lemmas on `Call.after` say which calls can change what one name has in either map; a run of other
calls keeps it (`Call.afterAll_induction`), in whatever order direct and staged calls come.
-/

namespace EncoderSetup

/-- Whether an edit may write the value. -/
def Edit.changes : Edit → Bool
  | name | kind | value | readBlock _ => false
  | _ => true

theorem Edit.apply_of_not_changes {e : Edit} (h : e.changes = false) (v : Value) :
    e.apply v = v := by
  cases e with
  | name | kind | value | readBlock _ => rfl
  | _ => cases h

theorem Edit.applyAll_of_not_changes {edits : List Edit} (h : edits.any changes = false)
    (v : Value) : applyAll edits v = v := by
  induction edits generalizing v with
  | nil => rfl
  | cons e rest ih =>
      obtain ⟨he, hrest⟩ := Bool.or_eq_false_iff.mp h
      rw [applyAll, List.foldl_cons, apply_of_not_changes he]
      exact ih hrest v

namespace Call

def sets (k : String) : Call → Bool
  | set name _ => name == k
  | _ => false

def removes (k : String) : Call → Bool
  | remove name => name == k
  | _ => false

def stages (k : String) : Call → Bool
  | stage name _ => name == k
  | _ => false

def edits (k : String) : Call → Bool
  | stage name edits => name == k && edits.any Edit.changes
  | _ => false

def commits : Call → Bool
  | commit => true
  | _ => false

def discards : Call → Bool
  | discard => true
  | _ => false

variable {c : Call} {k : String} {s : Store}

theorem pending_after (hstages : c.stages k = false) (hp : s.pending.get? k = none) :
    (c.after s).pending.get? k = none := by
  cases c with
  | set name v =>
      simp only [after]
      split
      · exact hp
      · simp [Store.put, SortedMap.get?_erase, hp]
  | stage name edits =>
      have hk : k ≠ name := Ne.symm (beq_eq_false_iff_ne.mp hstages)
      simp only [after]
      split
      · exact (SortedMap.get?_insert_of_ne _ _ hk).trans hp
      · exact hp
  | remove name => simp [after, Store.remove, SortedMap.get?_erase, hp]
  | commit | discard => rfl
  | _ => exact hp

/-- A name without a pending value keeps its committed one under commits too. -/
theorem value?_after (hsets : c.sets k = false) (hremoves : c.removes k = false)
    (hp : s.pending.get? k = none) : (c.after s).value? k = s.value? k := by
  cases c with
  | set name v =>
      have hk : k ≠ name := Ne.symm (beq_eq_false_iff_ne.mp hsets)
      simp only [after]
      split
      · rfl
      · exact SortedMap.get?_insert_of_ne _ _ hk
  | remove name =>
      have hk : k ≠ name := Ne.symm (beq_eq_false_iff_ne.mp hremoves)
      exact SortedMap.get?_erase_of_ne _ hk
  | commit => simp [after, Store.commit, Store.value?, SortedMap.get?_merge, hp]
  | stage name edits =>
      simp only [after]
      split <;> rfl
  | _ => rfl

/-- Nothing but a set brings an absent name back; a slot cannot be opened on it. -/
theorem absent_after (hsets : c.sets k = false)
    (h : s.value? k = none ∧ s.pending.get? k = none) :
    (c.after s).value? k = none ∧ (c.after s).pending.get? k = none := by
  obtain ⟨hv, hp⟩ := h
  by_cases hstages : c.stages k = true
  · cases c with
    | stage name edits =>
        obtain rfl : name = k := by simpa [stages] using hstages
        have hslot : s.slot? name = none := by
          have hc : s.committed.get? name = none := hv
          simp [Store.slot?, hp, hc]
        simp only [after, hslot]
        exact ⟨hv, hp⟩
    | _ => cases hstages
  · refine ⟨?_, pending_after (Bool.eq_false_iff.mpr hstages) hp⟩
    by_cases hremoves : c.removes k = true
    · cases c with
      | remove name =>
          obtain rfl : name = k := by simpa [removes] using hremoves
          exact SortedMap.get?_erase_self _ _
      | _ => cases hremoves
    · rw [value?_after hsets (Bool.eq_false_iff.mpr hremoves) hp]
      exact hv

/-- A call that may come between a staged edit of a name and its commit. -/
def Spares (k : String) (c : Call) : Prop :=
  c.sets k = false ∧ c.removes k = false ∧ c.edits k = false ∧ c.discards = false ∧
    c.commits = false

theorem pending_after_of_spares {w : Value} (h : c.Spares k) (hp : s.pending.get? k = some w) :
    (c.after s).pending.get? k = some w := by
  obtain ⟨hsets, hremoves, hedits, hdiscards, hcommits⟩ := h
  cases c with
  | set name v =>
      have hk : k ≠ name := Ne.symm (beq_eq_false_iff_ne.mp hsets)
      simp only [after]
      split
      · exact hp
      · exact (SortedMap.get?_erase_of_ne _ hk).trans hp
  | remove name =>
      have hk : k ≠ name := Ne.symm (beq_eq_false_iff_ne.mp hremoves)
      exact (SortedMap.get?_erase_of_ne _ hk).trans hp
  | stage name es =>
      simp only [after]
      split
      · next v hv =>
          by_cases hk : k = name
          · subst hk
            have hes : es.any Edit.changes = false := by simpa [edits] using hedits
            have hvw : v = w := by
              have hslot : s.slot? k = some v := hv
              unfold Store.slot? at hslot
              split at hslot
              · cases hslot
              · rw [hp] at hslot
                exact (Option.some.inj hslot).symm
            rw [Edit.applyAll_of_not_changes hes, hvw]
            exact SortedMap.get?_insert_self _ _ _
          · exact (SortedMap.get?_insert_of_ne _ _ hk).trans hp
      · exact hp
  | commit => cases hcommits
  | discard => cases hdiscards
  | _ => exact hp

/-- A call that takes back what is pending for a name. -/
def Withdraws (k : String) (c : Call) : Prop :=
  c.sets k = true ∨ c.removes k = true ∨ c.discards = true

variable {flags : DebugFlags} {s' : Store}

theorem leads_set_ok {v : Value} {a : Answer} (h : (set k v).run.Leads flags s (.ok a) s') :
    s' = s.put k v := by
  simp only [run, Session.leads_bind, Session.leads_pure] at h
  obtain ⟨_, _, hset, -, rfl⟩ | ⟨_, -, he⟩ := h
  · obtain ⟨-, -, hs⟩ | ⟨-, ⟨e, he⟩, -⟩ := Store.leads_setValue hset
    · exact hs
    · cases he
  · cases he

theorem leads_commit : commit.run.Leads flags s (.ok (.count s.pending.size)) s.commit := by
  simp only [run, Session.leads_bind, Store.leads_commitPending, Session.leads_pure]
  exact Or.inl ⟨_, _, ⟨rfl, rfl⟩, rfl, rfl⟩

theorem Withdraws.pending_eq_none {a : Answer} (hc : c.Withdraws k)
    (h : c.run.Leads flags s (.ok a) s') : s'.pending.get? k = none := by
  rcases hc with hc | hc | hc
  · cases c with
    | set name v =>
        obtain rfl : name = k := beq_iff_eq.mp hc
        rw [leads_set_ok h]
        exact SortedMap.get?_erase_self _ _
    | _ => cases hc
  · cases c with
    | remove name =>
        obtain rfl : name = k := beq_iff_eq.mp hc
        rw [leads_run h]
        exact SortedMap.get?_erase_self _ _
    | _ => cases hc
  · cases c with
    | discard =>
        rw [leads_run h]
        rfl
    | _ => cases hc

variable {later between : List Call} {w v : Value}

theorem value?_afterAll
    (hlater : ∀ c ∈ later, c.sets k = false ∧ c.removes k = false ∧ c.stages k = false)
    (hs : s.value? k = some v ∧ s.pending.get? k = none) :
    (afterAll later s).value? k = some v ∧ (afterAll later s).pending.get? k = none := by
  refine afterAll_induction (fun s => s.value? k = some v ∧ s.pending.get? k = none)
    (fun c s hc hs => ?_) hlater hs
  obtain ⟨hsets, hremoves, hstages⟩ := hc
  obtain ⟨hv, hp⟩ := hs
  exact ⟨(value?_after hsets hremoves hp).trans hv, pending_after hstages hp⟩

theorem absent_afterAll (hlater : ∀ c ∈ later, c.sets k = false)
    (hs : s.value? k = none ∧ s.pending.get? k = none) :
    (afterAll later s).value? k = none ∧ (afterAll later s).pending.get? k = none :=
  afterAll_induction (fun s => s.value? k = none ∧ s.pending.get? k = none)
    (fun _ _ => absent_after) hlater hs

theorem pending_afterAll (hlater : ∀ c ∈ later, c.stages k = false)
    (hs : s.pending.get? k = none) : (afterAll later s).pending.get? k = none :=
  afterAll_induction (fun s => s.pending.get? k = none) (fun _ _ => pending_after) hlater hs

theorem pending_afterAll_of_spares (hbetween : ∀ c ∈ between, c.Spares k)
    (hs : s.pending.get? k = some w) : (afterAll between s).pending.get? k = some w :=
  afterAll_induction (fun s => s.pending.get? k = some w) (fun _ _ => pending_after_of_spares)
    hbetween hs

/-- In every run, whatever the order of direct and staged calls: a set or removed name stays so
under later commits, a staged value is what the next commit writes, and one that was withdrawn
before is never written. -/
theorem updates_kept_and_never_resurrected (k : String) (flags : DebugFlags) :
    (∀ v a s s₁ later answers s₂, (set k v).run.Leads flags s (.ok a) s₁ →
      (∀ c ∈ later, c.sets k = false ∧ c.removes k = false ∧ c.stages k = false) →
      (runAll later s₁).Yields flags (answers, s₂) →
        s₂.value? k = some v ∧ s₂.pending.get? k = none) ∧
    (∀ a s s₁ later answers s₂, (remove k).run.Leads flags s (.ok a) s₁ →
      (∀ c ∈ later, c.sets k = false) → (runAll later s₁).Yields flags (answers, s₂) →
        s₂.value? k = none ∧ s₂.pending.get? k = none) ∧
    ∀ es a s s₁ w, (stage k es).run.Leads flags s (.ok a) s₁ → s₁.pending.get? k = some w →
      (∀ between answers s₂, (∀ c ∈ between, c.Spares k) →
        (runAll between s₁).Yields flags (answers, s₂) →
          ∃ n s₃, commit.run.Leads flags s₂ (.ok (.count n)) s₃ ∧ s₃.value? k = some w) ∧
      ∀ between answers s₂ (c : Call) a s₃ later answers' s₄,
        (runAll between s₁).Yields flags (answers, s₂) →
        c.Withdraws k → c.run.Leads flags s₂ (.ok a) s₃ →
        (∀ d ∈ later, d.stages k = false) → (runAll later s₃).Yields flags (answers', s₄) →
          s₄.pending.get? k = none ∧
            ∃ n s₅, commit.run.Leads flags s₄ (.ok (.count n)) s₅ ∧ s₅.value? k = s₄.value? k := by
  refine ⟨?_, ?_, fun es _ s s₁ w _ hw => ⟨?_, ?_⟩⟩
  · intro v a s s₁ later answers s₂ hset hlater hrun
    rw [yields_runAll hrun, leads_set_ok hset]
    exact value?_afterAll hlater
      ⟨SortedMap.get?_insert_self _ _ _, SortedMap.get?_erase_self _ _⟩
  · intro a s s₁ later answers s₂ hremove hlater hrun
    rw [yields_runAll hrun, leads_run hremove]
    exact absent_afterAll hlater
      ⟨SortedMap.get?_erase_self _ _, SortedMap.get?_erase_self _ _⟩
  · intro between answers s₂ hbetween hrun
    have hp : s₂.pending.get? k = some w := by
      rw [yields_runAll hrun]
      exact pending_afterAll_of_spares hbetween hw
    refine ⟨_, _, leads_commit, ?_⟩
    rw [Store.value?, Store.commit, SortedMap.get?_merge, hp, Option.some_or]
  · intro between answers s₂ c a s₃ later answers' s₄ _ hwithdraws hc hlater hrun
    have hp : s₄.pending.get? k = none := by
      rw [yields_runAll hrun]
      exact pending_afterAll hlater (hwithdraws.pending_eq_none hc)
    refine ⟨hp, _, _, leads_commit, ?_⟩
    rw [Store.value?, Store.commit, SortedMap.get?_merge, hp, Option.none_or]
    rfl

/-- A halved GOP length that waits for its commit: a set of another one before the commit wins, a
removal stays, a commit with no set in between writes the half, and a discard loses it. -/
theorem halved_gop_updates :
    let s : Store := Store.empty.put "rc.gop" (.u32 60)
    let half : Call := .stage "rc.gop" [.u32 fun gop => gop / 2]
    (afterAll [half, set "rc.gop" (.u32 25), commit, discard] s).value? "rc.gop" =
        some (.u32 25) ∧
      (afterAll [half, remove "rc.gop", half, commit] s).value? "rc.gop" = none ∧
      (afterAll [half, stage "rc.gop" [.kind], length] s).commit.value? "rc.gop" =
        some (.u32 30) ∧
      (afterAll [half, length, discard, hasPending] s).commit.value? "rc.gop" =
        some (.u32 60) := by
  intro s half
  obtain ⟨hset, hremove, hstage⟩ := updates_kept_and_never_resurrected "rc.gop" .clear
  have hhalf : half.run.Leads .clear s (.ok (.edits [.ok (.value (.u32 60))])) (half.after s) := by
    rfl
  obtain ⟨hnext, hlater⟩ := hstage _ _ s _ (.u32 30) hhalf (by decide)
  refine ⟨?_, ?_, ?_, ?_⟩
  · exact (hset (.u32 25) .done (half.after s) _ [commit, discard] [.ok (.count 0), .ok (.count 0)]
      _ (by rfl) (by decide) (by rfl)).1
  · exact (hremove (.value (some (.u32 60))) (half.after s) _ [half, commit] _ _ (by rfl)
      (by decide) (by rfl)).1
  · obtain ⟨n, s₃, hc, hv⟩ := hnext [stage "rc.gop" [.kind], length] _ _
      (by unfold Spares; decide) (by rfl)
    rw [leads_run hc] at hv
    exact hv
  · obtain ⟨-, n, s₅, hc, hv⟩ := hlater [length] [.ok (.count 1)] _ discard (.count 1) _
      [hasPending] [.ok (.flag false)] _ (by rfl) (Or.inr (Or.inr rfl)) (by rfl) (by decide)
      (by rfl)
    rw [leads_run hc] at hv
    exact hv.trans (by decide)

end Call

end EncoderSetup

import EncoderSetup.Proofs.Attribute.Listings
import EncoderSetup.Proofs.Attribute.Updates

/-!
# Validation of a configuration

No two definitions share a name, so that looking one up loses none of them
(`Schema.lookup?_eq_some_iff`), and the issues of an attribute are read off its definition. Every
issue names the attribute it is about: the issues of a configuration repeat none, and those of other
names are the issues of the configuration without the name (`StageConfig.issues_remove`).
-/

namespace EncoderSetup

namespace Schema

theorem nodup_names : (definitions.map Definition.name).Nodup := by decide +kernel

/-- No definition is hidden behind another of its name. -/
theorem lookup?_eq_some_iff {name : String} {d : Definition} :
    lookup? name = some d ↔ d ∈ definitions ∧ d.name = name := by
  constructor
  · intro h
    exact ⟨List.mem_of_find?_eq_some h, by simpa using List.find?_some h⟩
  · rintro ⟨hd, rfl⟩
    cases h : lookup? d.name with
    | none =>
        have hne := List.find?_eq_none.mp h d hd
        exact absurd BEq.rfl hne
    | some d' =>
        have hname : d'.name = d.name := by simpa using List.find?_some h
        have hd' : d' ∈ definitions := List.mem_of_find?_eq_some h
        rw [List.inj_on_of_nodup_map nodup_names hd' hd hname]

theorem lookup?_eq_none_iff {name : String} :
    lookup? name = none ↔ ∀ d ∈ definitions, d.name ≠ name := by
  simp [lookup?]

end Schema

theorem flatMap_filter {α β : Type} (p : α → Bool) (g : α → List β) (l : List α) :
    (l.filter p).flatMap g = l.flatMap fun a => if p a then g a else [] := by
  induction l with
  | nil => rfl
  | cons a rest ih => by_cases h : p a = true <;> simp [h, ih]

/-- The attribute that an issue is about. -/
def Issue.name : Issue → String
  | wrongStage name _ => name
  | wrongKind name _ _ => name

namespace StageConfig

variable {stage : Stage} {name k : String} {v : Value}

theorem issuesOf_of_unknown (h : ∀ d ∈ Schema.definitions, d.name ≠ name) :
    issuesOf stage name v = [] := by
  simp only [issuesOf, Schema.lookup?_eq_none_iff.mpr h]

theorem issuesOf_of_defined {d : Definition} (hd : d ∈ Schema.definitions) (hname : d.name = name) :
    issuesOf stage name v =
      (if stage ∈ d.stages then [] else [.wrongStage name stage]) ++
        if v.kind = d.kind then [] else [.wrongKind name v.kind d.kind] := by
  simp only [issuesOf, Schema.lookup?_eq_some_iff.mpr ⟨hd, hname⟩, Definition.isReadAt,
    List.contains_iff_mem]

theorem issuesOf_eq_nil_iff : issuesOf stage name v = [] ↔
    ∀ d ∈ Schema.definitions, d.name = name → stage ∈ d.stages ∧ v.kind = d.kind := by
  constructor
  · intro h d hd hname
    rw [issuesOf_of_defined hd hname] at h
    simpa using h
  · intro h
    cases hd : Schema.lookup? name with
    | none => exact issuesOf_of_unknown (Schema.lookup?_eq_none_iff.mp hd)
    | some d =>
        obtain ⟨hd, hname⟩ := Schema.lookup?_eq_some_iff.mp hd
        obtain ⟨hstage, hkind⟩ := h d hd hname
        rw [issuesOf_of_defined hd hname, if_pos hstage, if_pos hkind, List.append_nil]

theorem name_of_mem_issuesOf {issue : Issue} (h : issue ∈ issuesOf stage name v) :
    issue.name = name := by
  unfold issuesOf at h
  split at h
  · cases h
  · rcases List.mem_append.mp h with h | h
    all_goals
      split at h
      · cases h
      · rw [List.mem_singleton.mp h]
        rfl

theorem nodup_issuesOf : (issuesOf stage name v).Nodup := by
  unfold issuesOf
  split
  · exact List.nodup_nil
  · split <;> split <;> simp

theorem issues_eq_flatMap_keys (c : StageConfig) :
    c.issues = c.attributes.keys.flatMap fun k =>
      (c.attributes.value? k).toList.flatMap fun v => issuesOf c.stage k v := by
  rw [issues, Store.keys, SortedMap.keys, List.flatMap_map]
  refine List.flatMap_congr fun e he => ?_
  have hv : c.attributes.value? e.1 = some e.2 := SortedMap.mem_entries.mp he
  rw [hv, Option.toList_some, List.flatMap_singleton]

theorem issues_eq_nil_iff {c : StageConfig} : c.issues = [] ↔
    ∀ k v, c.attributes.value? k = some v → ∀ d ∈ Schema.definitions, d.name = k →
      c.stage ∈ d.stages ∧ v.kind = d.kind := by
  rw [issues, List.flatMap_eq_nil_iff]
  constructor
  · intro h k v hv
    exact issuesOf_eq_nil_iff.mp (h (k, v) (SortedMap.mem_entries.mpr hv))
  · intro h e he
    exact issuesOf_eq_nil_iff.mpr (h e.1 e.2 (SortedMap.mem_entries.mp he))

theorem nodup_issues (c : StageConfig) : c.issues.Nodup := by
  refine List.nodup_flatMap.mpr ⟨fun _ _ => nodup_issuesOf, ?_⟩
  have hkeys : c.attributes.entries.Pairwise fun a b => a.1 ≠ b.1 :=
    List.pairwise_map.mp (SortedMap.nodup_keys c.attributes.committed)
  refine hkeys.imp fun hne issue ha hb => hne ?_
  exact (name_of_mem_issuesOf ha).symm.trans (name_of_mem_issuesOf hb)

theorem filter_issuesOf (stage : Stage) (name k : String) (v : Value) :
    ((issuesOf stage name v).filter fun issue => issue.name ≠ k) =
      if name ≠ k then issuesOf stage name v else [] := by
  by_cases hname : name = k
  · rw [if_neg (not_not.mpr hname)]
    refine List.filter_eq_nil_iff.mpr fun issue hissue => ?_
    simp [name_of_mem_issuesOf hissue, hname]
  · rw [if_pos hname]
    refine List.filter_eq_self.mpr fun issue hissue => ?_
    simp [name_of_mem_issuesOf hissue, hname]

/-- The issues that do not name an attribute are those that are left without it. -/
theorem issues_remove (stage : Stage) (s : Store) (k : String) :
    issues ⟨stage, s.remove k⟩ = (issues ⟨stage, s⟩).filter fun issue => issue.name ≠ k := by
  have hentries : (s.remove k).entries = s.entries.filter fun e => e.1 ≠ k := by
    refine List.filter_congr fun e _ => ?_
    rw [Bool.eq_iff_iff]
    simp
  calc issues ⟨stage, s.remove k⟩
      = s.entries.flatMap fun e => if e.1 ≠ k then issuesOf stage e.1 e.2 else [] := by
        rw [issues, hentries, flatMap_filter]
        simp only [decide_eq_true_eq]
    _ = (issues ⟨stage, s⟩).filter fun issue => issue.name ≠ k := by
        rw [issues, List.filter_flatMap]
        simp only [filter_issuesOf]

theorem issues_congr {s t : Store} (h : s.committed = t.committed) :
    issues ⟨stage, s⟩ = issues ⟨stage, t⟩ := by
  rw [issues, issues, Store.entries, Store.entries, h]

end StageConfig

namespace Call

variable {k : String} {c : Call}

/-- Without the name that a call sets or removes, the committed values are as before it. -/
theorem committed_remove_after (h : c.sets k = true ∨ c.removes k = true) (s : Store) :
    ((c.after s).remove k).committed = (s.remove k).committed := by
  refine SortedMap.ext_get? fun name => ?_
  rcases h with h | h
  · cases c with
    | set name' v =>
        obtain rfl : name' = k := beq_iff_eq.mp h
        simp only [after]
        split
        · rfl
        · by_cases hname : name = name' <;>
            simp [Store.remove, Store.put, SortedMap.get?_erase, SortedMap.get?_insert, hname]
    | _ => cases h
  · cases c with
    | remove name' =>
        obtain rfl : name' = k := beq_iff_eq.mp h
        by_cases hname : name = name' <;>
          simp [after, Store.remove, SortedMap.get?_erase, hname]
    | _ => cases h

end Call

namespace StageConfig

theorem leads_onAttributes {call : Call} {flags : DebugFlags} {o : Except SetupError Answer}
    {c c' : StageConfig} (h : (onAttributes call.run).Leads flags c o c') :
    c' = ⟨c.stage, call.after c.attributes⟩ := by
  obtain ⟨⟨outcome, s⟩, hrun, h⟩ := Traced.yields_bind.mp h
  obtain ⟨-, rfl⟩ := Prod.mk.inj (Traced.yields_pure.mp h)
  rw [← Call.leads_run hrun]

/-- Validation lists, in the increasing order of the committed names, what the one definition of a
name has against its stage and its kind, and nothing for a name without a definition. Nothing is
listed twice or missed, and setting or removing a name changes only the issues that name it. -/
theorem validation_exact (c : StageConfig) :
    (c.attributes.keys.Pairwise (codePoints · < codePoints ·) ∧
      c.issues = c.attributes.keys.flatMap fun k =>
        (c.attributes.value? k).toList.flatMap fun v => issuesOf c.stage k v) ∧
    (∀ k v, (∀ d ∈ Schema.definitions, d.name ≠ k) → issuesOf c.stage k v = []) ∧
    (∀ k v, ∀ d ∈ Schema.definitions, d.name = k → issuesOf c.stage k v =
      (if c.stage ∈ d.stages then [] else [.wrongStage k c.stage]) ++
        if v.kind = d.kind then [] else [.wrongKind k v.kind d.kind]) ∧
    (c.issues = [] ↔ ∀ k v, c.attributes.value? k = some v → ∀ d ∈ Schema.definitions,
      d.name = k → c.stage ∈ d.stages ∧ v.kind = d.kind) ∧
    c.issues.Nodup ∧
    ∀ k (call : Call), call.sets k = true ∨ call.removes k = true → ∀ flags o c',
      (onAttributes call.run).Leads flags c o c' →
        (c'.issues.filter fun issue => issue.name ≠ k) =
          c.issues.filter fun issue => issue.name ≠ k := by
  refine ⟨⟨?_, c.issues_eq_flatMap_keys⟩, fun k v => issuesOf_of_unknown,
    fun k v d => issuesOf_of_defined, issues_eq_nil_iff, c.nodup_issues,
    fun k call hcall flags o c' h => ?_⟩
  · exact List.pairwise_map.mpr (c.attributes.committed.sorted.imp codePoints_lt_of_compare)
  · rw [leads_onAttributes h, ← issues_remove, ← issues_remove]
    exact issues_congr (Call.committed_remove_after hcall c.attributes)

/-- A GOP length of the wrong kind at a stage that does not read it, next to a name that no
definition has: removing the length leaves no issue. -/
theorem validation_of_stopping_gop :
    let c : StageConfig := ⟨.stop, (Store.empty.put "rc.gop" (.u32 60)).put "x" (.s32 1)⟩
    let c' : StageConfig := ⟨.stop, c.attributes.remove "rc.gop"⟩
    c.issues = [.wrongStage "rc.gop" .stop, .wrongKind "rc.gop" .u32 .s32] ∧ c.issues.Nodup ∧
      issuesOf .stop "x" (.s32 1) = [] ∧
      (c'.issues.filter fun issue => issue.name ≠ "rc.gop") =
        c.issues.filter fun issue => issue.name ≠ "rc.gop" := by
  intro c c'
  obtain ⟨⟨-, hissues⟩, hunknown, hdefined, -, hnodup, hframe⟩ := validation_exact c
  have hremove : (onAttributes (Call.remove "rc.gop").run).Leads .clear c
      (.ok (.value (some (.u32 60)))) c' := by rfl
  have hx : issuesOf .stop "x" (.s32 1) = [] := hunknown "x" _ (by decide +kernel)
  have hgop := hdefined "rc.gop" (.u32 60)
    ⟨"rc.gop", .s32, Schema.running, "intra period in frames"⟩ (by decide +kernel) rfl
  have hparts : c.issues = issuesOf .stop "rc.gop" (.u32 60) ++ issuesOf .stop "x" (.s32 1) :=
    hissues.trans (by rfl)
  refine ⟨?_, hnodup, hx, hframe "rc.gop" _ (Or.inr rfl) _ _ _ hremove⟩
  rw [hparts, hx, hgop]
  decide

end StageConfig

end EncoderSetup

import EncoderSetup.Proofs.Attribute.Listings
import EncoderSetup.Proofs.Diagnostic.Given
import EncoderSetup.Proofs.Lifecycle.Operations

/-!
# The last stage given to a name counts

`Registration.result` is what a call on a registry answers and the registry it leaves. After a run
of calls, failed ones included, a name resolves to the stage that the last call gave it which wrote
it, be it by itself or with a whole registry (`Registration.last_stage_counts`). A registry is its
lookups, so that the laws of the merge follow from what it resolves, and neither the order of its
names in memory nor that of the members of a document matters beyond this.
-/

namespace EncoderSetup

namespace Registry

variable {r a b : Registry} {name : String} {st : Stage} {e : SetupError}

theorem resolve_eq_ok_iff : r.resolve name = .ok st ↔ r.stages.get? name = some st := by
  unfold resolve
  cases r.stages.get? name <;> simp

theorem resolve_eq_error_iff : r.resolve name = .error e ↔
    r.stages.get? name = none ∧ e = .notFound (.profileName name) := by
  unfold resolve
  cases r.stages.get? name <;> simp [eq_comm]

theorem mem_names_iff : name ∈ r.names ↔ ∃ st, r.resolve name = .ok st := by
  simp only [resolve_eq_ok_iff]
  exact SortedMap.mem_keys

theorem ext_get? (h : ∀ name, a.stages.get? name = b.stages.get? name) : a = b := by
  obtain ⟨stages⟩ := a
  obtain ⟨stages'⟩ := b
  exact congrArg Registry.mk (SortedMap.ext_get? h)

theorem get?_merge (a b : Registry) (name : String) :
    (a.merge b).stages.get? name = (b.stages.get? name).or (a.stages.get? name) :=
  SortedMap.get?_merge _ _ name

theorem resolve_merge (a b : Registry) (name : String) : (a.merge b).resolve name =
    match b.resolve name with
    | .ok st => .ok st
    | .error _ => a.resolve name := by
  unfold resolve
  rw [get?_merge]
  cases b.stages.get? name <;> rfl

theorem merge_assoc (a b c : Registry) : (a.merge b).merge c = a.merge (b.merge c) := by
  refine ext_get? fun name => ?_
  simp only [get?_merge, Option.or_assoc]

theorem merge_self (a : Registry) : a.merge a = a := by
  refine ext_get? fun name => ?_
  rw [get?_merge, Option.or_self]

theorem merge_empty (a : Registry) : a.merge empty = a := by
  refine ext_get? fun name => ?_
  rw [get?_merge]
  exact Option.none_or

theorem empty_merge (a : Registry) : empty.merge a = a := by
  refine ext_get? fun name => ?_
  rw [get?_merge]
  exact Option.or_none

/-- The names may be copied in any order. -/
theorem merge_of_enumerates {order : List (String × Stage)}
    (h : SortedMap.Enumerates order b.stages) : ⟨a.stages.insertAll order⟩ = a.merge b := by
  refine ext_get? fun name => ?_
  have hlast := SortedMap.get?_ofList order name
  rw [h.ofList_eq] at hlast
  rw [get?_merge, hlast]
  exact SortedMap.get?_insertAll _ _ _

/-- What registering a name answers, and the registry it leaves. -/
def registerResult (name : String) (st : Stage) (r : Registry) :
    Except SetupError Unit × Registry :=
  if name = "" then (.error (.invalidArgument .emptyProfileName), r) else (.ok (), r.put name st)

theorem gives_register (name : String) (st : Stage) (r : Registry) :
    Session.Gives (register name st) r (registerResult name st r) := by
  unfold register registerResult
  by_cases hn : name = ""
  · subst hn
    exact Session.gives_checked (Checked.gives_refuse _)
  · have hempty : ¬ name.isEmpty = true := by simpa using hn
    rw [if_neg hempty, if_neg hn]
    exact Session.gives_modify _

theorem get?_put (r : Registry) (name k : String) (st : Stage) :
    (r.put name st).stages.get? k = if k = name then some st else r.stages.get? k := by
  by_cases hk : k = name
  · subst hk
    rw [if_pos rfl]
    exact SortedMap.get?_insert_self _ _ _
  · rw [if_neg hk]
    exact SortedMap.get?_insert_of_ne _ _ hk

/-! ## Documents -/

/-- What a document gives: the registry of its names, unless one of them is empty. -/
def documentResult (j : Option Json) : Except SetupError Registry :=
  match j.bind entries? with
  | none => .error Document.registry.malformed
  | some m =>
      if ∃ e ∈ m.entries, e.1 = "" then .error (.invalidArgument .emptyProfileName) else .ok ⟨m⟩

theorem foldl_put (r : Registry) (l : List (String × Stage)) :
    l.foldl (fun r e => r.put e.1 e.2) r = ⟨r.stages.insertAll l⟩ := by
  induction l generalizing r with
  | nil => rfl
  | cons e rest ih => exact ih (r.put e.1 e.2)

theorem gives_ofEntries (m : SortedMap String Stage) : Checked.Gives (ofEntries m.entries)
    (if ∃ e ∈ m.entries, e.1 = "" then .error (.invalidArgument .emptyProfileName)
      else .ok ⟨m⟩) := by
  have hm : m.entries.foldl (fun r e => r.put e.1 e.2) empty = ⟨m⟩ :=
    (foldl_put empty m.entries).trans (congrArg Registry.mk (SortedMap.ofList_entries m))
  rw [← hm]
  exact Session.gives_final_forM (fun e r => gives_register e.1 e.2 r) m.entries empty

theorem gives_ofDocument (j : Option Json) :
    Checked.Gives (ofDocument j) (documentResult j) := by
  unfold ofDocument documentResult
  cases j.bind entries? with
  | none => exact Checked.gives_bind_of_error (Checked.gives_throw rfl)
  | some m => exact Checked.gives_bind (Checked.gives_pure m) (gives_ofEntries m)

/-- What loading a registry gives. -/
def originResult : Origin → Except SetupError Registry
  | .text text => documentResult (Json.ofText? text)
  | .bytes bytes => documentResult (Json.ofBytes? bytes)
  | .file path content =>
      Document.registry.load (fun bytes => documentResult (Json.ofBytes? bytes)) path content

theorem gives_ofOrigin (o : Origin) : Checked.Gives (ofOrigin o) (originResult o) := by
  cases o with
  | text text => exact gives_ofDocument _
  | bytes bytes => exact gives_ofDocument _
  | file path content =>
      cases content with
      | bytes bytes => exact gives_ofDocument _
      | unreadable => exact Checked.gives_throw rfl
      | unopened reason => exact Checked.gives_throw rfl

theorem get?_emptyName_of_documentResult {j : Option Json} (h : documentResult j = .ok r) :
    r.stages.get? "" = none := by
  unfold documentResult at h
  split at h
  · cases h
  · next m _ =>
      split at h
      · cases h
      · next hnamed =>
          obtain rfl := Except.ok.inj h
          refine Option.eq_none_iff_forall_ne_some.mpr fun st hst => hnamed ?_
          exact ⟨_, SortedMap.mem_entries.mpr hst, rfl⟩

theorem get?_emptyName_of_originResult {o : Origin} (h : originResult o = .ok r) :
    r.stages.get? "" = none := by
  cases o with
  | text text => exact get?_emptyName_of_documentResult h
  | bytes bytes => exact get?_emptyName_of_documentResult h
  | file path content =>
      cases content with
      | bytes bytes => exact get?_emptyName_of_documentResult h
      | unreadable => cases h
      | unopened reason => cases h

/-- An object whose members are these names and stages, in this order. -/
def HasStages (j : Json) (entries : List (String × Stage)) : Prop :=
  ∃ members, j = .ofMembers members ∧ List.Forall₂ (fun e m => m.1 = e.1 ∧
    (m.2 = .string (some e.2.name) ∨ m.2 = .object [(some e.2.name, .null)])) entries members

/-- A text that is a registry, with the names and stages of its members in order. -/
def IsRegistry (entries : List (String × Stage)) (text : String) : Prop :=
  ∃ j, Json.IsText j text ∧ HasStages j entries

theorem entries?_eq_some_iff {j : Json} {m : SortedMap String Stage} :
    entries? j = some m ↔ ∃ entries, HasStages j entries ∧ .ofList entries = m :=
  Json.map?_some_eq_some_iff Json.enumerated?_eq_some_iff

theorem ofText?_bind_eq_some_iff {text : String} {m : SortedMap String Stage} :
    (Json.ofText? text).bind entries? = some m ↔
      ∃ entries, IsRegistry entries text ∧ .ofList entries = m := by
  simp only [Option.bind_eq_some_iff, Json.ofText?_eq_some_iff, entries?_eq_some_iff]
  constructor
  · rintro ⟨j, hj, entries, h, rfl⟩
    exact ⟨entries, ⟨j, hj, h⟩, rfl⟩
  · rintro ⟨entries, ⟨j, hj, h⟩, rfl⟩
    exact ⟨j, hj, entries, h, rfl⟩

variable {entries : List (String × Stage)} {text : String}

theorem originResult_of_named (h : IsRegistry entries text) (hn : ∀ e ∈ entries, e.1 ≠ "") :
    originResult (.text text) = .ok ⟨.ofList entries⟩ := by
  have hm := ofText?_bind_eq_some_iff.mpr ⟨entries, h, rfl⟩
  rw [originResult, documentResult, hm]
  refine if_neg fun he => ?_
  obtain ⟨e, he, h0⟩ := SortedMap.exists_mem_entries_ofList.mp he
  exact hn e he h0

theorem originResult_of_emptyName (h : IsRegistry entries text) (he : ∃ e ∈ entries, e.1 = "") :
    originResult (.text text) = .error (.invalidArgument .emptyProfileName) := by
  have hm := ofText?_bind_eq_some_iff.mpr ⟨entries, h, rfl⟩
  rw [originResult, documentResult, hm]
  exact if_pos (SortedMap.exists_mem_entries_ofList.mpr he)

theorem originResult_of_not_isRegistry (h : ∀ entries, ¬ IsRegistry entries text) :
    originResult (.text text) = .error (.malformed (.document .registry)) := by
  have hm : (Json.ofText? text).bind entries? = none :=
    Option.eq_none_iff_forall_ne_some.mpr fun m hm => by
      obtain ⟨entries, hr, -⟩ := ofText?_bind_eq_some_iff.mp hm
      exact h entries hr
  rw [originResult, documentResult, hm]
  rfl

theorem resolve_ofList : (Registry.mk (.ofList entries)).resolve name = .ok st ↔
    ∃ before after, entries = before ++ (name, st) :: after ∧ ∀ e ∈ after, e.1 ≠ name := by
  rw [resolve_eq_ok_iff, ← SortedMap.mem_entries]
  exact SortedMap.mem_entries_ofList

theorem resolve_builtin : builtin.resolve name = .ok st ↔
    name = st.name ∨ name = "venc_" ++ st.name ++ "_cfg" := by
  rw [resolve_eq_ok_iff, ← SortedMap.mem_entries]
  constructor
  · intro h
    have hall : ∀ e ∈ builtin.stages.entries,
        e.1 = e.2.name ∨ e.1 = "venc_" ++ e.2.name ++ "_cfg" := by decide
    exact hall _ h
  · rintro (rfl | rfl) <;> cases st <;> decide

end Registry

namespace StageConfig

theorem yields_create {flags : DebugFlags} {st : Stage} {c : StageConfig} :
    (create st).Yields flags c ↔ c = ⟨st, .empty⟩ := by
  have hshow : (StageConfig.mk st .empty).show.Yields flags () :=
    Traced.yields_bind.mpr ⟨(), Traced.yields_log, Store.yields_show⟩
  unfold create
  rw [Traced.yields_bind]
  simp only [Traced.yields_pure]
  constructor
  · rintro ⟨_, -, h⟩
    exact h
  · intro h
    exact ⟨(), Traced.yields_ifSet hshow, h⟩

theorem gives_createNamed (r : Registry) (name : String) : Checked.Gives (createNamed r name)
    ((r.resolve name).map fun st => ⟨st, .empty⟩) := by
  unfold createNamed
  cases h : r.resolve name with
  | error e =>
      obtain ⟨-, rfl⟩ := Registry.resolve_eq_error_iff.mp h
      exact Checked.gives_bind_of_error (Checked.gives_throw rfl)
  | ok st =>
      refine Checked.gives_bind (Checked.gives_pure st) (Checked.gives_bind (a := ()) ?_ ?_)
      · exact Checked.gives_traced fun _ _ => ⟨fun _ => rfl, fun _ => Traced.yields_log⟩
      · exact Checked.gives_traced fun _ _ => yields_create

end StageConfig

/-! ## Calls on a registry -/

/-- What a program may ask of a registry. -/
inductive Registration where
  | register (name : String) (st : Stage)
  | merge (other : Registry)
  /-- Adds the names of a document. -/
  | load (o : Origin)
  | resolve (name : String)
  /-- Creates the configuration that a name stands for. -/
  | create (name : String)

namespace Registration

def run : Registration → Session Registry Unit
  | register name st => Registry.register name st
  | merge other => modify (·.merge other)
  | load o => do
      let other ← Registry.ofOrigin o
      modify (·.merge other)
  | resolve name => do
      let r ← get
      let _ ← (MonadExcept.ofExcept (r.resolve name) : Checked Stage)
      return ()
  | create name => do
      let r ← get
      let _ ← StageConfig.createNamed r name
      return ()

/-- What a call answers, and the registry it leaves. -/
def result : Registration → Registry → Except SetupError Unit × Registry
  | register name st, r => Registry.registerResult name st r
  | merge other, r => (.ok (), r.merge other)
  | load o, r =>
      match Registry.originResult o with
      | .ok other => (.ok (), r.merge other)
      | .error e => (.error e, r)
  | resolve name, r | create name, r => ((r.resolve name).map fun _ => (), r)

/-- The stage that a call gives to a name. -/
def writes (k : String) : Registration → Option Stage
  | register name st => if name = k ∧ name ≠ "" then some st else none
  | merge other => other.stages.get? k
  | load o =>
      match Registry.originResult o with
      | .ok other => other.stages.get? k
      | .error _ => none
  | resolve _ | create _ => none

variable {c : Registration} {r r' : Registry} {k : String} {flags : DebugFlags}

/-- A question whose answer is not used changes nothing. -/
theorem gives_asked {α : Type} {x : Checked α} {o : Except SetupError α} (hx : x.Gives o)
    (r : Registry) : Session.Gives ((liftM x : Session Registry α) >>= fun _ => pure ()) r
      (o.map fun _ => (), r) := by
  cases o with
  | ok a => exact Session.gives_checked_bind hx (Session.gives_pure ())
  | error e => exact Session.gives_checked_bind_of_error hx

theorem gives_run (c : Registration) (r : Registry) : Session.Gives c.run r (c.result r) := by
  cases c with
  | register name st => exact Registry.gives_register name st r
  | merge other => exact Session.gives_modify _
  | load o =>
      have ho := Registry.gives_ofOrigin o
      simp only [run, result]
      cases h : Registry.originResult o with
      | ok other =>
          rw [h] at ho
          exact Session.gives_checked_bind ho (Session.gives_modify _)
      | error e =>
          rw [h] at ho
          exact Session.gives_checked_bind_of_error ho
  | resolve name =>
      refine Session.gives_get_bind (gives_asked ?_ r)
      cases h : r.resolve name with
      | ok st => exact Checked.gives_pure st
      | error e =>
          obtain ⟨-, rfl⟩ := Registry.resolve_eq_error_iff.mp h
          exact Checked.gives_throw rfl
  | create name =>
      have hcreate := gives_asked (StageConfig.gives_createNamed r name) r
      refine Session.gives_get_bind ?_
      cases h : r.resolve name with
      | ok st =>
          rw [h] at hcreate
          rw [result, h]
          exact hcreate
      | error e =>
          rw [h] at hcreate
          rw [result, h]
          exact hcreate

theorem leads_run {o : Except SetupError Unit} (h : c.run.Leads flags r o r') :
    o = (c.result r).1 ∧ r' = (c.result r).2 := by
  have hresult := ((c.gives_run r flags o r').mp h).1
  exact ⟨congrArg Prod.fst hresult, congrArg Prod.snd hresult⟩

theorem get?_result (c : Registration) (r : Registry) (k : String) :
    (c.result r).2.stages.get? k = (c.writes k).or (r.stages.get? k) := by
  cases c with
  | register name st =>
      simp only [result, writes, Registry.registerResult]
      by_cases hn : name = ""
      · simp [hn]
      · by_cases hk : k = name <;> simp [hn, hk, Registry.get?_put, eq_comm]
  | merge other => exact Registry.get?_merge r other k
  | load o =>
      simp only [result, writes]
      cases Registry.originResult o with
      | ok other => exact Registry.get?_merge r other k
      | error e => exact Option.none_or.symm
  | resolve name | create name => exact Option.none_or.symm

/-- A call that fails leaves the registry as it was, and gives no name a stage. -/
theorem result_of_error {e : SetupError} (h : (c.result r).1 = .error e) :
    (c.result r).2 = r ∧ ∀ k, c.writes k = none := by
  cases c with
  | register name st =>
      simp only [result, Registry.registerResult] at h ⊢
      split at h
      · next hn => exact ⟨by rw [if_pos hn], fun k => if_neg fun hk => hk.2 hn⟩
      · cases h
  | merge other => cases h
  | load o =>
      simp only [result, writes] at h ⊢
      split at h
      · cases h
      · next e' ho =>
          exact ⟨rfl, fun _ => rfl⟩
  | resolve name | create name => exact ⟨rfl, fun _ => rfl⟩

theorem settled_run (c : Registration) : Session.Settled c.run := fun r =>
  ⟨c.result r, fun flags h =>
    (c.gives_run r flags _ _).mpr ⟨rfl, Traced.returns_of_not_abort h _⟩⟩

/-- After a run a name has the stage that was given to it last. -/
theorem get?_of_yields {steps : List Registration} {answers : List (Except SetupError Unit)}
    (h : (Session.runEach run steps r).Yields flags (answers, r')) (k : String) :
    r'.stages.get? k = (steps.reverse.findSome? (writes k)).or (r.stages.get? k) := by
  induction steps generalizing r answers with
  | nil =>
      obtain ⟨-, rfl⟩ := Prod.mk.inj (Traced.yields_pure.mp h)
      rfl
  | cons c rest ih =>
      obtain ⟨o, r₁, more, hc, hrest, -⟩ := Session.yields_runEach_cons.mp h
      obtain ⟨-, rfl⟩ := leads_run hc
      rw [ih hrest, get?_result, List.reverse_cons, List.findSome?_append, List.findSome?_singleton,
        Option.or_assoc]

theorem findSome?_reverse_eq_some_iff {steps : List Registration} {st : Stage} :
    steps.reverse.findSome? (writes k) = some st ↔ ∃ before c after,
      steps = before ++ c :: after ∧ c.writes k = some st ∧ ∀ d ∈ after, d.writes k = none := by
  rw [List.findSome?_eq_some_iff]
  constructor
  · rintro ⟨after, c, before, h, hc, hafter⟩
    refine ⟨before.reverse, c, after.reverse, ?_, hc, by simpa using hafter⟩
    simpa using congrArg List.reverse h
  · rintro ⟨before, c, after, rfl, hc, hafter⟩
    exact ⟨after.reverse, c, before.reverse, by simp, hc, by simpa using hafter⟩

end Registration

/-- The empty registry, that of every stage's names and those of documents, and what calls leave of
them, whether they fail or not. -/
inductive Registry.Reachable : Registry → Prop
  | empty : Reachable .empty
  | builtin : Reachable .builtin
  | loaded {o : Origin} {flags : DebugFlags} {r : Registry}
      (h : (Registry.ofOrigin o).run.Yields flags (.ok r)) : Reachable r
  | call {c : Registration} {flags : DebugFlags} {r r' : Registry} {o : Except SetupError Unit}
      (h : Reachable r) (hother : ∀ other, c = .merge other → Reachable other)
      (hc : c.run.Leads flags r o r') : Reachable r'

theorem Registry.Reachable.get?_emptyName {r : Registry} (h : r.Reachable) :
    r.stages.get? "" = none := by
  induction h with
  | empty => rfl
  | builtin => decide
  | @loaded o flags r h =>
      exact get?_emptyName_of_originResult ((gives_ofOrigin o flags _).mp h).1.symm
  | @call c flags r r' o h hother hc ih ihother =>
      obtain ⟨-, rfl⟩ := Registration.leads_run hc
      rw [Registration.get?_result, ih, Option.or_none]
      cases c with
      | register name st => exact if_neg fun hn => hn.2 hn.1
      | merge other => exact ihother other rfl
      | load o =>
          simp only [Registration.writes]
          split
          · next other ho => exact get?_emptyName_of_originResult ho
          · rfl
      | resolve name | create name => rfl

/-- Calls with reachable registries lead on to reachable ones. -/
theorem Registry.Reachable.runEach {r r' : Registry} (h : r.Reachable) {steps : List Registration}
    (hsteps : ∀ other, .merge other ∈ steps → other.Reachable) {flags : DebugFlags}
    {answers : List (Except SetupError Unit)}
    (hrun : (Session.runEach Registration.run steps r).Yields flags (answers, r')) :
    r'.Reachable := by
  induction steps generalizing r answers with
  | nil =>
      obtain ⟨-, rfl⟩ := Prod.mk.inj (Traced.yields_pure.mp hrun)
      exact h
  | cons c rest ih =>
      obtain ⟨o, r₁, more, hc, hrest, -⟩ := Session.yields_runEach_cons.mp hrun
      have hother : ∀ other, c = .merge other → other.Reachable := fun other hc =>
        hsteps other (by rw [hc]; exact List.mem_cons_self)
      exact ih (h.call hother hc) (fun other hm => hsteps other (List.mem_cons_of_mem _ hm)) hrest

/-! ## Main results -/

/-- What a registry answers goes with the names that it lists. -/
structure Registry.Consistent (r : Registry) : Prop where
  named : "" ∉ r.names
  increasing : r.names.Pairwise fun a b => codePoints a < codePoints b
  mem_names : ∀ name, name ∈ r.names ↔ ∃ st, r.resolve name = .ok st
  sorted : ∀ order, SortedMap.Enumerates order r.stages → ∀ names,
    IsSorting id (order.map Prod.fst) names ↔ names = r.names
  notFound : ∀ name e, r.resolve name = .error e ↔
    name ∉ r.names ∧ e = .notFound (.profileName name)
  created : ∀ name, Checked.Gives (StageConfig.createNamed r name)
    ((r.resolve name).map fun st => ⟨st, .empty⟩)

theorem Registry.Reachable.consistent {r : Registry} (h : r.Reachable) : r.Consistent where
  named := fun hmem => by
    obtain ⟨st, hst⟩ := SortedMap.mem_keys.mp hmem
    rw [h.get?_emptyName] at hst
    cases hst
  increasing := List.pairwise_map.mpr (r.stages.sorted.imp codePoints_lt_of_compare)
  mem_names := fun _ => mem_names_iff
  sorted := fun _ horder _ => horder.isSorting_keys_iff
  notFound := fun name e => by
    rw [resolve_eq_error_iff, mem_names_iff]
    simp only [resolve_eq_ok_iff, ← Option.ne_none_iff_exists', ne_eq, not_not]
  created := StageConfig.gives_createNamed r

/-- The merge as a union in which the second registry wins. -/
structure Registry.MergeLaws : Prop where
  resolve : ∀ (a b : Registry) name, (a.merge b).resolve name =
    match b.resolve name with
    | .ok st => .ok st
    | .error _ => a.resolve name
  assoc : ∀ a b c : Registry, (a.merge b).merge c = a.merge (b.merge c)
  self : ∀ a : Registry, a.merge a = a
  empty_right : ∀ a : Registry, a.merge .empty = a
  empty_left : ∀ a : Registry, Registry.empty.merge a = a
  /-- It does not matter in which order the names are copied. -/
  anyOrder : ∀ (a b : Registry) order, SortedMap.Enumerates order b.stages →
    ⟨a.stages.insertAll order⟩ = a.merge b
  /-- In a program the merge changes the first registry and nothing else. -/
  others : ∀ (S : Structures) (w : Workspace) (i j : Nat),
    let w' := w.putRegistry i ((w.registries i).merge (w.registries j))
    Session.Gives (Operation.run (.merge i j : Operation S)) w (.ok .done, w') ∧
      w'.stores = w.stores ∧ w'.configs = w.configs ∧
      ∀ k, k ≠ i → w'.registries k = w.registries k

theorem Registry.mergeLaws : Registry.MergeLaws where
  resolve := resolve_merge
  assoc := merge_assoc
  self := merge_self
  empty_right := merge_empty
  empty_left := empty_merge
  anyOrder := fun _ _ _ => merge_of_enumerates
  others := fun _ _ _ _ => ⟨Session.gives_modify_bind (Session.gives_pure _), rfl, rfl,
    fun _ hk => Function.update_of_ne hk _ _⟩

/-- A document gives the last stage of each of its names, and is refused for an empty one. -/
structure Registry.LoadLaws : Prop where
  gives : ∀ o, Checked.Gives (ofOrigin o) (originResult o)
  named : ∀ entries text, IsRegistry entries text → (∀ e ∈ entries, e.1 ≠ "") →
    ∃ r, originResult (.text text) = .ok r ∧ ∀ name st, r.resolve name = .ok st ↔
      ∃ before after, entries = before ++ (name, st) :: after ∧ ∀ e ∈ after, e.1 ≠ name
  emptyName : ∀ entries text, IsRegistry entries text → (∃ e ∈ entries, e.1 = "") →
    originResult (.text text) = .error (.invalidArgument .emptyProfileName)
  malformed : ∀ text, (∀ entries, ¬ IsRegistry entries text) →
    originResult (.text text) = .error (.malformed (.document .registry))

theorem Registry.loadLaws : Registry.LoadLaws where
  gives := gives_ofOrigin
  named := fun _ _ h hn => ⟨_, originResult_of_named h hn, fun _ _ => resolve_ofList⟩
  emptyName := fun _ _ => originResult_of_emptyName
  malformed := fun _ => originResult_of_not_isRegistry

namespace Registration

/-- From every reachable registry a run of calls can be carried out unless misuse is fatal, and then
a name resolves to the stage that the last call gave it which wrote it, and to what it stood for
before if there is none. A call that fails writes nothing. The empty registry knows no name, and the
one to start with those of every stage. -/
theorem last_stage_counts {r : Registry} (h : r.Reachable) (flags : DebugFlags) :
    r.Consistent ∧
    (∀ steps : List Registration, (∀ other, .merge other ∈ steps → other.Reachable) →
      (flags.contains .abort = false → ∃ answers r',
        (Session.runEach run steps r).Yields flags (answers, r')) ∧
      ∀ answers r', (Session.runEach run steps r).Yields flags (answers, r') → r'.Consistent ∧
        (∀ before c after name st, steps = before ++ c :: after → c.writes name = some st →
          (∀ d ∈ after, d.writes name = none) → r'.resolve name = .ok st) ∧
        ∀ name, (∀ c ∈ steps, c.writes name = none) → r'.resolve name = r.resolve name) ∧
    (∀ (c : Registration) s s' e, c.run.Leads flags s (.error e) s' →
      s' = s ∧ ∀ name, c.writes name = none) ∧
    (∀ name, Registry.empty.resolve name = .error (.notFound (.profileName name))) ∧
    (∀ name st, Registry.builtin.resolve name = .ok st ↔
      name = st.name ∨ name = "venc_" ++ st.name ++ "_cfg") ∧
    Registry.MergeLaws ∧ Registry.LoadLaws := by
  refine ⟨h.consistent, fun steps hsteps => ⟨fun hflags => ?_, fun answers r' hrun => ⟨?_, ?_, ?_⟩⟩,
    fun c s s' e hc => ?_, fun _ => rfl, fun _ _ => Registry.resolve_builtin, Registry.mergeLaws,
    Registry.loadLaws⟩
  · obtain ⟨⟨answers, r'⟩, hrun⟩ := Session.settled_runEach settled_run steps r
    exact ⟨answers, r', hrun flags hflags⟩
  · exact (h.runEach hsteps hrun).consistent
  · intro before c after name st hsplit hc hafter
    have hlast := findSome?_reverse_eq_some_iff.mpr ⟨before, c, after, hsplit, hc, hafter⟩
    rw [Registry.resolve_eq_ok_iff, get?_of_yields hrun, hlast, Option.some_or]
  · intro name hnone
    have hlast : steps.reverse.findSome? (writes name) = none :=
      List.findSome?_eq_none_iff.mpr fun c hc => hnone c (List.mem_reverse.mp hc)
    rw [Registry.resolve, Registry.resolve, get?_of_yields hrun, hlast, Option.none_or]
  · obtain ⟨he, rfl⟩ := leads_run hc
    exact result_of_error he.symm

/-- A document that names `live` twice, a refused name and the names of every stage: after them the
second stage of `live` counts, and `init` has its own one back. -/
theorem last_stage_of_live :
    let steps : List Registration := [.register "live" .init, .register "init" .stop,
      .load (.text
        "\x7b\"live\": \"stop\", \"idle\": \x7b\"stop\": null\x7d, \"live\": \"start\"\x7d"),
      .register "" .reset, .merge .builtin, .resolve "idle", .create "absent"]
    ∃ answers r, (Session.runEach run steps .empty).Yields .clear (answers, r) ∧
      r.resolve "live" = .ok .start ∧ r.resolve "init" = .ok .init ∧
      r.resolve "absent" = .error (.notFound (.profileName "absent")) ∧ "" ∉ r.names := by
  intro steps
  have hsteps : ∀ other, .merge other ∈ steps → other.Reachable := by
    intro other hm
    obtain rfl : other = .builtin := by simpa [steps] using hm
    exact .builtin
  obtain ⟨-, hruns, -, hempty, -⟩ := last_stage_counts .empty .clear
  obtain ⟨hexists, hresult⟩ := hruns steps hsteps
  obtain ⟨answers, r, hrun⟩ := hexists rfl
  obtain ⟨hconsistent, hwritten, hkept⟩ := hresult answers r hrun
  refine ⟨answers, r, hrun, ?_, ?_, ?_, hconsistent.named⟩
  · exact hwritten [_, _] _ [_, _, _, _] "live" .start rfl (by decide +kernel) (by decide +kernel)
  · exact hwritten [_, _, _, _] _ [_, _] "init" .init rfl (by decide +kernel) (by decide +kernel)
  · exact (hkept "absent" (by decide +kernel)).trans (hempty _)

end Registration

end EncoderSetup

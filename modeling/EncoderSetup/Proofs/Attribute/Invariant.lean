import EncoderSetup.Attribute.Profile
import EncoderSetup.Lifecycle.Config
import EncoderSetup.Proofs.Attribute.Transition

/-!
# What holds of every store

`Store.WellFormed` is the link between the two maps of a store: no name is empty, and a pending
value stands in for a committed one of its kind and length. Every call keeps it
(`WellFormed.after`), so every store that a program comes to hold has it (`Reachable.wellFormed`),
and a commit then changes values only, never a name, a kind or a length.
-/

namespace EncoderSetup

def Value.blockLength? : Value → Option Nat
  | st bytes => some bytes.length
  | _ => none

def Value.Fits (w v : Value) : Prop := w.kind = v.kind ∧ w.blockLength? = v.blockLength?

theorem Value.Fits.refl (v : Value) : v.Fits v := ⟨rfl, rfl⟩

theorem Value.Fits.trans {u v w : Value} (h : u.Fits v) (h' : v.Fits w) : u.Fits w :=
  ⟨h.1.trans h'.1, h.2.trans h'.2⟩

theorem Edit.fits_apply (e : Edit) (v : Value) : (e.apply v).Fits v := by
  cases e with
  | st f =>
      cases v with
      | st bytes => exact ⟨rfl, congrArg some (f bytes.length (Block.whole bytes)).property⟩
      | _ => exact Value.Fits.refl _
  | changeBlock size f =>
      cases v with
      | st bytes =>
          by_cases h : bytes.length = size
          · simp only [Edit.apply, dif_pos h]
            exact ⟨rfl, congrArg some ((f ⟨bytes, h⟩).property.trans h.symm)⟩
          · simp only [Edit.apply, dif_neg h]
            exact Value.Fits.refl _
      | _ => exact Value.Fits.refl _
  | _ => cases v <;> exact ⟨rfl, rfl⟩

theorem Edit.fits_applyAll (edits : List Edit) (v : Value) : (applyAll edits v).Fits v := by
  induction edits generalizing v with
  | nil => exact Value.Fits.refl v
  | cons e rest ih => exact (ih (e.apply v)).trans (e.fits_apply v)

namespace Store

structure WellFormed (s : Store) : Prop where
  emptyName : s.committed.get? "" = none
  pendingFits : ∀ k w, s.pending.get? k = some w → ∃ v, s.committed.get? k = some v ∧ w.Fits v

namespace WellFormed

variable {s : Store} {name : String}

theorem empty : WellFormed .empty := ⟨rfl, fun _ _ h => by cases h⟩

theorem pending_emptyName (h : s.WellFormed) : s.pending.get? "" = none := by
  cases hp : s.pending.get? "" with
  | none => rfl
  | some w =>
      obtain ⟨v, hv, -⟩ := h.pendingFits "" w hp
      rw [h.emptyName] at hv
      cases hv

theorem put (h : s.WellFormed) (hn : name.isEmpty = false) (v : Value) :
    (s.put name v).WellFormed := by
  refine ⟨?_, fun k w hw => ?_⟩
  · have hne : "" ≠ name := by
      rintro rfl
      cases hn
    exact (SortedMap.get?_insert_of_ne s.committed v hne).trans h.emptyName
  · by_cases hk : k = name
    · subst hk
      simp [Store.put] at hw
    · simp only [Store.put, SortedMap.get?_erase_of_ne _ hk] at hw
      simpa only [Store.put, SortedMap.get?_insert_of_ne _ _ hk] using h.pendingFits k w hw

theorem remove (h : s.WellFormed) (name : String) : (s.remove name).WellFormed := by
  refine ⟨?_, fun k w hw => ?_⟩
  · simp [Store.remove, SortedMap.get?_erase, h.emptyName]
  · by_cases hk : k = name
    · subst hk
      simp [Store.remove] at hw
    · simp only [Store.remove, SortedMap.get?_erase_of_ne _ hk] at hw ⊢
      exact h.pendingFits k w hw

/-- The value that a slot opens with fits the committed value of its name. -/
theorem slot_fits (h : s.WellFormed) {v : Value} (hv : s.slot? name = some v) :
    ∃ u, s.committed.get? name = some u ∧ v.Fits u := by
  unfold slot? at hv
  split at hv
  · cases hv
  · rcases Option.or_eq_some_iff.mp hv with hp | ⟨-, hc⟩
    · exact h.pendingFits name v hp
    · exact ⟨v, hc, Value.Fits.refl v⟩

theorem putPending (h : s.WellFormed) {u w : Value} (hu : s.committed.get? name = some u)
    (hw : w.Fits u) : (s.putPending name w).WellFormed := by
  refine ⟨h.emptyName, fun k x hx => ?_⟩
  by_cases hk : k = name
  · subst hk
    simp only [Store.putPending, SortedMap.get?_insert_self, Option.some.injEq] at hx
    subst hx
    exact ⟨u, hu, hw⟩
  · simp only [Store.putPending, SortedMap.get?_insert_of_ne _ _ hk] at hx
    exact h.pendingFits k x hx

theorem commit (h : s.WellFormed) : s.commit.WellFormed := by
  refine ⟨?_, fun _ _ hw => by cases hw⟩
  simp [Store.commit, SortedMap.get?_merge, h.emptyName, h.pending_emptyName]

theorem discard (h : s.WellFormed) : s.discard.WellFormed :=
  ⟨h.emptyName, fun _ _ hw => by cases hw⟩

theorem after (h : s.WellFormed) (c : Call) : (c.after s).WellFormed := by
  cases c with
  | set name v =>
      simp only [Call.after]
      split
      · exact h
      · next hn => exact h.put (Bool.eq_false_iff.mpr hn) v
  | stage name edits =>
      simp only [Call.after]
      split
      · next v hv =>
          obtain ⟨u, hu, hf⟩ := h.slot_fits hv
          exact h.putPending hu ((Edit.fits_applyAll edits v).trans hf)
      · exact h
  | commit => exact h.commit
  | discard => exact h.discard
  | remove name => exact h.remove name
  | _ => exact h

end WellFormed

/-- From an empty store, a profile or a new stage configuration by any calls, failed ones too. -/
inductive Reachable : Store → Prop where
  | empty : Reachable .empty
  | profileText {text : String} {flags : DebugFlags} {s : Store} :
      (ofProfileText text).run.Yields flags (.ok s) → Reachable s
  | profileBytes {bytes : List UInt8} {flags : DebugFlags} {s : Store} :
      (ofProfileBytes bytes).run.Yields flags (.ok s) → Reachable s
  | profileFile {path : String} {content : FileContent} {flags : DebugFlags} {s : Store} :
      (ofProfileFile path content).run.Yields flags (.ok s) → Reachable s
  | config {stage : Stage} {flags : DebugFlags} {c : StageConfig} :
      (StageConfig.create stage).Yields flags c → Reachable c.attributes
  | configRaw {raw : UInt32} {flags : DebugFlags} {c : StageConfig} :
      (StageConfig.createRaw raw).run.Yields flags (.ok c) → Reachable c.attributes
  | configNamed {r : Registry} {name : String} {flags : DebugFlags} {c : StageConfig} :
      (StageConfig.createNamed r name).run.Yields flags (.ok c) → Reachable c.attributes
  | call {s s' : Store} {c : Call} {flags : DebugFlags} {o : Except SetupError Answer} :
      Reachable s → c.run.Leads flags s o s' → Reachable s'
  | configCall {c c' : StageConfig} {call : Call} {flags : DebugFlags}
      {o : Except SetupError Answer} : Reachable c.attributes →
      (StageConfig.onAttributes call.run).Leads flags c o c' → Reachable c'.attributes

theorem Reachable.runAll {s s' : Store} (hs : s.Reachable) {calls : List Call} {flags : DebugFlags}
    {answers : List (Except SetupError Answer)}
    (h : (Call.runAll calls s).Yields flags (answers, s')) : s'.Reachable := by
  induction calls generalizing s answers with
  | nil =>
      obtain ⟨-, rfl⟩ := Prod.mk.inj (Traced.yields_pure.mp h)
      exact hs
  | cons c rest ih =>
      obtain ⟨o, s₁, more, hc, hrest, -⟩ := Session.yields_runEach_cons.mp h
      exact ih (hs.call hc) hrest

variable {flags : DebugFlags} {s s' : Store}

theorem WellFormed.assignAll {entries : List (String × Value)} {o : Except SetupError Unit}
    (hs : s.WellFormed)
    (h : (entries.forM fun e => setValue e.1 e.2).Leads flags s o s') : s'.WellFormed := by
  induction entries generalizing s with
  | nil =>
      obtain ⟨-, rfl⟩ := Session.leads_pure.mp h
      exact hs
  | cons e rest ih =>
      rcases Session.leads_bind.mp h with ⟨_, s₁, hset, hrest⟩ | ⟨_, hset, -⟩
      all_goals obtain ⟨hn, -, rfl⟩ | ⟨-, -, rfl⟩ := leads_setValue hset
      · exact ih (hs.put hn e.2) hrest
      · exact ih hs hrest
      · exact hs.put hn e.2
      · exact hs

theorem yields_build {x : Session Store Unit} (h : (build x).run.Yields flags (.ok s)) :
    x.Leads flags .empty (.ok ()) s := by
  obtain ⟨⟨outcome, s₁⟩, hx, h⟩ := Traced.yields_bind.mp h
  have hs := Traced.yields_pure.mp h
  cases outcome with
  | ok u =>
      obtain rfl : s = s₁ := Except.ok.inj hs
      exact hx
  | error e => cases hs

theorem wellFormed_ofProfile {j : Option Json} (h : (ofProfile j).run.Yields flags (.ok s)) :
    s.WellFormed := by
  unfold ofProfile at h
  rcases Checked.yields_bind.mp h with ⟨m, -, h⟩ | ⟨_, -, he⟩
  · exact WellFormed.empty.assignAll (yields_build h)
  · cases he

theorem wellFormed_create {stage : Stage} {c : StageConfig}
    (h : (StageConfig.create stage).Yields flags c) : c.attributes.WellFormed := by
  obtain ⟨_, -, h⟩ := Traced.yields_bind.mp h
  obtain rfl := Traced.yields_pure.mp h
  exact WellFormed.empty

theorem Reachable.wellFormed (h : s.Reachable) : s.WellFormed := by
  induction h with
  | empty => exact WellFormed.empty
  | profileText h | profileBytes h => exact wellFormed_ofProfile h
  | @profileFile path content flags s h =>
      cases content with
      | bytes b => exact wellFormed_ofProfile h
      | unreadable | unopened reason => cases Traced.yields_pure.mp h
  | config h => exact wellFormed_create h
  | configRaw h =>
      rcases Checked.yields_bind.mp h with ⟨stage, -, h⟩ | ⟨_, -, he⟩
      · obtain ⟨c, hc, ho⟩ := Checked.yields_traced.mp h
        obtain rfl := Except.ok.inj ho
        exact wellFormed_create hc
      · cases he
  | configNamed h =>
      rcases Checked.yields_bind.mp h with ⟨stage, -, h⟩ | ⟨_, -, he⟩
      · rcases Checked.yields_bind.mp h with ⟨_, -, h⟩ | ⟨_, -, he⟩
        · obtain ⟨c, hc, ho⟩ := Checked.yields_traced.mp h
          obtain rfl := Except.ok.inj ho
          exact wellFormed_create hc
        · cases he
      · cases he
  | @call s s' c flags o _ hc ih =>
      obtain rfl := Call.leads_run hc
      exact ih.after c
  | @configCall c c' call flags o _ hc ih =>
      obtain ⟨⟨outcome, s₁⟩, hx, h⟩ := Traced.yields_bind.mp hc
      obtain ⟨-, rfl⟩ := Prod.mk.inj (Traced.yields_pure.mp h)
      obtain rfl := Call.leads_run hx
      exact ih.after call

def kinds (s : Store) : SortedMap String Kind := s.committed.mapValues Value.kind

theorem keys_kinds (s : Store) : s.kinds.keys = s.keys := SortedMap.keys_mapValues _ _

theorem get?_kinds (s : Store) (name : String) : s.kinds.get? name = s.kindOf? name :=
  SortedMap.get?_mapValues _ _ _

theorem length_keys (s : Store) : s.keys.length = s.size := SortedMap.length_keys _

/-- The issues of one attribute depend on its value through the kind alone. -/
def issuesOfKind (stage : Stage) (name : String) (kind : Kind) : List Issue :=
  match Schema.lookup? name with
  | none => []
  | some d =>
      (if d.isReadAt stage then [] else [.wrongStage name stage]) ++
        if kind = d.kind then [] else [.wrongKind name kind d.kind]

theorem issues_eq_flatMap_kinds (stage : Stage) (s : Store) :
    StageConfig.issues ⟨stage, s⟩ =
      s.kinds.entries.flatMap fun e => issuesOfKind stage e.1 e.2 := by
  rw [kinds, SortedMap.mapValues, List.flatMap_map]
  rfl

theorem WellFormed.mapValues_commit (h : s.WellFormed) {β : Type} (g : Value → β)
    (hg : ∀ w v : Value, w.Fits v → g w = g v) :
    s.commit.committed.mapValues g = s.committed.mapValues g := by
  refine SortedMap.ext_get? fun k => ?_
  rw [SortedMap.get?_mapValues, SortedMap.get?_mapValues, Store.commit, SortedMap.get?_merge]
  cases hp : s.pending.get? k with
  | none => rfl
  | some w =>
      obtain ⟨v, hv, hf⟩ := h.pendingFits k w hp
      rw [hv, Option.some_or, Option.map_some, Option.map_some, hg w v hf]

theorem WellFormed.kinds_commit (h : s.WellFormed) : s.commit.kinds = s.kinds :=
  h.mapValues_commit Value.kind fun _ _ hf => hf.1

theorem WellFormed.blockLength?_commit (h : s.WellFormed) (name : String) :
    (s.commit.value? name).map Value.blockLength? = (s.value? name).map Value.blockLength? := by
  have hm := congrArg (·.get? name) (h.mapValues_commit Value.blockLength? fun _ _ hf => hf.2)
  simpa only [value?, SortedMap.get?_mapValues] using hm

/-- On every reachable store the pending values stand in for committed ones of their kind and
length, and a commit changes nothing but values. -/
theorem reachable_linked_and_commit_conservative {s : Store} (h : s.Reachable) :
    ("" ∉ s.committed.keys ∧ "" ∉ s.pending.keys) ∧
      (∀ k w, s.pending.get? k = some w → ∃ v, s.committed.get? k = some v ∧
        w.kind = v.kind ∧ w.blockLength? = v.blockLength?) ∧
      ∀ flags, ∃ s', commitPending.Leads flags s (.ok s.pending.keys.length) s' ∧
        s'.hasPending = false ∧ s'.keys = s.keys ∧ s'.size = s.size ∧
        (∀ k, s'.kindOf? k = s.kindOf? k) ∧
        (∀ k, (s'.value? k).map Value.blockLength? = (s.value? k).map Value.blockLength?) ∧
        ∀ stage, StageConfig.issues ⟨stage, s'⟩ = StageConfig.issues ⟨stage, s⟩ := by
  have hw := h.wellFormed
  have hk := hw.kinds_commit
  have hkeys : s.commit.keys = s.keys := by rw [← keys_kinds, ← keys_kinds, hk]
  refine ⟨⟨fun hm => ?_, fun hm => ?_⟩, hw.pendingFits, fun flags => ⟨s.commit, ?_, rfl, hkeys, ?_,
    fun k => ?_, hw.blockLength?_commit, fun stage => ?_⟩⟩
  · obtain ⟨v, hv⟩ := SortedMap.mem_keys.mp hm
    rw [hw.emptyName] at hv
    cases hv
  · obtain ⟨v, hv⟩ := SortedMap.mem_keys.mp hm
    rw [hw.pending_emptyName] at hv
    cases hv
  · rw [leads_commitPending, SortedMap.length_keys]
    exact ⟨rfl, rfl⟩
  · rw [← length_keys, ← length_keys, hkeys]
  · rw [← get?_kinds, ← get?_kinds, hk]
  · rw [issues_eq_flatMap_kinds, issues_eq_flatMap_kinds, hk]

theorem commit_of_halved_gop_conservative : ∃ s s' : Store, s.Reachable ∧
    s.pending.get? "rc.gop" = some (.u32 30) ∧ commitPending.Leads .clear s (.ok 1) s' ∧
      s'.keys = s.keys ∧ s'.kindOf? "rc.gop" = s.kindOf? "rc.gop" := by
  let calls : List Call := [.set "init.name" (.st [1, 2]), .set "rc.gop" (.u32 60),
    .stage "rc.gop" [.u32 fun gop => gop / 2]]
  have hrun : (Call.runAll calls .empty).Yields .clear
      ([.ok .done, .ok .done, .ok (.edits [.ok (.value (.u32 60))])],
        Call.afterAll calls .empty) := by rfl
  have hs := Reachable.empty.runAll hrun
  obtain ⟨-, -, hcommit⟩ := reachable_linked_and_commit_conservative hs
  obtain ⟨s', hlead, -, hkeys, -, hkind, -⟩ := hcommit .clear
  exact ⟨_, s', hs, by decide, hlead, hkeys, hkind "rc.gop"⟩

end Store

end EncoderSetup

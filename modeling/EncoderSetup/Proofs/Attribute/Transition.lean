import EncoderSetup.Attribute.Call
import EncoderSetup.Proofs.Attribute.Reservations
import EncoderSetup.Proofs.Diagnostic.Reports

/-!
# Calls as transitions of a store

`Edit.apply` is what an edit does to a value and `Call.after` what a call does to a store, as
functions of the value and of the store alone. `Call.leads_run` and `Call.yields_runAll` say that a
call and a run of calls leave exactly that store, whatever the debug word is and whatever the calls
answer; statements about runs are about `Call.afterAll` from there on.
-/

namespace EncoderSetup

namespace Edit

/-- An edit of another kind or size than the value has changes nothing. -/
def apply : Edit → Value → Value
  | .s32 f, .s32 v => .s32 (f v)
  | .u32 f, .u32 v => .u32 (f v)
  | .s64 f, .s64 v => .s64 (f v)
  | .u64 f, .u64 v => .u64 (f v)
  | .ptr f, .ptr v => .ptr (f v)
  | .st f, .st bytes => .st (f bytes.length (Block.whole bytes)).val
  | .changeBlock size f, .st bytes =>
      if h : bytes.length = size then .st (f ⟨bytes, h⟩).val else .st bytes
  | _, v => v

def applyAll (edits : List Edit) (v : Value) : Value := edits.foldl (fun v e => e.apply v) v

end Edit

namespace Slot

variable {flags : DebugFlags} {slot slot' : Slot}

theorem yields_fetch {α : Type} [Storable α] {o : Except SetupError α}
    (h : (slot.fetch α).run.Yields flags o) :
    (∃ a, slot.value = Storable.toValue a ∧ o = .ok a) ∨
      (∀ a : α, slot.value ≠ Storable.toValue a) ∧ ∃ e, o = .error e := by
  unfold fetch at h
  cases hv : (Storable.ofValue? slot.value : Option α) with
  | none =>
      rw [hv, Checked.yields_refuse] at h
      refine Or.inr ⟨fun a ha => ?_, _, h.2⟩
      rw [(Storable.ofValue?_eq_some_iff _ a).mpr ha] at hv
      cases hv
  | some a =>
      rw [hv] at h
      exact Or.inl ⟨a, (Storable.ofValue?_eq_some_iff _ a).mp hv, Traced.yields_pure.mp h⟩

theorem yields_fetchBlock {size : Nat} {o : Except SetupError (Block size)}
    (h : (slot.fetchBlock size).run.Yields flags o) :
    (∃ b : Block size, slot.value = .st b.val ∧ o = .ok b) ∨
      (∀ b : Block size, slot.value ≠ .st b.val) ∧ ∃ e, o = .error e := by
  unfold fetchBlock at h
  rcases Checked.yields_bind.mp h with ⟨bytes, hf, hb⟩ | ⟨e, hf, rfl⟩
  · obtain ⟨a, hv, ha⟩ | ⟨-, e, he⟩ := yields_fetch hf
    · obtain rfl : bytes = a := Except.ok.inj ha
      by_cases hs : bytes.length = size
      · rw [dif_pos hs] at hb
        exact Or.inl ⟨⟨bytes, hs⟩, hv, Traced.yields_pure.mp hb⟩
      · rw [dif_neg hs, Checked.yields_refuse] at hb
        refine Or.inr ⟨fun b hb' => hs ?_, _, hb.2⟩
        have he : bytes = b.val := Value.st.inj (hv.symm.trans hb')
        rw [he, b.property]
    · cases he
  · obtain ⟨a, -, ha⟩ | ⟨hne, -⟩ := yields_fetch hf
    · cases ha
    · exact Or.inr ⟨fun b => hne b.val, e, rfl⟩

theorem leads_change {α : Type} [Storable α] {f : α → α} {o : Except SetupError EditAnswer}
    (h : (change f).Leads flags slot o slot') :
    (∃ a, slot.value = Storable.toValue a ∧ slot' = ⟨slot.name, Storable.toValue (f a)⟩) ∨
      (∀ a : α, slot.value ≠ Storable.toValue a) ∧ slot' = slot := by
  unfold change at h
  simp only [Session.leads_get_bind, Session.leads_checked_bind, Session.leads_modify_bind,
    Session.leads_pure] at h
  obtain ⟨a, hf, -, rfl⟩ | ⟨e, hf, -, rfl⟩ := h
  · obtain ⟨_, hv, ha⟩ | ⟨-, e, he⟩ := yields_fetch hf
    · obtain rfl := Except.ok.inj ha
      exact Or.inl ⟨a, hv, rfl⟩
    · cases he
  · obtain ⟨_, -, ha⟩ | ⟨hne, -⟩ := yields_fetch hf
    · cases ha
    · exact Or.inr ⟨hne, rfl⟩

theorem leads_changeBytes {f : (size : Nat) → Block size → Block size}
    {o : Except SetupError EditAnswer} (h : (edit (.st f)).Leads flags slot o slot') :
    slot' = ⟨slot.name, (Edit.st f).apply slot.value⟩ := by
  obtain ⟨name, v⟩ := slot
  simp only [edit, Session.leads_get_bind, Session.leads_checked_bind, Session.leads_modify_bind,
    Session.leads_pure] at h
  obtain ⟨bytes, hf, -, rfl⟩ | ⟨e, hf, -, rfl⟩ := h
  · obtain ⟨_, rfl, ha⟩ | ⟨-, e, he⟩ := yields_fetch hf
    · obtain rfl := Except.ok.inj ha
      rfl
    · cases he
  · obtain ⟨_, -, ha⟩ | ⟨hne, -⟩ := yields_fetch hf
    · cases ha
    · cases v <;> first | rfl | exact absurd rfl (hne _)

theorem leads_changeBlock {size : Nat} {f : Block size → Block size}
    {o : Except SetupError EditAnswer} (h : (edit (.changeBlock size f)).Leads flags slot o slot') :
    slot' = ⟨slot.name, (Edit.changeBlock size f).apply slot.value⟩ := by
  obtain ⟨name, v⟩ := slot
  simp only [edit, Session.leads_get_bind, Session.leads_checked_bind, Session.leads_modify_bind,
    Session.leads_pure] at h
  obtain ⟨b, hf, -, rfl⟩ | ⟨e, hf, -, rfl⟩ := h
  · obtain ⟨_, rfl, hb⟩ | ⟨-, e, he⟩ := yields_fetchBlock hf
    · obtain rfl := Except.ok.inj hb
      simp [Edit.apply, replace, b.property]
    · cases he
  · obtain ⟨_, -, hb⟩ | ⟨hne, -⟩ := yields_fetchBlock hf
    · cases hb
    · cases v with
      | st bytes => simp only [Edit.apply, dif_neg fun hs => hne ⟨bytes, hs⟩ rfl]
      | _ => rfl

/-- An edit leaves what `Edit.apply` makes of the value, also where it fails. -/
theorem leads_edit {e : Edit} {o : Except SetupError EditAnswer}
    (h : (edit e).Leads flags slot o slot') : slot' = ⟨slot.name, e.apply slot.value⟩ := by
  cases e with
  | name | kind | value =>
      simp only [edit, Session.leads_get_bind, Session.leads_pure] at h
      exact h.2
  | s32 f | u32 f | s64 f | u64 f | ptr f =>
      obtain ⟨name, v⟩ := slot
      obtain ⟨a, rfl, rfl⟩ | ⟨hne, rfl⟩ := leads_change h
      · rfl
      · cases v <;> first | rfl | exact absurd rfl (hne _)
  | st f => exact leads_changeBytes h
  | readBlock size =>
      simp only [edit, Session.leads_get_bind, Session.leads_checked_bind, Session.leads_pure] at h
      obtain ⟨b, -, -, rfl⟩ | ⟨e, -, -, rfl⟩ := h <;> rfl
  | changeBlock size f => exact leads_changeBlock h

theorem yields_edits {es : List Edit} {answers : List (Except SetupError EditAnswer)}
    (h : (edits es slot).Yields flags (answers, slot')) :
    slot' = ⟨slot.name, Edit.applyAll es slot.value⟩ := by
  induction es generalizing slot answers with
  | nil => exact (Prod.mk.inj (Traced.yields_pure.mp h)).2
  | cons e rest ih =>
      obtain ⟨o, slot₁, more, he, hrest, -⟩ := Session.yields_runEach_cons.mp h
      obtain rfl := leads_edit he
      exact ih hrest

end Slot

namespace Store

variable {flags : DebugFlags} {s s' : Store} {name : String}

theorem yields_checkName {o : Except SetupError Unit}
    (h : (checkName name).run.Yields flags o) :
    (name.isEmpty = false ∧ o = .ok ()) ∨ (name.isEmpty = true ∧ ∃ e, o = .error e) := by
  unfold checkName at h
  by_cases hn : name.isEmpty = true
  · rw [if_pos hn, Checked.yields_refuse] at h
    exact Or.inr ⟨hn, _, h.2⟩
  · rw [if_neg hn] at h
    exact Or.inl ⟨Bool.eq_false_iff.mpr hn, Traced.yields_pure.mp h⟩

/-- The value that a slot on this name opens with. -/
def slot? (s : Store) (name : String) : Option Value :=
  if name.isEmpty then none else (s.pending.get? name).or (s.committed.get? name)

theorem putPending_putPending (s : Store) (name : String) (v w : Value) :
    (s.putPending name v).putPending name w = s.putPending name w := by
  unfold putPending
  congr 1
  refine SortedMap.ext_get? fun k => ?_
  by_cases hk : k = name <;> simp [SortedMap.get?_insert, hk]

/-- Opening a slot may copy the committed value, which the value under edit then replaces. -/
theorem leads_openSlot {o : Except SetupError Slot} (h : (openSlot name).Leads flags s o s') :
    (∃ v, s.slot? name = some v ∧ o = .ok ⟨name, v⟩ ∧
        ∀ w, s'.putPending name w = s.putPending name w) ∨
      s.slot? name = none ∧ (∃ e, o = .error e) ∧ s' = s := by
  unfold openSlot at h
  simp only [Session.leads_checked_bind, Session.leads_get_bind] at h
  obtain ⟨u, hn, h⟩ | ⟨e, hn, rfl, rfl⟩ := h
  · obtain ⟨hn, -⟩ | ⟨-, e, he⟩ := yields_checkName hn
    · cases hp : s.pending.get? name with
      | some v =>
          simp only [hp, Session.leads_pure] at h
          obtain ⟨rfl, rfl⟩ := h
          exact Or.inl ⟨v, by simp [slot?, hn, hp], rfl, fun _ => rfl⟩
      | none =>
          cases hc : s.committed.get? name with
          | some v =>
              simp only [hp, hc, Session.leads_modify_bind, Session.leads_pure] at h
              obtain ⟨rfl, rfl⟩ := h
              exact Or.inl ⟨v, by simp [slot?, hn, hp, hc], rfl, putPending_putPending s name v⟩
          | none =>
              simp only [hp, hc, Session.leads_refuse] at h
              obtain ⟨⟨-, ho⟩, hs⟩ := h
              exact Or.inr ⟨by simp [slot?, hp, hc], ⟨_, ho⟩, hs⟩
    · cases he
  · obtain ⟨-, he⟩ | ⟨hn, -⟩ := yields_checkName hn
    · cases he
    · exact Or.inr ⟨by simp [slot?, hn], ⟨e, rfl⟩, rfl⟩

theorem leads_stage {edits : List Edit}
    {o : Except SetupError (List (Except SetupError EditAnswer))}
    (h : (stage name edits).Leads flags s o s') :
    (∃ v answers, s.slot? name = some v ∧ o = .ok answers ∧
        s' = s.putPending name (Edit.applyAll edits v)) ∨
      s.slot? name = none ∧ (∃ e, o = .error e) ∧ s' = s := by
  unfold stage at h
  rcases Session.leads_bind.mp h with ⟨slot, s₁, hopen, h⟩ | ⟨e, hopen, rfl⟩
  · obtain ⟨v, hv, ho, hput⟩ | ⟨-, ⟨e, he⟩, -⟩ := leads_openSlot hopen
    · obtain rfl := Except.ok.inj ho
      simp only [Session.leads_traced_bind, Session.leads_modify_bind, Session.leads_pure] at h
      obtain ⟨⟨answers, slot'⟩, hedits, rfl, rfl⟩ := h
      obtain rfl := Slot.yields_edits hedits
      exact Or.inl ⟨v, answers, hv, rfl, hput _⟩
    · cases he
  · obtain ⟨_, -, ho, -⟩ | ⟨hnone, -, hs⟩ := leads_openSlot hopen
    · cases ho
    · exact Or.inr ⟨hnone, ⟨e, rfl⟩, hs⟩

theorem gives_setValue (name : String) (v : Value) (s : Store) : Session.Gives (setValue name v) s
    (if name = "" then (.error (.invalidArgument .emptyAttributeName), s)
      else (.ok (), s.put name v)) := by
  by_cases hn : name = ""
  · subst hn
    exact gives_setValueWith_emptyName .granted v s
  · rw [if_neg hn]
    exact gives_setValueWith hn (Or.inr rfl)

theorem leads_setValue {v : Value} {o : Except SetupError Unit}
    (h : (setValue name v).Leads flags s o s') :
    (name.isEmpty = false ∧ o = .ok () ∧ s' = s.put name v) ∨
      name.isEmpty = true ∧ (∃ e, o = .error e) ∧ s' = s := by
  obtain ⟨h, -⟩ := (gives_setValue name v s flags o s').mp h
  by_cases hn : name = ""
  · rw [if_pos hn] at h
    obtain ⟨rfl, rfl⟩ := Prod.mk.inj h
    exact Or.inr ⟨by simpa using hn, ⟨_, rfl⟩, rfl⟩
  · rw [if_neg hn] at h
    obtain ⟨rfl, rfl⟩ := Prod.mk.inj h
    exact Or.inl ⟨by simpa using hn, rfl, rfl⟩

theorem leads_setValue_of_named {v : Value} {o : Except SetupError Unit} (h : name ≠ "") :
    (setValue name v).Leads flags s o s' ↔ o = .ok () ∧ s' = s.put name v :=
  (gives_setValueWith h (Or.inr rfl)).leads_ok

/-- The store after values are set in turn. -/
def putAll (s : Store) (entries : List (String × Value)) : Store :=
  entries.foldl (fun s e => s.put e.1 e.2) s

theorem putAll_of_pending_empty (m : SortedMap String Value) (entries : List (String × Value)) :
    putAll ⟨m, .empty⟩ entries = ⟨m.insertAll entries, .empty⟩ := by
  induction entries generalizing m with
  | nil => rfl
  | cons e rest ih => exact ih (m.insert e.1 e.2)

/-- A commit always returns, and without pending values it changes nothing either. -/
theorem leads_commitPending {o : Except SetupError Nat} :
    commitPending.Leads flags s o s' ↔ o = .ok s.pending.size ∧ s' = s.commit :=
  (gives_commitPendingWith (Or.inr rfl)).leads_ok

theorem leads_discardPending {o : Except SetupError Nat} :
    discardPending.Leads flags s o s' ↔ o = .ok s.pending.size ∧ s' = s.discard := by
  simp only [discardPending, Session.leads_get_bind, Session.leads_modify_bind, Session.leads_pure]

end Store

namespace Call

/-- The store that a call leaves. -/
def after : Call → Store → Store
  | set name v, s => if name.isEmpty then s else s.put name v
  | stage name edits, s =>
      match s.slot? name with
      | some v => s.putPending name (Edit.applyAll edits v)
      | none => s
  | commit, s => s.commit
  | discard, s => s.discard
  | remove name, s => s.remove name
  | _, s => s

def afterAll (calls : List Call) (s : Store) : Store := calls.foldl (fun s c => c.after s) s

variable {flags : DebugFlags} {s s' : Store}

theorem leads_look {f : Store → Answer} {o : Except SetupError Answer}
    (h : (look f).Leads flags s o s') : o = .ok (f s) ∧ s' = s := by
  simpa only [look, Session.leads_get_bind, Session.leads_pure] using h

theorem leads_copyInto {name : String} {buffer : List UInt8} {o : Except SetupError Answer}
    (h : (run (copyInto name buffer)).Leads flags s o s') : s' = s := by
  simp only [run, Session.leads_get_bind, Session.leads_traced_bind] at h
  obtain ⟨⟨outcome, bytes⟩, -, h⟩ := h
  cases outcome with
  | ok u => exact (Session.leads_pure.mp h).2
  | error e => exact (Prod.mk.inj (Traced.yields_pure.mp h)).2

theorem leads_run {c : Call} {o : Except SetupError Answer} (h : c.run.Leads flags s o s') :
    s' = c.after s := by
  cases c with
  | set name v =>
      simp only [run, Session.leads_bind, Session.leads_pure] at h
      obtain ⟨_, _, hset, -, rfl⟩ | ⟨_, hset, -⟩ := h
      all_goals
        obtain ⟨hn, -, rfl⟩ | ⟨hn, -, rfl⟩ := Store.leads_setValue hset <;> simp [after, hn]
  | read name kind =>
      simp only [run, Session.leads_get_bind, Session.leads_checked_bind, Session.leads_pure] at h
      obtain ⟨_, -, -, rfl⟩ | ⟨_, -, -, rfl⟩ := h <;> rfl
  | readBlock name size =>
      simp only [run, Session.leads_get_bind, Session.leads_checked_bind, Session.leads_pure] at h
      obtain ⟨_, -, -, rfl⟩ | ⟨_, -, -, rfl⟩ := h <;> rfl
  | copyInto name buffer => exact leads_copyInto h
  | stage name edits =>
      simp only [run, Session.leads_bind, Session.leads_pure] at h
      obtain ⟨_, _, hstage, -, rfl⟩ | ⟨_, hstage, -⟩ := h
      all_goals
        obtain ⟨v, _, hv, -, rfl⟩ | ⟨hv, -, rfl⟩ := Store.leads_stage hstage <;> simp [after, hv]
  | commit =>
      simp only [run, Session.leads_bind, Session.leads_pure, Store.leads_commitPending] at h
      obtain ⟨_, _, ⟨-, rfl⟩, -, rfl⟩ | ⟨_, ⟨he, -⟩, -⟩ := h
      · rfl
      · cases he
  | discard =>
      simp only [run, Session.leads_bind, Session.leads_pure, Store.leads_discardPending] at h
      obtain ⟨_, _, ⟨-, rfl⟩, -, rfl⟩ | ⟨_, ⟨he, -⟩, -⟩ := h
      · rfl
      · cases he
  | remove name =>
      simp only [run, Session.leads_get_bind, Session.leads_modify_bind, Session.leads_pure] at h
      exact h.2
  | listing =>
      simp only [run, Session.leads_get_bind, Session.leads_traced_bind, Session.leads_pure] at h
      obtain ⟨_, -, -, rfl⟩ := h
      rfl
  | value name | kindOf name | contains name | isEmpty | length | hasPending | keys | entries
  | dump | profileText => exact (leads_look h).2

/-- A run of calls, failed ones included, leaves one store whatever the debug word is. -/
theorem yields_runAll {calls : List Call} {answers : List (Except SetupError Answer)}
    (h : (runAll calls s).Yields flags (answers, s')) : s' = afterAll calls s := by
  induction calls generalizing s answers with
  | nil => exact (Prod.mk.inj (Traced.yields_pure.mp h)).2
  | cons c rest ih =>
      obtain ⟨o, s₁, more, hc, hrest, -⟩ := Session.yields_runEach_cons.mp h
      obtain rfl := leads_run hc
      exact ih hrest

/-- What each call of a run keeps, the run keeps. -/
theorem afterAll_induction {Keeps : Call → Prop} (P : Store → Prop)
    (hstep : ∀ c s, Keeps c → P s → P (c.after s)) {calls : List Call}
    (hcalls : ∀ c ∈ calls, Keeps c) (hs : P s) : P (afterAll calls s) := by
  induction calls generalizing s with
  | nil => exact hs
  | cons c rest ih =>
      have hc := List.forall_mem_cons.mp hcalls
      exact ih hc.2 (hstep c s hc.1 hs)

end Call

end EncoderSetup

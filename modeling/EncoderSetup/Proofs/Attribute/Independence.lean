import EncoderSetup.Proofs.Attribute.Answers

/-!
# Calls on different names do not interfere

`Store.AgreeOn` says that two stores have the same values of one name, committed and pending. A call
on a name sees nothing else of a store: where two stores agree on the name, it answers alike and
leaves stores that agree on it (`Call.confined_run`), and it keeps every other name
(`Call.agreeOn_after_of_ne`). So two neighbouring calls on different names may be exchanged, and a
run of calls on distinct names may be put into any order (`Call.yields_runAll_perm`).
-/

namespace EncoderSetup

namespace Store

/-- The stores have the same values of this name. -/
structure AgreeOn (k : String) (s t : Store) : Prop where
  committed : s.committed.get? k = t.committed.get? k
  pending : s.pending.get? k = t.pending.get? k

namespace AgreeOn

variable {k : String} {s t u : Store}

theorem refl (k : String) (s : Store) : AgreeOn k s s := ⟨rfl, rfl⟩

theorem symm (h : AgreeOn k s t) : AgreeOn k t s := ⟨h.committed.symm, h.pending.symm⟩

theorem trans (h : AgreeOn k s t) (h' : AgreeOn k t u) : AgreeOn k s u :=
  ⟨h.committed.trans h'.committed, h.pending.trans h'.pending⟩

theorem put (h : AgreeOn k s t) (name : String) (v : Value) :
    AgreeOn k (s.put name v) (t.put name v) := by
  constructor
  · simp only [Store.put, SortedMap.get?_insert, h.committed]
  · simp only [Store.put, SortedMap.get?_erase, h.pending]

theorem remove (h : AgreeOn k s t) (name : String) : AgreeOn k (s.remove name) (t.remove name) := by
  constructor
  · simp only [Store.remove, SortedMap.get?_erase, h.committed]
  · simp only [Store.remove, SortedMap.get?_erase, h.pending]

theorem putPending (h : AgreeOn k s t) (name : String) (v : Value) :
    AgreeOn k (s.putPending name v) (t.putPending name v) := by
  refine ⟨h.committed, ?_⟩
  simp only [Store.putPending, SortedMap.get?_insert, h.pending]

end AgreeOn

variable {k name : String} {s t : Store}

theorem ext_agreeOn (h : ∀ k, AgreeOn k s t) : s = t := by
  obtain ⟨committed, pending⟩ := s
  obtain ⟨committed', pending'⟩ := t
  obtain rfl : committed = committed' := SortedMap.ext_get? fun k => (h k).committed
  obtain rfl : pending = pending' := SortedMap.ext_get? fun k => (h k).pending
  rfl

/-- The session answers alike on stores that agree on the name, and lets them agree. -/
def Confined {α : Type} (k : String) (x : Session Store α) : Prop :=
  ∀ ⦃flags s t o s'⦄, AgreeOn k s t → x.Leads flags s o s' →
    ∃ t', x.Leads flags t o t' ∧ AgreeOn k s' t'

section Confined

variable {α β : Type}

theorem confined_pure (a : α) : Confined k (pure a : Session Store α) := by
  intro flags s t o s' hst h
  obtain ⟨rfl, rfl⟩ := Session.leads_pure.mp h
  exact ⟨t, Session.leads_pure.mpr ⟨rfl, rfl⟩, hst⟩

theorem confined_checked (x : Checked α) : Confined k (liftM x : Session Store α) := by
  intro flags s t o s' hst h
  obtain ⟨hx, rfl⟩ := Session.leads_checked.mp h
  exact ⟨t, Session.leads_checked.mpr ⟨hx, rfl⟩, hst⟩

theorem confined_traced (x : Traced α) : Confined k (liftM x : Session Store α) :=
  confined_checked (liftM x)

theorem confined_ofExcept (outcome : Except SetupError α) :
    Confined k (MonadExcept.ofExcept outcome : Session Store α) := by
  cases outcome with
  | ok a => exact confined_pure a
  | error e =>
      intro flags s t o s' hst h
      obtain ⟨rfl, rfl⟩ := Prod.mk.inj (Traced.yields_pure.mp h)
      exact ⟨t, Traced.yields_pure.mpr rfl, hst⟩

theorem confined_refuse (e : SetupError) : Confined k (Session.refuse e : Session Store α) :=
  confined_checked (Checked.refuse e)

theorem confined_modify {g : Store → Store} (hg : ∀ s t, AgreeOn k s t → AgreeOn k (g s) (g t)) :
    Confined k (modify g : Session Store Unit) := by
  intro flags s t o s' hst h
  obtain ⟨rfl, rfl⟩ := Session.leads_modify.mp h
  exact ⟨g t, Session.leads_modify.mpr ⟨rfl, rfl⟩, hg s t hst⟩

theorem Confined.bind {x : Session Store α} {f : α → Session Store β} (hx : Confined k x)
    (hf : ∀ a, Confined k (f a)) : Confined k (x >>= f) := by
  intro flags s t o s' hst h
  rcases Session.leads_bind.mp h with ⟨a, s₁, hxs, hfs⟩ | ⟨e, hxs, rfl⟩
  · obtain ⟨t₁, hxt, h₁⟩ := hx hst hxs
    obtain ⟨t', hft, h'⟩ := hf a h₁ hfs
    exact ⟨t', Session.leads_bind.mpr (Or.inl ⟨a, t₁, hxt, hft⟩), h'⟩
  · obtain ⟨t', hxt, h'⟩ := hx hst hxs
    exact ⟨t', Session.leads_bind.mpr (Or.inr ⟨e, hxt, rfl⟩), h'⟩

/-- What a session makes of the store may only depend on the name. -/
theorem confined_get_bind {f : Store → Session Store α} (hf : ∀ s, Confined k (f s))
    (hcongr : ∀ s t, AgreeOn k s t → f s = f t) : Confined k (get >>= f) := by
  intro flags s t o s' hst h
  obtain ⟨t', ht, h'⟩ := hf s hst (Session.leads_get_bind.mp h)
  rw [hcongr s t hst] at ht
  exact ⟨t', Session.leads_get_bind.mpr ht, h'⟩

end Confined

theorem lookup_congr (h : AgreeOn name s t) : s.lookup name = t.lookup name := by
  unfold lookup value?
  rw [h.committed]

theorem read_congr (h : AgreeOn name s t) (kind : Kind) : s.read name kind = t.read name kind := by
  unfold read
  rw [lookup_congr h]

theorem fetch_congr {α : Type} [Storable α] (h : AgreeOn name s t) :
    s.fetch α name = t.fetch α name := by
  unfold fetch
  rw [lookup_congr h]

theorem fetchBlock_congr (h : AgreeOn name s t) (size : Nat) :
    s.fetchBlock name size = t.fetchBlock name size := by
  unfold fetchBlock
  rw [fetch_congr h]

theorem copyInto_congr (h : AgreeOn name s t) : s.copyInto name = t.copyInto name := by
  unfold copyInto
  rw [fetch_congr h]

theorem confined_setValueWith (r : Reservation) (name : String) (v : Value) :
    Confined name (setValueWith r name v) := by
  refine (confined_checked _).bind fun _ => (confined_traced _).bind fun _ => ?_
  have hput := confined_modify fun s t (h : AgreeOn name s t) => h.put name v
  refine confined_get_bind (fun s => ?_) fun s t h => ?_
  · split
    · exact hput
    · exact (confined_checked _).bind fun _ => hput
  · rw [contains, contains, value?, value?, h.committed]

theorem confined_openSlot (name : String) : Confined name (openSlot name) := by
  refine (confined_checked _).bind fun _ => confined_get_bind (fun s => ?_) fun s t h => ?_
  · split
    · exact confined_pure _
    · exact (confined_modify fun s t h => h.putPending name _).bind fun _ => confined_pure _
    · exact confined_refuse _
  · rw [h.committed, h.pending]

theorem confined_stage (name : String) (edits : List Edit) : Confined name (stage name edits) := by
  refine (confined_openSlot name).bind fun slot => (confined_traced _).bind fun r => ?_
  exact (confined_modify fun s t h => h.putPending name _).bind fun _ => confined_pure _

end Store

namespace Call

open Store (AgreeOn Confined confined_pure confined_checked confined_traced confined_ofExcept
  confined_modify confined_get_bind)

/-- The name that a call on one attribute is about. -/
def key? : Call → Option String
  | set name _ | read name _ | readBlock name _ | copyInto name _ | stage name _ | remove name
  | value name | kindOf name | contains name => some name
  | _ => none

variable {c d : Call} {k k' : String} {flags : DebugFlags} {s s' t : Store}

theorem confined_look {f : Store → Answer} (hf : ∀ s t, AgreeOn k s t → f s = f t) :
    Confined k (look f) :=
  confined_get_bind (fun _ => confined_pure _) fun s t h => by rw [hf s t h]

theorem confined_copyInto (name : String) (buffer : List UInt8) :
    Confined name (run (copyInto name buffer)) := by
  refine confined_get_bind (fun s => (confined_traced _).bind fun r => ?_) fun s t h => ?_
  · exact (confined_ofExcept r.1).bind fun _ => confined_pure _
  · rw [Store.copyInto_congr h]

theorem confined_run (hc : c.key? = some k) : Confined k c.run := by
  cases c with
  | set name v =>
      obtain rfl := Option.some.inj hc
      exact (Store.confined_setValueWith .granted name v).bind fun _ => confined_pure _
  | read name kind =>
      obtain rfl := Option.some.inj hc
      refine confined_get_bind (fun s => (confined_checked _).bind fun _ => confined_pure _) ?_
      intro s t h
      rw [Store.read_congr h]
  | readBlock name size =>
      obtain rfl := Option.some.inj hc
      refine confined_get_bind (fun s => (confined_checked _).bind fun _ => confined_pure _) ?_
      intro s t h
      rw [Store.fetchBlock_congr h]
  | copyInto name buffer =>
      obtain rfl := Option.some.inj hc
      exact confined_copyInto name buffer
  | stage name edits =>
      obtain rfl := Option.some.inj hc
      exact (Store.confined_stage name edits).bind fun _ => confined_pure _
  | remove name =>
      obtain rfl := Option.some.inj hc
      refine confined_get_bind (fun s => ?_) fun s t h => ?_
      · exact (confined_modify fun s t h => h.remove name).bind fun _ => confined_pure _
      · rw [Store.value?, Store.value?, h.committed]
  | value name | kindOf name | contains name =>
      obtain rfl := Option.some.inj hc
      refine confined_look fun s t h => ?_
      simp only [Store.contains, Store.kindOf?, Store.value?, h.committed]
  | _ => cases hc

theorem agreeOn_after (hc : c.key? = some k) (h : AgreeOn k s t) :
    AgreeOn k (c.after s) (c.after t) := by
  obtain ⟨⟨o, s'⟩, hrun⟩ := c.settled_run s
  have hs : c.run.Leads .clear s o s' := hrun .clear (by decide)
  obtain ⟨t', ht, h'⟩ := confined_run hc h hs
  rwa [leads_run hs, leads_run ht] at h'

theorem leads_of_agreeOn (hc : c.key? = some k) (h : AgreeOn k s t) {o : Except SetupError Answer}
    (hs : c.run.Leads flags s o s') : c.run.Leads flags t o (c.after t) := by
  obtain ⟨t', ht, -⟩ := confined_run hc h hs
  rwa [leads_run ht] at ht

theorem agreeOn_after_of_ne (hc : c.key? = some k) (hk : k' ≠ k) (s : Store) :
    AgreeOn k' (c.after s) s := by
  cases c with
  | set name v =>
      obtain rfl := Option.some.inj hc
      simp only [after]
      split
      · exact .refl k' s
      · exact ⟨SortedMap.get?_insert_of_ne _ _ hk, SortedMap.get?_erase_of_ne _ hk⟩
  | stage name edits =>
      obtain rfl := Option.some.inj hc
      simp only [after]
      split
      · exact ⟨rfl, SortedMap.get?_insert_of_ne _ _ hk⟩
      · exact .refl k' s
  | remove name =>
      obtain rfl := Option.some.inj hc
      exact ⟨SortedMap.get?_erase_of_ne _ hk, SortedMap.get?_erase_of_ne _ hk⟩
  | commit | discard => cases hc
  | _ => exact .refl k' s

theorem after_comm (hc : c.key? = some k) (hd : d.key? = some k') (hk : k ≠ k') (s : Store) :
    d.after (c.after s) = c.after (d.after s) := by
  refine Store.ext_agreeOn fun j => ?_
  -- Each of the two names is changed by its own call alone, any other name by neither.
  by_cases hj : j = k'
  · subst hj
    have hleft := agreeOn_after hd (agreeOn_after_of_ne hc hk.symm s)
    exact hleft.trans (agreeOn_after_of_ne hc hk.symm (d.after s)).symm
  · have hleft := agreeOn_after_of_ne hd hj (c.after s)
    by_cases hjk : j = k
    · subst hjk
      exact hleft.trans (agreeOn_after hc (agreeOn_after_of_ne hd hj s)).symm
    · have hright := (agreeOn_after_of_ne hc hjk (d.after s)).trans (agreeOn_after_of_ne hd hj s)
      exact hleft.trans ((agreeOn_after_of_ne hc hjk s).trans hright.symm)

/-- Every call is about one name, and no two about the same. -/
structure OnDistinctNames (calls : List Call) : Prop where
  keyed : ∀ c ∈ calls, ∃ k, c.key? = some k
  nodup : (calls.map key?).Nodup

namespace OnDistinctNames

variable {calls calls' rest : List Call}

theorem perm (h : OnDistinctNames calls) (hp : calls.Perm calls') : OnDistinctNames calls' :=
  ⟨fun c hc => h.keyed c (hp.mem_iff.mpr hc), (hp.map key?).nodup_iff.mp h.nodup⟩

theorem tail (h : OnDistinctNames (c :: rest)) : OnDistinctNames rest :=
  ⟨(List.forall_mem_cons.mp h.keyed).2, (List.nodup_cons.mp h.nodup).2⟩

theorem exists_ne (h : OnDistinctNames (c :: rest)) (hd : d ∈ rest) :
    ∃ k k', c.key? = some k ∧ d.key? = some k' ∧ k ≠ k' := by
  obtain ⟨k, hk⟩ := h.keyed c List.mem_cons_self
  obtain ⟨k', hk'⟩ := h.keyed d (List.mem_cons_of_mem c hd)
  refine ⟨k, k', hk, hk', ?_⟩
  rintro rfl
  exact (List.nodup_cons.mp h.nodup).1 (List.mem_map.mpr ⟨d, hd, hk'.trans hk.symm⟩)

end OnDistinctNames

/-- Two neighbouring calls on different names answer alike in both orders. -/
theorem yields_runAll_swap {rest : List Call} {answers : List (Except SetupError Answer)}
    (hcalls : OnDistinctNames (c :: d :: rest))
    (h : (runAll (c :: d :: rest) s).Yields flags (answers, s')) :
    ∃ o o' more, answers = o :: o' :: more ∧
      (runAll (d :: c :: rest) s).Yields flags (o' :: o :: more, s') := by
  obtain ⟨k, k', hc, hd, hk⟩ := hcalls.exists_ne List.mem_cons_self
  obtain ⟨o, s₁, _, hfirst, hlater, rfl⟩ := Session.yields_runEach_cons.mp h
  obtain ⟨o', s₂, more, hsecond, hrest, rfl⟩ := Session.yields_runEach_cons.mp hlater
  obtain rfl := leads_run hfirst
  obtain rfl := leads_run hsecond
  have hsecond' := leads_of_agreeOn hd (agreeOn_after_of_ne hc hk.symm s) hsecond
  have hfirst' := leads_of_agreeOn hc (agreeOn_after_of_ne hd hk s).symm hfirst
  rw [after_comm hc hd hk] at hrest
  refine ⟨o, o', more, rfl, Session.yields_runEach_cons.mpr ⟨o', _, _, hsecond', ?_, rfl⟩⟩
  exact Session.yields_runEach_cons.mpr ⟨o, _, _, hfirst', hrest, rfl⟩

/-- In another order the same store is left, and every call is answered as before. -/
theorem yields_runAll_perm {calls calls' : List Call} (hcalls : OnDistinctNames calls)
    (hp : calls.Perm calls') {answers : List (Except SetupError Answer)}
    (h : (runAll calls s).Yields flags (answers, s')) :
    ∃ answers', (runAll calls' s).Yields flags (answers', s') ∧
      (calls'.zip answers').Perm (calls.zip answers) := by
  induction hp generalizing s answers with
  | nil => exact ⟨answers, h, List.Perm.refl _⟩
  | cons c _ ih =>
      obtain ⟨o, s₁, more, hc, hrest, rfl⟩ := Session.yields_runEach_cons.mp h
      obtain ⟨more', hrest', hperm⟩ := ih hcalls.tail hrest
      have hrun := Session.yields_runEach_cons.mpr ⟨o, s₁, more', hc, hrest', rfl⟩
      exact ⟨o :: more', hrun, hperm.cons _⟩
  | swap c d rest =>
      obtain ⟨o, o', more, rfl, hswap⟩ := yields_runAll_swap hcalls h
      exact ⟨o' :: o :: more, hswap, List.Perm.swap _ _ _⟩
  | trans hp _ ih ih' =>
      obtain ⟨_, hmiddle, hperm⟩ := ih hcalls h
      obtain ⟨answers', hlast, hperm'⟩ := ih' (hcalls.perm hp) hmiddle
      exact ⟨answers', hlast, hperm'.trans hperm⟩

/-- Every call is answered as it would be without the others. -/
theorem leads_of_yields_runAll {calls : List Call} (hcalls : OnDistinctNames calls)
    {answers : List (Except SetupError Answer)}
    (h : (runAll calls s).Yields flags (answers, s')) :
    ∀ p ∈ calls.zip answers, p.1.run.Leads flags s p.2 (p.1.after s) := by
  induction calls generalizing s answers with
  | nil => exact fun p hp => (List.not_mem_nil hp).elim
  | cons c rest ih =>
      obtain ⟨o, s₁, more, hc, hrest, rfl⟩ := Session.yields_runEach_cons.mp h
      obtain rfl := leads_run hc
      refine List.forall_mem_cons.mpr ⟨hc, fun p hp => ?_⟩
      obtain ⟨k, k', hk, hk', hne⟩ := hcalls.exists_ne (List.of_mem_zip hp).1
      exact leads_of_agreeOn hk' (agreeOn_after_of_ne hk hne.symm s) (ih hcalls.tail hrest p hp)

theorem length_of_yields_runAll {calls : List Call} {answers : List (Except SetupError Answer)}
    (h : (runAll calls s).Yields flags (answers, s')) : answers.length = calls.length := by
  induction calls generalizing s answers with
  | nil =>
      obtain ⟨rfl, -⟩ := Prod.mk.inj (Traced.yields_pure.mp h)
      rfl
  | cons c rest ih =>
      obtain ⟨o, s₁, more, -, hrest, rfl⟩ := Session.yields_runEach_cons.mp h
      rw [List.length_cons, List.length_cons, ih hrest]

end Call

end EncoderSetup

import EncoderSetup.Proofs.Attribute.Invariant
import EncoderSetup.Proofs.Attribute.Updates
import EncoderSetup.Proofs.Diagnostic.Given

/-!
# Typed reads

`Store.readResult` is what a read of one kind answers, a function of the committed value alone: an
empty name is refused first, then an absent one, then a value of another kind. Reading as a type,
reading as a kind and copying a block over a buffer all follow it. What the committed value is,
`Call.lastWritten` says from the calls that came before (`Call.value?_afterAll_eq`), and its kind
changes by a set or a removal alone (`Call.kindOf?_afterAll`).
-/

namespace EncoderSetup

def Value.bytes : Value → List UInt8
  | st bytes => bytes
  | _ => []

namespace Store

/-- What a read of a name as this kind answers. -/
def readResult (s : Store) (name : String) (kind : Kind) : Except SetupError Value :=
  if name = "" then .error (.invalidArgument .emptyAttributeName)
  else match s.value? name with
    | none => .error (.notFound (.attributeName name))
    | some v => if v.kind = kind then .ok v else .error (.typeMismatch name v.kind kind)

/-- What copying a block over a buffer answers, and the buffer it leaves. -/
def copyResult (s : Store) (name : String) (buffer : List UInt8) :
    Except SetupError Unit × List UInt8 :=
  match s.readResult name .st with
  | .error e => (.error e, buffer)
  | .ok v =>
      if v.bytes.length = buffer.length then (.ok (), v.bytes)
      else (.error (.invalidArgument (.bufferLength name v.bytes.length buffer.length)), buffer)

variable {s : Store} {name : String} {kind : Kind}

/-- Reading as a type is reading as its kind, logs included. -/
theorem toValue_fetch (α : Type) [Storable α] (s : Store) (name : String) :
    Storable.toValue <$> s.fetch α name = s.read name (Storable.kind α) := by
  unfold fetch read
  rw [map_bind]
  refine bind_congr fun v => ?_
  cases h : (Storable.ofValue? v : Option α) with
  | none =>
      have hkind : v.kind ≠ Storable.kind α := by
        rw [ne_eq, ← Storable.isSome_ofValue?_iff, h]
        exact Bool.false_ne_true
      rw [if_neg hkind]
      exact Checked.map_refuse _ _
  | some a =>
      have hkind : v.kind = Storable.kind α := by
        rw [← Storable.isSome_ofValue?_iff, h]
        rfl
      obtain rfl := (Storable.ofValue?_eq_some_iff v a).mp h
      rw [if_pos hkind]
      exact map_pure _ _

theorem gives_lookup {v : Value} (hn : name ≠ "") (hv : s.value? name = some v) :
    Checked.Gives (s.lookup name) (.ok v) := by
  refine Checked.gives_bind (gives_checkName hn) ?_
  rw [hv]
  exact Checked.gives_bind (Checked.gives_logIf _ _) (Checked.gives_pure v)

theorem gives_read (s : Store) (name : String) (kind : Kind) :
    Checked.Gives (s.read name kind) (s.readResult name kind) := by
  unfold read readResult
  by_cases hn : name = ""
  · subst hn
    rw [if_pos rfl]
    refine Checked.gives_bind_of_error (Checked.gives_bind_of_error ?_)
    exact Checked.gives_refuse _
  · rw [if_neg hn]
    cases hv : s.value? name with
    | none =>
        refine Checked.gives_bind_of_error (Checked.gives_bind (gives_checkName hn) ?_)
        rw [hv]
        exact Checked.gives_refuse _
    | some v =>
        refine Checked.gives_bind (gives_lookup hn hv) ?_
        dsimp only
        split
        · exact Checked.gives_pure v
        · exact Checked.gives_refuse _

theorem gives_fetch_bytes (s : Store) (name : String) :
    Checked.Gives (s.fetch (List UInt8) name) (Value.bytes <$> s.readResult name .st) := by
  have hread := Checked.gives_map Value.bytes (s.gives_read name .st)
  have hfetch : Value.bytes <$> s.read name .st = s.fetch (List UInt8) name := by
    refine (congrArg (Value.bytes <$> ·) (toValue_fetch (List UInt8) s name)).symm.trans ?_
    rw [Functor.map_map]
    exact id_map _
  rwa [hfetch] at hread

/-- A copy that is refused leaves the buffer as it was. -/
theorem gives_copyInto (s : Store) (name : String) (buffer : List UInt8) :
    Session.Gives (s.copyInto name) buffer (s.copyResult name buffer) := by
  have hfetch := s.gives_fetch_bytes name
  unfold copyInto copyResult
  cases hr : s.readResult name .st with
  | error e =>
      rw [hr] at hfetch
      exact Session.gives_checked_bind_of_error hfetch
  | ok v =>
      rw [hr] at hfetch
      refine Session.gives_checked_bind hfetch (Session.gives_get_bind ?_)
      dsimp only
      split
      · exact Session.gives_modify _
      · exact Session.gives_checked (Checked.gives_refuse _)

end Store

namespace Call

variable {c : Call} {k : String} {s : Store}

/-- What a call writes for a name: a value, or that there is none. -/
def writes (k : String) : Call → Store → Option (Option Value)
  | set name v, _ => if name = k ∧ name ≠ "" then some (some v) else none
  | remove name, _ => if name = k then some none else none
  | commit, s => (s.pending.get? k).map some
  | _, _ => none

/-- What a run of calls writes last for a name. -/
def lastWritten (k : String) : List Call → Store → Option (Option Value)
  | [], _ => none
  | c :: rest, s => (lastWritten k rest (c.after s)).or (c.writes k s)

theorem value?_after_eq (c : Call) (k : String) (s : Store) :
    (c.after s).value? k = (c.writes k s).getD (s.value? k) := by
  cases c with
  | set name v =>
      by_cases hn : name = ""
      · simp [after, writes, hn]
      · by_cases hk : k = name
        · subst hk
          simp [after, writes, hn, Store.value?, Store.put]
        · simp [after, writes, hn, Ne.symm hk, Store.value?, Store.put,
            SortedMap.get?_insert_of_ne _ _ hk]
  | remove name =>
      by_cases hk : k = name
      · subst hk
        simp [after, writes, Store.value?, Store.remove]
      · simp [after, writes, Ne.symm hk, Store.value?, Store.remove,
          SortedMap.get?_erase_of_ne _ hk]
  | commit =>
      cases hp : s.pending.get? k <;>
        simp [after, writes, hp, Store.value?, Store.commit, SortedMap.get?_merge]
  | stage name edits =>
      simp only [after, writes, Option.getD_none]
      split <;> rfl
  | _ => rfl

/-- After a run of calls a name has the value that was last written for it. -/
theorem value?_afterAll_eq (calls : List Call) (k : String) (s : Store) :
    (afterAll calls s).value? k = (lastWritten k calls s).getD (s.value? k) := by
  induction calls generalizing s with
  | nil => rfl
  | cons c rest ih =>
      have hstep := value?_after_eq c k s
      calc (afterAll (c :: rest) s).value? k
          = (lastWritten k rest (c.after s)).getD ((c.after s).value? k) := ih (c.after s)
        _ = (lastWritten k (c :: rest) s).getD (s.value? k) := by
            rw [hstep, lastWritten]
            cases lastWritten k rest (c.after s) <;> rfl

/-- A call that removes a name or sets it to a value of another kind. -/
def endsKind (k : String) (kind : Kind) : Call → Bool
  | set name v => name == k && v.kind != kind
  | remove name => name == k
  | _ => false

theorem kindOf?_after {kind : Kind} (hs : s.WellFormed) (hc : c.endsKind k kind = false)
    (hk : s.kindOf? k = some kind) : (c.after s).kindOf? k = some kind := by
  cases c with
  | set name v =>
      simp only [after]
      split
      · exact hk
      · by_cases hname : k = name
        · subst hname
          have hv : v.kind = kind := by simpa [endsKind] using hc
          rw [← hv]
          exact congrArg (Option.map Value.kind) (SortedMap.get?_insert_self _ _ _)
        · refine Eq.trans ?_ hk
          exact congrArg (Option.map Value.kind) (SortedMap.get?_insert_of_ne _ _ hname)
  | remove name =>
      have hname : k ≠ name := Ne.symm (beq_eq_false_iff_ne.mp hc)
      exact (congrArg (Option.map Value.kind) (SortedMap.get?_erase_of_ne _ hname)).trans hk
  | commit =>
      -- A pending value may be written here; it is of the kind it stands in for.
      rw [after, ← Store.get?_kinds, hs.kinds_commit, Store.get?_kinds]
      exact hk
  | stage name edits =>
      simp only [after]
      split <;> exact hk
  | _ => exact hk

theorem kindOf?_afterAll {kind : Kind} {calls : List Call} (hs : s.WellFormed)
    (hcalls : ∀ c ∈ calls, c.endsKind k kind = false) (hk : s.kindOf? k = some kind) :
    (afterAll calls s).kindOf? k = some kind :=
  (afterAll_induction (fun s => s.WellFormed ∧ s.kindOf? k = some kind)
    (fun c _ hc hs => ⟨hs.1.after c, kindOf?_after hs.1 hc hs.2⟩) hcalls ⟨hs, hk⟩).2

end Call

namespace Store

variable {s : Store} {name : String} {kind kind' : Kind}

theorem exists_readResult_eq_ok_iff (hn : name ≠ "") (hk : s.kindOf? name = some kind) :
    (∃ v, s.readResult name kind' = .ok v) ↔ kind' = kind := by
  obtain ⟨v, hv, rfl⟩ := Option.map_eq_some_iff.mp hk
  rw [readResult, if_neg hn, hv]
  by_cases hkind : v.kind = kind'
  · simp [hkind]
  · simp [hkind, Ne.symm hkind]

/-- Reads give the committed value as the kind it is stored as and are refused otherwise: as a type,
as a kind and into a buffer alike. The committed value is the one last written, and a name that was
set keeps its kind through whatever is staged, committed or discarded, until it is set with another
one or removed. -/
theorem reads_never_reinterpret {s : Store} (h : s.Reachable) (name : String)
    (flags : DebugFlags) :
    (∀ (α : Type) [Storable α],
      Storable.toValue <$> s.fetch α name = s.read name (Storable.kind α)) ∧
    (∀ kind o, (s.read name kind).run.Yields flags o ↔
      o = s.readResult name kind ∧ Traced.Returns flags o) ∧
    (∀ buffer o buffer', (s.copyInto name).Leads flags buffer o buffer' ↔
      (o, buffer') = s.copyResult name buffer ∧ Traced.Returns flags o) ∧
    (∀ calls answers s', (Call.runAll calls s).Yields flags (answers, s') →
      s'.value? name = (Call.lastWritten name calls s).getD (s.value? name)) ∧
    ∀ v a s₁ later answers s₂, (Call.set name v).run.Leads flags s (.ok a) s₁ →
      (∀ c ∈ later, c.endsKind name v.kind = false) →
      (Call.runAll later s₁).Yields flags (answers, s₂) →
      ∀ flags' kind, (∃ w, (s₂.read name kind).run.Yields flags' (.ok w)) ↔ kind = v.kind := by
  refine ⟨fun α _ => toValue_fetch α s name, fun kind => s.gives_read name kind flags,
    fun buffer => s.gives_copyInto name buffer flags, fun calls answers s' hrun => ?_, ?_⟩
  · rw [Call.yields_runAll hrun]
    exact Call.value?_afterAll_eq calls name s
  · intro v a s₁ later answers s₂ hset hlater hrun flags' kind
    have hs₁ := (h.call hset).wellFormed
    have hv : s₁.value? name = some v := by
      rw [Call.leads_set_ok hset]
      exact SortedMap.get?_insert_self _ _ _
    have hn : name ≠ "" := by
      rintro rfl
      cases hs₁.emptyName.symm.trans hv
    have hkind := Call.kindOf?_afterAll hs₁ hlater (congrArg (Option.map Value.kind) hv)
    rw [← Call.yields_runAll hrun] at hkind
    rw [← exists_readResult_eq_ok_iff hn hkind]
    refine exists_congr fun w => (s₂.gives_read name kind flags' _).trans ?_
    exact ⟨fun hw => hw.1.symm, fun hw => ⟨hw.symm, nofun⟩⟩

/-- A GOP length that was set, halved twice, committed once and set again reads as what it is. -/
theorem reads_of_staged_gop :
    let half : Call := .stage "rc.gop" [.u32 fun gop => gop / 2]
    let later : List Call := [half, .commit, half, .discard, .length, .set "rc.gop" (.u32 25)]
    let s := Call.afterAll later (Store.empty.put "rc.gop" (.u32 60))
    (∃ w, (s.read "rc.gop" .u32).run.Yields .clear (.ok w)) ∧
      (¬ ∃ w, (s.read "rc.gop" .s32).run.Yields .clear (.ok w)) ∧
      (s.read "rc.gop" .st).run.Yields .clear (.error (.typeMismatch "rc.gop" .u32 .st)) ∧
      (s.read "" .st).run.Yields .clear (.error (.invalidArgument .emptyAttributeName)) := by
  intro half later s
  have hset : (Call.set "rc.gop" (.u32 60)).run.Leads .clear .empty (.ok .done)
      (Store.empty.put "rc.gop" (.u32 60)) := by rfl
  let start := Store.empty.put "rc.gop" (.u32 60)
  obtain ⟨answers, hrun⟩ : ∃ answers,
      (Call.runAll later start).Yields .clear (answers, s) := ⟨_, rfl⟩
  have hs : s.Reachable := (Reachable.empty.call hset).runAll hrun
  have hclear : ∀ o : Except SetupError Value, Traced.Returns .clear o :=
    Traced.returns_of_not_abort rfl
  obtain ⟨-, -, -, -, hreads⟩ := reads_never_reinterpret Reachable.empty "rc.gop" .clear
  have hread := hreads _ _ _ later _ _ hset (by decide) hrun .clear
  refine ⟨(hread .u32).mpr rfl, fun hw => ?_, ?_, ?_⟩
  · cases (hread .s32).mp hw
  · exact ((reads_never_reinterpret hs "rc.gop" .clear).2.1 _ _).mpr ⟨by decide, hclear _⟩
  · exact ((reads_never_reinterpret hs "" .clear).2.1 _ _).mpr ⟨rfl, hclear _⟩

end Store

end EncoderSetup

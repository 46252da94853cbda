import EncoderSetup.Attribute.Profile
import EncoderSetup.Lifecycle.Config
import EncoderSetup.Proofs.Attribute.Answers
import Mathlib.Logic.Function.Basic

/-!
# Misuse in whole programs

A program holds stores, stage configurations and registries, and an `Operation` is any one thing it
asks of them, constructors included. Each operation reports the misuse in its outcome by one event,
whatever the debug word, and a word that makes misuse fatal changes nothing before the first one
(`Operation.misuse_reported_once`). The edits of a staged session are such a run as well.
-/

namespace EncoderSetup

open Session (reported_pure reported_modify reported_checked reported_traced)

namespace Document

variable {α : Type}

theorem reported_expect (d : Document) (o : Option α) : Checked.Reported (d.expect o) := by
  cases o with
  | none => exact Checked.reported_throw rfl
  | some a => exact Checked.reported_pure a

theorem reported_load (d : Document) {ofBytes : List UInt8 → Checked α} (path : String)
    (content : FileContent) (h : ∀ bytes, Checked.Reported (ofBytes bytes)) :
    Checked.Reported (d.load ofBytes path content) := by
  cases content with
  | bytes b => exact h b
  | unreadable => exact Checked.reported_throw rfl
  | unopened reason => exact Checked.reported_throw rfl

end Document

/-- The outcome of a session that builds a value is reported as the session reports it. -/
theorem Checked.reported_final {σ : Type} {x : Session σ Unit} (hx : Session.Reported x) (s : σ) :
    Checked.Reported (ExceptT.mk (x.runFrom s >>= fun r => pure (r.1.map fun _ => r.2))) := by
  obtain ⟨o, s', h⟩ := hx s
  cases o with
  | ok u => exact ⟨.ok s', h.bind_silent (Traced.Reports.pure _)⟩
  | error e => exact ⟨.error e, h.bind_silent (Traced.Reports.pure _)⟩

theorem Session.reported_forM {σ ι : Type} {f : ι → Session σ Unit} (hf : ∀ i, Reported (f i))
    (l : List ι) : Reported (l.forM f) := by
  induction l with
  | nil => exact reported_pure rfl
  | cons i rest ih => exact reported_bind (hf i) fun _ => ih

namespace Store

theorem reported_ofProfile (j : Option Json) : Checked.Reported (ofProfile j) := by
  apply Checked.reported_bind (Document.reported_expect _ _)
  intro m
  have hset (e : String × Value) : Session.Reported (setValue e.1 e.2) :=
    reported_setValueWith .granted e.1 e.2
  exact Checked.reported_final (Session.reported_forM hset m.entries) empty

theorem reports_release (s : Store) : s.release.Reports () [] :=
  Traced.Reports.logIf .attributes (by nofun)

end Store

namespace Registry

theorem reported_register (name : String) (s : Stage) : Session.Reported (register name s) := by
  unfold register
  split
  · exact Session.reported_refuse _
  · exact reported_modify _

theorem reported_ofDocument (j : Option Json) : Checked.Reported (ofDocument j) := by
  apply Checked.reported_bind (Document.reported_expect _ _)
  intro m
  exact Checked.reported_final
    (Session.reported_forM (fun e : String × Stage => reported_register e.1 e.2) m.entries) empty

theorem reported_resolve (r : Registry) (name : String) :
    Checked.Reported (MonadExcept.ofExcept (r.resolve name)) := by
  unfold resolve
  split
  · exact Checked.reported_pure _
  · exact Checked.reported_throw rfl

end Registry

theorem Stage.reported_ofRawId (raw : UInt32) : Checked.Reported (ofRawId raw) := by
  unfold ofRawId
  split
  · exact Checked.reported_pure _
  · exact Checked.reported_refuse _

namespace StageConfig

theorem reports_show (c : StageConfig) : c.show.Reports () [] :=
  Traced.Reports.bind (Traced.Reports.log (by nofun)) c.attributes.reports_show

theorem reports_create (s : Stage) : (create s).Reports ⟨s, .empty⟩ [] :=
  (Traced.Reports.ifSet .newConfigs (reports_show ⟨s, .empty⟩)).bind (Traced.Reports.pure _)

theorem reported_createRaw (raw : UInt32) : Checked.Reported (createRaw raw) :=
  Checked.reported_bind (Stage.reported_ofRawId raw) fun s =>
    Checked.reported_traced (reports_create s)

theorem reported_createNamed (r : Registry) (name : String) :
    Checked.Reported (createNamed r name) := by
  apply Checked.reported_bind (r.reported_resolve name)
  intro s
  have hlog : (Traced.log (.resolved name s)).Reports () [] := Traced.Reports.log (by nofun)
  exact Checked.reported_bind (Checked.reported_traced hlog) fun _ =>
    Checked.reported_traced (reports_create s)

end StageConfig

/-- The structures that a program keeps in blocks, each with its layout. -/
structure Structures where
  Index : Type
  Carrier : Index → Type
  layout : ∀ t, StructLayout (Carrier t)

/-- Where a document is read from. -/
inductive Origin where
  | text (text : String)
  | bytes (bytes : List UInt8)
  | file (path : String) (content : FileContent)

def Store.ofOrigin : Origin → Checked Store
  | .text text => ofProfileText text
  | .bytes bytes => ofProfileBytes bytes
  | .file path content => ofProfileFile path content

def Registry.ofOrigin : Origin → Checked Registry
  | .text text => ofText text
  | .bytes bytes => ofBytes bytes
  | .file path content => ofFile path content

/-- The objects that a program holds, by number. -/
structure Workspace where
  stores : Nat → Store
  configs : Nat → StageConfig
  registries : Nat → Registry

namespace Workspace

def putStore (i : Nat) (s : Store) (w : Workspace) : Workspace :=
  { w with stores := Function.update w.stores i s }

def putConfig (i : Nat) (c : StageConfig) (w : Workspace) : Workspace :=
  { w with configs := Function.update w.configs i c }

def putRegistry (i : Nat) (r : Registry) (w : Workspace) : Workspace :=
  { w with registries := Function.update w.registries i r }

end Workspace

/-- A session on one object of a larger state. -/
def Session.within {σ τ α : Type} (part : σ → τ) (put : τ → σ → σ) (x : Session τ α) :
    Session σ α := fun s => do
  let (outcome, t) ← x.runFrom (part s)
  return (outcome, put t s)

theorem Session.ReportedWith.within {σ τ α : Type} {inner : α → List SetupError}
    {x : Session τ α} (hx : ReportedWith inner x) (part : σ → τ) (put : τ → σ → σ) :
    ReportedWith inner (x.within part put) := by
  intro s
  obtain ⟨o, t, h⟩ := hx (part s)
  exact ⟨o, put t s, h.bind_silent (Traced.Reports.pure _)⟩

theorem StageConfig.reported_onAttributes {α : Type} {inner : α → List SetupError}
    {x : Session Store α} (hx : Session.ReportedWith inner x) :
    Session.ReportedWith inner (onAttributes x) :=
  hx.within StageConfig.attributes fun attributes c => { c with attributes }

/-- A call on a store or on the attributes of a configuration. A plain one has the memory it asks
for. -/
inductive StoreCall (S : Structures) where
  | plain (c : Call)
  | setWith (r : Reservation) (name : String) (v : Value)
  | commitWith (r : Reservation)
  | setStruct (name : String) (t : S.Index) (a : S.Carrier t)
  | getStruct (name : String) (t : S.Index)

/-- What a program may ask of its objects. A constructor puts its object at a number. -/
inductive Operation (S : Structures) where
  | newStore (i : Nat)
  | newStoreWith (i : Nat) (r : Reservation)
  | loadStore (i : Nat) (o : Origin)
  | onStore (i : Nat) (c : StoreCall S)
  | releaseStore (i : Nat)
  | newConfig (i : Nat) (s : Stage)
  | newConfigRaw (i : Nat) (raw : UInt32)
  | newConfigNamed (i registry : Nat) (name : String)
  | wrapStore (i store : Nat) (s : Stage)
  | unwrapConfig (i store : Nat)
  | onConfig (i : Nat) (c : StoreCall S)
  | releaseConfig (i : Nat)
  | stageOf (i : Nat)
  | validate (i : Nat)
  | listConfig (i : Nat)
  | dumpConfig (i : Nat)
  | stageOfRaw (raw : UInt32)
  | newRegistry (i : Nat)
  | builtinRegistry (i : Nat)
  | loadRegistry (i : Nat) (o : Origin)
  | register (i : Nat) (name : String) (s : Stage)
  | merge (i other : Nat)
  | resolve (i : Nat) (name : String)
  | names (i : Nat)

inductive Reply (S : Structures) where
  | done
  | answer (a : Answer)
  | struct (t : S.Index) (a : S.Carrier t)
  | stage (s : Stage)
  | issues (issues : List Issue)
  | text (text : String)
  | names (names : List String)

/-- The misuses that a reply tells of: those among the answers to the edits of a slot. -/
def Reply.misuses {S : Structures} : Reply S → List SetupError
  | answer a => a.misuses
  | _ => []

variable {S : Structures}

namespace StoreCall

def run : StoreCall S → Session Store (Reply S)
  | plain c => do return .answer (← c.run)
  | setWith r name v => do
      Store.setValueWith r name v
      return .done
  | commitWith r => do return .answer (.count (← Store.commitPendingWith r))
  | setStruct name t a => do
      Store.assignStruct (S.layout t) name a
      return .done
  | getStruct name t => do
      let a ← (← get).fetchStruct (S.layout t) name
      return .struct t a

theorem reported_run (c : StoreCall S) : Session.ReportedWith Reply.misuses c.run := by
  cases c with
  | plain c => exact c.reported_run.map fun _ => rfl
  | setWith r name v =>
      exact Session.reported_bind (Store.reported_setValueWith r name v) fun _ => reported_pure rfl
  | commitWith r =>
      exact Session.reported_bind (Store.reported_commitPendingWith r) fun _ => reported_pure rfl
  | setStruct name t a =>
      exact Session.reported_bind (Store.reported_setValueWith .granted name _) fun _ =>
        reported_pure rfl
  | getStruct name t =>
      apply Session.reported_get_bind
      intro s
      have hblock := s.reported_fetchBlock name (S.layout t).size
      have hstruct : Checked.Reported (s.fetchStruct (S.layout t) name) :=
        Checked.reported_bind hblock fun b => Checked.reported_pure ((S.layout t).read b)
      exact Session.reported_bind (reported_checked hstruct) fun _ => reported_pure rfl

end StoreCall

namespace Operation

def run : Operation S → Session Workspace (Reply S)
  | newStore i => put (·.putStore i .empty)
  | newStoreWith i r => do
      let s ← Store.create r
      put (·.putStore i s)
  | loadStore i o => do
      let s ← Store.ofOrigin o
      put (·.putStore i s)
  | onStore i c => c.run.within (·.stores i) (.putStore i)
  | releaseStore i => do
      ((← get).stores i).release
      put (·.putStore i .empty)
  | newConfig i s => do
      let c ← StageConfig.create s
      put (·.putConfig i c)
  | newConfigRaw i raw => do
      let c ← StageConfig.createRaw raw
      put (·.putConfig i c)
  | newConfigNamed i registry name => do
      let c ← StageConfig.createNamed ((← get).registries registry) name
      put (·.putConfig i c)
  | wrapStore i store s => put fun w => w.putConfig i ⟨s, w.stores store⟩
  | unwrapConfig i store => put fun w => w.putStore store (w.configs i).attributes
  | onConfig i c => (StageConfig.onAttributes c.run).within (·.configs i) (.putConfig i)
  | releaseConfig i => do
      ((← get).configs i).attributes.release
      put (·.putConfig i ⟨.init, .empty⟩)
  | stageOf i => look fun w => .stage (w.configs i).stage
  | validate i => look fun w => .issues (w.configs i).issues
  | listConfig i => do
      ((← get).configs i).show
      return .done
  | dumpConfig i => look fun w => .text (w.configs i).dump
  | stageOfRaw raw => do return .stage (← Stage.ofRawId raw)
  | newRegistry i => put (·.putRegistry i .empty)
  | builtinRegistry i => put (·.putRegistry i .builtin)
  | loadRegistry i o => do
      let r ← Registry.ofOrigin o
      put (·.putRegistry i r)
  | register i name s => do
      (Registry.register name s).within (·.registries i) (.putRegistry i)
      return .done
  | merge i other => put fun w => w.putRegistry i ((w.registries i).merge (w.registries other))
  | resolve i name => do
      return .stage (← (MonadExcept.ofExcept (((← get).registries i).resolve name) : Checked Stage))
  | names i => look fun w => .names (w.registries i).names
where
  put (f : Workspace → Workspace) : Session Workspace (Reply S) := do
    modify f
    return .done
  look (f : Workspace → Reply S) : Session Workspace (Reply S) := do return f (← get)

theorem reported_put (f : Workspace → Workspace) :
    Session.ReportedWith Reply.misuses (run.put f : Session Workspace (Reply S)) :=
  Session.reported_bind (reported_modify f) fun _ => reported_pure rfl

theorem reported_look {f : Workspace → Reply S} (hf : ∀ w, (f w).misuses = []) :
    Session.ReportedWith Reply.misuses (run.look f) :=
  Session.reported_get_bind fun w => reported_pure (hf w)

/-- A constructor may fail, and then puts nothing. -/
theorem reported_construct {α : Type} {x : Checked α} (hx : Checked.Reported x)
    (f : α → Workspace → Workspace) : Session.ReportedWith Reply.misuses
      ((liftM x : Session Workspace α) >>= fun a =>
        (run.put (f a) : Session Workspace (Reply S))) :=
  Session.reported_bind (reported_checked hx) fun a => reported_put (f a)

theorem reported_ofOrigin (o : Origin) : Checked.Reported (Store.ofOrigin o) := by
  cases o with
  | text text => exact Store.reported_ofProfile _
  | bytes bytes => exact Store.reported_ofProfile _
  | file path content =>
      exact Document.reported_load _ path content fun _ => Store.reported_ofProfile _

theorem reported_registryOfOrigin (o : Origin) : Checked.Reported (Registry.ofOrigin o) := by
  cases o with
  | text text => exact Registry.reported_ofDocument _
  | bytes bytes => exact Registry.reported_ofDocument _
  | file path content =>
      exact Document.reported_load _ path content fun _ => Registry.reported_ofDocument _

theorem reported_run (op : Operation S) : Session.ReportedWith Reply.misuses op.run := by
  cases op with
  | newStoreWith i r => exact reported_construct (Store.reported_create r) _
  | loadStore i o => exact reported_construct (reported_ofOrigin o) _
  | onStore i c => exact c.reported_run.within _ _
  | releaseStore i =>
      apply Session.reported_get_bind
      intro w
      exact Session.reported_bind (reported_traced (w.stores i).reports_release) fun _ =>
        reported_put _
  | newConfig i s =>
      exact Session.reported_bind (reported_traced (StageConfig.reports_create s)) fun _ =>
        reported_put _
  | newConfigRaw i raw => exact reported_construct (StageConfig.reported_createRaw raw) _
  | newConfigNamed i registry name =>
      apply Session.reported_get_bind
      intro w
      exact reported_construct (StageConfig.reported_createNamed (w.registries registry) name) _
  | onConfig i c =>
      exact (StageConfig.reported_onAttributes c.reported_run).within _ _
  | releaseConfig i =>
      apply Session.reported_get_bind
      intro w
      have hrelease := (w.configs i).attributes.reports_release
      exact Session.reported_bind (reported_traced hrelease) fun _ => reported_put _
  | stageOf i | validate i | dumpConfig i | names i => exact reported_look fun _ => rfl
  | listConfig i =>
      apply Session.reported_get_bind
      intro w
      exact Session.reported_bind (reported_traced (w.configs i).reports_show) fun _ =>
        reported_pure rfl
  | stageOfRaw raw =>
      exact Session.reported_bind (reported_checked (Stage.reported_ofRawId raw)) fun _ =>
        reported_pure rfl
  | loadRegistry i o => exact reported_construct (reported_registryOfOrigin o) _
  | register i name s =>
      refine Session.reported_bind ?_ fun _ => reported_pure rfl
      exact (Registry.reported_register name s).within _ _
  | resolve i name =>
      apply Session.reported_get_bind
      intro w
      have hresolve := (w.registries i).reported_resolve name
      exact Session.reported_bind (reported_checked hresolve) fun _ => reported_pure rfl
  | _ => exact reported_put _

/-- Under every debug word each operation logs one error for each misuse in its outcome, and no
other; unless misuse is fatal nothing else depends on the word, and where it is fatal a run of
operations goes on to the first misuse, logs it, and ends. So do the edits of a staged session. -/
theorem misuse_reported_once (S : Structures) :
    Session.ReportsEach Reply.misuses (run (S := S)) ∧
      Session.ReportsEach (fun _ => []) Slot.edit ∧
      ∀ edits slot, Slot.edits edits slot = Session.runEach Slot.edit edits slot :=
  ⟨Session.reportsEach reported_run, Session.reportsEach Slot.reported_edit,
    fun _ _ => rfl⟩

/-- A GOP length that is read as another kind: the process ends there, with the one error logged,
and the name that would be set next without a value is not come to. -/
theorem misread_gop_reported_once :
    let S : Structures := ⟨Empty, Empty.elim, fun t => t.elim⟩
    let before : List (Operation S) :=
      [newStore 0, onStore 0 (.plain (.set "rc.gop" (.u32 60))),
        onStore 0 (.plain (.read "rc.mode" .s32))]
    let misread : Operation S := onStore 0 (.plain (.read "rc.gop" .s32))
    let after : List (Operation S) := [onStore 0 (.plain (.set "" (.s32 1)))]
    let w : Workspace := ⟨fun _ => .empty, fun _ => ⟨.init, .empty⟩, fun _ => .empty⟩
    ((Session.runEach run (before ++ misread :: after) w).run .abort).errors =
        [.violation (.typeMismatch "rc.gop" .u32 .s32)] ∧
      ((Session.runEach run (before ++ misread :: after) w).run .abort).result = none := by
  intro S before misread after w
  obtain ⟨honce, -, -⟩ := misuse_reported_once S
  have h := honce.stops before misread after w
    [.ok .done, .ok (.answer .done), .error (.notFound (.attributeName "rc.mode"))] _ _ _ _ _
    (by rfl) (by rfl) (by rfl) (by rfl) .abort (by rfl)
  exact h.2

end Operation

end EncoderSetup

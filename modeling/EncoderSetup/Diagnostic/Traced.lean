import EncoderSetup.Diagnostic.Event
import EncoderSetup.Diagnostic.Flags

/-!
# Computations that log

A `Traced` computation reads the debug word, logs events in order and yields a result, or ends the
process. `Checked` adds failure with a `SetupError`; `Session` adds a state that is kept when a step
fails. `report` is the one way in which an error becomes an event, and the only place that ends the
process.
-/

namespace EncoderSetup

/-- What a computation leaves: the events it logged, and its result unless the process was ended. -/
structure Trace (α : Type) where
  events : List Event
  result : Option α
  deriving DecidableEq, Repr

def Traced (α : Type) : Type := DebugFlags → Trace α

namespace Traced

variable {α β : Type}

def run (x : Traced α) (flags : DebugFlags) : Trace α := x flags

protected def pure (a : α) : Traced α := fun _ => ⟨[], some a⟩

/-- One computation after another; nothing follows the end of the process. -/
protected def bind (x : Traced α) (f : α → Traced β) : Traced β := fun flags =>
  match x flags with
  | ⟨events, none⟩ => ⟨events, none⟩
  | ⟨events, some a⟩ => ⟨events ++ (f a flags).events, (f a flags).result⟩

instance : Monad Traced where
  pure := Traced.pure
  bind := Traced.bind

theorem map_id (x : Traced α) : (fun a => a) <$> x = x := by
  funext flags
  change Traced.bind x (fun a => Traced.pure a) flags = x flags
  rcases h : x flags with ⟨events, _ | a⟩ <;> simp [Traced.bind, Traced.pure, h]

theorem pure_bind (a : α) (f : α → Traced β) : (pure a >>= f) = f a := by
  funext flags
  change Traced.bind (Traced.pure a) f flags = f a flags
  simp [Traced.bind, Traced.pure]

theorem bind_assoc {γ : Type} (x : Traced α) (f : α → Traced β) (g : β → Traced γ) :
    x >>= f >>= g = x >>= fun a => f a >>= g := by
  funext flags
  change Traced.bind (Traced.bind x f) g flags = Traced.bind x (fun a => Traced.bind (f a) g) flags
  rcases h : x flags with ⟨events, _ | a⟩
  · simp [Traced.bind, h]
  · rcases h' : f a flags with ⟨events', _ | b⟩ <;> simp [Traced.bind, h, h']

instance : LawfulMonad Traced := .mk' Traced map_id pure_bind bind_assoc

@[simp] theorem run_pure (a : α) (flags : DebugFlags) :
    (pure a : Traced α).run flags = ⟨[], some a⟩ := rfl

theorem run_bind (x : Traced α) (f : α → Traced β) (flags : DebugFlags) :
    (x >>= f).run flags =
      match x.run flags with
      | ⟨events, none⟩ => ⟨events, none⟩
      | ⟨events, some a⟩ =>
          ⟨events ++ ((f a).run flags).events, ((f a).run flags).result⟩ := rfl

def log (e : Event) : Traced Unit := fun _ => ⟨[e], some ()⟩

def ifSet (flag : DebugFlags) (x : Traced Unit) : Traced Unit := fun flags =>
  if flags.contains flag then x flags else ⟨[], some ()⟩

def logIf (flag : DebugFlags) (e : Event) : Traced Unit := ifSet flag (log e)

/--
Reports an error. A broken contract is always logged, and ends the process where the debug word says
so; any other error is logged where attributes are traced.
-/
def report (e : SetupError) : Traced Unit := fun flags =>
  if e.isContractViolation then
    ⟨[.violation e], if flags.contains .abort then none else some ()⟩
  else ⟨if flags.contains .attributes then [.failed e] else [], some ()⟩

end Traced

abbrev Checked (α : Type) : Type := ExceptT SetupError Traced α

namespace Checked

def refuse {α : Type} (e : SetupError) : Checked α := do
  Traced.report e
  throw e

end Checked

/-- A computation over a state, which outlives a failure. -/
abbrev Session (σ α : Type) : Type := ExceptT SetupError (StateT σ Traced) α

namespace Session

variable {σ α : Type}

def lift (x : Checked α) : Session σ α := ExceptT.mk fun s => do return (← x.run, s)

instance : MonadLift Checked (Session σ) := ⟨lift⟩

def refuse (e : SetupError) : Session σ α := lift (Checked.refuse e)

def runFrom (x : Session σ α) (s : σ) : Traced (Except SetupError α × σ) :=
  StateT.run (ExceptT.run x) s

@[simp] theorem runFrom_pure (a : α) (s : σ) :
    runFrom (pure a : Session σ α) s = pure (.ok a, s) := rfl

@[simp] theorem runFrom_throw (e : SetupError) (s : σ) :
    runFrom (throw e : Session σ α) s = pure (.error e, s) := rfl

@[simp] theorem runFrom_get (s : σ) : runFrom (get : Session σ σ) s = pure (.ok s, s) := rfl

@[simp] theorem runFrom_modify (f : σ → σ) (s : σ) :
    runFrom (modify f : Session σ Unit) s = pure (.ok (), f s) := rfl

@[simp] theorem runFrom_lift (x : Checked α) (s : σ) :
    runFrom (lift x : Session σ α) s = x.run >>= fun outcome => pure (outcome, s) := rfl

/-- What follows a failure is not done, and the state stays as the failure left it. -/
theorem runFrom_bind {β : Type} (x : Session σ α) (f : α → Session σ β) (s : σ) :
    runFrom (x >>= f) s =
      runFrom x s >>= fun r =>
        match r.1 with
        | .ok a => runFrom (f a) r.2
        | .error e => pure (.error e, r.2) := by
  change StateT.bind (ExceptT.run x) (ExceptT.bindCont f) s = _
  refine congrArg (x.runFrom s >>= ·) (funext fun r => ?_)
  obtain ⟨outcome, s'⟩ := r
  cases outcome <;> rfl

/-- Carries out steps in turn, failed ones included, and answers each. -/
def runEach {ι : Type} (f : ι → Session σ α) : List ι → σ → Traced (List (Except SetupError α) × σ)
  | [], s => return ([], s)
  | i :: rest, s => do
      let (answer, s) ← (f i).runFrom s
      let (answers, s) ← runEach f rest s
      return (answer :: answers, s)

end Session

end EncoderSetup

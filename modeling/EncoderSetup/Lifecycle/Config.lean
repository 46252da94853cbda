import EncoderSetup.Attribute.Listing
import EncoderSetup.Attribute.Schema
import EncoderSetup.Lifecycle.Registry

/-!
# Stage configurations

A store with the stage it is meant for. Any attribute may be set; `StageConfig.issues` tells which
of them the encoder would not read at the stage, or not as the kind they have.
-/

namespace EncoderSetup

structure StageConfig where
  stage : Stage
  attributes : Store
  deriving DecidableEq

/-- A well-known attribute that is not used as its definition says. -/
inductive Issue where
  | wrongStage (name : String) (stage : Stage)
  /-- The attribute is of another kind than it is declared with. -/
  | wrongKind (name : String) (found declared : Kind)
  deriving DecidableEq, Repr

def Issue.text : Issue → String
  | wrongStage name stage => "'" ++ name ++ "' is not read at " ++ stage.name
  | wrongKind name found declared =>
      "'" ++ name ++ "' is " ++ found.name ++ ", schema declares " ++ declared.name

namespace Event

def configHeading (s : Stage) : Event := ⟨.info, some "stage config", [("stage", s.name)]⟩

def resolved (name : String) (s : Stage) : Event :=
  ⟨.debug, some "resolved config profile", [("profile", name), ("stage", s.name)]⟩

end Event

namespace StageConfig

def dump (c : StageConfig) : String := "stage " ++ c.stage.name ++ "\n" ++ c.attributes.dump

def «show» (c : StageConfig) : Traced Unit := do
  Traced.log (.configHeading c.stage)
  c.attributes.show

/-- The empty configuration of a stage, which the debug word may ask to list. -/
def create (s : Stage) : Traced StageConfig := do
  let c : StageConfig := ⟨s, .empty⟩
  Traced.ifSet .newConfigs c.show
  return c

def createRaw (raw : UInt32) : Checked StageConfig := do
  let s ← Stage.ofRawId raw
  create s

/-- The empty configuration of the stage that a name stands for in a registry. -/
def createNamed (r : Registry) (name : String) : Checked StageConfig := do
  let s ← MonadExcept.ofExcept (r.resolve name)
  Traced.log (.resolved name s)
  create s

def issuesOf (stage : Stage) (name : String) (v : Value) : List Issue :=
  match Schema.lookup? name with
  | none => []
  | some d =>
      (if d.isReadAt stage then [] else [.wrongStage name stage]) ++
        if v.kind = d.kind then [] else [.wrongKind name v.kind d.kind]

/-- The issues of the committed attributes, in the order of names. -/
def issues (c : StageConfig) : List Issue :=
  c.attributes.entries.flatMap fun e => issuesOf c.stage e.1 e.2

def onAttributes {α : Type} (x : Session Store α) : Session StageConfig α := fun c => do
  let (outcome, attributes) ← x.runFrom c.attributes
  return (outcome, { c with attributes })

end StageConfig

end EncoderSetup

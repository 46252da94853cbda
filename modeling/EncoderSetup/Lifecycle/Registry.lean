import EncoderSetup.Document
import EncoderSetup.Json.Read

/-!
# Profile names

A registry maps the names of configuration profiles to lifecycle stages. Names are added one by one,
from a document or from another registry, and the last stage given to a name counts.
-/

namespace EncoderSetup

def Stage.ofRawId (raw : UInt32) : Checked Stage :=
  match Stage.ofRawId? raw with
  | some s => pure s
  | none => Checked.refuse (.invalidArgument (.stageOutOfRange raw))

structure Registry where
  stages : SortedMap String Stage
  deriving DecidableEq

namespace Registry

def empty : Registry := ⟨.empty⟩

/-- The names of every stage: its own, and the name of its configuration. -/
def builtin : Registry :=
  ⟨.ofList (Stage.all.flatMap fun s => [(s.name, s), ("venc_" ++ s.name ++ "_cfg", s)])⟩

def names (r : Registry) : List String := r.stages.keys

def put (r : Registry) (name : String) (s : Stage) : Registry := ⟨r.stages.insert name s⟩

/-- Gives a name a stage, and refuses the empty name. -/
def register (name : String) (s : Stage) : Session Registry Unit :=
  if name.isEmpty then Session.refuse (.invalidArgument .emptyProfileName)
  else modify (·.put name s)

/-- Adds every name of another registry, with the stage it has there. -/
def merge (r other : Registry) : Registry := ⟨r.stages.merge other.stages⟩

def resolve (r : Registry) (name : String) : Except SetupError Stage :=
  match r.stages.get? name with
  | some s => .ok s
  | none => .error (.notFound (.profileName name))

def entries? (j : Json) : Option (SortedMap String Stage) := j.map? some (Json.enumerated? Stage)

/-- The registry with these names, registered one after the other. -/
def ofEntries (entries : List (String × Stage)) : Checked Registry := ExceptT.mk do
  let (outcome, r) ←
    Session.runFrom (σ := Registry) (entries.forM fun e => register e.1 e.2) empty
  return outcome.map fun _ => r

def ofDocument (j : Option Json) : Checked Registry := do
  let stages ← Document.registry.expect (j.bind entries?)
  ofEntries stages.entries

def ofText (text : String) : Checked Registry := ofDocument (Json.ofText? text)

def ofBytes (bytes : List UInt8) : Checked Registry := ofDocument (Json.ofBytes? bytes)

def ofFile (path : String) (content : FileContent) : Checked Registry :=
  Document.registry.load ofBytes path content

end Registry

end EncoderSetup

import EncoderSetup.Attribute.Listing
import EncoderSetup.Attribute.Profile
import EncoderSetup.Attribute.Staging

/-!
# Calls on a store

The operations of a store as data, so that sequences of them can be spoken about: `Call.run` carries
one out and `Call.runAll` a sequence, failed calls included.
-/

namespace EncoderSetup

inductive Call where
  | set (name : String) (v : Value)
  | read (name : String) (kind : Kind)
  | readBlock (name : String) (size : Nat)
  /-- Copies a block over a buffer of the caller with this content. -/
  | copyInto (name : String) (buffer : List UInt8)
  | stage (name : String) (edits : List Edit)
  | commit
  | discard
  | remove (name : String)
  | value (name : String)
  | kindOf (name : String)
  | contains (name : String)
  | isEmpty
  | length
  | hasPending
  | keys
  | entries
  | dump
  | listing
  | profileText

inductive Answer where
  | done
  | value (v : Option Value)
  | kind (kind : Option Kind)
  | bytes (bytes : List UInt8)
  | edits (answers : List (Except SetupError EditAnswer))
  | count (n : Nat)
  | flag (b : Bool)
  | names (names : List String)
  | entries (entries : List (String × Value))
  | text (text : String)

namespace Call

def look (f : Store → Answer) : Session Store Answer := do return f (← get)

def run : Call → Session Store Answer
  | set name v => do
      Store.setValue name v
      return .done
  | read name kind => do
      let v ← (← get).read name kind
      return .value v
  | readBlock name size => do
      let block ← (← get).fetchBlock name size
      return .bytes block.val
  | copyInto name buffer => do
      let s ← get
      let (outcome, buffer) ← (s.copyInto name).runFrom buffer
      MonadExcept.ofExcept outcome
      return .bytes buffer
  | stage name edits => do return .edits (← Store.stage name edits)
  | commit => do return .count (← Store.commitPending)
  | discard => do return .count (← Store.discardPending)
  | remove name => do
      let s ← get
      modify (·.remove name)
      return .value (s.value? name)
  | value name => look fun s => .value (s.value? name)
  | kindOf name => look fun s => .kind (s.kindOf? name)
  | contains name => look fun s => .flag (s.contains name)
  | isEmpty => look fun s => .flag s.isEmpty
  | length => look fun s => .count s.size
  | hasPending => look fun s => .flag s.hasPending
  | keys => look fun s => .names s.keys
  | entries => look fun s => .entries s.entries
  | dump => look fun s => .text s.dump
  | listing => do
      let s ← get
      s.show
      return .done
  | profileText => look fun s => .text s.profileText

def runAll : List Call → Store → Traced (List (Except SetupError Answer) × Store) :=
  Session.runEach run

end Call

end EncoderSetup

import EncoderSetup.Attribute.Block
import EncoderSetup.Diagnostic.Traced
import EncoderSetup.SortedMap

/-!
# The attribute store

A store maps names to values, twice: the committed values that reads see, and the pending values of
staged edits that wait to be committed. Setting or removing a name drops its pending value, so that
a later commit cannot bring an older value back. Reads give a value only as the kind it is stored
as. A set that is given the system's answer to its demand for memory is `setValueWith`, and
`setValue` is the one that is granted it.
-/

namespace EncoderSetup

structure Store where
  /-- What direct reads see. -/
  committed : SortedMap String Value
  /-- The edited copies that a commit writes. -/
  pending : SortedMap String Value
  deriving DecidableEq

namespace Event

def attributeSet (name : String) (v : Value) : Event :=
  ⟨.debug, some "set", [("name", name), ("kind", v.kind.name), ("value", v.text)]⟩

def attributeRead (name : String) (v : Value) : Event :=
  ⟨.debug, some "get", [("name", name), ("kind", v.kind.name)]⟩

def committed (count : Nat) : Event :=
  ⟨.debug, some "stage_put", [("committed", toString count)]⟩

def released (count : Nat) : Event :=
  ⟨.debug, some "attribute store released", [("entries", toString count)]⟩

def storeHeading (entries pending : Nat) : Event :=
  ⟨.info, some "attribute store",
    [("entries", toString entries), ("pending", toString pending)]⟩

end Event

/-- What the system answers where memory is asked for. -/
inductive Reservation where
  | granted
  | refused (reason : String)
  deriving DecidableEq, Repr

namespace Store

def empty : Store := ⟨.empty, .empty⟩

instance : Inhabited Store := ⟨empty⟩

def size (s : Store) : Nat := s.committed.size

def isEmpty (s : Store) : Bool := s.committed.isEmpty

def value? (s : Store) (name : String) : Option Value := s.committed.get? name

def contains (s : Store) (name : String) : Bool := (s.value? name).isSome

def kindOf? (s : Store) (name : String) : Option Kind := (s.value? name).map Value.kind

def keys (s : Store) : List String := s.committed.keys

def entries (s : Store) : List (String × Value) := s.committed.entries

def hasPending (s : Store) : Bool := !s.pending.isEmpty

/-- Commits a value and drops the pending one of its name. -/
def put (s : Store) (name : String) (v : Value) : Store :=
  ⟨s.committed.insert name v, s.pending.erase name⟩

/-- Takes a name out, with its pending value. -/
def remove (s : Store) (name : String) : Store := ⟨s.committed.erase name, s.pending.erase name⟩

def putPending (s : Store) (name : String) (v : Value) : Store :=
  ⟨s.committed, s.pending.insert name v⟩

def commit (s : Store) : Store := ⟨s.committed.merge s.pending, .empty⟩

def discard (s : Store) : Store := ⟨s.committed, .empty⟩

def checkName (name : String) : Checked Unit :=
  if name.isEmpty then Checked.refuse (.invalidArgument .emptyAttributeName) else pure ()

/-- Asks for memory before anything changes, and reports where it is refused. -/
def reserve (d : Demand) : Reservation → Checked Unit
  | .granted => return ()
  | .refused reason => Checked.refuse (.unreserved d reason)

/-- An empty store with memory for its first entries, whose refusal is not reported. -/
def create : Reservation → Checked Store
  | .granted => return empty
  | .refused reason => throw (.unreserved .map reason)

/-- Commits a value; a name that has none takes memory. -/
def setValueWith (r : Reservation) (name : String) (v : Value) : Session Store Unit := do
  checkName name
  Traced.logIf .attributes (.attributeSet name v)
  let s ← get
  unless s.contains name do reserve (.insertion name) r
  modify (·.put name v)

def setValue : String → Value → Session Store Unit := setValueWith .granted

def assign {α : Type} [Storable α] (name : String) (a : α) : Session Store Unit :=
  setValue name (Storable.toValue a)

def assignStruct {α : Type} (layout : StructLayout α) (name : String) (a : α) :
    Session Store Unit :=
  setValue name (.st (layout.encode a).val)

/-- Reads the committed value of a name, whatever its kind. -/
def lookup (s : Store) (name : String) : Checked Value := do
  checkName name
  match s.value? name with
  | some v =>
      Traced.logIf .attributes (.attributeRead name v)
      return v
  | none => Checked.refuse (.notFound (.attributeName name))

def read (s : Store) (name : String) (kind : Kind) : Checked Value := do
  let v ← s.lookup name
  if v.kind = kind then return v else Checked.refuse (.typeMismatch name v.kind kind)

def fetch (α : Type) [Storable α] (s : Store) (name : String) : Checked α := do
  let v ← s.lookup name
  match Storable.ofValue? v with
  | some a => return a
  | none => Checked.refuse (.typeMismatch name v.kind (Storable.kind α))

/-- Copies the block of a name over the caller's buffer, which must have its length. -/
def copyInto (s : Store) (name : String) : Session (List UInt8) Unit := do
  let bytes ← s.fetch (List UInt8) name
  let buffer ← get
  if bytes.length = buffer.length then modify fun _ => bytes
  else Session.refuse (.invalidArgument (.bufferLength name bytes.length buffer.length))

/-- Reads the block of a name, which must have this size. -/
def fetchBlock (s : Store) (name : String) (size : Nat) : Checked (Block size) := do
  let bytes ← s.fetch (List UInt8) name
  if h : bytes.length = size then return ⟨bytes, h⟩
  else Checked.refuse (.invalidArgument (.structureLength name bytes.length size))

def fetchStruct {α : Type} (layout : StructLayout α) (s : Store) (name : String) : Checked α :=
  layout.read <$> s.fetchBlock name layout.size

def release (s : Store) : Traced Unit := Traced.logIf .attributes (.released s.size)

end Store

end EncoderSetup

import EncoderSetup.Attribute.Store

/-!
# Staged edits

A staged session opens a slot on one name, a copy of its committed value or the copy that is already
pending, and edits it in place. An edit keeps the kind of the value and the length of a block; it
fails without a change where the value is of another kind or size. Nothing is visible to direct
reads before the commit.
-/

namespace EncoderSetup

/-- A pending value under edit, and its name. -/
structure Slot where
  name : String
  value : Value
  deriving DecidableEq, Repr

/-- An edit of a slot, or a look at it. -/
inductive Edit where
  | name
  | kind
  | value
  | s32 (change : Int32 → Int32)
  | u32 (change : UInt32 → UInt32)
  | s64 (change : Int64 → Int64)
  | u64 (change : UInt64 → UInt64)
  | ptr (change : Address → Address)
  | st (change : (size : Nat) → Block size → Block size)
  /-- Reads a block that must have this size. -/
  | readBlock (size : Nat)
  /-- Changes the bytes of a block that must have this size. -/
  | changeBlock (size : Nat) (change : Block size → Block size)

/-- Writes a structure over a block, which must have its size. -/
def Edit.writeStruct {α : Type} (layout : StructLayout α) (a : α) : Edit :=
  .changeBlock layout.size (layout.write a)

inductive EditAnswer where
  | done
  | name (name : String)
  | kind (kind : Kind)
  | value (v : Value)
  | bytes (bytes : List UInt8)
  deriving DecidableEq, Repr

namespace Slot

def fetch (α : Type) [Storable α] (slot : Slot) : Checked α :=
  match Storable.ofValue? slot.value with
  | some a => pure a
  | none => Checked.refuse (.typeMismatch slot.name slot.value.kind (Storable.kind α))

/-- The pending block, which must have this size. -/
def fetchBlock (slot : Slot) (size : Nat) : Checked (Block size) := do
  let bytes ← slot.fetch (List UInt8)
  if h : bytes.length = size then return ⟨bytes, h⟩
  else Checked.refuse (.invalidArgument (.structureLength slot.name bytes.length size))

def fetchStruct {α : Type} (layout : StructLayout α) (slot : Slot) : Checked α :=
  layout.read <$> slot.fetchBlock layout.size

def replace (v : Value) (slot : Slot) : Slot := ⟨slot.name, v⟩

/-- Changes a pending value of one kind, and answers what it was. -/
def change {α : Type} [Storable α] (f : α → α) : Session Slot EditAnswer := do
  let slot ← get
  let a ← slot.fetch α
  modify (replace (Storable.toValue (f a)))
  return .value (Storable.toValue a)

def edit : Edit → Session Slot EditAnswer
  | .name => return .name (← get).name
  | .kind => return .kind (← get).value.kind
  | .value => return .value (← get).value
  | .s32 f => change f
  | .u32 f => change f
  | .s64 f => change f
  | .u64 f => change f
  | .ptr f => change f
  | .st f => do
      let slot ← get
      let bytes ← slot.fetch (List UInt8)
      let changed := (f bytes.length (Block.whole bytes)).val
      modify (replace (.st changed))
      return .bytes changed
  | .readBlock size => do
      let slot ← get
      let block ← slot.fetchBlock size
      return .bytes block.val
  | .changeBlock size f => do
      let slot ← get
      let block ← slot.fetchBlock size
      modify (replace (.st (f block).val))
      return .done

def edits : List Edit → Slot → Traced (List (Except SetupError EditAnswer) × Slot) :=
  Session.runEach edit

end Slot

namespace Store

def openSlot (name : String) : Session Store Slot := do
  checkName name
  let s ← get
  match s.pending.get? name, s.committed.get? name with
  | some v, _ => return ⟨name, v⟩
  | none, some v =>
      modify (·.putPending name v)
      return ⟨name, v⟩
  | none, none => Session.refuse (.notFound (.attributeName name))

def stage (name : String) (edits : List Edit) :
    Session Store (List (Except SetupError EditAnswer)) := do
  let slot ← openSlot name
  let (answers, slot) ← Slot.edits edits slot
  modify (·.putPending name slot.value)
  return answers

/-- Commits every pending value and answers their number; without one nothing happens. -/
def commitPendingWith (r : Reservation) : Session Store Nat := do
  let s ← get
  if s.hasPending then
    reserve .commit r
    modify commit
    Traced.logIf .attributes (.committed s.pending.size)
  return s.pending.size

def commitPending : Session Store Nat := commitPendingWith .granted

def discardPending : Session Store Nat := do
  let s ← get
  modify discard
  return s.pending.size

end Store

end EncoderSetup

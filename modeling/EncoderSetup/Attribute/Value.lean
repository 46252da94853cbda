import EncoderSetup.Enumeration
import EncoderSetup.Text.Numeral

/-!
# Attribute values

An attribute holds an integer of 32 or 64 bits, an address or a block of bytes, and its kind says
which. `Storable` ties a type to the one kind it is stored as; a value of another kind is never
reinterpreted (`Storable.ofValue?_eq_some_iff`).
-/

namespace EncoderSetup

inductive Kind where
  | s32
  | u32
  | s64
  | u64
  | ptr
  | st
  deriving DecidableEq, Repr, Inhabited

namespace Kind

/-- The name of a kind, as logs and profiles write it. -/
def name : Kind → String
  | s32 => "s32"
  | u32 => "u32"
  | s64 => "s64"
  | u64 => "u64"
  | ptr => "ptr"
  | st => "st"

instance : Enumeration Kind where
  members := [s32, u32, s64, u64, ptr, st]
  name := name
  mem_members k := by cases k <;> decide
  nodup_names := by decide

end Kind

/-- An address that is stored and handed back, never followed. -/
structure Address where
  word : UInt64
  deriving DecidableEq, Repr, Inhabited

namespace Address

def null : Address := ⟨0⟩

def isNull (a : Address) : Bool := a == null

end Address

inductive Value where
  | s32 (v : Int32)
  | u32 (v : UInt32)
  | s64 (v : Int64)
  | u64 (v : UInt64)
  | ptr (v : Address)
  | st (bytes : List UInt8)
  deriving DecidableEq, Repr, Inhabited

namespace Value

def kind : Value → Kind
  | s32 _ => .s32
  | u32 _ => .u32
  | s64 _ => .s64
  | u64 _ => .u64
  | ptr _ => .ptr
  | st _ => .st

/-- A block of bytes as listings show it: its length, and at most its first sixteen bytes. -/
def blockText (bytes : List UInt8) : String :=
  "[" ++ toString bytes.length ++ " bytes]" ++
    String.ofList ((bytes.take 16).flatMap fun b => ' ' :: Numeral.hexByte b) ++
    if bytes.length ≤ 16 then "" else " .."

/-- A value as logs and listings show it. -/
def text : Value → String
  | s32 v => toString v.toInt
  | u32 v => toString v.toNat
  | s64 v => toString v.toInt
  | u64 v => toString v.toNat
  | ptr v => "0x" ++ Numeral.hex v.word.toNat
  | st bytes => blockText bytes

end Value

/-- A type whose members are stored as the values of one kind. -/
class Storable (α : Type) where
  kind : Kind
  toValue : α → Value
  ofValue? : Value → Option α
  /-- A value is read as a member exactly when it is that member's value. -/
  ofValue?_eq_some_iff : ∀ v a, ofValue? v = some a ↔ v = toValue a
  /-- The members are all of the kind's values. -/
  isSome_ofValue?_iff : ∀ v, (ofValue? v).isSome ↔ v.kind = kind

namespace Storable

instance : Storable Int32 where
  kind := .s32
  toValue := .s32
  ofValue?
    | .s32 v => some v
    | _ => none
  ofValue?_eq_some_iff v a := by cases v <;> simp
  isSome_ofValue?_iff v := by cases v <;> simp [Value.kind]

instance : Storable UInt32 where
  kind := .u32
  toValue := .u32
  ofValue?
    | .u32 v => some v
    | _ => none
  ofValue?_eq_some_iff v a := by cases v <;> simp
  isSome_ofValue?_iff v := by cases v <;> simp [Value.kind]

instance : Storable Int64 where
  kind := .s64
  toValue := .s64
  ofValue?
    | .s64 v => some v
    | _ => none
  ofValue?_eq_some_iff v a := by cases v <;> simp
  isSome_ofValue?_iff v := by cases v <;> simp [Value.kind]

instance : Storable UInt64 where
  kind := .u64
  toValue := .u64
  ofValue?
    | .u64 v => some v
    | _ => none
  ofValue?_eq_some_iff v a := by cases v <;> simp
  isSome_ofValue?_iff v := by cases v <;> simp [Value.kind]

instance : Storable Address where
  kind := .ptr
  toValue := .ptr
  ofValue?
    | .ptr v => some v
    | _ => none
  ofValue?_eq_some_iff v a := by cases v <;> simp
  isSome_ofValue?_iff v := by cases v <;> simp [Value.kind]

instance : Storable (List UInt8) where
  kind := .st
  toValue := .st
  ofValue?
    | .st bytes => some bytes
    | _ => none
  ofValue?_eq_some_iff v a := by cases v <;> simp
  isSome_ofValue?_iff v := by cases v <;> simp [Value.kind]

end Storable

end EncoderSetup

import EncoderSetup.Enumeration
import EncoderSetup.Json.Scan
import EncoderSetup.SortedMap

/-!
# Typed values in JSON

How values of the library's types stand in a JSON value. Nothing is converted: an integer is a
number, in range; a member of an enumeration is its name, or an object of its name and null; a
record is an object of its fields or an array of them in order. In an object unknown fields are
skipped and a known one may not be repeated; an optional field may be absent or null.
-/

namespace EncoderSetup.Json

def string? : Json → Option String
  | .string s => s
  | _ => none

def bool? : Json → Option Bool
  | .bool b => some b
  | _ => none

def int? (low high : Int) : Json → Option Int
  | .number (some n) => if low ≤ n ∧ n ≤ high then some n else none
  | _ => none

def uint8? (j : Json) : Option UInt8 :=
  (j.int? 0 0xff).map fun n => UInt8.ofNat n.toNat

def uint32? (j : Json) : Option UInt32 :=
  (j.int? 0 0xffffffff).map fun n => UInt32.ofNat n.toNat

def uint64? (j : Json) : Option UInt64 :=
  (j.int? 0 0xffffffffffffffff).map fun n => UInt64.ofNat n.toNat

def int32? (j : Json) : Option Int32 := (j.int? (-0x80000000) 0x7fffffff).map Int32.ofInt

def int64? (j : Json) : Option Int64 :=
  (j.int? (-0x8000000000000000) 0x7fffffffffffffff).map Int64.ofInt

/-- An array of values that `read?` accepts. -/
def list? {α : Type} (read? : Json → Option α) : Json → Option (List α)
  | .array elements => elements.mapM read?
  | _ => none

def nullable? {α : Type} (read? : Json → Option α) : Json → Option (Option α)
  | .null => some none
  | j => (read? j).map some

/-- The members of an object whose names all have a text. -/
def members? : Json → Option (List (String × Json))
  | .object members => members.mapM fun m => m.1.map (·, m.2)
  | _ => none

/-- An object of exactly one member: its name and its value. -/
def tagged? : Json → Option (String × Json)
  | .object [(some name, j)] => some (name, j)
  | _ => none

def enumerated? (α : Type) [Enumeration α] : Json → Option α
  | .string (some name) => Enumeration.ofName? α name
  | .object [(some name, .null)] => Enumeration.ofName? α name
  | _ => none

/-- An object whose names and values `key?` and `read?` accept; the last of equal keys counts. -/
def map? {κ α : Type} [Ord κ] [Std.TransOrd κ] [Std.LawfulEqOrd κ] (key? : String → Option κ)
    (read? : Json → Option α) (j : Json) : Option (SortedMap κ α) := do
  let members ← j.members?
  let entries ← members.mapM fun m => do return (← key? m.1, ← read? m.2)
  return .ofList entries

/-- What is given for each of a record's fields, by name. -/
abbrev Record := String → Option Json

/-- A record with these fields, in this order: an array of a first part of them, or an object. -/
def record? (fields : List String) : Json → Option Record
  | .array elements =>
      if elements.length ≤ fields.length then
        some fun field => (fields.zip elements).lookup field
      else none
  | .object members => do
      let given ← (Json.object members).members?
      if fields.all fun field => (given.filter (·.1 == field)).length ≤ 1 then
        some fun field => given.lookup field
      else none
  | _ => none

def Record.required? {α : Type} (r : Record) (field : String) (read? : Json → Option α) :
    Option α :=
  (r field).bind read?

def Record.optional? {α : Type} (r : Record) (field : String) (read? : Json → Option α) :
    Option (Option α) :=
  match r field with
  | none => some none
  | some j => nullable? read? j

def ofString (s : String) : Json := .string (some s)

def ofInt (n : Int) : Json := .number (some n)

def ofNat (n : Nat) : Json := .number (some n)

def ofMembers (members : List (String × Json)) : Json :=
  .object (members.map fun m => (some m.1, m.2))

def ofMember {α : Type} [Enumeration α] (a : α) : Json := ofString (Enumeration.name a)

def ofOption {α : Type} (write : α → Json) : Option α → Json
  | none => .null
  | some a => write a

end EncoderSetup.Json

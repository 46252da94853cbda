import EncoderSetup.Attribute.Store
import EncoderSetup.Document
import EncoderSetup.Json.Read
import EncoderSetup.Json.Render

/-!
# Attribute profiles

A profile is a JSON object from attribute names to values, each value an object of its kind and its
content. Loading sets the attributes in the order of names, the last of equal names counting, so
that an empty name is met first; writing gives the committed attributes in the order of names.
-/

namespace EncoderSetup

namespace Value

def toJson : Value → Json
  | s32 v => .ofMembers [("s32", .ofInt v.toInt)]
  | u32 v => .ofMembers [("u32", .ofNat v.toNat)]
  | s64 v => .ofMembers [("s64", .ofInt v.toInt)]
  | u64 v => .ofMembers [("u64", .ofNat v.toNat)]
  | ptr v => .ofMembers [("ptr", .ofNat v.word.toNat)]
  | st bytes => .ofMembers [("st", .array (bytes.map fun b => .ofNat b.toNat))]

/-- The value with this kind and content. -/
def ofContent? (kind : Kind) (content : Json) : Option Value :=
  match kind with
  | .s32 => content.int32?.map s32
  | .u32 => content.uint32?.map u32
  | .s64 => content.int64?.map s64
  | .u64 => content.uint64?.map u64
  | .ptr => content.uint64?.map fun w => ptr ⟨w⟩
  | .st => (content.list? Json.uint8?).map st

def ofJson? (j : Json) : Option Value := do
  let (name, content) ← j.tagged?
  ofContent? (← Enumeration.ofName? Kind name) content

end Value

def profileEntries? (j : Json) : Option (SortedMap String Value) := j.map? some Value.ofJson?

namespace Store

/-- The store that sessions on the empty store leave, unless one fails. -/
def build (x : Session Store Unit) : Checked Store := ExceptT.mk do
  let (outcome, s) ← x.runFrom empty
  return outcome.map fun _ => s

/-- The store with these attributes, set one after the other. -/
def ofEntries (entries : List (String × Value)) : Checked Store :=
  build (entries.forM fun e => setValue e.1 e.2)

def ofProfile (j : Option Json) : Checked Store := do
  let attributes ← Document.profile.expect (j.bind profileEntries?)
  ofEntries attributes.entries

def ofProfileText (text : String) : Checked Store := ofProfile (Json.ofText? text)

def ofProfileBytes (bytes : List UInt8) : Checked Store := ofProfile (Json.ofBytes? bytes)

def ofProfileFile (path : String) (content : FileContent) : Checked Store :=
  Document.profile.load ofProfileBytes path content

def toProfile (s : Store) : Json := .ofMembers (s.entries.map fun e => (e.1, e.2.toJson))

def profileText (s : Store) : String := s.toProfile.pretty

end Store

end EncoderSetup

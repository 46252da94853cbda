import EncoderSetup.Error

/-!
# Log events

An event is a record of a level, an optional message and named fields; `Event.line` is its text.
-/

namespace EncoderSetup

inductive Level where
  | error
  | info
  | debug
  deriving DecidableEq, Repr

def Level.name : Level → String
  | error => "ERROR"
  | info => "INFO"
  | debug => "DEBUG"

structure Event where
  level : Level
  /-- What happened; an event may be its fields alone. -/
  message : Option String
  fields : List (String × String)
  deriving DecidableEq, Repr

namespace Event

/-- An event on one line: its level, its message and its fields. -/
def line (e : Event) : String :=
  String.intercalate " " <|
    e.level.name :: (e.message.toList ++ e.fields.map fun f => f.1 ++ "=" ++ f.2)

def listed (text : String) : Event := ⟨.info, some text, []⟩

def violation (e : SetupError) : Event :=
  ⟨.error, some "attribute contract violation", [("error", e.message)]⟩

/-- The report of an error that a caller reckons with. -/
def failed (e : SetupError) : Event := ⟨.debug, none, [("error", e.message)]⟩

end Event

end EncoderSetup

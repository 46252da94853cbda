/-!
# JSON values and their tokens

`Json.tokens` writes a value as its sequence of lexical tokens and `Json.ofTokens?` reads such a
sequence back, with the unfinished containers on a stack, so that nesting has no bound. A sequence
of tokens is read exactly when it is the sequence of a value.
-/

namespace EncoderSetup

/--
A JSON value. A number keeps its value when it is written as an integer (negative zero is not), a
string keeps its text when it has one: a lone surrogate or an undecodable byte leaves it without.
-/
inductive Json where
  | null
  | bool (value : Bool)
  | number (value : Option Int)
  | string (value : Option String)
  | array (elements : List Json)
  | object (members : List (Option String × Json))
  deriving Inhabited

namespace Json

/-- A lexical unit of a JSON text, with what a number or a string stands for. -/
inductive Token where
  | openArray
  | closeArray
  | openObject
  | closeObject
  | colon
  | comma
  | null
  | bool (value : Bool)
  | number (value : Option Int)
  | string (value : Option String)
  deriving DecidableEq, Repr

abbrev Member := Option String × Json

mutual

def tokens : Json → List Token
  | .null => [.null]
  | .bool b => [.bool b]
  | .number n => [.number n]
  | .string s => [.string s]
  | .array elements => .openArray :: (elementTokens elements ++ [.closeArray])
  | .object members => .openObject :: (memberTokens members ++ [.closeObject])

/-- The tokens of array elements, with a comma between two neighbours. -/
def elementTokens : List Json → List Token
  | [] => []
  | [j] => tokens j
  | j :: rest => tokens j ++ .comma :: elementTokens rest

/-- The tokens of object members, with a comma between two neighbours. -/
def memberTokens : List (Option String × Json) → List Token
  | [] => []
  | [(name, j)] => .string name :: .colon :: tokens j
  | (name, j) :: rest => .string name :: .colon :: (tokens j ++ .comma :: memberTokens rest)

end

/-- An unfinished container around the value that is being read; what it holds is in reverse. -/
inductive Frame where
  | elements (read : List Json)
  | members (read : List Member) (name : Option String)

/-- What the tokens read so far leave open. -/
inductive State where
  | value (stack : List Frame)
  | firstElement (stack : List Frame)
  | firstName (stack : List Frame)
  /-- A comma stands after these members. -/
  | nextName (read : List Member) (stack : List Frame)
  | colon (read : List Member) (name : Option String) (stack : List Frame)
  | complete (value : Json) (stack : List Frame)

namespace State

def start (stack : List Frame) : Token → Option State
  | .null => some (complete .null stack)
  | .bool b => some (complete (.bool b) stack)
  | .number n => some (complete (.number n) stack)
  | .string s => some (complete (.string s) stack)
  | .openArray => some (firstElement stack)
  | .openObject => some (firstName stack)
  | _ => none

def step : State → Token → Option State
  | value stack, t => start stack t
  | firstElement stack, .closeArray => some (complete (.array []) stack)
  | firstElement stack, t => start (.elements [] :: stack) t
  | firstName stack, .closeObject => some (complete (.object []) stack)
  | firstName stack, .string name => some (colon [] name stack)
  | nextName read stack, .string name => some (colon read name stack)
  | colon read name stack, .colon => some (value (.members read name :: stack))
  | complete j (.elements read :: stack), .comma => some (value (.elements (j :: read) :: stack))
  | complete j (.elements read :: stack), .closeArray =>
      some (complete (.array (j :: read).reverse) stack)
  | complete j (.members read name :: stack), .comma => some (nextName ((name, j) :: read) stack)
  | complete j (.members read name :: stack), .closeObject =>
      some (complete (.object ((name, j) :: read).reverse) stack)
  | _, _ => none

end State

def ofTokens? (ts : List Token) : Option Json :=
  match ts.foldlM State.step (State.value []) with
  | some (.complete j []) => some j
  | _ => none

end Json

end EncoderSetup

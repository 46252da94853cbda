import EncoderSetup.Json.Tree

/-!
# From values to text

One renderer with two layouts: compact, and pretty with two spaces per level. A string escapes the
quote, the backslash and the control characters, and nothing else. Every rendering is a JSON text:
a number without an integer value is written `-0`, a string without a text as a lone surrogate, and
both are read back as such.
-/

namespace EncoderSetup.Json

/-- The letter of the short escape that stands for a character, where writing uses one. -/
def escapeLetter? : Char → Option Char
  | '"' => some '"'
  | '\\' => some '\\'
  | '\x08' => some 'b'
  | '\x0c' => some 'f'
  | '\n' => some 'n'
  | '\r' => some 'r'
  | '\t' => some 't'
  | _ => none

def renderChar (c : Char) : List Char :=
  match escapeLetter? c with
  | some letter => ['\\', letter]
  | none =>
      if c.toNat < 0x20 then
        ['\\', 'u', '0', '0', Nat.digitChar (c.toNat / 16), Nat.digitChar (c.toNat % 16)]
      else [c]

def renderString : Option String → List Char
  | some s => '"' :: (s.toList.flatMap renderChar ++ ['"'])
  | none => ['"', '\\', 'u', 'd', '8', '0', '0', '"']

def renderNumber : Option Int → List Char
  | some n => (toString n).toList
  | none => ['-', '0']

/-- How a rendering is laid out: what begins a line at a depth, and what follows a name. -/
structure Layout where
  newline : Nat → List Char
  afterName : List Char

def Layout.compact : Layout := ⟨fun _ => [], [':']⟩

/-- Each element and member on a line of its own, two spaces deeper than its container. -/
def Layout.pretty : Layout := ⟨fun depth => '\n' :: List.replicate (2 * depth) ' ', [':', ' ']⟩

mutual

/-- A value whose container stands at `depth`. -/
def renderWith (layout : Layout) (depth : Nat) : Json → List Char
  | .null => ['n', 'u', 'l', 'l']
  | .bool true => ['t', 'r', 'u', 'e']
  | .bool false => ['f', 'a', 'l', 's', 'e']
  | .number n => renderNumber n
  | .string s => renderString s
  | .array [] => ['[', ']']
  | .array (j :: rest) =>
      '[' :: (renderElements layout (depth + 1) (j :: rest) ++ layout.newline depth ++ [']'])
  | .object [] => ['\x7b', '\x7d']
  | .object (m :: rest) =>
      '\x7b' :: (renderMembers layout (depth + 1) (m :: rest) ++ layout.newline depth ++ ['\x7d'])

def renderElements (layout : Layout) (depth : Nat) : List Json → List Char
  | [] => []
  | [j] => layout.newline depth ++ renderWith layout depth j
  | j :: rest =>
      layout.newline depth ++ renderWith layout depth j ++ ',' :: renderElements layout depth rest

def renderMembers (layout : Layout) (depth : Nat) : List (Option String × Json) → List Char
  | [] => []
  | [(name, j)] =>
      layout.newline depth ++ renderString name ++ layout.afterName ++ renderWith layout depth j
  | (name, j) :: rest =>
      layout.newline depth ++ renderString name ++ layout.afterName ++ renderWith layout depth j ++
        ',' :: renderMembers layout depth rest

end

def compact (j : Json) : String := String.ofList (renderWith .compact 0 j)

/-- The text of a value with one element or member per line. -/
def pretty (j : Json) : String := String.ofList (renderWith .pretty 0 j)

end EncoderSetup.Json

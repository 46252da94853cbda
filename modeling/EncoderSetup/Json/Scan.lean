import EncoderSetup.Json.Symbol
import EncoderSetup.Json.Tree
import EncoderSetup.Text.Numeral

/-!
# From symbols to tokens

One pass over the symbols of a document, each step a function of what has been read so far. White
space is space, tab, line feed and carriage return; a number ends where a symbol comes that cannot
continue it; a string refuses control characters and unknown escapes at once, and is turned into a
text only when it is complete (`Piece.text?`), so a string that is skipped need not have one.
-/

namespace EncoderSetup.Json

/-- What a string literal contributes at one place. -/
inductive Piece where
  /-- A character, plain or by a short escape. -/
  | char (c : Char)
  /-- A 16-bit unit given by four hexadecimal digits. -/
  | unit (code : Nat)
  /-- A byte outside every well-formed sequence. -/
  | stray
  deriving DecidableEq, Repr

/-- The 16-bit units that open a surrogate pair. -/
def isLeadingSurrogate (code : Nat) : Bool := 0xD800 ≤ code && code < 0xDC00

/-- The 16-bit units that close a surrogate pair. -/
def isTrailingSurrogate (code : Nat) : Bool := 0xDC00 ≤ code && code < 0xE000

/-- The character that a surrogate pair stands for. -/
def pairedSurrogates (leading trailing : Nat) : Char :=
  Char.ofNat (0x10000 + (leading - 0xD800) * 0x400 + (trailing - 0xDC00))

/-- The characters of a string literal, if every surrogate is paired and every byte decodes. -/
def Piece.chars? : List Piece → Option (List Char)
  | [] => some []
  | .char c :: rest => (chars? rest).map (c :: ·)
  | .unit leading :: .unit trailing :: rest =>
      if isLeadingSurrogate leading then
        if isTrailingSurrogate trailing then
          (chars? rest).map (pairedSurrogates leading trailing :: ·)
        else none
      else if isTrailingSurrogate leading then none
      else (chars? (.unit trailing :: rest)).map (Char.ofNat leading :: ·)
  | .unit code :: rest =>
      if isLeadingSurrogate code || isTrailingSurrogate code then none
      else (chars? rest).map (Char.ofNat code :: ·)
  | .stray :: _ => none

def Piece.text? (pieces : List Piece) : Option String := (chars? pieces).map String.ofList

def shortEscape? : Char → Option Char
  | '"' => some '"'
  | '\\' => some '\\'
  | '/' => some '/'
  | 'b' => some '\x08'
  | 'f' => some '\x0c'
  | 'n' => some '\n'
  | 'r' => some '\r'
  | 't' => some '\t'
  | _ => none

/-- Where inside a string literal the scan stands. -/
inductive StringPhase where
  | plain
  | escape
  /-- Inside four hexadecimal digits: how many are to come, and the value of those read. -/
  | hex (missing : Nat) (value : Nat)
  deriving DecidableEq, Repr

/-- Where inside a number literal the scan stands. -/
inductive NumberPhase where
  | minus
  | zero
  | integer
  | point
  | fraction
  | exponentMark
  | exponentSign
  | exponent
  deriving DecidableEq, Repr

/-- A number literal up to where the scan stands; `magnitude` is that of its integer digits. -/
structure NumberScan where
  phase : NumberPhase
  negative : Bool
  magnitude : Nat
  deriving DecidableEq, Repr

namespace NumberScan

def isDigit (c : Char) : Bool := '0' ≤ c && c ≤ '9'

def digitValue (c : Char) : Nat := c.toNat - '0'.toNat

def start? (c : Char) : Option NumberScan :=
  if c = '-' then some ⟨.minus, true, 0⟩
  else if c = '0' then some ⟨.zero, false, 0⟩
  else if isDigit c then some ⟨.integer, false, digitValue c⟩
  else none

/-- Continues a number literal by one character, if the character can continue it. -/
def step? (n : NumberScan) (c : Char) : Option NumberScan :=
  match n.phase with
  | .minus =>
      if c = '0' then some { n with phase := .zero }
      else if isDigit c then some { n with phase := .integer, magnitude := digitValue c }
      else none
  | .zero => afterInteger
  | .integer =>
      if isDigit c then some { n with magnitude := 10 * n.magnitude + digitValue c }
      else afterInteger
  | .point => if isDigit c then some { n with phase := .fraction } else none
  | .fraction =>
      if isDigit c then some n
      else if c = 'e' ∨ c = 'E' then some { n with phase := .exponentMark }
      else none
  | .exponentMark =>
      if c = '+' ∨ c = '-' then some { n with phase := .exponentSign }
      else if isDigit c then some { n with phase := .exponent }
      else none
  | .exponentSign => if isDigit c then some { n with phase := .exponent } else none
  | .exponent => if isDigit c then some n else none
where
  /-- What may follow the digits before a point. -/
  afterInteger : Option NumberScan :=
    if c = '.' then some { n with phase := .point }
    else if c = 'e' ∨ c = 'E' then some { n with phase := .exponentMark }
    else none

/--
The token of a finished number literal: an integer written with neither point nor exponent keeps its
value, but negative zero is no integer.
-/
def token? (n : NumberScan) : Option Token :=
  match n.phase with
  | .zero => some (.number (if n.negative then none else some 0))
  | .integer => some (.number (some (if n.negative then -n.magnitude else n.magnitude)))
  | .fraction | .exponent => some (.number none)
  | .minus | .point | .exponentMark | .exponentSign => none

end NumberScan

inductive Place where
  | between
  /-- Inside a word that means `token`, with these characters to come. -/
  | word (token : Token) (rest : List Char)
  | number (n : NumberScan)
  /-- Inside a string with these pieces so far, in reverse. -/
  | string (pieces : List Piece) (phase : StringPhase)

/-- A scan in progress: the tokens so far, in reverse, and the place. -/
structure Scan where
  tokens : List Token
  place : Place

namespace Scan

def initial : Scan := ⟨[], .between⟩

/-- The characters that separate tokens and mean nothing. -/
def isBlank (c : Char) : Bool := c = ' ' || c = '\t' || c = '\n' || c = '\r'

def mark? : Char → Option Token
  | '[' => some .openArray
  | ']' => some .closeArray
  | '{' => some .openObject
  | '}' => some .closeObject
  | ':' => some .colon
  | ',' => some .comma
  | _ => none

/-- The token that a word beginning with this character must be, and what follows the character. -/
def word? : Char → Option (Token × List Char)
  | 'n' => some (.null, ['u', 'l', 'l'])
  | 't' => some (.bool true, ['r', 'u', 'e'])
  | 'f' => some (.bool false, ['a', 'l', 's', 'e'])
  | _ => none

def push (tokens : List Token) (t : Token) : Scan := ⟨t :: tokens, .between⟩

def start (tokens : List Token) (c : Char) : Option Scan :=
  if isBlank c then some ⟨tokens, .between⟩
  else if c = '"' then some ⟨tokens, .string [] .plain⟩
  else
    match mark? c, word? c, NumberScan.start? c with
    | some t, _, _ => some (push tokens t)
    | none, some (t, rest), _ => some ⟨tokens, .word t rest⟩
    | none, none, some n => some ⟨tokens, .number n⟩
    | none, none, none => none

def inString (tokens : List Token) (pieces : List Piece) (c : Char) : StringPhase → Option Scan
  | .plain =>
      if c = '"' then some (push tokens (.string (Piece.text? pieces.reverse)))
      else if c = '\\' then some ⟨tokens, .string pieces .escape⟩
      else if c.toNat < 0x20 then none
      else some ⟨tokens, .string (.char c :: pieces) .plain⟩
  | .escape =>
      if c = 'u' then some ⟨tokens, .string pieces (.hex 4 0)⟩
      else (shortEscape? c).map fun d => ⟨tokens, .string (.char d :: pieces) .plain⟩
  | .hex missing value =>
      (Numeral.hexValue? c).map fun d =>
        let value := 16 * value + d
        if missing ≤ 1 then ⟨tokens, .string (.unit value :: pieces) .plain⟩
        else ⟨tokens, .string pieces (.hex (missing - 1) value)⟩

def step (s : Scan) : Symbol → Option Scan
  | .stray _ =>
      match s.place with
      | .string pieces .plain => some ⟨s.tokens, .string (.stray :: pieces) .plain⟩
      | _ => none
  | .char c =>
      match s.place with
      | .between => start s.tokens c
      | .word _ [] => none
      | .word t [d] => if c = d then some (push s.tokens t) else none
      | .word t (d :: rest) => if c = d then some ⟨s.tokens, .word t rest⟩ else none
      | .number n =>
          match n.step? c with
          | some n => some ⟨s.tokens, .number n⟩
          | none => n.token?.bind fun t => start (t :: s.tokens) c
      | .string pieces phase => inString s.tokens pieces c phase

/-- The tokens, if the document may end here. -/
def finish? (s : Scan) : Option (List Token) :=
  match s.place with
  | .between => some s.tokens.reverse
  | .number n => n.token?.map fun t => (t :: s.tokens).reverse
  | .word .. | .string .. => none

end Scan

def scan? (symbols : List Symbol) : Option (List Token) :=
  (symbols.foldlM Scan.step Scan.initial).bind Scan.finish?

def ofSymbols? (symbols : List Symbol) : Option Json := (scan? symbols).bind ofTokens?

def ofText? (s : String) : Option Json := ofSymbols? (Symbol.ofText s)

def ofBytes? (bytes : List UInt8) : Option Json := ofSymbols? (Symbol.ofBytes bytes)

end EncoderSetup.Json

import EncoderSetup.Json.Scan

/-!
# The grammar of JSON texts

What a token looks like, `Lexeme`, and what a sequence of tokens looks like, `Spelled`: the lexemes
in order, with white space before, between and after them. `IsText j s` says that the text `s` is
one value `j` and nothing else. A number has a value when it is an integer literal, a string when
its escapes are those of characters; any other literal is a lexeme without one.
-/

namespace EncoderSetup.Json

def Symbol.ofChars (t : List Char) : List Symbol := t.map .char

open EncoderSetup.Json.Symbol

@[simp] theorem ofChars_nil : ofChars [] = [] := rfl

@[simp] theorem ofChars_cons (c : Char) (t : List Char) :
    ofChars (c :: t) = .char c :: ofChars t := rfl

@[simp] theorem ofChars_append (t u : List Char) : ofChars (t ++ u) = ofChars t ++ ofChars u :=
  List.map_append

def IsDigits (t : List Char) : Prop := t ≠ [] ∧ ∀ c ∈ t, c.isDigit

/-- A decimal numeral without leading zeros, and its value. -/
inductive IsNatural : List Char → Nat → Prop where
  | zero : IsNatural ['0'] 0
  | digits {c : Char} {t : List Char} : c.isDigit → c ≠ '0' → (∀ d ∈ t, d.isDigit) →
      IsNatural (c :: t) (Nat.ofDigitChars 10 (c :: t) 0)

inductive IsExponent : List Char → Prop where
  | unsigned {e : Char} {t : List Char} : (e = 'e' ∨ e = 'E') → IsDigits t → IsExponent (e :: t)
  | signed {e sign : Char} {t : List Char} : (e = 'e' ∨ e = 'E') → (sign = '+' ∨ sign = '-') →
      IsDigits t → IsExponent (e :: sign :: t)

/-- What makes a numeral a decimal one: a fraction, an exponent, or one after the other. -/
inductive IsDecimal : List Char → Prop where
  | exponent {t : List Char} : IsExponent t → IsDecimal t
  | fraction {t u : List Char} : IsDigits t → (u = [] ∨ IsExponent u) → IsDecimal ('.' :: (t ++ u))

/-- A number literal, and its value if it is an integer literal; `-0` is none. -/
inductive IsNumber : List Char → Option Int → Prop where
  | natural {t : List Char} {n : Nat} : IsNatural t n → IsNumber t (some n)
  | negative {t : List Char} {n : Nat} : IsNatural t n → n ≠ 0 → IsNumber ('-' :: t) (some (-n))
  | negativeZero : IsNumber ['-', '0'] none
  | decimal {t u : List Char} {n : Nat} : IsNatural t n → IsDecimal u → IsNumber (t ++ u) none
  | negativeDecimal {t u : List Char} {n : Nat} : IsNatural t n → IsDecimal u →
      IsNumber ('-' :: (t ++ u)) none

/-- The letters of the short escapes and the characters that they stand for. -/
def shortEscapes : List (Char × Char) :=
  [('"', '"'), ('\\', '\\'), ('/', '/'), ('b', '\x08'), ('f', '\x0c'), ('n', '\n'), ('r', '\r'),
    ('t', '\t')]

/-- Four hexadecimal digits of either case and the 16-bit unit that they give. -/
inductive IsUnit : List Char → Nat → Prop where
  | digits {a b c d : Char} {w x y z : Nat} : Numeral.hexValue? a = some w →
      Numeral.hexValue? b = some x → Numeral.hexValue? c = some y → Numeral.hexValue? d = some z →
      IsUnit [a, b, c, d] (0x1000 * w + 0x100 * x + 0x10 * y + z)

/-- A character that stands for itself between quotes. -/
def IsPlain (c : Char) : Prop := 0x20 ≤ c.toNat ∧ c ≠ '"' ∧ c ≠ '\\'

/-- What stands between the quotes of a string, and the characters of its text. -/
inductive Spells : List Char → List Char → Prop where
  | nil : Spells [] []
  | plain {c : Char} {t s : List Char} : IsPlain c → Spells t s → Spells (c :: t) (c :: s)
  | short {e c : Char} {t s : List Char} : (e, c) ∈ shortEscapes → Spells t s →
      Spells ('\\' :: e :: t) (c :: s)
  | unit {c : Char} {u t s : List Char} : IsUnit u c.toNat → Spells t s →
      Spells ('\\' :: 'u' :: (u ++ t)) (c :: s)
  | pair {c : Char} {a b : Nat} {u v t s : List Char} : IsUnit u (0xD800 + a) → a < 0x400 →
      IsUnit v (0xDC00 + b) → b < 0x400 → c.toNat = 0x10000 + 0x400 * a + b → Spells t s →
      Spells ('\\' :: 'u' :: (u ++ '\\' :: 'u' :: (v ++ t))) (c :: s)

/-- What stands for one piece between the quotes of any string, one with a text or not. -/
inductive IsPiece : List Symbol → Piece → Prop where
  | plain {c : Char} : IsPlain c → IsPiece [.char c] (.char c)
  | short {e c : Char} : (e, c) ∈ shortEscapes → IsPiece (ofChars ['\\', e]) (.char c)
  | unit {u : List Char} {n : Nat} : IsUnit u n → IsPiece (ofChars ('\\' :: 'u' :: u)) (.unit n)
  | stray {byte : UInt8} : IsPiece [.stray byte] .stray

inductive Pieces : List Symbol → List Piece → Prop where
  | nil : Pieces [] []
  | cons {b r : List Symbol} {p : Piece} {ps : List Piece} : IsPiece b p → Pieces r ps →
      Pieces (b ++ r) (p :: ps)

/-- The one lexeme of a mark or a word. -/
def Token.fixed? : Token → Option (List Char)
  | .openArray => some ['[']
  | .closeArray => some [']']
  | .openObject => some ['{']
  | .closeObject => some ['}']
  | .colon => some [':']
  | .comma => some [',']
  | .null => some ['n', 'u', 'l', 'l']
  | .bool true => some ['t', 'r', 'u', 'e']
  | .bool false => some ['f', 'a', 'l', 's', 'e']
  | .number _ | .string _ => none

def quoted (b : List Symbol) : List Symbol := .char '"' :: (b ++ [.char '"'])

inductive Lexeme : Token → List Symbol → Prop where
  | fixed {t : Token} {l : List Char} : t.fixed? = some l → Lexeme t (ofChars l)
  | number {l : List Char} {n : Option Int} : IsNumber l n → Lexeme (.number n) (ofChars l)
  | string {l s : List Char} : Spells l s →
      Lexeme (.string (some (String.ofList s))) (quoted (ofChars l))
  | textless {b : List Symbol} {ps : List Piece} : Pieces b ps →
      (∀ l s, Spells l s → b ≠ ofChars l) → Lexeme (.string none) (quoted b)

/-- White space: spaces, tabs, line feeds and carriage returns. -/
def IsBlank (b : List Symbol) : Prop := ∀ x ∈ b, x ∈ ofChars [' ', '\t', '\n', '\r']

/-- Tokens in order, with white space around them. -/
inductive Spelled : List Token → List Symbol → Prop where
  | nil {b : List Symbol} : IsBlank b → Spelled [] b
  | cons {t : Token} {ts : List Token} {b l r : List Symbol} : IsBlank b → Lexeme t l →
      Spelled ts r → Spelled (t :: ts) (b ++ l ++ r)

theorem isBlank_nil : IsBlank [] := fun _ h => by cases h

theorem isBlank_cons {x : Symbol} {b : List Symbol} :
    IsBlank (x :: b) ↔ x ∈ ofChars [' ', '\t', '\n', '\r'] ∧ IsBlank b := List.forall_mem_cons

/-- White space may be put before any token sequence. -/
theorem Spelled.blank {ts : List Token} {b r : List Symbol} (hb : IsBlank b) (h : Spelled ts r) :
    Spelled ts (b ++ r) := by
  cases h with
  | nil hr => exact .nil (List.forall_mem_append.mpr ⟨hb, hr⟩)
  | cons hc hl h =>
      rw [← List.append_assoc, ← List.append_assoc]
      exact .cons (List.forall_mem_append.mpr ⟨hb, hc⟩) hl h

/-- White space may follow any token sequence. -/
theorem Spelled.append_blank {ts : List Token} {b r : List Symbol} (h : Spelled ts r)
    (hb : IsBlank b) : Spelled ts (r ++ b) := by
  induction h with
  | nil hr => exact .nil (List.forall_mem_append.mpr ⟨hr, hb⟩)
  | cons hc hl _ ih =>
      rw [List.append_assoc]
      exact .cons hc hl ih

theorem Spelled.lexeme {t : Token} {ts : List Token} {l r : List Symbol} (hl : Lexeme t l)
    (h : Spelled ts r) : Spelled (t :: ts) (l ++ r) := .cons isBlank_nil hl h

/-- A text that is one value, with white space around its tokens and nothing else. -/
def IsText (j : Json) (text : String) : Prop := Spelled (tokens j) (ofText text)

theorem IsText.append_newline {j : Json} {text : String} (h : IsText j text) :
    IsText j (text ++ "\n") := by
  have hblank : IsBlank (ofChars ['\n']) := isBlank_cons.mpr ⟨by simp, isBlank_nil⟩
  have happend : ofText (text ++ "\n") = ofText text ++ ofChars ['\n'] := by simp [ofText]
  rw [IsText, happend]
  exact h.append_blank hblank

end EncoderSetup.Json

/-!
# Units of a JSON document

A document arrives as a text or as the bytes of a file. Both are read as a list of symbols: a byte
sequence that is not well-formed UTF-8 leaves its bytes as stray symbols, which a reader can then
tolerate where it looks at no character.
-/

namespace EncoderSetup.Json

/-- A character, or a byte that begins no well-formed UTF-8 sequence. -/
inductive Symbol where
  | char (c : Char)
  | stray (b : UInt8)
  deriving DecidableEq, Repr

namespace Symbol

def ofText (s : String) : List Symbol := s.toList.map char

/-- Decodes bytes from the left, dropping first those that the last character already covers. -/
def decode : (covered : Nat) → List UInt8 → List Symbol
  | _, [] => []
  | covered + 1, _ :: rest => decode covered rest
  | 0, b :: rest =>
      match (b :: rest.take 3).toByteArray.utf8DecodeChar? 0 with
      | some c => char c :: decode (c.utf8Size - 1) rest
      | none => stray b :: decode 0 rest

/-- The symbols of a byte sequence: the characters it encodes, any other byte as a stray one. -/
def ofBytes (bytes : List UInt8) : List Symbol := decode 0 bytes

end Symbol

end EncoderSetup.Json

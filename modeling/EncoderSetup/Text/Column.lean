/-!
# Columns of text

A text in a column of a given width, counted in characters. A text that is too long is not cut; a
column with a precision first keeps that many characters of it.
-/

namespace EncoderSetup.Column

def fill (width : Nat) (s : String) : String :=
  String.ofList (List.replicate (width - s.length) ' ')

def left (width : Nat) (s : String) : String := s ++ fill width s

def right (width : Nat) (s : String) : String := fill width s ++ s

/-- The first `precision` characters of a text. -/
def cut (precision : Nat) (s : String) : String := String.ofList (s.toList.take precision)

end EncoderSetup.Column

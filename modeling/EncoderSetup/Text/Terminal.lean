/-!
# What a terminal shows of a text

Control characters do not show, and neither do the sequences that start with an escape character and
go on over several characters. A sequence that a text leaves open hides the rest of it. White space
inside a sequence shows, and so do the characters after it up to the next control character, where
the sequence goes on.
-/

namespace EncoderSetup.Terminal

/-- What an open sequence waits for. -/
inductive Sequence where
  /-- The character that says which kind of sequence it is. -/
  | kind
  /-- The last character of a short sequence. -/
  | final
  /-- The letter after the parameters of a control sequence. -/
  | letter
  /-- The letter that starts the text of a device control string. -/
  | device
  /-- That letter, after parameters. -/
  | parameters
  /-- That letter, after marks, which no parameter follows. -/
  | marks
  /-- The end of a string. -/
  | terminator
  /-- The end of a system command, which a bell gives. -/
  | bell
  deriving DecidableEq, Repr

def escape : Char := '\x1b'

def isBetween (first last c : Char) : Bool := first ≤ c && c ≤ last

/-- Whether the encoding of a character holds the byte that ends a string. -/
def endsString (c : Char) : Bool := (String.utf8EncodeChar c).contains 0x9c

namespace Sequence

/-- The sequence that the character after an escape character starts. -/
def ofKind (c : Char) : Option Sequence :=
  if c = '[' then some letter
  else if c = ']' then some bell
  else if c = 'P' then some device
  else if c = 'X' ∨ c = '^' ∨ c = '_' then some terminator
  else if isBetween '0' '~' c then none
  else if isBetween ' ' '/' c then some final
  else some kind

/-- The sequence after a character that neither starts nor cancels one. -/
def next : Sequence → Char → Option Sequence
  | kind, c => ofKind c
  | final, c => if isBetween '0' '~' c then none else some final
  | letter, c => if isBetween '@' '~' c then none else some letter
  | device, c =>
      some (if isBetween '@' '~' c then terminator else if isBetween '0' '?' c then parameters
        else if isBetween ' ' '/' c then marks else device)
  | parameters, c =>
      some (if isBetween '<' '~' c then terminator else if isBetween ' ' '/' c then marks
        else parameters)
  | marks, c => some (if isBetween '0' '~' c then terminator else marks)
  | terminator, c => if endsString c then none else some terminator
  | bell, c => if c = '\x07' then none else some bell

/-- Whether white space inside the sequence shows. -/
def showsSpace : Sequence → Bool
  | kind | final | letter => true
  | device | parameters | marks | terminator | bell => false

end Sequence

/-- White space among the control characters. -/
def isSpacing (c : Char) : Bool := c = '\t' || c = '\n' || c = '\x0c' || c = '\r'

def isHidden (c : Char) : Bool := (c < ' ' && !isSpacing c) || c = '\x7f'

/-- A place in a text: the sequence that is open there, and whether characters show in spite of
it. -/
structure Place where
  sequence : Option Sequence
  interrupted : Bool
  deriving DecidableEq, Repr

namespace Place

def start : Place := ⟨none, false⟩

/-- The place after a character that is not shown. -/
def hide (p : Place) (c : Char) : Place where
  sequence :=
    if c = escape then some .kind
    else if c = '\x18' ∨ c = '\x1a' then none
    else p.sequence.bind fun s => s.next c
  interrupted := false

/-- The place after a character, and whether it shows. -/
def step (p : Place) (c : Char) : Place × Bool :=
  if p.sequence.isNone || p.interrupted then
    if isHidden c then (p.hide c, false)
    else if c ≤ '\x7f' then (p, true)
    else (start, true)
  else if isSpacing c && p.sequence.any Sequence.showsSpace then
    ({ p with interrupted := true }, true)
  else (p.hide c, false)

/-- What shows of a text from a place on. -/
def shown (p : Place) : List Char → List Char
  | [] => []
  | c :: rest =>
      let q := p.step c
      if q.2 then c :: q.1.shown rest else q.1.shown rest

end Place

def visible (s : String) : String := String.ofList (Place.start.shown s.toList)

end EncoderSetup.Terminal

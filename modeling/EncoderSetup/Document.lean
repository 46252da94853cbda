import EncoderSetup.Diagnostic.Traced

/-!
# Loading documents

What a path holds, as far as loading a document can tell. A file that cannot be opened is a failure
of the surroundings; one that can be opened but not read is malformed, like one with other content.
-/

namespace EncoderSetup

inductive FileContent where
  | bytes (bytes : List UInt8)
  /-- It opens but gives no bytes, as a directory does. -/
  | unreadable
  /-- It does not open, for the reason that the system gives. -/
  | unopened (reason : String)

namespace Document

def malformed (d : Document) : SetupError := .malformed (.document d)

variable {m : Type → Type} [Monad m] [MonadExceptOf SetupError m] {α : Type}

/-- A value read from a document, or the error of one with the wrong content. -/
def expect (d : Document) : Option α → m α
  | some a => pure a
  | none => throw d.malformed

def load (d : Document) (ofBytes : List UInt8 → m α) (path : String) : FileContent → m α
  | .bytes bytes => ofBytes bytes
  | .unreadable => throw d.malformed
  | .unopened reason => throw (.other (.unopened d path reason))

end Document

end EncoderSetup

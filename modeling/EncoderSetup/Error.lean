import EncoderSetup.Attribute.Value
import EncoderSetup.Frame.Format
import EncoderSetup.Lifecycle.Stage

/-!
# What can go wrong

Every failure is a `SetupError` that holds its cause; `SetupError.message` is the only place that
words one. Misuse and a read of the wrong kind break the contract of a call, the other failures are
outcomes a caller reckons with (`SetupError.isContractViolation`).
-/

namespace EncoderSetup

inductive Document where
  | profile
  | registry
  | table
  deriving DecidableEq, Repr

def Document.name : Document → String
  | .profile => "attribute profile"
  | .registry => "profile registry"
  | .table => "geometry table"

inductive Quantity where
  | rowBytes
  | pixelStride
  | byteStride
  | verticalStride
  | totalSize
  | headerSize
  | bodySize
  | bodyOffset
  | headerProduct
  | bodyProduct
  deriving DecidableEq, Repr

def Quantity.name : Quantity → String
  | .rowBytes => "row bytes"
  | .pixelStride => "h_stride_by_pixel"
  | .byteStride => "h_stride_by_byte"
  | .verticalStride => "v_stride"
  | .totalSize => "size_total"
  | .headerSize => "size_fbc_hdr"
  | .bodySize => "size_fbc_bdy"
  | .bodyOffset => "fbc_bdy_offset"
  | .headerProduct => "fbc header"
  | .bodyProduct => "fbc body"

/-- An argument that a call does not take, or whose result cannot be represented. -/
inductive Misuse where
  | emptyAttributeName
  | emptyProfileName
  | stageOutOfRange (raw : UInt32)
  /-- A buffer of another length than the block that is to be copied into it. -/
  | bufferLength (name : String) (held given : Nat)
  /-- A block of another length than the structure that is to be read from it. -/
  | structureLength (name : String) (held needed : Nat)
  | zeroConstant (constant : String)
  | overflow (quantity : Quantity)
  | exceeds (quantity : Quantity) (value : UInt64)
  | stated (text : String)
  deriving DecidableEq, Repr

def Misuse.text : Misuse → String
  | emptyAttributeName => "attribute name must not be empty"
  | emptyProfileName => "profile name must not be empty"
  | stageOutOfRange raw =>
      "stage id " ++ toString raw.toNat ++ " out of range (must be < " ++
        toString Stage.count.toNat ++ ")"
  | bufferLength name held given =>
      "'" ++ name ++ "' holds " ++ toString held ++ " bytes, caller buffer is " ++ toString given
  | structureLength name held needed =>
      "'" ++ name ++ "' holds " ++ toString held ++ " bytes, structure needs " ++ toString needed
  | zeroConstant constant => constant ++ " must be > 0"
  | overflow quantity => quantity.name ++ " overflows u64"
  | exceeds quantity value => quantity.name ++ " " ++ toString value.toNat ++ " exceeds u32"
  | .stated text => text

inductive Missing where
  | attributeName (name : String)
  | profileName (name : String)
  | stated (text : String)
  deriving DecidableEq, Repr

def Missing.text : Missing → String
  | attributeName name => "attribute '" ++ name ++ "'"
  | profileName name => "config profile '" ++ name ++ "'"
  | .stated text => text

/-- A coding type or a pixel format that is not known, or that a geometry table does not cover. -/
inductive Unsupported where
  | codingId (raw : UInt32)
  | codingName (name : String)
  | formatId (raw : UInt32)
  | formatName (name : String)
  | coding (coding : Coding)
  | format (format : PixelFormat)
  | compression (format : PixelFormat)
  | stated (text : String)
  deriving DecidableEq, Repr

def Unsupported.text : Unsupported → String
  | codingId raw => "coding type id 0x" ++ Numeral.hex raw.toNat
  | codingName name => "coding type '" ++ name ++ "'"
  | formatId raw => "pixel format id 0x" ++ Numeral.hex raw.toNat
  | formatName name => "pixel format '" ++ name ++ "'"
  | .coding c => "coding type " ++ c.name ++ " not in table"
  | .format f => "pixel format " ++ f.name ++ " not in table"
  | compression f => "pixel format " ++ f.name ++ " has no FBC layout"
  | .stated text => text

inductive Malformed where
  | document (document : Document)
  | stated (text : String)
  deriving DecidableEq, Repr

def Malformed.text : Malformed → String
  | .document d => "parse " ++ d.name ++ " JSON"
  | .stated text => text

inductive Failure where
  /-- A file that cannot be opened, and the reason that the system gives. -/
  | unopened (document : Document) (path reason : String)
  | stated (text : String)
  deriving DecidableEq, Repr

def Failure.text : Failure → String
  | unopened document path _ => "open " ++ document.name ++ " '" ++ path ++ "'"
  | .stated text => text

/-- What memory is asked for. -/
inductive Demand where
  | map
  /-- A value for a name that has none. -/
  | insertion (name : String)
  | commit
  deriving DecidableEq, Repr

def Demand.text : Demand → String
  | map => "reserve attribute map"
  | insertion name => "insert '" ++ name ++ "'"
  | commit => "commit staged edits"

inductive SetupError where
  | invalidArgument (cause : Misuse)
  | notFound (cause : Missing)
  /-- An attribute was read as another kind than it holds. -/
  | typeMismatch (name : String) (stored requested : Kind)
  | allocation (text : String)
  | unsupportedFormat (cause : Unsupported)
  | malformed (cause : Malformed)
  | other (cause : Failure)
  deriving DecidableEq, Repr

namespace SetupError

/-- Memory is refused, for a reason that the system gives. -/
def unreserved (d : Demand) (reason : String) : SetupError := allocation (d.text ++ ": " ++ reason)

def message : SetupError → String
  | invalidArgument cause => "invalid argument: " ++ cause.text
  | notFound cause => "not found: " ++ cause.text
  | typeMismatch name stored requested =>
      "type mismatch for '" ++ name ++ "': stored " ++ stored.name ++ ", requested " ++
        requested.name
  | allocation text => "allocation error: " ++ text
  | unsupportedFormat cause => "unsupported format: " ++ cause.text
  | malformed cause => "serialization error: " ++ cause.text
  | other cause => cause.text

/-- What lies behind an error, outermost first. -/
def reasons : SetupError → List String
  | other (.unopened _ _ reason) => [reason]
  | _ => []

def isContractViolation : SetupError → Bool
  | invalidArgument _ | typeMismatch .. => true
  | _ => false

end SetupError

end EncoderSetup

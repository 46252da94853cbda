import EncoderSetup.Error

/-!
# Coding types and pixel formats by id and by name

An id or a name that belongs to no coding type, or to no pixel format, is unsupported.
-/

namespace EncoderSetup

def Coding.ofRawId (raw : UInt32) : Except SetupError Coding :=
  match ofRawId? raw with
  | some c => .ok c
  | none => .error (.unsupportedFormat (.codingId raw))

def Coding.ofName (name : String) : Except SetupError Coding :=
  match Enumeration.ofName? Coding name with
  | some c => .ok c
  | none => .error (.unsupportedFormat (.codingName name))

def PixelFormat.ofRawId (raw : UInt32) : Except SetupError PixelFormat :=
  match ofRawId? raw with
  | some f => .ok f
  | none => .error (.unsupportedFormat (.formatId raw))

def PixelFormat.ofName (name : String) : Except SetupError PixelFormat :=
  match Enumeration.ofName? PixelFormat name with
  | some f => .ok f
  | none => .error (.unsupportedFormat (.formatName name))

end EncoderSetup

import EncoderSetup.Text.Blank
import EncoderSetup.Text.Numeral

/-!
# The debug word

A word of 32 bits selects extra logging and whether misuse ends the process. It is written in
decimal, or in hexadecimal after `0x`; a text that is no such numeral selects nothing.
-/

namespace EncoderSetup

structure DebugFlags where
  bits : UInt32
  deriving DecidableEq, Inhabited, Repr

namespace DebugFlags

def clear : DebugFlags := ⟨0⟩

def attributes : DebugFlags := ⟨0x00000001⟩

def layouts : DebugFlags := ⟨0x00000002⟩

/-- List every stage configuration when it is created. -/
def newConfigs : DebugFlags := ⟨0x00000800⟩

/-- End the process on a broken contract. -/
def abort : DebugFlags := ⟨0x10000000⟩

/-- Whether every bit of `other` is set. -/
def contains (flags other : DebugFlags) : Bool := flags.bits &&& other.bits == other.bits

def union (flags other : DebugFlags) : DebugFlags := ⟨flags.bits ||| other.bits⟩

/-- The number that a debug word writes; blanks around it and a plus before the digits may stand. -/
def numeral? (s : String) : Option Nat :=
  match Blank.trim s.toList with
  | '0' :: 'x' :: digits => Numeral.signed? 16 digits
  | '0' :: 'X' :: digits => Numeral.signed? 16 digits
  | digits => Numeral.signed? 10 digits

/-- Reads a debug word of at most 32 bits. -/
def parse? (s : String) : Option DebugFlags :=
  (numeral? s).bind fun n => if n < UInt32.size then some ⟨UInt32.ofNat n⟩ else none

/-- The flags that the value of the environment variable selects. -/
def ofSetting : Option String → DebugFlags
  | some s => (parse? s).getD clear
  | none => clear

end DebugFlags

end EncoderSetup

/-!
# Numerals

Digits of a base up to sixteen, in ASCII and either case, and the numerals they make.
-/

namespace EncoderSetup.Numeral

def hexValue? (c : Char) : Option Nat :=
  if '0' ≤ c ∧ c ≤ '9' then some (c.toNat - '0'.toNat)
  else if 'a' ≤ c ∧ c ≤ 'f' then some (c.toNat - 'a'.toNat + 10)
  else if 'A' ≤ c ∧ c ≤ 'F' then some (c.toNat - 'A'.toNat + 10)
  else none

/-- The value of a digit of this base, which is at most sixteen. -/
def digitValue? (base : Nat) (c : Char) : Option Nat := (hexValue? c).filter (· < base)

/-- The number that digits of this base write, if there is one and all are digits. -/
def natural? (base : Nat) : List Char → Option Nat
  | [] => none
  | digits => digits.foldlM (fun n c => (digitValue? base c).map (base * n + ·)) 0

/-- A numeral with an optional plus sign. -/
def signed? (base : Nat) : List Char → Option Nat
  | '+' :: digits => natural? base digits
  | digits => natural? base digits

def hex (n : Nat) : String := String.ofList (Nat.toDigits 16 n)

def hexByte (b : UInt8) : List Char :=
  [Nat.digitChar (b.toNat / 16), Nat.digitChar (b.toNat % 16)]

def hexBytes (bytes : List UInt8) : String := String.ofList (bytes.flatMap hexByte)

def bytes? : List Char → Option (List UInt8)
  | [] => some []
  | high :: low :: rest => do
      let h ← hexValue? high
      let l ← hexValue? low
      return UInt8.ofNat (16 * h + l) :: (← bytes? rest)
  | [_] => none

end EncoderSetup.Numeral

/-!
# Alignment arithmetic on 64-bit words

Rounding up to a multiple, exact ratios and common multiples, computed in 64-bit words. A product is
either checked (`mul?`), clamped at the largest word (`satMul`), or, where bounds known elsewhere
keep it small, left to the word.
-/

namespace EncoderSetup.Word

def max : UInt64 := 0xffffffffffffffff

/-- The product, unless it exceeds a word. -/
def mul? (a b : UInt64) : Option UInt64 :=
  if a.toNat * b.toNat < UInt64.size then some (a * b) else none

/-- The product, or the largest word where it exceeds one. -/
def satMul (a b : UInt64) : UInt64 := (mul? a b).getD max

/-- The sum, or the largest word where it exceeds one. -/
def satAdd (a b : UInt64) : UInt64 := if a.toNat + b.toNat < UInt64.size then a + b else max

def ceilDiv (v d : UInt64) : UInt64 := if v % d = 0 then v / d else v / d + 1

/-- The next multiple of `align` from `v` on, or the largest word; `v` itself for 0 and 1. -/
def alignUp (v align : UInt64) : UInt64 :=
  if align ≤ 1 then v else satMul (ceilDiv v align) align

/-- Whether `v` is a multiple of `align`; every word is aligned to 0 and 1. -/
def isAligned (v align : UInt64) : Bool := align ≤ 1 || v % align = 0

/-- The ratio `v * num / den` rounded up, unless the product exceeds a word. -/
def mulRatioCeil? (v num den : UInt64) : Option UInt64 := (mul? v num).map fun x => ceilDiv x den

def gcd (a b : UInt64) : UInt64 :=
  if b = 0 then a else gcd b (a % b)
termination_by b.toNat
decreasing_by
  rw [UInt64.toNat_mod]
  have hb : b.toNat ≠ 0 := fun hb => ‹¬b = 0› (UInt64.toNat_inj.mp hb)
  exact Nat.mod_lt _ (Nat.pos_of_ne_zero hb)

/-- The least common multiple; zero where either side is. -/
def lcm (a b : UInt64) : UInt64 := if a = 0 || b = 0 then 0 else a / gcd a b * b

end EncoderSetup.Word

import EncoderSetup.Proofs.Frame.CompressedSize

/-!
# Word arithmetic in guarded steps

The word operations of a layout are total: an unchecked product wraps, and a quotient by zero is
zero. `Guarded` carries out the same steps, but a zero divisor, an unchecked result beyond a word
and a loop that goes on too long are faults. Each step answers what the plain operation does as
soon as its divisor is not zero or its result fits; the loop for the common divisor needs no more
than two rounds for each bit of a word (`Guarded.gcd_eq_ok`).
-/

namespace EncoderSetup

/-- What a step of word arithmetic must not meet. -/
inductive Fault where
  | divisionByZero
  | overflow
  /-- A loop has used up its rounds and is not done. -/
  | endless
  deriving DecidableEq, Repr

namespace Guarded

def add (a b : UInt64) : Except Fault UInt64 :=
  if a.toNat + b.toNat < UInt64.size then .ok (a + b) else .error .overflow

def mul (a b : UInt64) : Except Fault UInt64 :=
  if a.toNat * b.toNat < UInt64.size then .ok (a * b) else .error .overflow

def div (a b : UInt64) : Except Fault UInt64 :=
  if b = 0 then .error .divisionByZero else .ok (a / b)

def rem (a b : UInt64) : Except Fault UInt64 :=
  if b = 0 then .error .divisionByZero else .ok (a % b)

def ceilDiv (v d : UInt64) : Except Fault UInt64 := do
  let q ← div v d
  let r ← rem v d
  if r = 0 then return q else add q 1

def alignUp (v align : UInt64) : Except Fault UInt64 := do
  if align ≤ 1 then return v
  let q ← ceilDiv v align
  return Word.satMul q align

def isAligned (v align : UInt64) : Except Fault Bool := do
  if align ≤ 1 then return true
  let r ← rem v align
  return r = 0

def mulRatioCeil? (v num den : UInt64) : Except Fault (Option UInt64) :=
  match Word.mul? v num with
  | some x => some <$> ceilDiv x den
  | none => .ok none

/-- The common divisor, by a loop of at most so many rounds. -/
def gcdWithin (rounds : ℕ) (a b : UInt64) : Except Fault UInt64 :=
  if b = 0 then .ok a
  else
    match rounds with
    | 0 => .error .endless
    | n + 1 => do gcdWithin n b (← rem a b)

/-- Two rounds for each bit of a word. -/
def gcd (a b : UInt64) : Except Fault UInt64 := gcdWithin 128 a b

def lcm (a b : UInt64) : Except Fault UInt64 := do
  if a = 0 || b = 0 then return 0
  let d ← gcd a b
  let q ← div a d
  mul q b

variable {a b v d align num den : UInt64}

theorem add_eq_ok (h : a.toNat + b.toNat < UInt64.size) : add a b = .ok (a + b) := if_pos h

theorem mul_eq_ok (h : a.toNat * b.toNat < UInt64.size) : mul a b = .ok (a * b) := if_pos h

theorem div_eq_ok (a : UInt64) (hb : b ≠ 0) : div a b = .ok (a / b) := if_neg hb

theorem rem_eq_ok (a : UInt64) (hb : b ≠ 0) : rem a b = .ok (a % b) := if_neg hb

theorem mul_toUInt64_eq_ok (x y : UInt32) :
    mul x.toUInt64 y.toUInt64 = .ok (x.toUInt64 * y.toUInt64) :=
  mul_eq_ok (by
    rw [UInt32.toNat_toUInt64, UInt32.toNat_toUInt64]
    exact Word.toNat_mul_toNat_lt x y)

/-- A quotient with a remainder is below its dividend, which leaves room for one more. -/
theorem ceilDiv_eq_ok (v : UInt64) (hd : d ≠ 0) : ceilDiv v d = .ok (Word.ceilDiv v d) := by
  unfold ceilDiv Word.ceilDiv
  rw [div_eq_ok v hd, ok_bind, rem_eq_ok v hd, ok_bind]
  by_cases hr : v % d = 0
  · rw [if_pos hr, if_pos hr]
    rfl
  · rw [if_neg hr, if_neg hr]
    apply add_eq_ok
    have hv := v.toNat_lt_size
    have hpos := Word.toNat_pos hd
    have hne : v.toNat % d.toNat ≠ 0 := fun h0 => hr (UInt64.toNat_inj.mp (by simpa using h0))
    have hlt := div_lt_self_of_mod_ne_zero hpos hne
    rw [UInt64.toNat_div, UInt64.toNat_one]
    omega

theorem alignUp_eq_ok (v : UInt64) (ha : align ≠ 0) :
    alignUp v align = .ok (Word.alignUp v align) := by
  unfold alignUp Word.alignUp
  by_cases h1 : align ≤ 1
  · rw [if_pos h1, if_pos h1]
    rfl
  · rw [if_neg h1, if_neg h1, ceilDiv_eq_ok v ha, ok_bind]
    rfl

theorem isAligned_eq_ok (v : UInt64) (ha : align ≠ 0) :
    isAligned v align = .ok (Word.isAligned v align) := by
  unfold isAligned Word.isAligned
  by_cases h1 : align ≤ 1
  · rw [if_pos h1, decide_eq_true h1, Bool.true_or]
    rfl
  · rw [if_neg h1, rem_eq_ok v ha, ok_bind, decide_eq_false h1, Bool.false_or]
    rfl

theorem mulRatioCeil?_eq_ok (v num : UInt64) (hd : den ≠ 0) :
    mulRatioCeil? v num den = .ok (Word.mulRatioCeil? v num den) := by
  unfold mulRatioCeil? Word.mulRatioCeil?
  cases Word.mul? v num with
  | none => rfl
  | some x => exact congrArg (some <$> ·) (ceilDiv_eq_ok x hd)

theorem gcdWithin_zero_right (rounds : ℕ) (a : UInt64) : gcdWithin rounds a 0 = .ok a := by
  rw [gcdWithin.eq_def, if_pos rfl]

theorem gcdWithin_round (n : ℕ) (a : UInt64) (hb : b ≠ 0) :
    gcdWithin (n + 1) a b = gcdWithin n b (a % b) := by
  rw [gcdWithin.eq_def, if_neg hb]
  simp only [rem_eq_ok a hb, ok_bind]

theorem gcdWithin_endless (a : UInt64) (hb : b ≠ 0) : gcdWithin 0 a b = .error .endless := by
  rw [gcdWithin.eq_def, if_neg hb]

/-- Two rounds halve the smaller of the two numbers. -/
theorem gcdWithin_eq_ok {bits rounds : ℕ} (hb : b.toNat < 2 ^ bits) (hr : 2 * bits ≤ rounds) :
    gcdWithin rounds a b = .ok (Word.gcd a b) := by
  induction bits generalizing rounds a b with
  | zero =>
      obtain rfl : b = 0 := UInt64.toNat_inj.mp (by rw [UInt64.toNat_zero]; omega)
      rw [gcdWithin_zero_right, Word.gcd, if_pos rfl]
  | succ n ih =>
      by_cases hb0 : b = 0
      · subst hb0
        rw [gcdWithin_zero_right, Word.gcd, if_pos rfl]
      · obtain ⟨m, rfl⟩ : ∃ m, rounds = m + 2 := ⟨rounds - 2, by omega⟩
        rw [gcdWithin_round _ a hb0, Word.gcd, if_neg hb0]
        by_cases hr0 : a % b = 0
        · rw [hr0, gcdWithin_zero_right, Word.gcd, if_pos rfl]
        · rw [gcdWithin_round _ b hr0, Word.gcd, if_neg hr0]
          have hle : (a % b).toNat < b.toNat := by
            rw [UInt64.toNat_mod]
            exact Nat.mod_lt _ (Word.toNat_pos hb0)
          have hhalf := two_mul_mod_lt (Word.toNat_pos hr0) hle.le
          have hnext : (b % (a % b)).toNat < 2 ^ n := by
            rw [pow_succ] at hb
            rw [UInt64.toNat_mod]
            omega
          apply ih hnext
          omega

theorem gcd_eq_ok (a b : UInt64) : gcd a b = .ok (Word.gcd a b) := by
  have hb : b.toNat < 2 ^ 64 := b.toNat_lt
  exact gcdWithin_eq_ok hb le_rfl

theorem lcm_of_ne_zero (ha : a ≠ 0) (hb : b ≠ 0) :
    lcm a b = mul (a / Word.gcd a b) b := by
  have h0 : ¬ (a = 0 || b = 0) = true := by simp [ha, hb]
  have hd : Word.gcd a b ≠ 0 := by
    intro hz
    have hg := Word.toNat_gcd a b
    rw [hz, UInt64.toNat_zero] at hg
    exact Nat.gcd_ne_zero_left (Word.toNat_pos ha).ne' hg.symm
  unfold lcm
  rw [if_neg h0, gcd_eq_ok, ok_bind, div_eq_ok a hd, ok_bind]

theorem toNat_div_gcd_mul (a b : UInt64) :
    (a / Word.gcd a b).toNat * b.toNat = Nat.lcm a.toNat b.toNat := by
  rw [UInt64.toNat_div, Word.toNat_gcd, div_gcd_mul]

theorem lcm_eq_ok (h : Nat.lcm a.toNat b.toNat < UInt64.size) :
    lcm a b = .ok (Word.lcm a b) := by
  by_cases h0 : (a = 0 || b = 0) = true
  · unfold lcm Word.lcm
    rw [if_pos h0, if_pos h0]
    rfl
  · obtain ⟨ha, hb⟩ : a ≠ 0 ∧ b ≠ 0 := by simpa using h0
    rw [lcm_of_ne_zero ha hb, Word.lcm, if_neg h0]
    apply mul_eq_ok
    rw [toNat_div_gcd_mul]
    exact h

/-- Where the multiple does not fit a word, the last product is the step that faults. -/
theorem lcm_eq_overflow (h : UInt64.size ≤ Nat.lcm a.toNat b.toNat) :
    lcm a b = .error .overflow := by
  have hsize : 0 < UInt64.size := by decide
  have ha : a ≠ 0 := by
    rintro rfl
    rw [UInt64.toNat_zero, Nat.lcm_zero_left] at h
    omega
  have hb : b ≠ 0 := by
    rintro rfl
    rw [UInt64.toNat_zero, Nat.lcm_zero_right] at h
    omega
  rw [lcm_of_ne_zero ha hb]
  apply if_neg
  rw [toNat_div_gcd_mul]
  omega

example : lcm 0xffffffffffffffff 0xfffffffffffffffe = .error .overflow := by decide +kernel

end Guarded

end EncoderSetup

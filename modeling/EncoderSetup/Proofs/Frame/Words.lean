import EncoderSetup.Frame.Alignment
import Mathlib.Algebra.Order.Floor.Div
import Mathlib.Tactic

/-!
# Words as numbers

What each operation of `Word` computes in unbounded arithmetic, and the bound under which it does.
`roundUp` is the exact counterpart of `Word.alignUp`: the least multiple from a number on
(`isLeast_roundUp`).
-/

namespace EncoderSetup

def roundUp (n align : ℕ) : ℕ := n ⌈/⌉ align * align

theorem le_roundUp (n : ℕ) {align : ℕ} (ha : 0 < align) : n ≤ roundUp n align := by
  have h := le_smul_ceilDiv (b := n) ha
  rwa [smul_eq_mul, Nat.mul_comm] at h

theorem dvd_roundUp (n align : ℕ) : align ∣ roundUp n align := Nat.dvd_mul_left _ _

theorem roundUp_eq_self_iff {n align : ℕ} (ha : 0 < align) :
    roundUp n align = n ↔ align ∣ n := by
  constructor
  · intro h
    rw [← h]
    exact dvd_roundUp n align
  · rintro ⟨q, rfl⟩
    have hq : (align * q) ⌈/⌉ align = q := smul_ceilDiv ha q
    rw [roundUp, hq, Nat.mul_comm]

theorem isLeast_roundUp (n : ℕ) {align : ℕ} (ha : 0 < align) :
    IsLeast {m | n ≤ m ∧ align ∣ m} (roundUp n align) := by
  refine ⟨⟨le_roundUp n ha, dvd_roundUp n align⟩, ?_⟩
  rintro m ⟨hm, q, rfl⟩
  rw [roundUp, Nat.mul_comm]
  exact Nat.mul_le_mul_left align ((ceilDiv_le_iff_le_mul ha).mpr hm)

theorem roundUp_lt_add (n : ℕ) {align : ℕ} (ha : 0 < align) : roundUp n align < n + align := by
  have h := Nat.div_mul_le_self (n + align - 1) align
  rw [roundUp, Nat.ceilDiv_eq_add_pred_div]
  omega

theorem ceilDiv_le_ceilDiv {n m : ℕ} (h : n ≤ m) (d : ℕ) : n ⌈/⌉ d ≤ m ⌈/⌉ d := by
  rw [Nat.ceilDiv_eq_add_pred_div, Nat.ceilDiv_eq_add_pred_div]
  exact Nat.div_le_div_right (by omega)

theorem roundUp_le_roundUp {n m : ℕ} (h : n ≤ m) (align : ℕ) :
    roundUp n align ≤ roundUp m align := Nat.mul_le_mul_right align (ceilDiv_le_ceilDiv h align)

theorem ceilDiv_le_self (n : ℕ) {d : ℕ} (hd : 0 < d) : n ⌈/⌉ d ≤ n :=
  (ceilDiv_le_iff_le_mul hd).mpr (Nat.le_mul_of_pos_left n hd)

theorem ceilDiv_pos {n d : ℕ} (hn : 0 < n) (hd : 0 < d) : 0 < n ⌈/⌉ d := by
  by_contra h
  have hle : n ≤ d * 0 := (ceilDiv_le_iff_le_mul hd).mp (by omega)
  omega

theorem ceilDiv_eq_div (n : ℕ) {d : ℕ} (hd : 0 < d) (h : n % d = 0) : n ⌈/⌉ d = n / d := by
  have hn := Nat.div_add_mod' n d
  rw [Nat.ceilDiv_eq_add_pred_div]
  refine Nat.div_eq_of_lt_le ?_ ?_
  · omega
  · rw [Nat.succ_mul]
    omega

theorem ceilDiv_eq_div_add_one (n : ℕ) {d : ℕ} (hd : 0 < d) (h : n % d ≠ 0) :
    n ⌈/⌉ d = n / d + 1 := by
  have hn := Nat.div_add_mod' n d
  have hr := Nat.mod_lt n hd
  rw [Nat.ceilDiv_eq_add_pred_div]
  refine Nat.div_eq_of_lt_le ?_ ?_
  · rw [Nat.succ_mul]
    omega
  · rw [Nat.succ_mul, Nat.succ_mul]
    omega

theorem div_lt_self_of_mod_ne_zero {n d : ℕ} (hd : 0 < d) (h : n % d ≠ 0) : n / d < n := by
  have hd1 : d ≠ 1 := fun h1 => h (by rw [h1, Nat.mod_one])
  have hn0 : n ≠ 0 := fun h0 => h (by rw [h0, Nat.zero_mod])
  exact Nat.div_lt_self (by omega) (by omega)

/-- Divided by a number up to itself, a number leaves less than its half over. -/
theorem two_mul_mod_lt {n r : ℕ} (hr : 0 < r) (hn : r ≤ n) : 2 * (n % r) < n := by
  have hlt := Nat.mod_lt n hr
  have hdiv := Nat.div_add_mod n r
  have hmul := Nat.le_mul_of_pos_right r (Nat.div_pos hn hr)
  omega

/-- Divided before it is multiplied, the product of two numbers by their divisor is exact. -/
theorem div_gcd_mul (a b : ℕ) : a / Nat.gcd a b * b = Nat.lcm a b := by
  rw [Nat.lcm_eq_mul_div, Nat.div_mul_right_comm (Nat.gcd_dvd_left _ _)]

/-- A quotient by fewer than `b` parts that is below `a` has a dividend below `a * b`. -/
theorem lt_mul_of_ceilDiv_lt {n d a b : ℕ} (hd : 0 < d) (hdb : d < b) (h : n ⌈/⌉ d < a) :
    n < a * b := by
  have hn : n ≤ d * (n ⌈/⌉ d) := (ceilDiv_le_iff_le_mul hd).mp le_rfl
  calc
    n ≤ d * (n ⌈/⌉ d) := hn
    _ ≤ b * (n ⌈/⌉ d) := Nat.mul_le_mul_right _ hdb.le
    _ < b * a := Nat.mul_lt_mul_of_pos_left h (by omega)
    _ = a * b := Nat.mul_comm b a

namespace Word

variable {a b v d align num den p : UInt64}

theorem toNat_pos (ha : a ≠ 0) : 0 < a.toNat := by
  have h : a.toNat ≠ 0 := fun h => ha (UInt64.toNat_inj.mp h)
  omega

theorem toNat_pos_of_ne {x : UInt32} (hx : x ≠ 0) : 0 < x.toNat := by
  have h : x.toNat ≠ 0 := fun h => hx (UInt32.toNat_inj.mp h)
  omega

theorem toUInt64_ne_zero {x : UInt32} (hx : x ≠ 0) : x.toUInt64 ≠ 0 := by
  intro h
  have hpos := toNat_pos_of_ne hx
  rw [← UInt32.toNat_toUInt64, h, UInt64.toNat_zero] at hpos
  exact Nat.lt_irrefl 0 hpos

theorem toNat_mul_toNat_lt (x y : UInt32) : x.toNat * y.toNat < UInt64.size :=
  Nat.mul_lt_mul'' x.toNat_lt_size y.toNat_lt_size

theorem toNat_mul_toUInt64 (x y : UInt32) :
    (x.toUInt64 * y.toUInt64).toNat = x.toNat * y.toNat := by
  rw [UInt64.toNat_mul, UInt32.toNat_toUInt64, UInt32.toNat_toUInt64]
  exact Nat.mod_eq_of_lt (toNat_mul_toNat_lt x y)

theorem toNat_add_toUInt64_le (hv : v.toNat < UInt32.size) (x : UInt32) :
    v.toNat + x.toUInt64.toNat ≤ UInt64.size := by
  have hx := x.toNat_lt_size
  rw [UInt32.toNat_toUInt64]
  simp only [UInt64.size, UInt32.size] at hv hx ⊢
  omega

theorem mul?_eq_some_iff : mul? a b = some p ↔ p.toNat = a.toNat * b.toNat := by
  unfold mul?
  by_cases h : a.toNat * b.toNat < UInt64.size
  · have hm : (a * b).toNat = a.toNat * b.toNat := by
      rw [UInt64.toNat_mul]
      exact Nat.mod_eq_of_lt h
    rw [if_pos h, Option.some.injEq, ← UInt64.toNat_inj, hm]
    exact eq_comm
  · rw [if_neg h]
    constructor
    · intro he
      cases he
    · intro he
      have hp := p.toNat_lt_size
      omega

theorem mul?_eq_none_iff : mul? a b = none ↔ UInt64.size ≤ a.toNat * b.toNat := by
  unfold mul?
  by_cases h : a.toNat * b.toNat < UInt64.size
  · simp [h]
  · simp only [if_neg h, true_iff]
    omega

theorem toNat_satMul (h : a.toNat * b.toNat < UInt64.size) :
    (satMul a b).toNat = a.toNat * b.toNat := by
  cases hm : mul? a b with
  | none =>
      have hle := mul?_eq_none_iff.mp hm
      omega
  | some p =>
      rw [satMul, hm]
      exact mul?_eq_some_iff.mp hm

theorem toNat_satAdd (h : a.toNat + b.toNat < UInt64.size) :
    (satAdd a b).toNat = a.toNat + b.toNat := by
  rw [satAdd, if_pos h, UInt64.toNat_add]
  exact Nat.mod_eq_of_lt h

theorem toNat_satMul_eq_min (a b : UInt64) :
    (satMul a b).toNat = min (a.toNat * b.toNat) (UInt64.size - 1) := by
  by_cases h : a.toNat * b.toNat < UInt64.size
  · rw [toNat_satMul h]
    omega
  · rw [satMul, mul?_eq_none_iff.mpr (not_lt.mp h), Option.getD_none]
    change UInt64.size - 1 = _
    omega

theorem toNat_satAdd_eq_min (a b : UInt64) :
    (satAdd a b).toNat = min (a.toNat + b.toNat) (UInt64.size - 1) := by
  by_cases h : a.toNat + b.toNat < UInt64.size
  · rw [toNat_satAdd h]
    omega
  · rw [satAdd, if_neg h]
    change UInt64.size - 1 = _
    omega

theorem toNat_ceilDiv (v : UInt64) (hd : d ≠ 0) : (ceilDiv v d).toNat = v.toNat ⌈/⌉ d.toNat := by
  have hpos := toNat_pos hd
  have hmod : v % d = 0 ↔ v.toNat % d.toNat = 0 := by
    rw [← UInt64.toNat_inj, UInt64.toNat_mod, UInt64.toNat_zero]
  unfold ceilDiv
  by_cases h : v % d = 0
  · rw [if_pos h, UInt64.toNat_div, ceilDiv_eq_div _ hpos (hmod.mp h)]
  · have hne : v.toNat % d.toNat ≠ 0 := fun h0 => h (hmod.mpr h0)
    have hlt := div_lt_self_of_mod_ne_zero hpos hne
    have hv := v.toNat_lt_size
    rw [if_neg h, UInt64.toNat_add, UInt64.toNat_div, UInt64.toNat_one,
      ceilDiv_eq_div_add_one _ hpos hne]
    exact Nat.mod_eq_of_lt (lt_of_le_of_lt (Nat.succ_le_of_lt hlt) hv)

/-- There are no more blocks than pixels, and the pixels of two strides fit a word. -/
theorem ceilDiv_mul_ceilDiv_lt {d₁ d₂ : UInt64} (x y : UInt32) (h₁ : d₁ ≠ 0) (h₂ : d₂ ≠ 0) :
    (ceilDiv x.toUInt64 d₁).toNat * (ceilDiv y.toUInt64 d₂).toNat < UInt64.size := by
  have hx := ceilDiv_le_self x.toNat (toNat_pos h₁)
  have hy := ceilDiv_le_self y.toNat (toNat_pos h₂)
  rw [toNat_ceilDiv _ h₁, toNat_ceilDiv _ h₂, UInt32.toNat_toUInt64, UInt32.toNat_toUInt64]
  exact lt_of_le_of_lt (Nat.mul_le_mul hx hy) (toNat_mul_toNat_lt x y)

theorem mulRatioCeil?_eq_some_iff (hden : den ≠ 0) : mulRatioCeil? v num den = some p ↔
    v.toNat * num.toNat < UInt64.size ∧ p.toNat = (v.toNat * num.toNat) ⌈/⌉ den.toNat := by
  unfold mulRatioCeil?
  cases hx : mul? v num with
  | none =>
      have hle := mul?_eq_none_iff.mp hx
      simp only [Option.map_none, reduceCtorEq, false_iff]
      omega
  | some x =>
      have hm := mul?_eq_some_iff.mp hx
      have hlt := x.toNat_lt_size
      rw [hm] at hlt
      rw [Option.map_some, Option.some.injEq, ← UInt64.toNat_inj, toNat_ceilDiv x hden, hm]
      exact ⟨fun h => ⟨hlt, h.symm⟩, fun h => h.2.symm⟩

theorem mulRatioCeil?_eq_none_iff :
    mulRatioCeil? v num den = none ↔ UInt64.size ≤ v.toNat * num.toNat := by
  rw [mulRatioCeil?, Option.map_eq_none_iff, mul?_eq_none_iff]

/-- What an alignment asks for: multiples of itself, and nothing for 0. -/
def granularity (align : UInt64) : ℕ := Max.max align.toNat 1

theorem granularity_pos (align : UInt64) : 0 < granularity align :=
  Nat.lt_of_lt_of_le Nat.one_pos (Nat.le_max_right _ _)

theorem granularity_of_ne_zero (ha : align ≠ 0) : granularity align = align.toNat :=
  Nat.max_eq_left (toNat_pos ha)

theorem granularity_of_le_one (h : align ≤ 1) : granularity align = 1 :=
  Nat.max_eq_right (UInt64.le_iff_toNat_le.mp h)

theorem ne_zero_of_not_le_one (h : ¬ align ≤ 1) : align ≠ 0 := by
  rintro rfl
  exact h (by decide)

theorem isAligned_iff_granularity_dvd (v align : UInt64) :
    isAligned v align = true ↔ granularity align ∣ v.toNat := by
  unfold isAligned
  by_cases h1 : align ≤ 1
  · rw [decide_eq_true h1, Bool.true_or, granularity_of_le_one h1]
    exact iff_of_true rfl (Nat.one_dvd _)
  · rw [decide_eq_false h1, Bool.false_or, decide_eq_true_iff,
      granularity_of_ne_zero (ne_zero_of_not_le_one h1), Nat.dvd_iff_mod_eq_zero,
      ← UInt64.toNat_inj, UInt64.toNat_mod, UInt64.toNat_zero]

theorem isAligned_iff (ha : align ≠ 0) : isAligned v align = true ↔ align.toNat ∣ v.toNat := by
  rw [isAligned_iff_granularity_dvd, granularity_of_ne_zero ha]

/-- A multiple that exceeds a word is clamped. -/
theorem toNat_alignUp_eq_min (v align : UInt64) : (alignUp v align).toNat =
    min (roundUp v.toNat (granularity align)) (UInt64.size - 1) := by
  unfold alignUp
  by_cases h1 : align ≤ 1
  · have hv := v.toNat_lt_size
    have hself := (roundUp_eq_self_iff Nat.one_pos).mpr (Nat.one_dvd v.toNat)
    rw [if_pos h1, granularity_of_le_one h1, hself]
    omega
  · have ha := ne_zero_of_not_le_one h1
    rw [if_neg h1, toNat_satMul_eq_min, toNat_ceilDiv v ha, granularity_of_ne_zero ha, roundUp]

theorem toNat_alignUp (ha : align ≠ 0) (h : v.toNat + align.toNat ≤ UInt64.size) :
    (alignUp v align).toNat = roundUp v.toNat align.toNat := by
  have hlt := roundUp_lt_add v.toNat (toNat_pos ha)
  rw [toNat_alignUp_eq_min, granularity_of_ne_zero ha]
  omega

theorem isLeast_alignUp (ha : align ≠ 0) (h : v.toNat + align.toNat ≤ UInt64.size) :
    IsLeast {m | v.toNat ≤ m ∧ align.toNat ∣ m} (alignUp v align).toNat := by
  rw [toNat_alignUp ha h]
  exact isLeast_roundUp _ (toNat_pos ha)

theorem toNat_gcd (a b : UInt64) : (gcd a b).toNat = Nat.gcd a.toNat b.toNat := by
  induction a, b using gcd.induct with
  | case1 a => rw [gcd, if_pos rfl, UInt64.toNat_zero, Nat.gcd_zero_right]
  | case2 a b hb ih =>
      rw [gcd, if_neg hb, ih, UInt64.toNat_mod, Nat.gcd_comm, ← Nat.gcd_rec, Nat.gcd_comm]

/-- Nothing is lost as long as the multiple itself fits, however large the product of the two is. -/
theorem toNat_lcm (h : Nat.lcm a.toNat b.toNat < UInt64.size) :
    (lcm a b).toNat = Nat.lcm a.toNat b.toNat := by
  unfold lcm
  by_cases h0 : a = 0 ∨ b = 0
  · have hz : (a = 0 || b = 0) = true := by simpa using h0
    rw [if_pos hz, UInt64.toNat_zero]
    rcases h0 with rfl | rfl
    · rw [UInt64.toNat_zero, Nat.lcm_zero_left]
    · rw [UInt64.toNat_zero, Nat.lcm_zero_right]
  · have hz : ¬ (a = 0 || b = 0) = true := by simpa using h0
    rw [if_neg hz, UInt64.toNat_mul, UInt64.toNat_div, toNat_gcd, div_gcd_mul]
    exact Nat.mod_eq_of_lt h

theorem lcm_toNat_le (x y : UInt32) : Nat.lcm x.toNat y.toNat ≤ x.toNat * y.toNat :=
  Nat.div_le_self _ _

theorem lcm_toUInt64_lt_size (x y : UInt32) :
    Nat.lcm x.toUInt64.toNat y.toUInt64.toNat < UInt64.size := by
  rw [UInt32.toNat_toUInt64, UInt32.toNat_toUInt64]
  exact lt_of_le_of_lt (lcm_toNat_le x y) (toNat_mul_toNat_lt x y)

/-- The common granularity of two strides leaves room for a height below the largest word. -/
theorem toNat_add_lcm_le (w x y : UInt32) :
    w.toNat + Nat.lcm x.toNat y.toNat ≤ UInt64.size := by
  have hw := w.toNat_lt_size
  have hle := lcm_toNat_le x y
  have hmul := Nat.mul_le_mul (Nat.le_sub_one_of_lt x.toNat_lt_size)
    (Nat.le_sub_one_of_lt y.toNat_lt_size)
  simp only [UInt64.size, UInt32.size, Nat.reduceSub, Nat.reduceMul] at hw hmul ⊢
  omega

end Word

end EncoderSetup

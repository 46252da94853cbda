import EncoderSetup.Text.Numeral
import Mathlib.Data.List.Forall2
import Mathlib.Data.Nat.Digits.Defs

/-!
# Numerals and the numbers they write

`Numeral.Writes` says by the positions of its digits which number a numeral writes. The reader
accepts exactly these numerals (`natural?_eq_some_iff`), and the digits that are printed for a
number write it (`writes_toDigits`).
-/

namespace EncoderSetup.Numeral

/-- A character that stands for a value below the base, a letter in either case. -/
def IsDigit (base : Nat) (c : Char) (d : Nat) : Prop :=
  d < base ∧ (c = Nat.digitChar d ∨ c = (Nat.digitChar d).toUpper)

instance (base : Nat) (c : Char) (d : Nat) : Decidable (IsDigit base c d) := by
  unfold IsDigit
  infer_instance

theorem toNat_lt_of_hexValue? {c : Char} {d : Nat} (h : hexValue? c = some d) : c.toNat < 103 := by
  unfold hexValue? at h
  split at h
  · next hc => exact Nat.lt_of_le_of_lt (show c.toNat ≤ '9'.toNat from hc.2) (by decide)
  · split at h
    · next hc => exact Nat.lt_of_le_of_lt (show c.toNat ≤ 'f'.toNat from hc.2) (by decide)
    · split at h
      · next hc => exact Nat.lt_of_le_of_lt (show c.toNat ≤ 'F'.toNat from hc.2) (by decide)
      · cases h

theorem hexValue?_eq_some_iff {c : Char} {d : Nat} : hexValue? c = some d ↔ IsDigit 16 c d := by
  constructor
  · intro h
    have hall : ∀ n < 103, ∀ d ∈ hexValue? (Char.ofNat n), IsDigit 16 (Char.ofNat n) d := by decide
    have hc := hall c.toNat (toNat_lt_of_hexValue? h)
    rw [Char.ofNat_toNat] at hc
    exact hc d h
  · rintro ⟨hd, rfl | rfl⟩ <;> revert d <;> decide

theorem digitValue?_eq_some_iff {base d : Nat} (hb : base ≤ 16) {c : Char} :
    digitValue? base c = some d ↔ IsDigit base c d := by
  rw [digitValue?, Option.filter_eq_some_iff, hexValue?_eq_some_iff, decide_eq_true_eq]
  constructor
  · rintro ⟨⟨-, hc⟩, hd⟩
    exact ⟨hd, hc⟩
  · rintro ⟨hd, hc⟩
    exact ⟨⟨hd.trans_le hb, hc⟩, hd⟩

theorem not_isDigit {c : Char} {base : Nat} (hb : base ≤ 16) (hc : hexValue? c = none) (d : Nat) :
    ¬ IsDigit base c d := fun h => by
  have hsome := hexValue?_eq_some_iff.mpr (⟨h.1.trans_le hb, h.2⟩ : IsDigit 16 c d)
  rw [hc] at hsome
  cases hsome

theorem isDigit_digitChar {base d : Nat} (h : d < base) : IsDigit base (Nat.digitChar d) d :=
  ⟨h, Or.inl rfl⟩

/-- Digits of a base, at least one, and the number that they write by their positions, the last
digit counting for itself. -/
def Writes (base : Nat) (digits : List Char) (n : Nat) : Prop :=
  digits ≠ [] ∧ ∃ values, List.Forall₂ (IsDigit base) digits values ∧
    Nat.ofDigits base values.reverse = n

variable {base n : Nat} {digits : List Char}

theorem Writes.isDigit (h : Writes base digits n) {c : Char} (hc : c ∈ digits) :
    ∃ d, IsDigit base c d := by
  obtain ⟨-, values, hall, -⟩ := h
  induction hall with
  | nil => cases hc
  | @cons _ d _ _ hd _ ih =>
      rcases List.mem_cons.mp hc with rfl | hc
      · exact ⟨d, hd⟩
      · exact ih hc

theorem foldl_eq_ofDigits (base : Nat) (values : List Nat) :
    values.foldl (fun n d => base * n + d) 0 = Nat.ofDigits base values.reverse := by
  rw [Nat.ofDigits_eq_foldr, List.foldr_reverse]
  simp only [Nat.cast_id, Nat.add_comm]

theorem foldlM_eq_some_iff (hb : base ≤ 16) (acc : Nat) :
    digits.foldlM (fun n c => (digitValue? base c).map (base * n + ·)) acc = some n ↔
      ∃ values, List.Forall₂ (IsDigit base) digits values ∧
        values.foldl (fun n d => base * n + d) acc = n := by
  induction digits generalizing acc with
  | nil => simp
  | cons c rest ih =>
      simp only [List.foldlM_cons, Option.bind_eq_bind, Option.bind_eq_some_iff,
        Option.map_eq_some_iff, digitValue?_eq_some_iff hb, ih, List.forall₂_cons_left_iff]
      constructor
      · rintro ⟨_, ⟨d, hd, rfl⟩, values, hall, h⟩
        exact ⟨d :: values, ⟨d, values, hd, hall, rfl⟩, h⟩
      · rintro ⟨_, ⟨d, values, hd, hall, rfl⟩, h⟩
        exact ⟨_, ⟨d, hd, rfl⟩, values, hall, h⟩

theorem natural?_eq_foldlM (h : digits ≠ []) : natural? base digits =
    digits.foldlM (fun n c => (digitValue? base c).map (base * n + ·)) 0 := by
  cases digits with
  | nil => exact absurd rfl h
  | cons c rest => rfl

theorem natural?_eq_some_iff (hb : base ≤ 16) :
    natural? base digits = some n ↔ Writes base digits n := by
  by_cases h : digits = []
  · subst h
    exact ⟨nofun, fun hw => absurd rfl hw.1⟩
  · simp only [natural?_eq_foldlM h, foldlM_eq_some_iff hb, foldl_eq_ofDigits, Writes, ne_eq, h,
      not_false_eq_true, true_and]

/-- A numeral with or without a plus before it. -/
inductive WritesSigned (base : Nat) : List Char → Nat → Prop
  | plain {digits : List Char} {n : Nat} (h : Writes base digits n) : WritesSigned base digits n
  | plus {digits : List Char} {n : Nat} (h : Writes base digits n) :
      WritesSigned base ('+' :: digits) n

variable {t : List Char}

theorem signed?_eq_some_iff (hb : base ≤ 16) :
    signed? base t = some n ↔ WritesSigned base t n := by
  unfold signed?
  split
  · next digits =>
      rw [natural?_eq_some_iff hb]
      constructor
      · exact .plus
      · intro h
        cases h with
        | plus h => exact h
        | plain h =>
            obtain ⟨d, hd⟩ := h.isDigit List.mem_cons_self
            exact absurd hd (not_isDigit hb rfl d)
  · next hplus =>
      rw [natural?_eq_some_iff hb]
      constructor
      · exact .plain
      · intro h
        cases h with
        | plain h => exact h
        | plus h => exact absurd rfl (hplus _)

/-- What a signed numeral is made of. -/
theorem WritesSigned.mem (h : WritesSigned base t n) {c : Char} (hc : c ∈ t) :
    c = '+' ∨ ∃ d, IsDigit base c d := by
  cases h with
  | plain h => exact Or.inr (h.isDigit hc)
  | plus h =>
      rcases List.mem_cons.mp hc with rfl | hc
      · exact Or.inl rfl
      · exact Or.inr (h.isDigit hc)

theorem writes_singleton {c : Char} {d : Nat} (h : IsDigit base c d) : Writes base [c] d :=
  ⟨List.cons_ne_nil _ _, [d], .cons h .nil, Nat.ofDigits_singleton⟩

theorem Writes.append_digit (h : Writes base digits n) {c : Char} {d : Nat}
    (hd : IsDigit base c d) : Writes base (digits ++ [c]) (base * n + d) := by
  obtain ⟨-, values, hall, rfl⟩ := h
  refine ⟨by simp, values ++ [d], List.rel_append hall (.cons hd .nil), ?_⟩
  rw [List.reverse_append, List.reverse_singleton, List.singleton_append, Nat.ofDigits_cons,
    Nat.add_comm]

theorem writes_toDigits (hb : 1 < base) (n : Nat) : Writes base (Nat.toDigits base n) n := by
  induction n using Nat.strongRecOn with
  | ind n ih =>
      by_cases hn : n < base
      · rw [Nat.toDigits_of_lt_base hn]
        exact writes_singleton (isDigit_digitChar hn)
      · have hdiv : n / base < n := Nat.div_lt_self (by omega) hb
        have hmod : n % base < base := Nat.mod_lt n (by omega)
        have h := (ih (n / base) hdiv).append_digit (isDigit_digitChar hmod)
        rw [Nat.div_add_mod] at h
        rwa [Nat.toDigits_of_base_le hb (by omega)]

/-- Leading zeros do not change the number. -/
theorem Writes.zeros (h : Writes base digits n) (hb : 0 < base) (k : Nat) :
    Writes base (List.replicate k '0' ++ digits) n := by
  induction k with
  | zero => exact h
  | succ k ih =>
      obtain ⟨-, values, hall, rfl⟩ := ih
      refine ⟨List.cons_ne_nil _ _, 0 :: values, .cons (isDigit_digitChar hb) hall, ?_⟩
      rw [List.reverse_cons, Nat.ofDigits_append, Nat.ofDigits_singleton, Nat.mul_zero,
        Nat.add_zero]

theorem IsDigit.toUpper {c : Char} {d : Nat} (hb : base ≤ 16) (h : IsDigit base c d) :
    IsDigit base c.toUpper d := by
  have hall : ∀ d < 16, (Nat.digitChar d).toUpper.toUpper = (Nat.digitChar d).toUpper := by decide
  refine ⟨h.1, Or.inr ?_⟩
  rcases h.2 with rfl | rfl
  · rfl
  · exact hall d (h.1.trans_le hb)

theorem Writes.toUpper (h : Writes base digits n) (hb : base ≤ 16) :
    Writes base (digits.map Char.toUpper) n := by
  obtain ⟨hne, values, hall, hn⟩ := h
  exact ⟨by simpa using hne, values,
    List.forall₂_map_left_iff.mpr (hall.imp fun _ _ hd => hd.toUpper hb), hn⟩

end EncoderSetup.Numeral

import EncoderSetup.Proofs.Json.Grammar

/-!
# Number literals

The reader takes a number one character at a time. For each phase, `reads` describes the characters
that finish the literal and the value that they give it; together they say that the reader knows
exactly the literals of the grammar, with their values (`literal?_eq_some_iff`).
-/

namespace EncoderSetup.Json

theorem isDigits_cons {c : Char} {t : List Char} :
    IsDigits (c :: t) ↔ c.isDigit ∧ ∀ d ∈ t, d.isDigit := by simp [IsDigits]

theorem not_isDigits_nil : ¬ IsDigits [] := fun h => h.1 rfl

theorem isExponent_cons_cons {e c : Char} {t : List Char} :
    IsExponent (e :: c :: t) ↔ (e = 'e' ∨ e = 'E') ∧
      (IsDigits (c :: t) ∨ (c = '+' ∨ c = '-') ∧ IsDigits t) := by
  constructor
  · rintro (⟨he, ht⟩ | ⟨he, hs, hu⟩)
    · exact ⟨he, Or.inl ht⟩
    · exact ⟨he, Or.inr ⟨hs, hu⟩⟩
  · rintro ⟨he, ht | ⟨hs, hu⟩⟩
    · exact .unsigned he ht
    · exact .signed he hs hu

theorem IsExponent.mark {e : Char} {t : List Char} (h : IsExponent (e :: t)) :
    e = 'e' ∨ e = 'E' := by
  cases h <;> assumption

theorem not_isExponent_singleton {e : Char} : ¬ IsExponent [e] := by
  rintro (⟨-, ht⟩ | _)
  exact not_isDigits_nil ht

theorem not_isExponent_nil : ¬ IsExponent [] := fun h => by cases h

theorem isDecimal_cons {c : Char} {t : List Char} :
    IsDecimal (c :: t) ↔ IsExponent (c :: t) ∨
      c = '.' ∧ ∃ u v, t = u ++ v ∧ IsDigits u ∧ (v = [] ∨ IsExponent v) := by
  constructor
  · rintro (h | ⟨hu, hv⟩)
    · exact Or.inl h
    · exact Or.inr ⟨rfl, _, _, rfl, hu, hv⟩
  · rintro (h | ⟨rfl, u, v, rfl, hu, hv⟩)
    · exact .exponent h
    · exact .fraction hu hv

theorem not_isDecimal_nil : ¬ IsDecimal [] := by
  rintro (h | _)
  exact not_isExponent_nil h

theorem not_isExponent_of_isDigit {c : Char} {t : List Char} (hc : c.isDigit) :
    ¬ IsExponent (c :: t) := by
  intro h
  rcases h.mark with rfl | rfl <;> exact absurd hc (by decide)

theorem not_isDecimal_of_isDigit {c : Char} {t : List Char} (hc : c.isDigit) :
    ¬ IsDecimal (c :: t) := by
  rw [isDecimal_cons]
  rintro (h | ⟨rfl, -⟩)
  · exact not_isExponent_of_isDigit hc h
  · exact absurd hc (by decide)

namespace NumberScan

theorem isDigit_eq (c : Char) : isDigit c = c.isDigit := rfl

/-- Digits, and then characters of which `P` holds together with the number read so far. -/
def DigitsThen (P : Nat → List Char → Prop) (n : Nat) (t : List Char) : Prop :=
  ∃ u v, t = u ++ v ∧ (∀ c ∈ u, c.isDigit) ∧ P (Nat.ofDigitChars 10 u n) v

variable {P : Nat → List Char → Prop} {n : Nat} {c : Char} {t : List Char}

theorem digitsThen_nil : DigitsThen P n [] ↔ P n [] := by
  constructor
  · rintro ⟨u, v, h, -, hP⟩
    obtain ⟨rfl, rfl⟩ := List.nil_eq_append_iff.mp h
    exact hP
  · intro hP
    exact ⟨[], [], rfl, by simp, hP⟩

theorem digitsThen_cons_of_isDigit (hc : c.isDigit) (hP : ¬ P n (c :: t)) :
    DigitsThen P n (c :: t) ↔ DigitsThen P (10 * n + digitValue c) t := by
  constructor
  · rintro ⟨u, v, h, hu, hv⟩
    rcases List.cons_eq_append_iff.mp h with ⟨rfl, rfl⟩ | ⟨u, rfl, rfl⟩
    · exact absurd hv hP
    · exact ⟨u, v, rfl, (List.forall_mem_cons.mp hu).2, hv⟩
  · rintro ⟨u, v, rfl, hu, hv⟩
    exact ⟨c :: u, v, rfl, List.forall_mem_cons.mpr ⟨hc, hu⟩, hv⟩

theorem digitsThen_cons_of_not_isDigit (hc : ¬ c.isDigit) :
    DigitsThen P n (c :: t) ↔ P n (c :: t) := by
  constructor
  · rintro ⟨u, v, h, hu, hv⟩
    rcases List.cons_eq_append_iff.mp h with ⟨rfl, rfl⟩ | ⟨u, rfl, rfl⟩
    · exact hv
    · exact absurd (hu c List.mem_cons_self) hc
  · intro h
    exact ⟨[], c :: t, rfl, by simp, h⟩

/-- A phase that stays as long as digits come, if what ends it does not begin with a digit. -/
theorem eq_some_iff_digitsThen {f : Nat → List Char → Option Token} {k : Token}
    (hnil : ∀ n, f n [] = some k ↔ P n [])
    (hdigit : ∀ n c t, c.isDigit → f n (c :: t) = f (10 * n + digitValue c) t ∧ ¬ P n (c :: t))
    (hother : ∀ n c t, ¬ c.isDigit → (f n (c :: t) = some k ↔ P n (c :: t))) (n : Nat)
    (t : List Char) : f n t = some k ↔ DigitsThen P n t := by
  induction t generalizing n with
  | nil => rw [hnil, digitsThen_nil]
  | cons c t ih =>
      by_cases hc : c.isDigit
      · obtain ⟨hf, hP⟩ := hdigit n c t hc
        rw [hf, ih, digitsThen_cons_of_isDigit hc hP]
      · rw [hother n c t hc, digitsThen_cons_of_not_isDigit hc]

/-- The token of a literal that continues with these characters and ends there. -/
def reads (s : NumberScan) (t : List Char) : Option Token := (t.foldlM step? s).bind token?

theorem reads_nil (s : NumberScan) : s.reads [] = s.token? := rfl

theorem reads_cons (s : NumberScan) (c : Char) (t : List Char) :
    s.reads (c :: t) = (s.step? c).bind fun s => s.reads t := by
  cases h : s.step? c <;> simp [reads, List.foldlM_cons, h]

variable {negative : Bool} {k : Token}

/-- The digits of an exponent are read to its end. -/
theorem reads_exponent : reads ⟨.exponent, negative, n⟩ t = some k ↔
    (∀ c ∈ t, c.isDigit) ∧ k = .number none := by
  rw [eq_some_iff_digitsThen (f := fun _ => reads ⟨.exponent, negative, n⟩)
    (P := fun _ v => v = [] ∧ k = .number none) (fun _ => ?_) (fun _ c t hc => ⟨?_, ?_⟩)
    (fun _ c t hc => ?_) 0 t]
  · constructor
    · rintro ⟨u, v, rfl, hu, rfl, hk⟩
      exact ⟨by simpa using hu, hk⟩
    · rintro ⟨ht, hk⟩
      exact ⟨t, [], by simp, ht, rfl, hk⟩
  · simp [reads_nil, token?, eq_comm]
  · simp [reads_cons, step?, isDigit_eq, hc]
  · simp
  · simp [reads_cons, step?, isDigit_eq, hc]

theorem reads_exponentSign : reads ⟨.exponentSign, negative, n⟩ t = some k ↔
    IsDigits t ∧ k = .number none := by
  cases t with
  | nil => simp [reads_nil, token?, not_isDigits_nil]
  | cons c t =>
      by_cases hc : c.isDigit
      · simp [reads_cons, step?, isDigit_eq, hc, reads_exponent, isDigits_cons]
      · simp [reads_cons, step?, isDigit_eq, hc, isDigits_cons]

theorem reads_exponentMark {e : Char} (he : e = 'e' ∨ e = 'E') :
    reads ⟨.exponentMark, negative, n⟩ t = some k ↔ IsExponent (e :: t) ∧ k = .number none := by
  cases t with
  | nil => simp [reads_nil, token?, not_isExponent_singleton]
  | cons c t =>
      rw [isExponent_cons_cons]
      by_cases hs : c = '+' ∨ c = '-'
      · have hc : ¬ c.isDigit := by rcases hs with rfl | rfl <;> decide
        simp [reads_cons, step?, hs, hc, he, reads_exponentSign, isDigits_cons]
      · by_cases hc : c.isDigit
        · simp [reads_cons, step?, isDigit_eq, hs, hc, he, reads_exponent, isDigits_cons]
        · simp [reads_cons, step?, isDigit_eq, hs, hc, isDigits_cons]

theorem reads_fraction : reads ⟨.fraction, negative, n⟩ t = some k ↔
    (∃ u v, t = u ++ v ∧ (∀ c ∈ u, c.isDigit) ∧ (v = [] ∨ IsExponent v)) ∧ k = .number none := by
  rw [eq_some_iff_digitsThen (f := fun _ => reads ⟨.fraction, negative, n⟩)
    (P := fun _ v => (v = [] ∨ IsExponent v) ∧ k = .number none) (fun _ => ?_)
    (fun _ c t hc => ⟨?_, ?_⟩) (fun _ c t hc => ?_) 0 t]
  · simp only [DigitsThen, exists_and_right, ← and_assoc]
  · simp [reads_nil, token?, eq_comm]
  · simp [reads_cons, step?, isDigit_eq, hc]
  · simp [not_isExponent_of_isDigit hc]
  · by_cases he : c = 'e' ∨ c = 'E'
    · simp [reads_cons, step?, isDigit_eq, hc, he, reads_exponentMark he]
    · simp [reads_cons, step?, isDigit_eq, hc, he, mt IsExponent.mark he]

theorem reads_point : reads ⟨.point, negative, n⟩ t = some k ↔
    IsDecimal ('.' :: t) ∧ k = .number none := by
  have hpoint : ¬ IsExponent ('.' :: t) := fun h => by simpa using h.mark
  rw [isDecimal_cons]
  cases t with
  | nil => simp [reads_nil, token?, hpoint, not_isDigits_nil]
  | cons c t =>
      by_cases hc : c.isDigit
      · simp only [reads_cons, step?, isDigit_eq, hc, if_true, Option.bind_some, reads_fraction,
          hpoint, false_or, true_and]
        refine and_congr_left fun _ => ⟨?_, ?_⟩
        · rintro ⟨u, v, rfl, hu, hv⟩
          exact ⟨c :: u, v, rfl, isDigits_cons.mpr ⟨hc, hu⟩, hv⟩
        · rintro ⟨u, v, h, hu, hv⟩
          rcases List.cons_eq_append_iff.mp h with ⟨rfl, rfl⟩ | ⟨u, rfl, rfl⟩
          · exact absurd hu not_isDigits_nil
          · exact ⟨u, v, rfl, (isDigits_cons.mp hu).2, hv⟩
      · have hno : ¬ ∃ u v, c :: t = u ++ v ∧ IsDigits u ∧ (v = [] ∨ IsExponent v) := by
          rintro ⟨u, v, h, hu, -⟩
          rcases List.cons_eq_append_iff.mp h with ⟨rfl, rfl⟩ | ⟨u, rfl, rfl⟩
          · exact not_isDigits_nil hu
          · exact hc (isDigits_cons.mp hu).1
        simp [reads_cons, step?, isDigit_eq, hc, hpoint, hno]

/-- After the digits of a whole number only a fraction or an exponent may come. -/
theorem reads_afterInteger (s : NumberScan) :
    ((step?.afterInteger s c).bind fun s => s.reads t) = some k ↔
      IsDecimal (c :: t) ∧ k = .number none := by
  obtain ⟨phase, negative, n⟩ := s
  by_cases hp : c = '.'
  · subst hp
    simp [step?.afterInteger, reads_point]
  · by_cases he : c = 'e' ∨ c = 'E'
    · simp [step?.afterInteger, hp, he, reads_exponentMark he, isDecimal_cons]
    · simp [step?.afterInteger, hp, isDecimal_cons, he, mt IsExponent.mark he]

/-- What may follow the digits of a whole number `n`: nothing, or what makes it a decimal. -/
def Completes (negative : Bool) (k : Token) (n : Nat) (t : List Char) : Prop :=
  t = [] ∧ k = .number (some (if negative then -n else n)) ∨ IsDecimal t ∧ k = .number none

theorem reads_integer : reads ⟨.integer, negative, n⟩ t = some k ↔
    DigitsThen (Completes negative k) n t := by
  refine eq_some_iff_digitsThen (f := fun n => reads ⟨.integer, negative, n⟩)
    (fun n => ?_) (fun n c t hc => ⟨?_, ?_⟩) (fun n c t hc => ?_) n t
  · simp [reads_nil, token?, Completes, not_isDecimal_nil, eq_comm]
  · simp [reads_cons, step?, isDigit_eq, hc]
  · simp [Completes, not_isDecimal_of_isDigit hc]
  · simp [reads_cons, step?, isDigit_eq, hc, reads_afterInteger, Completes]

theorem reads_zero : reads ⟨.zero, negative, n⟩ t = some k ↔
    (t = [] ∧ k = .number (if negative then none else some 0)) ∨
      IsDecimal t ∧ k = .number none := by
  cases t with
  | nil => simp [reads_nil, token?, not_isDecimal_nil, eq_comm]
  | cons c t => simp [reads_cons, step?, reads_afterInteger]

theorem le_ofDigitChars (t : List Char) (n : Nat) : n ≤ Nat.ofDigitChars 10 t n := by
  induction t generalizing n with
  | nil => simp
  | cons c t ih =>
      rw [Nat.ofDigitChars_cons]
      exact Nat.le_trans (by omega) (ih _)

theorem ofDigitChars_cons_zero (c : Char) (t : List Char) :
    Nat.ofDigitChars 10 (c :: t) 0 = Nat.ofDigitChars 10 t (digitValue c) := by
  rw [Nat.ofDigitChars_cons, Nat.mul_zero, Nat.zero_add, digitValue]

theorem ofDigitChars_ne_zero (hc : c.isDigit) (h0 : c ≠ '0') :
    Nat.ofDigitChars 10 (c :: t) 0 ≠ 0 := by
  have hpos : 0 < digitValue c := by
    have hle : '0'.toNat ≤ c.toNat := by
      simp only [Char.isDigit, Bool.and_eq_true, decide_eq_true_eq] at hc
      exact hc.1
    have hne : c.toNat ≠ '0'.toNat := fun h => h0 (Char.toNat_inj.mp h)
    unfold digitValue
    omega
  rw [ofDigitChars_cons_zero]
  exact Nat.ne_of_gt (Nat.lt_of_lt_of_le hpos (le_ofDigitChars t _))

/-- The number that the digits of a literal give it: none for a negative zero. -/
def signed? (negative : Bool) (n : Nat) : Option Int :=
  if negative then if n = 0 then none else some (-n) else some n

/-- The phase that the first digit of a literal leads to. -/
def whole? (negative : Bool) (c : Char) : Option NumberScan :=
  if c = '0' then some ⟨.zero, negative, 0⟩
  else if isDigit c then some ⟨.integer, negative, digitValue c⟩
  else none

theorem signed?_of_ne_zero {m : Nat} (h : m ≠ 0) :
    signed? negative m = some (if negative then -(m : Int) else m) := by
  cases negative <;> simp [signed?, h]

/-- A literal after its sign, and the value that the literal has. -/
def IsUnsigned (negative : Bool) (t : List Char) (v : Option Int) : Prop :=
  ∃ u r m, t = u ++ r ∧ IsNatural u m ∧
    (r = [] ∧ v = signed? negative m ∨ IsDecimal r ∧ v = none)

theorem IsUnsigned.exists_cons {v : Option Int} (h : IsUnsigned negative t v) :
    ∃ c u, t = c :: u ∧ c.isDigit := by
  obtain ⟨_, r, m, rfl, ⟨⟩ | ⟨hc, -, -⟩, -⟩ := h
  · exact ⟨'0', r, rfl, by decide⟩
  · exact ⟨_, _, rfl, hc⟩

theorem reads_whole? : ((whole? negative c).bind fun s => s.reads t) = some k ↔
    ∃ v, k = .number v ∧ IsUnsigned negative (c :: t) v := by
  constructor
  · intro h
    by_cases h0 : c = '0'
    · subst h0
      rcases reads_zero.mp (by simpa [whole?] using h) with ⟨rfl, rfl⟩ | ⟨ht, rfl⟩
      · exact ⟨_, rfl, ['0'], [], 0, rfl, .zero, Or.inl ⟨rfl, by simp [signed?]⟩⟩
      · exact ⟨_, rfl, ['0'], t, 0, rfl, .zero, Or.inr ⟨ht, rfl⟩⟩
    · by_cases hc : c.isDigit
      · have hi : reads ⟨.integer, negative, digitValue c⟩ t = some k := by
          simpa [whole?, h0, isDigit_eq, hc] using h
        have hne : ∀ u, signed? negative (Nat.ofDigitChars 10 (c :: u) 0) = _ := fun u =>
          signed?_of_ne_zero (ofDigitChars_ne_zero hc h0)
        obtain ⟨u, r, rfl, hu, ⟨rfl, rfl⟩ | ⟨hr, rfl⟩⟩ := reads_integer.mp hi
        · refine ⟨_, rfl, c :: u, [], _, rfl, .digits hc h0 hu, Or.inl ⟨rfl, ?_⟩⟩
          rw [hne, ofDigitChars_cons_zero]
        · exact ⟨_, rfl, c :: u, r, _, rfl, .digits hc h0 hu, Or.inr ⟨hr, rfl⟩⟩
      · simp [whole?, h0, isDigit_eq, hc] at h
  · rintro ⟨v, rfl, _, r, _, h, ⟨⟩ | @⟨d, u, hc, h0, hu⟩, hr⟩
    · obtain ⟨rfl, rfl⟩ := List.cons.inj h
      have hz : reads ⟨.zero, negative, 0⟩ t = some (.number v) :=
        reads_zero.mpr (by simpa [signed?] using hr)
      simpa [whole?] using hz
    · obtain ⟨rfl, rfl⟩ := List.cons.inj h
      rw [signed?_of_ne_zero (ofDigitChars_ne_zero hc h0), ofDigitChars_cons_zero] at hr
      have hi : reads ⟨.integer, negative, digitValue c⟩ (u ++ r) = some (.number v) :=
        reads_integer.mpr ⟨u, r, rfl, hu, by simpa [Completes] using hr⟩
      simpa [whole?, h0, isDigit_eq, hc] using hi

end NumberScan

open NumberScan

theorem isNumber_iff {t : List Char} {v : Option Int} :
    IsNumber t v ↔ IsUnsigned false t v ∨ ∃ u, t = '-' :: u ∧ IsUnsigned true u v := by
  constructor
  · rintro (ht | ⟨ht, h0⟩ | _ | ⟨ht, hu⟩ | ⟨ht, hu⟩)
    · exact Or.inl ⟨t, [], _, by simp, ht, Or.inl ⟨rfl, rfl⟩⟩
    · exact Or.inr ⟨_, rfl, _, [], _, by simp, ht, Or.inl ⟨rfl, by simp [signed?, h0]⟩⟩
    · exact Or.inr ⟨_, rfl, ['0'], [], 0, rfl, .zero, Or.inl ⟨rfl, rfl⟩⟩
    · exact Or.inl ⟨_, _, _, rfl, ht, Or.inr ⟨hu, rfl⟩⟩
    · exact Or.inr ⟨_, rfl, _, _, _, rfl, ht, Or.inr ⟨hu, rfl⟩⟩
  · rintro (⟨u, r, m, rfl, hm, ⟨rfl, rfl⟩ | ⟨hr, rfl⟩⟩ |
      ⟨_, rfl, u, r, m, rfl, hm, ⟨rfl, rfl⟩ | ⟨hr, rfl⟩⟩)
    · rw [List.append_nil]
      exact .natural hm
    · exact .decimal hm hr
    · rw [List.append_nil]
      cases hm with
      | zero => exact .negativeZero
      | @digits c u hc h0 hu =>
          have hne := ofDigitChars_ne_zero (t := u) hc h0
          rw [signed?_of_ne_zero hne]
          exact .negative (.digits hc h0 hu) hne
    · exact .negativeDecimal hm hr

/-- The token that a number literal is read as. -/
def literal? : List Char → Option Token
  | [] => none
  | c :: t => (start? c).bind fun s => s.reads t

/-- The reader knows the number literals of the grammar, each with its value, and no others. -/
theorem literal?_eq_some_iff {t : List Char} {k : Token} :
    literal? t = some k ↔ ∃ v, k = .number v ∧ IsNumber t v := by
  simp only [isNumber_iff]
  cases t with
  | nil =>
      refine ⟨nofun, ?_⟩
      rintro ⟨v, -, h | ⟨_, h, -⟩⟩
      · obtain ⟨_, _, h, -⟩ := h.exists_cons
        cases h
      · cases h
  | cons c t =>
      by_cases hc : c = '-'
      · subst hc
        have hno : ∀ v, ¬ IsUnsigned false ('-' :: t) v := fun v h => by
          obtain ⟨_, _, h, hd⟩ := h.exists_cons
          obtain ⟨rfl, -⟩ := List.cons.inj h
          exact absurd hd (by decide)
        have hstart : literal? ('-' :: t) = reads ⟨.minus, true, 0⟩ t := rfl
        simp only [hno, false_or, List.cons.injEq, true_and, exists_eq_left']
        rw [hstart]
        cases t with
        | nil =>
            refine ⟨nofun, ?_⟩
            rintro ⟨v, -, h⟩
            obtain ⟨_, _, h, -⟩ := h.exists_cons
            cases h
        | cons d t =>
            rw [reads_cons]
            exact reads_whole?
      · have hstart : literal? (c :: t) = (whole? false c).bind fun s => s.reads t := by
          simp [literal?, start?, whole?, hc]
        rw [hstart, reads_whole?]
        simp [hc]

end EncoderSetup.Json

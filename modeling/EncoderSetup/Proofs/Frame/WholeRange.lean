import EncoderSetup.Proofs.Frame.Faults
import EncoderSetup.Proofs.Frame.Monotone

/-!
# Word arithmetic over the whole range of a word

The arithmetic that every layout rests on, without bounds on its operands. Rounding up gives the
least multiple as long as it fits a word and the largest word otherwise
(`Word.alignUp_and_ratio_exact`). The loop for the common divisor is stated round by round,
`Euclid.Run`: it ends on all words, and as the division comes before the multiplication, the common
multiple is found without a fault exactly where it fits (`Word.gcd_and_lcm_exact`).
-/

namespace EncoderSetup

namespace Word

variable {v w align : UInt64}

theorem isLeast_granularity (v align : UInt64) :
    IsLeast {m | v.toNat ≤ m ∧ granularity align ∣ m} (roundUp v.toNat (granularity align)) :=
  isLeast_roundUp v.toNat (granularity_pos align)

theorem alignUp_eq_self_iff (hv : v < max) :
    alignUp v align = v ↔ granularity align ∣ v.toNat := by
  have hlt : v.toNat < UInt64.size - 1 := UInt64.lt_iff_toNat_lt.mp hv
  have hle := le_roundUp v.toNat (granularity_pos align)
  rw [← UInt64.toNat_inj, toNat_alignUp_eq_min, ← roundUp_eq_self_iff (granularity_pos align)]
  omega

/-- A multiple is its own next multiple, and the largest word is not exceeded by any. -/
theorem alignUp_alignUp (v align : UInt64) : alignUp (alignUp v align) align = alignUp v align := by
  have hpos := granularity_pos align
  rw [← UInt64.toNat_inj, toNat_alignUp_eq_min (alignUp v align), toNat_alignUp_eq_min v]
  by_cases h : roundUp v.toNat (granularity align) ≤ UInt64.size - 1
  · rw [Nat.min_eq_left h, (roundUp_eq_self_iff hpos).mpr (dvd_roundUp _ _), Nat.min_eq_left h]
  · have hle := le_roundUp (UInt64.size - 1) hpos
    rw [Nat.min_eq_right (Nat.le_of_not_le h), Nat.min_eq_right hle]

theorem exists_mulRatioCeil? {num den : UInt64} (hden : den ≠ 0)
    (h : v.toNat * num.toNat < UInt64.size) : ∃ p, mulRatioCeil? v num den = some p ∧
      p.toNat = (v.toNat * num.toNat) ⌈/⌉ den.toNat := by
  cases hp : mulRatioCeil? v num den with
  | none =>
      have hle := mulRatioCeil?_eq_none_iff.mp hp
      omega
  | some p => exact ⟨p, rfl, ((mulRatioCeil?_eq_some_iff hden).mp hp).2⟩

/-- Rounding up gives the least multiple where it fits a word, else the largest word, with 0 as an
alignment that every word has. It is monotone and idempotent, and what is aligned is what it leaves
as it is. A ratio is exact, rounded up, wherever its product fits a word, and refused elsewhere. -/
theorem alignUp_and_ratio_exact (v align : UInt64) :
    (∃ m, IsLeast {n | v.toNat ≤ n ∧ Max.max align.toNat 1 ∣ n} m ∧
      (alignUp v align).toNat = if m < UInt64.size then m else UInt64.size - 1) ∧
    (∀ w, v ≤ w → alignUp v align ≤ alignUp w align) ∧
    alignUp (alignUp v align) align = alignUp v align ∧
    (v < max → (isAligned v align = true ↔ alignUp v align = v)) ∧
    ∀ num den : UInt64, 0 < den →
      (v.toNat * num.toNat < UInt64.size → ∃ p, mulRatioCeil? v num den = some p ∧
        p.toNat = (v.toNat * num.toNat) ⌈/⌉ den.toNat) ∧
      (UInt64.size ≤ v.toNat * num.toNat → mulRatioCeil? v num den = none) := by
  refine ⟨⟨_, isLeast_granularity v align, ?_⟩, fun w h => alignUp_mono h align,
    alignUp_alignUp v align, fun hv => ?_, fun num den hden => ⟨?_, mulRatioCeil?_eq_none_iff.mpr⟩⟩
  · rw [toNat_alignUp_eq_min]
    split
    · omega
    · omega
  · rw [isAligned_iff_granularity_dvd, alignUp_eq_self_iff hv]
  · exact exists_mulRatioCeil? (UInt64.pos_iff_ne_zero.mp hden)

/-- The next multiple of sixteen from the last but one word on does not fit, that of three is the
largest word itself; a product of just under a word is divided, one of a word is not. -/
theorem alignUp_and_ratio_at_the_limit :
    let v : UInt64 := max - 1
    (alignUp v 16 = max ∧ isAligned v 16 = false) ∧ (alignUp v 3 = max ∧ isAligned max 3 = true) ∧
      alignUp (alignUp v 16) 16 = alignUp v 16 ∧ alignUp v 16 ≤ alignUp max 16 ∧
      (∃ p, mulRatioCeil? v 1 4 = some p ∧ p.toNat = 2 ^ 62) ∧ mulRatioCeil? v 2 1 = none := by
  intro v
  obtain ⟨-, hmono, hagain, haligned, hratio⟩ := alignUp_and_ratio_exact v 16
  have h16 : alignUp v 16 = max := by decide
  have hoff : ¬ isAligned v 16 = true := by
    rw [haligned (by decide), h16]
    decide
  obtain ⟨p, hp, hq⟩ := (hratio 1 4 (by decide)).1 (by decide)
  refine ⟨⟨h16, Bool.eq_false_iff.mpr hoff⟩, by decide, hagain, hmono max (by decide),
    ⟨p, hp, hq.trans (by decide)⟩, (hratio 2 1 (by decide)).2 (by decide)⟩

end Word

namespace Euclid

/-- So many rounds of the loop lead from two numbers to the result. A round replaces both numbers at
once, the first by the second and the second by the remainder. -/
inductive Run : ℕ → UInt64 → UInt64 → UInt64 → Prop where
  | stop (a : UInt64) : Run 0 a 0 a
  | round {n : ℕ} {a b d : UInt64} (hb : b ≠ 0) (h : Run n b (a % b) d) : Run (n + 1) a b d

variable {n rounds : ℕ} {a b d : UInt64}

/-- The common divisors of the two numbers are those of the numbers after a round. -/
theorem gcd_round (a b : UInt64) :
    Nat.gcd b.toNat (a % b).toNat = Nat.gcd a.toNat b.toNat := by
  rw [UInt64.toNat_mod, Nat.gcd_comm a.toNat, Nat.gcd_comm b.toNat]
  exact (Nat.gcd_rec b.toNat a.toNat).symm

theorem Run.toNat_eq (h : Run n a b d) : d.toNat = Nat.gcd a.toNat b.toNat := by
  induction h with
  | stop a => rw [UInt64.toNat_zero, Nat.gcd_zero_right]
  | @round n a b d hb h ih => rw [ih, gcd_round]

/-- A loop that is done within its rounds has carried out some of them. -/
theorem exists_run_of_gcdWithin (h : Guarded.gcdWithin rounds a b = .ok d) :
    ∃ n ≤ rounds, Run n a b d := by
  induction rounds, a, b using Guarded.gcdWithin.induct with
  | case1 rounds a =>
      rw [Guarded.gcdWithin_zero_right, Except.ok.injEq] at h
      exact ⟨0, Nat.zero_le _, h ▸ .stop a⟩
  | case2 a b hb =>
      rw [Guarded.gcdWithin_endless a hb] at h
      cases h
  | case3 a b hb m ih =>
      rw [Guarded.gcdWithin_round m a hb] at h
      obtain ⟨n, hn, hrun⟩ := ih _ h
      exact ⟨n + 1, Nat.succ_le_succ hn, .round hb hrun⟩

/-- Two rounds for each bit of a word are enough. -/
theorem exists_run (a b : UInt64) : ∃ n ≤ 128, Run n a b (Word.gcd a b) :=
  exists_run_of_gcdWithin (Guarded.gcd_eq_ok a b)

end Euclid

/-- The vertical granularity of compressed frames is the least that both granularities divide. -/
theorem Calculator.isLeast_verticalAlign {k : Calculator} {coding : Coding} {c : CodingRule}
    (hc : k.table.codingRule coding = .ok c) :
    IsLeast {m | 0 < m ∧ c.vAlign.toNat ∣ m ∧ k.table.blocks.vAlign.toNat ∣ m}
      (k.verticalAlign c true).toNat := by
  have hne := verticalAlign_ne_zero true (GeometryTable.codingRule_eq_ok_iff.mp hc)
  have hpos := Word.toNat_pos hne
  rw [k.toNat_verticalAlign_of_compressed c] at hpos ⊢
  refine ⟨⟨hpos, Nat.dvd_lcm_left _ _, Nat.dvd_lcm_right _ _⟩, ?_⟩
  rintro m ⟨hm, hcoding, hblocks⟩
  exact Nat.le_of_dvd hm (Nat.lcm_dvd hcoding hblocks)

namespace Word

/-- The loop for the common divisor ends on all words, and whatever number of rounds it takes, its
result is the greatest common divisor. The common multiple is the least one and none of its steps
faults where it fits a word, as it does for any two alignments of 32 bits; where it does not, its
last product exceeds the word. So the vertical granularity of compressed frames is the least
positive number that both alignments divide, for every coding of every table of a calculator. -/
theorem gcd_and_lcm_exact :
    (∀ a b : UInt64,
      (∃ n ≤ 128, Euclid.Run n a b (gcd a b)) ∧
      (∀ n d, Euclid.Run n a b d → d = gcd a b) ∧
      (gcd a b).toNat = Nat.gcd a.toNat b.toNat ∧
      (Nat.lcm a.toNat b.toNat < UInt64.size →
        Guarded.lcm a b = .ok (lcm a b) ∧ (lcm a b).toNat = Nat.lcm a.toNat b.toNat) ∧
      (UInt64.size ≤ Nat.lcm a.toNat b.toNat → Guarded.lcm a b = .error .overflow)) ∧
    (∀ a b : UInt32, Guarded.lcm a.toUInt64 b.toUInt64 = .ok (lcm a.toUInt64 b.toUInt64) ∧
      (lcm a.toUInt64 b.toUInt64).toNat = Nat.lcm a.toNat b.toNat) ∧
    ∀ (k : Calculator) coding c, k.table.codingRule coding = .ok c →
      Guarded.verticalAlign k c true = .ok (k.verticalAlign c true) ∧
        IsLeast {m | 0 < m ∧ c.vAlign.toNat ∣ m ∧ k.table.blocks.vAlign.toNat ∣ m}
          (k.verticalAlign c true).toNat := by
  refine ⟨fun a b => ?_, fun a b => ?_, fun k coding c hc => ?_⟩
  · refine ⟨Euclid.exists_run a b, fun n d h => ?_, toNat_gcd a b, fun h => ?_,
      Guarded.lcm_eq_overflow⟩
    · exact UInt64.toNat_inj.mp (h.toNat_eq.trans (toNat_gcd a b).symm)
    · exact ⟨Guarded.lcm_eq_ok h, toNat_lcm h⟩
  · have h := lcm_toUInt64_lt_size a b
    have hlcm := toNat_lcm h
    rw [UInt32.toNat_toUInt64, UInt32.toNat_toUInt64] at hlcm
    exact ⟨Guarded.lcm_eq_ok h, hlcm⟩
  · exact ⟨Guarded.verticalAlign_eq_ok k c true, Calculator.isLeast_verticalAlign hc⟩

/-- Three rounds for 48 and 18. The common multiple of 2 ^ 63 and 2 ^ 62 fits although their product
does not; that of 2 ^ 63 and 3 does not fit. Rows in groups of 12 and blocks in groups of 16 meet
every 48 rows. -/
theorem gcd_and_lcm_of_large_words :
    let t : GeometryTable := { GeometryTable.builtin with coding := .ofList [(.avc, ⟨12⟩)] }
    (Euclid.Run 3 48 18 6 ∧ (6 : UInt64) = gcd 48 18) ∧
      ((lcm 0x8000000000000000 0x4000000000000000).toNat = 2 ^ 63 ∧
        Guarded.lcm 0x8000000000000000 3 = .error .overflow) ∧
      ∃ k : Calculator, k.table = t ∧ (k.verticalAlign ⟨12⟩ true).toNat = 48 ∧
        IsLeast {m | 0 < m ∧ 12 ∣ m ∧ 16 ∣ m} (k.verticalAlign ⟨12⟩ true).toNat := by
  intro t
  let k : Calculator := ⟨t, by rfl⟩
  obtain ⟨hwords, -, hgranularity⟩ := gcd_and_lcm_exact
  have hrun : Euclid.Run 3 48 18 6 :=
    .round (by decide) (.round (by decide) (.round (by decide) (.stop 6)))
  obtain ⟨-, hresult, -⟩ := hwords 48 18
  obtain ⟨-, -, -, hfits, -⟩ := hwords 0x8000000000000000 0x4000000000000000
  obtain ⟨-, -, -, -, hexceeds⟩ := hwords 0x8000000000000000 3
  obtain ⟨-, hleast⟩ := hgranularity k .avc ⟨12⟩ (by rfl)
  have hlcm : Nat.lcm (0x8000000000000000 : UInt64).toNat (0x4000000000000000 : UInt64).toNat =
      2 ^ 63 := by decide
  refine ⟨⟨hrun, hresult 3 6 hrun⟩, ⟨?_, hexceeds (by decide)⟩, k, rfl, ?_, hleast⟩
  · rw [(hfits (by rw [hlcm]; decide)).2, hlcm]
  · exact (k.toNat_verticalAlign_of_compressed ⟨12⟩).trans (by decide)

end Word

end EncoderSetup

import EncoderSetup.Proofs.Json.Grammar
import EncoderSetup.Proofs.Text.Numerals

/-!
# The text of a string literal

The reader takes a string piece by piece and makes a text of the pieces at its end. The pieces have
a text exactly when the literal spells one, with every surrogate in a pair, and then it is that text
(`exists_spells_iff`).
-/

namespace EncoderSetup.Json

open EncoderSetup.Json.Symbol

theorem shortEscape?_eq_some_iff {e c : Char} :
    shortEscape? e = some c ↔ (e, c) ∈ shortEscapes := by
  constructor
  · intro h
    unfold shortEscape? at h
    split at h <;> cases h <;> decide
  · intro h
    simp only [shortEscapes, List.mem_cons, Prod.mk.injEq, List.not_mem_nil, or_false] at h
    rcases h with ⟨rfl, rfl⟩ | ⟨rfl, rfl⟩ | ⟨rfl, rfl⟩ | ⟨rfl, rfl⟩ | ⟨rfl, rfl⟩ | ⟨rfl, rfl⟩ |
      ⟨rfl, rfl⟩ | ⟨rfl, rfl⟩ <;> rfl

theorem toNat_ofNat {n : Nat} (h : n.isValidChar) : (Char.ofNat n).toNat = n := by
  rw [Char.ofNat, dif_pos h]
  rfl

theorem isLeadingSurrogate_iff {n : Nat} :
    isLeadingSurrogate n = true ↔ 0xD800 ≤ n ∧ n < 0xDC00 := by
  simp [isLeadingSurrogate]

theorem isTrailingSurrogate_iff {n : Nat} :
    isTrailingSurrogate n = true ↔ 0xDC00 ≤ n ∧ n < 0xE000 := by
  simp [isTrailingSurrogate]

theorem IsUnit.lt {u : List Char} {n : Nat} (h : IsUnit u n) : n < 0x10000 := by
  obtain ⟨hw, hx, hy, hz⟩ := h
  have := (Numeral.hexValue?_eq_some_iff.mp hw).1
  have := (Numeral.hexValue?_eq_some_iff.mp hx).1
  have := (Numeral.hexValue?_eq_some_iff.mp hy).1
  have := (Numeral.hexValue?_eq_some_iff.mp hz).1
  omega

/-- No character of the Unicode range is a surrogate. -/
theorem not_isSurrogate_toNat (c : Char) : ¬ (0xD800 ≤ c.toNat ∧ c.toNat < 0xE000) := by
  have h : c.toNat.isValidChar := c.valid
  unfold Nat.isValidChar at h
  omega

theorem chars?_unit {n : Nat} (ps : List Piece) (h : ¬ (0xD800 ≤ n ∧ n < 0xE000)) :
    Piece.chars? (.unit n :: ps) = (Piece.chars? ps).map (Char.ofNat n :: ·) := by
  have hl : isLeadingSurrogate n = false := by
    rw [Bool.eq_false_iff, Ne, isLeadingSurrogate_iff]
    omega
  have ht : isTrailingSurrogate n = false := by
    rw [Bool.eq_false_iff, Ne, isTrailingSurrogate_iff]
    omega
  rcases ps with _ | ⟨_ | _ | _, ps⟩ <;> simp [Piece.chars?, hl, ht]

theorem chars?_pair {a b : Nat} (ps : List Piece) (ha : a < 0x400) (hb : b < 0x400) :
    Piece.chars? (.unit (0xD800 + a) :: .unit (0xDC00 + b) :: ps) =
      (Piece.chars? ps).map (Char.ofNat (0x10000 + 0x400 * a + b) :: ·) := by
  have hl : isLeadingSurrogate (0xD800 + a) = true := isLeadingSurrogate_iff.mpr (by omega)
  have ht : isTrailingSurrogate (0xDC00 + b) = true := isTrailingSurrogate_iff.mpr (by omega)
  have hc : 0x10000 + (0xD800 + a - 0xD800) * 0x400 + (0xDC00 + b - 0xDC00) =
      0x10000 + 0x400 * a + b := by omega
  rw [Piece.chars?, if_pos hl, if_pos ht, pairedSurrogates, hc]

theorem pieces_of_spells {l s : List Char} (h : Spells l s) :
    ∃ ps, Pieces (ofChars l) ps ∧ Piece.chars? ps = some s := by
  induction h with
  | nil => exact ⟨[], .nil, rfl⟩
  | plain hc _ ih =>
      obtain ⟨ps, hp, hs⟩ := ih
      exact ⟨_, .cons (.plain hc) hp, by rw [Piece.chars?, hs, Option.map_some]⟩
  | short he _ ih =>
      obtain ⟨ps, hp, hs⟩ := ih
      exact ⟨_, .cons (.short he) hp, by rw [Piece.chars?, hs, Option.map_some]⟩
  | @unit c u t s hu _ ih =>
      obtain ⟨ps, hp, hs⟩ := ih
      refine ⟨.unit c.toNat :: ps, ?_, ?_⟩
      · simpa using Pieces.cons (.unit hu) hp
      · rw [chars?_unit ps (not_isSurrogate_toNat c), hs, Option.map_some, Char.ofNat_toNat]
  | @pair c a b u v t s hu ha hv hb hc _ ih =>
      obtain ⟨ps, hp, hs⟩ := ih
      refine ⟨_, by simpa using Pieces.cons (.unit hu) (.cons (.unit hv) hp), ?_⟩
      rw [chars?_pair ps ha hb, hs, Option.map_some, ← hc, Char.ofNat_toNat]

/-- The pieces `ps`, wherever they come from, have a text only if one is spelled. -/
def Readable (ps : List Piece) : Prop :=
  ∀ b s, Pieces b ps → Piece.chars? ps = some s → ∃ l, b = ofChars l ∧ Spells l s

theorem Readable.unit {n : Nat} {ps : List Piece} (hn : ¬ (0xD800 ≤ n ∧ n < 0xE000))
    (h : Readable ps) : Readable (.unit n :: ps) := by
  intro b s hb hs
  rw [chars?_unit ps hn, Option.map_eq_some_iff] at hs
  obtain ⟨s, hs, rfl⟩ := hs
  obtain _ | ⟨_ | _ | hu | _, hb⟩ := hb
  have hvalid : n.isValidChar := by
    have := hu.lt
    unfold Nat.isValidChar
    omega
  obtain ⟨l, rfl, hl⟩ := h _ _ hb hs
  refine ⟨_, ?_, .unit ((toNat_ofNat hvalid).symm ▸ hu) hl⟩
  simp

theorem Readable.pair {a b : Nat} {ps : List Piece} (ha : a < 0x400) (hb : b < 0x400)
    (h : Readable ps) : Readable (.unit (0xD800 + a) :: .unit (0xDC00 + b) :: ps) := by
  intro body s hbody hs
  rw [chars?_pair ps ha hb, Option.map_eq_some_iff] at hs
  obtain ⟨s, hs, rfl⟩ := hs
  obtain _ | ⟨_ | _ | hu | _, _ | ⟨_ | _ | hv | _, hbody⟩⟩ := hbody
  have hvalid : (0x10000 + 0x400 * a + b).isValidChar := Or.inr ⟨by omega, by omega⟩
  obtain ⟨l, rfl, hl⟩ := h _ _ hbody hs
  refine ⟨_, ?_, .pair hu ha hv hb (toNat_ofNat hvalid) hl⟩
  simp

theorem readable (ps : List Piece) : Readable ps := by
  induction ps using Piece.chars?.induct with
  | case1 =>
      intro b s hb hs
      cases hb
      cases hs
      exact ⟨[], rfl, .nil⟩
  | case2 c rest ih =>
      intro b s hb hs
      rw [Piece.chars?, Option.map_eq_some_iff] at hs
      obtain ⟨s, hs, rfl⟩ := hs
      obtain _ | ⟨⟨hc⟩ | ⟨he⟩, hb⟩ := hb
      · obtain ⟨l, rfl, hl⟩ := ih _ _ hb hs
        exact ⟨c :: l, rfl, .plain hc hl⟩
      · obtain ⟨l, rfl, hl⟩ := ih _ _ hb hs
        exact ⟨_, rfl, .short he hl⟩
  | case3 leading trailing rest hl ht ih =>
      rw [isLeadingSurrogate_iff] at hl
      rw [isTrailingSurrogate_iff] at ht
      obtain ⟨a, rfl⟩ := Nat.exists_eq_add_of_le hl.1
      obtain ⟨b, rfl⟩ := Nat.exists_eq_add_of_le ht.1
      exact .pair (by omega) (by omega) ih
  | case4 leading trailing rest hl ht => simp [Readable, Piece.chars?, hl, ht]
  | case5 leading trailing rest hl ht => simp [Readable, Piece.chars?, hl, ht]
  | case6 leading trailing rest hl ht ih =>
      rw [isLeadingSurrogate_iff] at hl
      rw [isTrailingSurrogate_iff] at ht
      exact .unit (by omega) ih
  | case7 code rest hne h => simp [Readable, Piece.chars?, h]
  | case8 code rest hne h ih =>
      rw [Bool.or_eq_true, isLeadingSurrogate_iff, isTrailingSurrogate_iff] at h
      exact .unit (by omega) ih
  | case9 rest => simp [Readable, Piece.chars?]

/-- A literal spells a text exactly when its pieces have it. -/
theorem exists_spells_iff {b : List Symbol} {s : List Char} :
    (∃ l, b = ofChars l ∧ Spells l s) ↔ ∃ ps, Pieces b ps ∧ Piece.chars? ps = some s := by
  constructor
  · rintro ⟨l, rfl, h⟩
    exact pieces_of_spells h
  · rintro ⟨ps, h, hs⟩
    exact readable ps b s h hs

end EncoderSetup.Json

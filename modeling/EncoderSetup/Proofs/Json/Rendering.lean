import EncoderSetup.Json.Render
import EncoderSetup.Proofs.Json.Nesting

/-!
# What is written can be read

Every rendering spells the tokens of its value, whatever white space the layout puts between them,
so a text that is written from a value is read back as that very value (`ofText?_pretty`,
`ofText?_compact`).
-/

namespace EncoderSetup.Json

open EncoderSetup.Json.Symbol

theorem toDigits_head_ne_zero {n : Nat} (h : n ≠ 0) :
    ∃ c t, Nat.toDigits 10 n = c :: t ∧ c ≠ '0' := by
  induction n using Nat.strongRecOn with
  | ind n ih =>
      by_cases hn : n < 10
      · exact ⟨_, [], Nat.toDigits_of_lt_base hn, fun h0 => h (Nat.digitChar_eq_zero.mp h0)⟩
      · obtain ⟨c, t, ht, hc⟩ := ih (n / 10) (by omega) (by omega)
        rw [Nat.toDigits_of_base_le (by decide) (by omega), ht]
        exact ⟨c, _, rfl, hc⟩

theorem isNatural_toDigits (n : Nat) : IsNatural (Nat.toDigits 10 n) n := by
  by_cases h : n = 0
  · subst h
    exact .zero
  · obtain ⟨c, t, ht, hc⟩ := toDigits_head_ne_zero h
    have hdigit : ∀ d ∈ c :: t, d.isDigit := fun d hd =>
      Nat.isDigit_of_mem_toDigits (by decide) (by decide) (ht ▸ hd)
    have hn : Nat.ofDigitChars 10 (c :: t) 0 = n := by rw [← ht, Nat.ofDigitChars_ten_toDigits]
    obtain ⟨hd, hrest⟩ := List.forall_mem_cons.mp hdigit
    rw [ht]
    have h := IsNatural.digits hd hc hrest
    rwa [hn] at h

theorem isNatural_repr (n : Nat) : IsNatural n.repr.toList n := by
  rw [Nat.repr_eq_ofList_toDigits, String.toList_ofList]
  exact isNatural_toDigits n

theorem isNumber_renderNumber (n : Option Int) : IsNumber (renderNumber n) n := by
  cases n with
  | none => exact .negativeZero
  | some n =>
      rw [renderNumber, Int.toString_eq_repr, Int.repr_eq_if]
      split
      · next h =>
          have hn : IsNumber n.toNat.repr.toList (some n.toNat) := .natural (isNatural_repr _)
          rwa [Int.toNat_of_nonneg h] at hn
      · next h =>
          have hn : IsNumber ('-' :: (-n).toNat.repr.toList) (some (-(-n).toNat)) :=
            .negative (isNatural_repr _) (by omega)
          have hneg : -((-n).toNat : Int) = n := by omega
          rw [hneg] at hn
          simpa using hn

theorem mem_shortEscapes_of_escapeLetter? {c letter : Char} (h : escapeLetter? c = some letter) :
    (letter, c) ∈ shortEscapes := by
  unfold escapeLetter? at h
  split at h <;> cases h <;> decide

theorem isPlain_of_escapeLetter? {c : Char} (h : escapeLetter? c = none) (hc : ¬ c.toNat < 0x20) :
    IsPlain c := by
  refine ⟨Nat.le_of_not_lt hc, ?_, ?_⟩ <;> rintro rfl <;> cases h

theorem hexValue?_digitChar {n : Nat} (h : n < 16) :
    Numeral.hexValue? (Nat.digitChar n) = some n :=
  Numeral.hexValue?_eq_some_iff.mpr (Numeral.isDigit_digitChar h)

theorem spells_renderChar (c : Char) {t s : List Char} (h : Spells t s) :
    Spells (renderChar c ++ t) (c :: s) := by
  unfold renderChar
  split
  · next letter hl => exact .short (mem_shortEscapes_of_escapeLetter? hl) h
  · next hl =>
      split
      · next hc =>
          have hu : IsUnit ['0', '0', Nat.digitChar (c.toNat / 16), Nat.digitChar (c.toNat % 16)]
              (0x1000 * 0 + 0x100 * 0 + 0x10 * (c.toNat / 16) + c.toNat % 16) :=
            .digits rfl rfl (hexValue?_digitChar (by omega)) (hexValue?_digitChar (by omega))
          have hn : 0x1000 * 0 + 0x100 * 0 + 0x10 * (c.toNat / 16) + c.toNat % 16 = c.toNat := by
            omega
          rw [hn] at hu
          exact .unit hu h
      · next hc => exact .plain (isPlain_of_escapeLetter? hl hc) h

theorem spells_flatMap_renderChar (s : List Char) : Spells (s.flatMap renderChar) s := by
  induction s with
  | nil => exact .nil
  | cons c s ih => exact spells_renderChar c ih

theorem lexeme_renderString (s : Option String) :
    Lexeme (.string s) (ofChars (renderString s)) := by
  cases s with
  | some s =>
      have h := Lexeme.string (spells_flatMap_renderChar s.toList)
      rw [String.ofList_toList] at h
      simpa [renderString, quoted] using h
  | none =>
      have hu : IsUnit ['d', '8', '0', '0'] (0x1000 * 13 + 0x100 * 8 + 0x10 * 0 + 0) :=
        .digits rfl rfl rfl rfl
      exact Scan.lexeme_string (.cons (.unit hu) .nil)

/-- A layout that puts white space alone between tokens. -/
structure Layout.IsBlank (layout : Layout) : Prop where
  newline : ∀ depth, Json.IsBlank (ofChars (layout.newline depth))
  afterName : ∃ b, layout.afterName = ':' :: b ∧ Json.IsBlank (ofChars b)

theorem Layout.isBlank_compact : Layout.compact.IsBlank :=
  ⟨fun _ => isBlank_nil, [], rfl, isBlank_nil⟩

theorem Layout.isBlank_pretty : Layout.pretty.IsBlank := by
  refine ⟨fun depth => isBlank_cons.mpr ⟨by simp, fun x hx => ?_⟩, [' '], rfl,
    isBlank_cons.mpr ⟨by simp, isBlank_nil⟩⟩
  obtain ⟨c, hc, rfl⟩ := List.mem_map.mp hx
  rw [List.eq_of_mem_replicate hc]
  simp

variable {layout : Layout} {ts : List Token} {r : List Symbol}

/-- A rendering of `j` in front of a spelling spells the tokens of `j` in front of the others. -/
def IsWritten (layout : Layout) (j : Json) : Prop :=
  ∀ (depth : Nat) (ts : List Token) (r : List Symbol), Spelled ts r →
    Spelled (tokens j ++ ts) (ofChars (renderWith layout depth j) ++ r)

theorem spelled_fixed {t : Token} {l : List Char} (ht : t.fixed? = some l) (h : Spelled ts r) :
    Spelled (t :: ts) (ofChars l ++ r) := h.lexeme (.fixed ht)

theorem spelled_renderElements (hl : layout.IsBlank) (depth : Nat) {j : Json} {rest : List Json}
    (hw : ∀ e ∈ j :: rest, IsWritten layout e) (h : Spelled ts r) :
    Spelled (elementTokens (j :: rest) ++ ts)
      (ofChars (renderElements layout depth (j :: rest)) ++ r) := by
  obtain ⟨hj, hrest⟩ := List.forall_mem_cons.mp hw
  induction rest generalizing j with
  | nil =>
      rw [elementTokens, renderElements, ofChars_append, List.append_assoc]
      exact (hj depth ts r h).blank (hl.newline depth)
  | cons e rest ih =>
      obtain ⟨he, htail⟩ := List.forall_mem_cons.mp hrest
      have hcomma := spelled_fixed (t := .comma) rfl (ih hrest he htail)
      rw [elementTokens_cons_cons, commaAfterElement]
      simp only [renderElements, ofChars_append, ofChars_cons, List.append_assoc, List.cons_append,
        List.nil_append]
      exact (hj depth _ _ hcomma).blank (hl.newline depth)

theorem spelled_member (hl : layout.IsBlank) (depth : Nat) {m : Member}
    (hm : IsWritten layout m.2) (h : Spelled ts r) :
    Spelled (.string m.1 :: .colon :: (tokens m.2 ++ ts))
      (ofChars (layout.newline depth ++ renderString m.1 ++ layout.afterName ++
        renderWith layout depth m.2) ++ r) := by
  obtain ⟨b, hname, hb⟩ := hl.afterName
  have hcolon := spelled_fixed (t := .colon) rfl ((hm depth ts r h).blank hb)
  have hline := (hcolon.lexeme (lexeme_renderString m.1)).blank (hl.newline depth)
  simpa [hname] using hline

theorem spelled_renderMembers (hl : layout.IsBlank) (depth : Nat) {m : Member}
    {rest : List Member} (hw : ∀ d ∈ m :: rest, IsWritten layout d.2) (h : Spelled ts r) :
    Spelled (memberTokens (m :: rest) ++ ts)
      (ofChars (renderMembers layout depth (m :: rest)) ++ r) := by
  obtain ⟨hm, hrest⟩ := List.forall_mem_cons.mp hw
  induction rest generalizing m with
  | nil => exact spelled_member hl depth hm h
  | cons d rest ih =>
      obtain ⟨hd, htail⟩ := List.forall_mem_cons.mp hrest
      have hcomma := spelled_fixed (t := .comma) rfl (ih hrest hd htail)
      have hline := spelled_member hl depth hm hcomma
      simpa [memberTokens_cons_cons, commaAfterMember, renderMembers] using hline

/-- Every rendering spells the tokens of its value. -/
theorem isWritten (hl : layout.IsBlank) (j : Json) : IsWritten layout j := by
  induction j using nesting_induction with
  | null => exact fun _ _ _ => spelled_fixed rfl
  | bool b => cases b <;> exact fun _ _ _ => spelled_fixed rfl
  | number n => exact fun _ _ _ h => h.lexeme (.number (isNumber_renderNumber n))
  | string s => exact fun _ _ _ h => h.lexeme (lexeme_renderString s)
  | array elements hw =>
      intro depth ts r h
      have hclose := spelled_fixed (t := .closeArray) rfl h
      cases elements with
      | nil =>
          have h := spelled_fixed (t := .openArray) rfl hclose
          simpa [tokens, elementTokens, renderWith] using h
      | cons j rest =>
          have h := spelled_fixed (t := .openArray) rfl
            (spelled_renderElements hl (depth + 1) hw (hclose.blank (hl.newline depth)))
          simpa [tokens, renderWith] using h
  | object members hw =>
      intro depth ts r h
      have hclose := spelled_fixed (t := .closeObject) rfl h
      cases members with
      | nil =>
          have h := spelled_fixed (t := .openObject) rfl hclose
          simpa [tokens, memberTokens, renderWith] using h
      | cons m rest =>
          have h := spelled_fixed (t := .openObject) rfl
            (spelled_renderMembers hl (depth + 1) hw (hclose.blank (hl.newline depth)))
          simpa [tokens, renderWith] using h

theorem ofText?_renderWith (hl : layout.IsBlank) (depth : Nat) (j : Json) :
    ofText? (String.ofList (renderWith layout depth j)) = some j := by
  have h := isWritten hl j depth [] [] (.nil isBlank_nil)
  rw [List.append_nil, List.append_nil] at h
  rw [ofText?_eq_some_iff, IsText, ofText, String.toList_ofList]
  exact h

@[simp] theorem ofText?_pretty (j : Json) : ofText? j.pretty = some j :=
  ofText?_renderWith Layout.isBlank_pretty 0 j

@[simp] theorem ofText?_compact (j : Json) : ofText? j.compact = some j :=
  ofText?_renderWith Layout.isBlank_compact 0 j

end EncoderSetup.Json

import EncoderSetup.Proofs.Json.Numbers
import EncoderSetup.Proofs.Json.Strings
import Mathlib.Data.List.Chain

/-!
# From symbols to lexemes

A scan that succeeds has read the lexemes of its tokens, with white space around them
(`spelled_of_run`). Conversely a spelling is read as its tokens (`run_of_spelled`), provided that no
number stands next to a word, a string or another number: a number ends where a symbol comes that
cannot continue it, so it needs a mark or white space after it.
-/

namespace EncoderSetup.Json

open EncoderSetup.Json.Symbol

/-- Brackets, braces, colons and commas. -/
def Token.isMark : Token → Bool
  | .null | .bool _ | .number _ | .string _ => false
  | _ => true

namespace Scan

/-- The tokens of a scan that goes on with these symbols to the end of the document. -/
def run (s : Scan) (l : List Symbol) : Option (List Token) := (l.foldlM step s).bind finish?

variable {acc ts : List Token} {l r : List Symbol} {c : Char} {t : Token}

theorem run_nil (s : Scan) : s.run [] = s.finish? := rfl

theorem run_cons (s : Scan) (x : Symbol) (l : List Symbol) :
    s.run (x :: l) = (s.step x).bind fun s => s.run l := by
  cases h : s.step x <;> simp [run, List.foldlM_cons, h]

/-- In a place where the document may not end and no stray byte may stand, a character comes. -/
theorem exists_char_of_run {s : Scan} (hfinish : s.finish? = none)
    (hstray : ∀ byte, s.step (.stray byte) = none) (h : s.run l = some ts) :
    ∃ c r s', l = .char c :: r ∧ s.step (.char c) = some s' ∧ s'.run r = some ts := by
  match l with
  | [] =>
      rw [run_nil, hfinish] at h
      cases h
  | .stray byte :: r =>
      rw [run_cons, hstray] at h
      cases h
  | .char c :: r =>
      rw [run_cons] at h
      obtain ⟨s', hs, h⟩ := Option.bind_eq_some_iff.mp h
      exact ⟨c, r, s', rfl, hs, h⟩

theorem run_stray_cons (byte : UInt8) : run ⟨acc, .between⟩ (.stray byte :: l) = none := by
  rw [run_cons]
  rfl

theorem run_char_cons : run ⟨acc, .between⟩ (.char c :: l) = (start acc c).bind fun s => s.run l :=
  run_cons ..

theorem isBlank_char_iff : isBlank c = true ↔ .char c ∈ ofChars [' ', '\t', '\n', '\r'] := by
  simp [isBlank, or_assoc]

theorem run_blank_cons (hc : isBlank c) :
    run ⟨acc, .between⟩ (.char c :: l) = run ⟨acc, .between⟩ l := by
  rw [run_char_cons, start, if_pos hc, Option.bind_some]

theorem run_blank {b : List Symbol} (hb : IsBlank b) :
    run ⟨acc, .between⟩ (b ++ l) = run ⟨acc, .between⟩ l := by
  induction b with
  | nil => rfl
  | cons x b ih =>
      obtain ⟨hx, hrest⟩ := isBlank_cons.mp hb
      obtain ⟨c, -, rfl⟩ := List.mem_map.mp hx
      rw [List.cons_append, run_blank_cons (isBlank_char_iff.mpr hx), ih hrest]

theorem fixed?_of_mark? (h : mark? c = some t) : t.fixed? = some [c] := by
  unfold mark? at h
  split at h <;> cases h <;> rfl

theorem fixed?_of_word? {w : List Char} (h : word? c = some (t, w)) :
    t.fixed? = some (c :: w) ∧ w ≠ [] := by
  unfold word? at h
  split at h <;> cases h <;> simp [Token.fixed?]

theorem run_word {w : List Char} (hw : w ≠ []) (h : run ⟨acc, .word t w⟩ l = some ts) :
    ∃ r, l = ofChars w ++ r ∧ run ⟨t :: acc, .between⟩ r = some ts := by
  induction w generalizing l with
  | nil => exact absurd rfl hw
  | cons d w ih =>
      obtain ⟨c, r, s, rfl, hs, h⟩ := exists_char_of_run rfl (fun _ => rfl) h
      cases w with
      | nil =>
          obtain ⟨rfl, hs⟩ := Option.ite_none_right_eq_some.mp hs
          cases hs
          exact ⟨r, rfl, h⟩
      | cons e w =>
          obtain ⟨rfl, hs⟩ := Option.ite_none_right_eq_some.mp hs
          cases hs
          obtain ⟨r, rfl, hr⟩ := ih (List.cons_ne_nil e w) h
          exact ⟨r, rfl, hr⟩

theorem run_fixed {w : List Char} (h : t.fixed? = some w) :
    run ⟨acc, .between⟩ (ofChars w ++ r) = run ⟨t :: acc, .between⟩ r := by
  cases t with
  | bool b => cases b <;> cases h <;> rfl
  | number _ => cases h
  | string _ => cases h
  | _ =>
      cases h
      rfl

/-- No number goes on with these symbols: they begin with white space or a mark, if at all. -/
def Delimits (r : List Symbol) : Prop :=
  ∀ c l, r = .char c :: l → isBlank c = true ∨ (mark? c).isSome = true

theorem step?_of_delimits (n : NumberScan) (h : isBlank c = true ∨ (mark? c).isSome = true) :
    n.step? c = none := by
  have hc : c ∈ [' ', '\t', '\n', '\r', '[', ']', '{', '}', ':', ','] := by
    rcases h with h | h
    · simp only [isBlank, Bool.or_eq_true, decide_eq_true_eq] at h
      rcases h with ((rfl | rfl) | rfl) | rfl <;> simp
    · unfold mark? at h
      split at h <;> simp at h ⊢
  obtain ⟨phase, negative, magnitude⟩ := n
  simp only [List.mem_cons, List.not_mem_nil, or_false] at hc
  rcases hc with rfl | rfl | rfl | rfl | rfl | rfl | rfl | rfl | rfl | rfl <;> cases phase <;> rfl

theorem run_number {n : NumberScan} (h : run ⟨acc, .number n⟩ l = some ts) :
    ∃ u r k, l = ofChars u ++ r ∧ n.reads u = some k ∧ run ⟨k :: acc, .between⟩ r = some ts := by
  induction l generalizing n with
  | nil =>
      obtain ⟨k, hk, rfl⟩ := Option.map_eq_some_iff.mp h
      exact ⟨[], [], k, rfl, hk, rfl⟩
  | cons x l ih =>
      rw [run_cons] at h
      match x with
      | .stray _ => cases h
      | .char c =>
          cases hn : n.step? c with
          | some m =>
              simp only [step, hn, Option.bind_some] at h
              obtain ⟨u, r, k, rfl, hk, hr⟩ := ih h
              exact ⟨c :: u, r, k, rfl, by rw [NumberScan.reads_cons, hn, Option.bind_some, hk], hr⟩
          | none =>
              -- What cannot continue the number is read again, as the start of something else.
              simp only [step, hn] at h
              obtain ⟨s, hs, h⟩ := Option.bind_eq_some_iff.mp h
              obtain ⟨k, hk, hs⟩ := Option.bind_eq_some_iff.mp hs
              refine ⟨[], .char c :: l, k, rfl, hk, ?_⟩
              rw [run_char_cons, hs, Option.bind_some, h]

theorem run_number_append {n : NumberScan} {u : List Char} (hu : n.reads u = some t)
    (hr : Delimits r) : run ⟨acc, .number n⟩ (ofChars u ++ r) = run ⟨t :: acc, .between⟩ r := by
  induction u generalizing n with
  | nil =>
      have ht : n.token? = some t := hu
      match r with
      | [] => simp [run_nil, finish?, ht]
      | .stray _ :: l => simp [run_cons, step]
      | .char c :: l =>
          have hn := step?_of_delimits n (hr c l rfl)
          simp [run_cons, step, hn, ht]
  | cons c u ih =>
      rw [NumberScan.reads_cons] at hu
      obtain ⟨m, hm, hu⟩ := Option.bind_eq_some_iff.mp hu
      rw [ofChars_cons, List.cons_append, run_cons, ← ih hu]
      simp [step, hm]

/-! ## Strings -/

theorem run_hex_cons {ps : List Piece} {missing value : Nat}
    (h : run ⟨acc, .string ps (.hex missing value)⟩ l = some ts) :
    ∃ c d r, l = .char c :: r ∧ Numeral.hexValue? c = some d ∧
      run (if missing ≤ 1 then ⟨acc, .string (.unit (16 * value + d) :: ps) .plain⟩
        else ⟨acc, .string ps (.hex (missing - 1) (16 * value + d))⟩) r = some ts := by
  obtain ⟨c, r, s, rfl, hs, h⟩ := exists_char_of_run rfl (fun _ => rfl) h
  obtain ⟨d, hd, rfl⟩ := Option.map_eq_some_iff.mp hs
  exact ⟨c, d, r, rfl, hd, h⟩

theorem fourDigits_eq (w x y z : Nat) : 0x1000 * w + 0x100 * x + 0x10 * y + z =
    16 * (16 * (16 * (16 * 0 + w) + x) + y) + z := by omega

theorem run_hex {ps : List Piece} (h : run ⟨acc, .string ps (.hex 4 0)⟩ l = some ts) :
    ∃ u n r, l = ofChars u ++ r ∧ IsUnit u n ∧
      run ⟨acc, .string (.unit n :: ps) .plain⟩ r = some ts := by
  obtain ⟨c₁, w, l, rfl, hw, h⟩ := run_hex_cons h
  obtain ⟨c₂, x, l, rfl, hx, h⟩ := run_hex_cons h
  obtain ⟨c₃, y, l, rfl, hy, h⟩ := run_hex_cons h
  obtain ⟨c₄, z, r, rfl, hz, h⟩ := run_hex_cons h
  refine ⟨_, _, r, rfl, .digits hw hx hy hz, ?_⟩
  rw [fourDigits_eq]
  exact h

theorem run_unit {ps : List Piece} {u : List Char} {n : Nat} (hu : IsUnit u n) :
    run ⟨acc, .string ps (.hex 4 0)⟩ (ofChars u ++ r) =
      run ⟨acc, .string (.unit n :: ps) .plain⟩ r := by
  obtain ⟨hw, hx, hy, hz⟩ := hu
  rw [fourDigits_eq]
  simp [run_cons, step, inString, hw, hx, hy, hz]

theorem run_escape {ps : List Piece} (h : run ⟨acc, .string ps .escape⟩ l = some ts) :
    ∃ b p r, l = b ++ r ∧ IsPiece (.char '\\' :: b) p ∧
      run ⟨acc, .string (p :: ps) .plain⟩ r = some ts := by
  obtain ⟨c, r, s, rfl, hs, h⟩ := exists_char_of_run rfl (fun _ => rfl) h
  simp only [step, inString] at hs
  split at hs
  · next hc =>
      cases hs
      obtain ⟨u, n, r, rfl, hu, hr⟩ := run_hex h
      exact ⟨.char c :: ofChars u, _, r, rfl, hc ▸ .unit hu, hr⟩
  · obtain ⟨d, hd, rfl⟩ := Option.map_eq_some_iff.mp hs
    exact ⟨[.char c], _, r, rfl, .short (shortEscape?_eq_some_iff.mp hd), h⟩

/-- Inside a string there is the quote that ends it, or one more piece. -/
theorem run_plain {ps : List Piece} (h : run ⟨acc, .string ps .plain⟩ l = some ts) :
    (∃ r, l = .char '"' :: r ∧
      run ⟨.string (Piece.text? ps.reverse) :: acc, .between⟩ r = some ts) ∨
    ∃ b p r, l = b ++ r ∧ b ≠ [] ∧ IsPiece b p ∧
      run ⟨acc, .string (p :: ps) .plain⟩ r = some ts := by
  match l with
  | [] => cases h
  | .stray byte :: l =>
      rw [run_cons] at h
      exact Or.inr ⟨[.stray byte], _, l, rfl, by simp, .stray, h⟩
  | .char c :: l =>
      rw [run_cons] at h
      obtain ⟨s, hs, h⟩ := Option.bind_eq_some_iff.mp h
      simp only [step, inString] at hs
      split at hs
      · next hc =>
          cases hs
          exact Or.inl ⟨l, by rw [hc], h⟩
      · next hquote =>
          split at hs
          · next hc =>
              cases hs
              obtain ⟨b, p, r, rfl, hb, hr⟩ := run_escape h
              exact Or.inr ⟨.char c :: b, p, r, rfl, by simp, hc ▸ hb, hr⟩
          · next hslash =>
              split at hs
              · cases hs
              · next hcontrol =>
                  cases hs
                  exact Or.inr ⟨[.char c], _, l, rfl, by simp,
                    .plain ⟨Nat.le_of_not_lt hcontrol, hquote, hslash⟩, h⟩

/-- A string ends at the first quote that no escape covers. -/
theorem run_string {ps : List Piece} (h : run ⟨acc, .string ps .plain⟩ l = some ts) :
    ∃ b qs r, l = b ++ .char '"' :: r ∧ Pieces b qs ∧
      run ⟨.string (Piece.text? (ps.reverse ++ qs)) :: acc, .between⟩ r = some ts := by
  -- On the length, since an escape takes more than one symbol.
  induction hn : l.length using Nat.strongRecOn generalizing l ps with
  | ind n ih =>
      rcases run_plain h with ⟨r, rfl, hr⟩ | ⟨b₁, p, l, rfl, hne, hp, h⟩
      · exact ⟨[], [], r, rfl, .nil, by simpa using hr⟩
      · have hlt : l.length < n := by
          rw [← hn, List.length_append]
          have := List.length_pos_iff.mpr hne
          omega
        obtain ⟨b, qs, r, rfl, hb, hr⟩ := ih _ hlt h rfl
        refine ⟨b₁ ++ b, p :: qs, r, by rw [List.append_assoc], .cons hp hb, ?_⟩
        simpa using hr

theorem run_piece {ps : List Piece} {b : List Symbol} {p : Piece} (hp : IsPiece b p) :
    run ⟨acc, .string ps .plain⟩ (b ++ r) = run ⟨acc, .string (p :: ps) .plain⟩ r := by
  cases hp with
  | plain hc => simp [run_cons, step, inString, hc.2.1, hc.2.2, Nat.not_lt.mpr hc.1]
  | @short e c he =>
      have hu : e ≠ 'u' := by
        rintro rfl
        revert he
        simp [shortEscapes]
      simp [run_cons, step, inString, hu, shortEscape?_eq_some_iff.mpr he]
  | unit hu =>
      rw [← run_unit hu]
      simp [run_cons, step, inString]
  | stray => rfl

theorem run_string_append {ps qs : List Piece} {b : List Symbol} (hb : Pieces b qs) :
    run ⟨acc, .string ps .plain⟩ (b ++ .char '"' :: r) =
      run ⟨.string (Piece.text? (ps.reverse ++ qs)) :: acc, .between⟩ r := by
  induction hb generalizing ps with
  | nil =>
      rw [List.append_nil]
      rfl
  | cons hp _ ih =>
      rw [List.append_assoc, run_piece hp, ih, List.reverse_cons, List.append_assoc,
        List.singleton_append]

theorem text?_unique {b : List Symbol} {ps qs : List Piece} (hp : Pieces b ps)
    (hq : Pieces b qs) : Piece.text? ps = Piece.text? qs := by
  have hrun : ∀ us, Pieces b us → run ⟨[], .string [] .plain⟩ (b ++ [.char '"']) =
      some [.string (Piece.text? us)] := fun us hus => run_string_append hus
  simpa [hrun ps hp] using hrun qs hq

theorem lexeme_string {b : List Symbol} {ps : List Piece} (hb : Pieces b ps) :
    Lexeme (.string (Piece.text? ps)) (quoted b) := by
  cases hs : Piece.chars? ps with
  | some s =>
      obtain ⟨l, rfl, hl⟩ := exists_spells_iff.mpr ⟨ps, hb, hs⟩
      rw [Piece.text?, hs, Option.map_some]
      exact .string hl
  | none =>
      have hnone : Piece.text? ps = none := by rw [Piece.text?, hs, Option.map_none]
      rw [hnone]
      refine .textless hb fun l s hl he => ?_
      obtain ⟨qs, hq, hs⟩ := exists_spells_iff.mp ⟨l, rfl, hl⟩
      have ht := text?_unique hb (he ▸ hq)
      rw [hnone, Piece.text?, hs] at ht
      cases ht

/-- The pieces of a string lexeme have the text that the token keeps. -/
theorem exists_pieces_of_lexeme {v : Option String} (h : Lexeme (.string v) l) :
    ∃ b ps, l = quoted b ∧ Pieces b ps ∧ Piece.text? ps = v := by
  cases h with
  | fixed h => cases h
  | string hl =>
      obtain ⟨ps, hp, hs⟩ := exists_spells_iff.mp ⟨_, rfl, hl⟩
      exact ⟨_, ps, rfl, hp, by rw [Piece.text?, hs, Option.map_some]⟩
  | @textless b ps hb hno =>
      refine ⟨b, ps, rfl, hb, ?_⟩
      rw [Piece.text?, Option.map_eq_none_iff, Option.eq_none_iff_forall_ne_some]
      intro s hs
      obtain ⟨l, he, hl⟩ := exists_spells_iff.mpr ⟨ps, hb, hs⟩
      exact hno l s hl he

theorem start_of_start? {n : NumberScan} (h : NumberScan.start? c = some n) :
    start acc c = some ⟨acc, .number n⟩ := by
  have hblank : ¬ isBlank c := by
    simp only [isBlank, Bool.or_eq_true, decide_eq_true_eq]
    rintro (((rfl | rfl) | rfl) | rfl) <;> cases h
  have hquote : c ≠ '"' := by
    rintro rfl
    cases h
  have hmark : mark? c = none := by
    unfold mark?
    split <;> first | rfl | cases h
  have hword : word? c = none := by
    unfold word?
    split <;> first | rfl | cases h
  simp [start, hblank, hquote, hmark, hword, h]

/-- What is no white space begins a lexeme. -/
theorem run_lexeme (hc : ¬ isBlank c) (h : run ⟨acc, .between⟩ (.char c :: l) = some ts) :
    ∃ t w r, l = w ++ r ∧ Lexeme t (.char c :: w) ∧ run ⟨t :: acc, .between⟩ r = some ts := by
  rw [run_char_cons] at h
  obtain ⟨s, hs, h⟩ := Option.bind_eq_some_iff.mp h
  rw [start, if_neg hc] at hs
  split at hs
  · next hquote =>
      cases hs
      obtain ⟨b, qs, r, rfl, hb, hr⟩ := run_string h
      refine ⟨_, b ++ [.char '"'], r, by simp, ?_, hr⟩
      rw [hquote]
      exact lexeme_string hb
  · split at hs
    · next hmark =>
        cases hs
        exact ⟨_, [], l, rfl, .fixed (fixed?_of_mark? hmark), h⟩
    · next hword =>
        cases hs
        obtain ⟨hfixed, hne⟩ := fixed?_of_word? hword
        obtain ⟨r, rfl, hr⟩ := run_word hne h
        exact ⟨_, ofChars _, r, rfl, .fixed hfixed, hr⟩
    · next hstart =>
        cases hs
        obtain ⟨u, r, k, rfl, hu, hr⟩ := run_number h
        have hliteral : literal? (c :: u) = some k := by
          rw [literal?, hstart, Option.bind_some, hu]
        obtain ⟨v, rfl, hv⟩ := literal?_eq_some_iff.mp hliteral
        exact ⟨_, ofChars u, r, rfl, .number hv, hr⟩
    · cases hs

theorem run_lexeme_append (h : Lexeme t l) (hr : (∃ v, t = .number v) → Delimits r) :
    run ⟨acc, .between⟩ (l ++ r) = run ⟨t :: acc, .between⟩ r := by
  cases t with
  | number v =>
      cases h with
      | fixed h => cases h
      | @number u _ hv =>
          have hu : literal? u = some (.number v) := literal?_eq_some_iff.mpr ⟨v, rfl, hv⟩
          cases u with
          | nil => cases hu
          | cons c u =>
              obtain ⟨n, hn, hu⟩ := Option.bind_eq_some_iff.mp hu
              rw [ofChars_cons, List.cons_append, run_char_cons, start_of_start? hn,
                Option.bind_some, run_number_append hu (hr ⟨v, rfl⟩)]
  | string v =>
      obtain ⟨b, ps, rfl, hb, rfl⟩ := exists_pieces_of_lexeme h
      have hstart : start acc '"' = some ⟨acc, .string [] .plain⟩ := rfl
      rw [quoted, List.cons_append, run_char_cons, hstart, Option.bind_some, List.append_assoc,
        List.singleton_append, run_string_append hb, List.reverse_nil, List.nil_append]
  | _ =>
      cases h with
      | fixed h => exact run_fixed h

/-! ## Whole documents -/

theorem spelled_of_run (h : run ⟨acc, .between⟩ l = some ts) :
    ∃ us, ts = acc.reverse ++ us ∧ Spelled us l := by
  induction hn : l.length using Nat.strongRecOn generalizing acc l with
  | ind n ih =>
      match l with
      | [] =>
          cases h
          exact ⟨[], by simp, .nil isBlank_nil⟩
      | .stray _ :: l =>
          rw [run_stray_cons] at h
          cases h
      | .char c :: l =>
          by_cases hc : isBlank c
          · rw [run_blank_cons hc] at h
            obtain ⟨us, rfl, hl⟩ := ih l.length (by simp [← hn]) h rfl
            have hb : IsBlank [.char c] := isBlank_cons.mpr ⟨isBlank_char_iff.mp hc, isBlank_nil⟩
            exact ⟨us, rfl, hl.blank hb⟩
          · obtain ⟨t, w, r, rfl, ht, h⟩ := run_lexeme hc h
            have hlt : r.length < n := by
              rw [← hn, List.length_cons, List.length_append]
              omega
            obtain ⟨us, rfl, hr⟩ := ih _ hlt h rfl
            exact ⟨t :: us, by simp, hr.lexeme ht⟩

/-- One of any two neighbours is a mark, so that no two lexemes run together. -/
def Separated (ts : List Token) : Prop := ts.IsChain fun t u => t.isMark ∨ u.isMark

theorem delimits_of_blank {b : List Symbol} (hb : IsBlank b) (h : b = [] → Delimits r) :
    Delimits (b ++ r) := by
  cases b with
  | nil => exact h rfl
  | cons x b =>
      intro c l he
      obtain ⟨rfl, -⟩ := List.cons.inj he
      exact Or.inl (isBlank_char_iff.mpr (isBlank_cons.mp hb).1)

theorem mark?_of_lexeme (ht : t.isMark) (h : Lexeme t l) :
    ∃ c, l = [.char c] ∧ (mark? c).isSome = true := by
  cases h with
  | fixed h =>
      cases t with
      | null | bool _ | number _ | string _ => cases ht
      | _ =>
          cases h
          exact ⟨_, rfl, rfl⟩
  | _ => cases ht

theorem delimits_of_spelled (h : Spelled ts r) (hm : ∀ t ∈ ts.head?, t.isMark) : Delimits r := by
  cases h with
  | nil hb =>
      rw [← List.append_nil r]
      exact delimits_of_blank hb fun _ => nofun
  | cons hb hl _ =>
      rw [List.append_assoc]
      refine delimits_of_blank hb fun _ => ?_
      obtain ⟨c, rfl, hc⟩ := mark?_of_lexeme (hm _ rfl) hl
      intro d l he
      obtain ⟨hd, -⟩ := List.cons.inj he
      obtain rfl := Symbol.char.inj hd
      exact Or.inr hc

/-- A spelling is read as its tokens. -/
theorem run_of_spelled (h : Spelled ts l) (hs : Separated ts) :
    run ⟨acc, .between⟩ l = some (acc.reverse ++ ts) := by
  induction h generalizing acc with
  | @nil b hb =>
      rw [← List.append_nil b, run_blank hb, run_nil, finish?, List.append_nil]
  | @cons t ts b l r hb hl hr ih =>
      obtain ⟨hhead, htail⟩ := List.isChain_cons.mp hs
      have hnext : (∃ v, t = .number v) → Delimits r := by
        rintro ⟨v, rfl⟩
        exact delimits_of_spelled hr fun u hu => (hhead u hu).resolve_left (by simp [Token.isMark])
      rw [List.append_assoc, run_blank hb, run_lexeme_append hl hnext, ih htail]
      simp

/-- A document is scanned as separated tokens exactly when it spells them. -/
theorem scan?_eq_some_iff (hs : Separated ts) : scan? l = some ts ↔ Spelled ts l := by
  constructor
  · intro h
    have hrun : run ⟨[], .between⟩ l = some ts := h
    obtain ⟨us, rfl, hl⟩ := spelled_of_run hrun
    exact hl
  · intro h
    exact run_of_spelled h hs

end Scan

end EncoderSetup.Json

import EncoderSetup.Diagnostic.Flags
import EncoderSetup.Proofs.Text.Numerals
import Mathlib.Data.List.TakeWhile

/-!
# The texts that are debug words

`DebugFlags.Word` is the language of debug words with the number that each of them writes. The
reader accepts a text exactly where blanks stand around such a word and its number fits, and it
gives that number (`DebugFlags.parse?_accepts_exactly_words`).
-/

namespace EncoderSetup

namespace Blank

/-- White space only, the empty text with it. -/
def IsBlank (cs : List Char) : Prop := ∀ c ∈ cs, isBlank c = true

instance (cs : List Char) : Decidable (IsBlank cs) :=
  List.decidableBAll _ cs

/-- No white space. -/
def IsSolid (cs : List Char) : Prop := ∀ c ∈ cs, isBlank c = false

instance (cs : List Char) : Decidable (IsSolid cs) :=
  List.decidableBAll _ cs

theorem dropWhile_append_cons {p : Char → Bool} {x : Char} (hx : p x = false)
    (before after : List Char) :
    (before ++ x :: after).dropWhile p = before.dropWhile p ++ x :: after := by
  induction before with
  | nil => simp [hx]
  | cons c rest ih =>
      by_cases hc : p c = true
      · simp [hc, ih]
      · simp [hc]

theorem exists_trim (cs : List Char) :
    ∃ before after, cs = before ++ trim cs ++ after ∧ IsBlank before ∧ IsBlank after := by
  refine ⟨cs.takeWhile isBlank, ((cs.dropWhile isBlank).reverse.takeWhile isBlank).reverse, ?_,
    fun _ => List.mem_takeWhile_imp,
    fun _ hc => List.mem_takeWhile_imp (List.mem_reverse.mp hc)⟩
  rw [trim, List.append_assoc, ← List.reverse_append, List.takeWhile_append_dropWhile,
    List.reverse_reverse, List.takeWhile_append_dropWhile]

/-- What stands between two characters that are not blank is kept, they with it. -/
theorem trim_append_cons {x y : Char} (hx : isBlank x = false) (hy : isBlank y = false)
    (before inner after : List Char) : trim (before ++ x :: inner ++ y :: after) =
      before.dropWhile isBlank ++ x :: inner ++ y :: (after.reverse.dropWhile isBlank).reverse := by
  have hstart : (before ++ x :: inner ++ y :: after).dropWhile isBlank =
      before.dropWhile isBlank ++ x :: inner ++ y :: after := by
    rw [List.append_assoc, List.cons_append, dropWhile_append_cons hx, List.append_assoc,
      List.cons_append]
  rw [trim, hstart, List.reverse_append, List.reverse_cons, List.append_assoc,
    List.singleton_append, dropWhile_append_cons hy]
  simp

theorem dropWhile_eq_self {cs : List Char} (h : IsSolid cs) : cs.dropWhile isBlank = cs := by
  cases cs with
  | nil => rfl
  | cons c rest => exact List.dropWhile_cons_of_neg (by simp [h c List.mem_cons_self])

theorem trim_append {before word after : List Char} (hbefore : IsBlank before)
    (hword : IsSolid word) (hafter : IsBlank after) :
    trim (before ++ word ++ after) = word := by
  have hlast : word.reverse.dropWhile isBlank = word.reverse :=
    dropWhile_eq_self fun c hc => hword c (List.mem_reverse.mp hc)
  rw [trim, List.append_assoc, List.dropWhile_append_of_pos hbefore]
  cases word with
  | nil =>
      rw [List.nil_append, List.dropWhile_eq_nil_iff.mpr hafter]
      rfl
  | cons c rest =>
      rw [List.cons_append, List.dropWhile_cons_of_neg (by simp [hword c List.mem_cons_self]),
        ← List.cons_append, List.reverse_append, List.dropWhile_append_of_pos
        (fun _ h => hafter _ (List.mem_reverse.mp h)), hlast, List.reverse_reverse]

end Blank

namespace DebugFlags

open Numeral

/-- A debug word without blanks and the number that it writes. -/
inductive Word : List Char → Nat → Prop
  | decimal {t : List Char} {n : Nat} (h : WritesSigned 10 t n) : Word t n
  | hexadecimal {mark : Char} {t : List Char} {n : Nat} (hmark : mark = 'x' ∨ mark = 'X')
      (h : WritesSigned 16 t n) : Word ('0' :: mark :: t) n

variable {s : String} {f : DebugFlags} {t : List Char} {n : Nat}

theorem Word.mem (h : Word t n) {c : Char} (hc : c ∈ t) :
    c ∈ ['+', 'x', 'X'] ∨ ∃ d, IsDigit 16 c d := by
  cases h with
  | decimal h =>
      rcases h.mem hc with rfl | ⟨d, hd, hchar⟩
      · exact Or.inl (by decide)
      · exact Or.inr ⟨d, hd.trans (by decide), hchar⟩
  | hexadecimal hmark h =>
      rcases List.mem_cons.mp hc with rfl | hc
      · exact Or.inr ⟨0, by decide⟩
      · rcases List.mem_cons.mp hc with rfl | hc
        · rcases hmark with rfl | rfl <;> exact Or.inl (by decide)
        · rcases h.mem hc with rfl | hd
          · exact Or.inl (by decide)
          · exact Or.inr hd

theorem Word.plain_mem (h : Word t n) {c : Char} (hc : c ∈ t) :
    Blank.isBlank c = false ∧ c ≠ '-' := by
  rcases h.mem hc with hmem | ⟨d, hd, hdigit⟩
  · clear hc
    simp only [List.mem_cons, List.not_mem_nil, or_false] at hmem
    rcases hmem with rfl | rfl | rfl <;> decide
  · clear hc
    rcases hdigit with rfl | rfl <;> revert d <;> decide

theorem Word.isSolid (h : Word t n) : Blank.IsSolid t := fun _ hc => (h.plain_mem hc).1

/-- A decimal numeral has no mark of the other base. -/
theorem mark_not_mem {mark : Char} (hmark : mark = 'x' ∨ mark = 'X') (h : WritesSigned 10 t n) :
    mark ∉ t := by
  intro hmem
  rcases h.mem hmem with rfl | ⟨d, hd⟩
  · rcases hmark with h | h <;> cases h
  · rcases hmark with rfl | rfl <;> exact absurd hd (not_isDigit (by decide) rfl d)

theorem Word.of_mark {mark : Char} (hmark : mark = 'x' ∨ mark = 'X')
    (h : Word ('0' :: mark :: t) n) : WritesSigned 16 t n := by
  cases h with
  | hexadecimal _ h => exact h
  | decimal h => exact absurd (List.mem_cons_of_mem _ List.mem_cons_self) (mark_not_mem hmark h)

theorem numeral?_eq_some_iff : numeral? s = some n ↔ Word (Blank.trim s.toList) n := by
  unfold numeral?
  split
  · next digits heq =>
      rw [heq, signed?_eq_some_iff (by decide)]
      exact ⟨.hexadecimal (Or.inl rfl), Word.of_mark (Or.inl rfl)⟩
  · next digits heq =>
      rw [heq, signed?_eq_some_iff (by decide)]
      exact ⟨.hexadecimal (Or.inr rfl), Word.of_mark (Or.inr rfl)⟩
  · next hlower hupper =>
      rw [signed?_eq_some_iff (by decide)]
      refine ⟨.decimal, fun h => ?_⟩
      generalize Blank.trim s.toList = t at *
      cases h with
      | decimal h => exact h
      | hexadecimal hmark h =>
          rcases hmark with rfl | rfl
          · exact absurd rfl (hlower _)
          · exact absurd rfl (hupper _)

theorem parse?_eq_some_iff : parse? s = some f ↔ numeral? s = some f.bits.toNat := by
  rw [parse?, Option.bind_eq_some_iff]
  constructor
  · rintro ⟨n, hn, h⟩
    split at h
    · next hfits =>
        obtain rfl := Option.some.inj h
        have hbits : (UInt32.ofNat n).toNat = n := UInt32.toNat_ofNat_of_lt hfits
        rw [hbits, hn]
    · cases h
  · intro h
    exact ⟨_, h, by rw [if_pos f.bits.toNat_lt, UInt32.ofNat_toNat]⟩

theorem parse?_eq_some_iff_word : parse? s = some f ↔ ∃ before word after,
    s.toList = before ++ word ++ after ∧ Blank.IsBlank before ∧ Blank.IsBlank after ∧
      Word word f.bits.toNat := by
  rw [parse?_eq_some_iff, numeral?_eq_some_iff]
  constructor
  · intro h
    obtain ⟨before, after, hs, hbefore, hafter⟩ := Blank.exists_trim s.toList
    exact ⟨before, _, after, hs, hbefore, hafter, h⟩
  · rintro ⟨before, word, after, hs, hbefore, hafter, h⟩
    rwa [hs, Blank.trim_append hbefore h.isSolid hafter]

theorem parse?_eq_none (h : ∀ n, ¬ Word (Blank.trim s.toList) n) : parse? s = none := by
  by_contra hne
  obtain ⟨f, hf⟩ := Option.ne_none_iff_exists'.mp hne
  exact h _ (numeral?_eq_some_iff.mp (parse?_eq_some_iff.mp hf))

/-- A word between blanks is read as the number that it writes. -/
theorem parse?_of_word {before word after : List Char} {w : UInt32} (h : Word word w.toNat)
    (hbefore : Blank.IsBlank before) (hafter : Blank.IsBlank after) :
    parse? (.ofList (before ++ word ++ after)) = some ⟨w⟩ :=
  parse?_eq_some_iff_word.mpr ⟨before, word, after, String.toList_ofList, hbefore, hafter, h⟩

theorem parse?_eq_none_of_minus (h : '-' ∈ s.toList) : parse? s = none := by
  by_contra hne
  obtain ⟨f, hf⟩ := Option.ne_none_iff_exists'.mp hne
  obtain ⟨before, word, after, hs, hbefore, hafter, hword⟩ := parse?_eq_some_iff_word.mp hf
  rw [hs, List.mem_append, List.mem_append] at h
  rcases h with (h | h) | h
  · exact absurd (hbefore _ h) (by decide)
  · exact (hword.plain_mem h).2 rfl
  · exact absurd (hafter _ h) (by decide)

theorem parse?_eq_none_of_inner_blank {before inner after : List Char} {x y c : Char}
    (hs : s.toList = before ++ x :: inner ++ y :: after) (hx : Blank.isBlank x = false)
    (hy : Blank.isBlank y = false) (hc : c ∈ inner) (hblank : Blank.isBlank c = true) :
    parse? s = none := by
  refine parse?_eq_none fun n hword => ?_
  rw [hs, Blank.trim_append_cons hx hy] at hword
  have hsolid := hword.isSolid c (by simp [hc])
  rw [hsolid] at hblank
  cases hblank

theorem parse?_eq_none_of_sign_before_mark {before rest : List Char} {sign mark : Char}
    (hs : s.toList = before ++ sign :: '0' :: mark :: rest) (hbefore : Blank.IsBlank before)
    (hsign : sign ∈ ['+', '-']) (hmark : mark ∈ ['x', 'X']) : parse? s = none := by
  refine parse?_eq_none fun n hword => ?_
  have hsigns : Blank.IsSolid ['+', '-'] := by decide
  have hmarks : Blank.IsSolid ['x', 'X'] := by decide
  have htrim := Blank.trim_append_cons (hsigns sign hsign) (hmarks mark hmark) before ['0'] rest
  rw [Blank.IsBlank, ← List.dropWhile_eq_nil_iff] at hbefore
  rw [hbefore] at htrim
  rw [hs, show before ++ sign :: '0' :: mark :: rest = before ++ sign :: ['0'] ++ mark :: rest by
    simp, htrim] at hword
  generalize (rest.reverse.dropWhile Blank.isBlank).reverse = rest' at hword
  cases hword with
  | hexadecimal _ h => simp at hsign
  | decimal h => exact mark_not_mem (List.mem_pair.mp hmark) h (by simp)

theorem parse?_eq_none_of_no_digits {before word after : List Char}
    (hs : s.toList = before ++ word ++ after) (hbefore : Blank.IsBlank before)
    (hafter : Blank.IsBlank after)
    (hword : word ∈ [[], ['+'], ['0', 'x'], ['0', 'X'], ['0', 'x', '+'], ['0', 'X', '+']]) :
    parse? s = none := by
  simp only [List.mem_cons, List.not_mem_nil, or_false] at hword
  have hsolid : Blank.IsSolid word := by
    rcases hword with rfl | rfl | rfl | rfl | rfl | rfl <;> decide
  have htrim : Blank.trim s.toList = word := by rw [hs, Blank.trim_append hbefore hsolid hafter]
  rw [parse?, numeral?, htrim]
  rcases hword with rfl | rfl | rfl | rfl | rfl | rfl <;> rfl

/-- Accepted is exactly a word between blanks whose number fits in 32 bits, with this number. The
printed forms of every number are words, whatever number of zeros leads them; a minus, a blank
between other characters, a sign before the mark of the base and a missing digit string are
refused. -/
theorem parse?_accepts_exactly_words :
    (∀ (s : String) (f : DebugFlags), parse? s = some f ↔ ∃ before word after n,
      s.toList = before ++ word ++ after ∧ Blank.IsBlank before ∧ Blank.IsBlank after ∧
        Word word n ∧ n ≤ 0xffffffff ∧ f.bits.toNat = n) ∧
    (∀ (w : UInt32) (zeros : Nat) (before after : List Char),
      Blank.IsBlank before → Blank.IsBlank after →
        parse? (.ofList (before ++ (List.replicate zeros '0' ++ (toString w.toNat).toList) ++
          after)) = some ⟨w⟩ ∧
        ∀ mark ∈ ['x', 'X'],
          ∀ digits ∈ [(hex w.toNat).toList, (hex w.toNat).toList.map Char.toUpper],
            parse? (.ofList (before ++ ('0' :: mark :: (List.replicate zeros '0' ++ digits)) ++
              after)) = some ⟨w⟩) ∧
    (∀ s : String, '-' ∈ s.toList → parse? s = none) ∧
    (∀ (s : String) (before inner after : List Char) (x c y : Char),
      s.toList = before ++ x :: inner ++ y :: after → Blank.isBlank x = false →
        Blank.isBlank y = false → c ∈ inner → Blank.isBlank c = true → parse? s = none) ∧
    (∀ (s : String) (before rest : List Char) (sign mark : Char),
      s.toList = before ++ sign :: '0' :: mark :: rest → Blank.IsBlank before →
        sign ∈ ['+', '-'] → mark ∈ ['x', 'X'] → parse? s = none) ∧
    (∀ (s : String) (before word after : List Char),
      s.toList = before ++ word ++ after → Blank.IsBlank before → Blank.IsBlank after →
        word ∈ [[], ['+'], ['0', 'x'], ['0', 'X'], ['0', 'x', '+'], ['0', 'X', '+']] →
          parse? s = none) := by
  refine ⟨fun s f => ?_, fun w zeros before after hbefore hafter => ⟨?_, ?_⟩,
    fun s => parse?_eq_none_of_minus,
    fun s before inner after x c y => parse?_eq_none_of_inner_blank,
    fun s before rest sign mark => parse?_eq_none_of_sign_before_mark,
    fun s before word after => parse?_eq_none_of_no_digits⟩
  · rw [parse?_eq_some_iff_word]
    constructor
    · rintro ⟨before, word, after, hs, hbefore, hafter, hword⟩
      exact ⟨before, word, after, _, hs, hbefore, hafter, hword,
        Nat.le_of_lt_succ f.bits.toNat_lt, rfl⟩
    · rintro ⟨before, word, after, _, hs, hbefore, hafter, hword, -, rfl⟩
      exact ⟨before, word, after, hs, hbefore, hafter, hword⟩
  · have hdigits : (toString w.toNat).toList = Nat.toDigits 10 w.toNat := by
      rw [Nat.toString_eq_repr, Nat.repr_eq_ofList_toDigits, String.toList_ofList]
    have hwrites : Writes 10 (Nat.toDigits 10 w.toNat) w.toNat :=
      writes_toDigits (by decide) w.toNat
    rw [hdigits]
    exact parse?_of_word (.decimal (.plain (hwrites.zeros (by decide) zeros))) hbefore hafter
  · intro mark hmark digits hdigits
    have hprinted : Writes 16 digits w.toNat := by
      have h : Writes 16 (Nat.toDigits 16 w.toNat) w.toNat := writes_toDigits (by decide) w.toNat
      rw [hex, String.toList_ofList, List.mem_pair] at hdigits
      rcases hdigits with rfl | rfl
      · exact h
      · exact h.toUpper (by decide)
    exact parse?_of_word (.hexadecimal (List.mem_pair.mp hmark)
      (.plain (hprinted.zeros (by decide) zeros))) hbefore hafter

theorem parse?_padded_words :
    parse? "\u2003 0X+00fF\t" = some ⟨255⟩ ∧ parse? " 004294967295\n" = some ⟨0xffffffff⟩ ∧
      parse? "-1" = none ∧ parse? "1 2" = none ∧ parse? "+0x1" = none ∧ parse? " 0x+ " = none := by
  obtain ⟨hword, hprinted, hminus, hinner, hsign, hempty⟩ := parse?_accepts_exactly_words
  refine ⟨(hword _ _).mpr ⟨['\u2003', ' '], ['0', 'X', '+', '0', '0', 'f', 'F'], ['\t'], 255,
    by decide, by decide, by decide, .hexadecimal (Or.inr rfl) (.plus ?_), by decide, rfl⟩,
    (hprinted 0xffffffff 2 [' '] ['\n'] (by decide) (by decide)).1, hminus _ (by decide),
    hinner _ [] [' '] [] '1' ' ' '2' (by decide) (by decide) (by decide) (by decide) (by decide),
    hsign _ [] ['1'] '+' 'x' (by decide) (by decide) (by decide) (by decide),
    hempty _ [' '] ['0', 'x', '+'] [' '] (by decide) (by decide) (by decide) (by decide)⟩
  exact (natural?_eq_some_iff (by decide)).mp rfl

end DebugFlags

end EncoderSetup

import EncoderSetup.Proofs.Json.Grammar
import Mathlib.Data.List.Infix

/-!
# Bytes as symbols

`Symbol.Decodes bytes l` says what the symbols of a byte sequence are, read from the left: a
character where its encoding comes, and a stray byte where no encoding does. The decoder gives
exactly these symbols (`Symbol.ofBytes_eq_iff`), so that the bytes of a text give its characters and
bytes that encode no text have a stray one among them. In the spelling of a value a stray byte
stands within a string that has no text (`Spelled.exists_string`).
-/

namespace EncoderSetup.Json

namespace Symbol

open String (utf8EncodeChar)

/-- The bytes that a symbol stands for. -/
def bytes : Symbol → List UInt8
  | char c => utf8EncodeChar c
  | stray b => [b]

inductive Decodes : List UInt8 → List Symbol → Prop where
  | nil : Decodes [] []
  | char {c : Char} {r : List UInt8} {l : List Symbol} : Decodes r l →
      Decodes (utf8EncodeChar c ++ r) (.char c :: l)
  | stray {b : UInt8} {r : List UInt8} {l : List Symbol} :
      (∀ c, ¬ utf8EncodeChar c <+: b :: r) → Decodes r l → Decodes (b :: r) (.stray b :: l)

theorem Decodes.bytes_eq {b : List UInt8} {l : List Symbol} (h : Decodes b l) :
    b = l.flatMap bytes := by
  induction h with
  | nil => rfl
  | char _ ih => rw [List.flatMap_cons, ← ih, bytes]
  | stray _ _ ih => rw [List.flatMap_cons, ← ih, bytes, List.singleton_append]

/-- An encoding has at most four bytes, so that these decide whether one comes first. -/
theorem utf8DecodeChar?_eq_some_iff {b : UInt8} {r : List UInt8} {c : Char} :
    (b :: r.take 3).toByteArray.utf8DecodeChar? 0 = some c ↔ utf8EncodeChar c <+: b :: r := by
  have hfour : utf8EncodeChar c <+: b :: r ↔ utf8EncodeChar c <+: b :: r.take 3 := by
    have hlength : (utf8EncodeChar c).length ≤ 4 := by
      rw [String.length_utf8EncodeChar]
      exact c.utf8Size_le_four
    rw [← List.take_succ_cons, List.prefix_take_iff, and_iff_left hlength]
  rw [hfour]
  constructor
  · intro h
    have hsplit := ByteArray.eq_of_utf8DecodeChar?_eq_some h
    have hlist := congrArg (·.data.toList) hsplit
    simp only [ByteArray.data_append, List.data_toByteArray, Array.toList_append] at hlist
    exact ⟨_, hlist.symm⟩
  · rintro ⟨rest, hrest⟩
    rw [← hrest, List.toByteArray_append, ByteArray.utf8DecodeChar?_utf8EncodeChar_append]

theorem decode_eq (n : Nat) (b : List UInt8) : decode n b = decode 0 (b.drop n) := by
  induction n generalizing b with
  | zero => rfl
  | succ n ih =>
      cases b with
      | nil => rfl
      | cons x r => exact ih r

theorem ofBytes_encoded {c : Char} (r : List UInt8) :
    ofBytes (utf8EncodeChar c ++ r) = .char c :: ofBytes r := by
  cases h : utf8EncodeChar c with
  | nil =>
      have hlength := String.length_utf8EncodeChar c
      rw [h] at hlength
      exact absurd hlength.symm c.utf8Size_pos.ne'
  | cons x t =>
      have hdecode : (x :: (t ++ r).take 3).toByteArray.utf8DecodeChar? 0 = some c :=
        utf8DecodeChar?_eq_some_iff.mpr (h ▸ List.prefix_append _ _)
      have hlength : c.utf8Size - 1 = t.length := by
        rw [← String.length_utf8EncodeChar, h, List.length_cons, Nat.add_sub_cancel]
      rw [List.cons_append, ofBytes, decode]
      simp only [hdecode]
      rw [hlength, decode_eq, List.drop_left, ofBytes]

theorem ofBytes_unencoded {b : UInt8} {r : List UInt8}
    (h : ∀ c, ¬ utf8EncodeChar c <+: b :: r) : ofBytes (b :: r) = .stray b :: ofBytes r := by
  have hdecode : (b :: r.take 3).toByteArray.utf8DecodeChar? 0 = none :=
    Option.eq_none_iff_forall_ne_some.mpr fun c hc => h c (utf8DecodeChar?_eq_some_iff.mp hc)
  rw [ofBytes, decode]
  simp only [hdecode]
  rfl

theorem decodes_ofBytes (b : List UInt8) : Decodes b (ofBytes b) := by
  induction hn : b.length using Nat.strongRecOn generalizing b with
  | ind n ih =>
      cases b with
      | nil => exact .nil
      | cons x r =>
          by_cases h : ∃ c, utf8EncodeChar c <+: x :: r
          · obtain ⟨c, rest, hrest⟩ := h
            have hlt : rest.length < n := by
              have := congrArg List.length hrest
              rw [List.length_append, String.length_utf8EncodeChar, hn] at this
              have := c.utf8Size_pos
              omega
            rw [← hrest, ofBytes_encoded]
            exact .char (ih _ hlt rest rfl)
          · have hnot := not_exists.mp h
            have hlt : r.length < n := by
              rw [← hn, List.length_cons]
              omega
            rw [ofBytes_unencoded hnot]
            exact .stray hnot (ih _ hlt r rfl)

/-- The decoder gives the symbols of a byte sequence, and a sequence has no others. -/
theorem ofBytes_eq_iff {b : List UInt8} {l : List Symbol} : ofBytes b = l ↔ Decodes b l := by
  constructor
  · rintro rfl
    exact decodes_ofBytes b
  · intro h
    induction h with
    | nil => rfl
    | char _ ih => rw [ofBytes_encoded, ih]
    | stray hnot _ ih => rw [ofBytes_unencoded hnot, ih]

theorem decodes_flatMap (t : List Char) : Decodes (t.flatMap utf8EncodeChar) (t.map .char) := by
  induction t with
  | nil => exact .nil
  | cons c t ih => exact .char ih

/-- The bytes of a text are read as the text. -/
theorem ofBytes_of_eq_toUTF8 {b : List UInt8} {s : String} (h : b.toByteArray = s.toUTF8) :
    ofBytes b = ofText s := by
  have hchars : (s.toList.flatMap utf8EncodeChar).toByteArray = s.toUTF8 :=
    String.utf8Encode_toList
  rw [List.toByteArray_inj.mp (h.trans hchars.symm)]
  exact ofBytes_eq_iff.mpr (decodes_flatMap s.toList)

theorem exists_eq_map_char {l : List Symbol} (h : ∀ b, .stray b ∉ l) :
    ∃ t : List Char, l = t.map .char := by
  induction l with
  | nil => exact ⟨[], rfl⟩
  | cons x l ih =>
      obtain ⟨t, rfl⟩ := ih fun b hb => h b (List.mem_cons_of_mem x hb)
      cases x with
      | char c => exact ⟨c :: t, rfl⟩
      | stray b => exact absurd List.mem_cons_self (h b)

/-- Bytes that are not those of a text have a stray one among them. -/
theorem exists_stray_of_ne_toUTF8 {b : List UInt8} (h : ∀ s : String, b.toByteArray ≠ s.toUTF8) :
    ∃ x, .stray x ∈ ofBytes b := by
  by_contra hno
  obtain ⟨t, ht⟩ := exists_eq_map_char (not_exists.mp hno)
  have hb : b = t.flatMap utf8EncodeChar := by
    rw [(decodes_ofBytes b).bytes_eq, ht, List.flatMap_map]
    rfl
  refine h (String.ofList t) ?_
  rw [hb]
  exact String.toByteArray_ofList.symm

end Symbol

open EncoderSetup.Json.Symbol

/-- The first list of an append holds an element, or the second one does. -/
theorem append_eq_append_cons {α : Type} {l r before after : List α} {a : α}
    (h : l ++ r = before ++ a :: after) :
    (∃ m, l = before ++ a :: m ∧ after = m ++ r) ∨ ∃ m, before = l ++ m ∧ r = m ++ a :: after := by
  rcases List.append_eq_append_iff.mp h with ⟨m, hbefore, hr⟩ | ⟨m, hl, hm⟩
  · exact Or.inr ⟨m, hbefore, hr⟩
  · cases m with
    | nil => exact Or.inr ⟨[], by simpa using hl.symm, hm.symm⟩
    | cons b m =>
        obtain ⟨rfl, hafter⟩ := List.cons.inj hm
        exact Or.inl ⟨m, hl, hafter⟩

theorem stray_notMem_ofChars (b : UInt8) (t : List Char) : .stray b ∉ ofChars t := by
  simp [ofChars]

theorem stray_notMem_blank {b : UInt8} {l : List Symbol} (h : IsBlank l) : .stray b ∉ l :=
  fun hb => stray_notMem_ofChars b _ (h _ hb)

/-- No lexeme but a string without a text has a stray byte. -/
theorem eq_string_none_of_stray_mem {t : Token} {b : UInt8} {l : List Symbol} (h : Lexeme t l)
    (hb : .stray b ∈ l) : t = .string none := by
  cases h with
  | fixed _ => exact absurd hb (stray_notMem_ofChars b _)
  | number _ => exact absurd hb (stray_notMem_ofChars b _)
  | @string t _ _ =>
      have hquoted : .stray b ∈ ofChars ('"' :: (t ++ ['"'])) := by
        simpa [quoted] using hb
      exact absurd hquoted (stray_notMem_ofChars b _)
  | textless _ _ => rfl

/-- Before and after the string that a stray byte stands in, the other tokens are spelled. -/
theorem Spelled.exists_string {ts : List Token} {l₁ l₂ : List Symbol} {b : UInt8}
    (h : Spelled ts (l₁ ++ .stray b :: l₂)) :
    ∃ before after v₁ q₁ q₂ v₂, ts = before ++ .string none :: after ∧
      l₁ = v₁ ++ q₁ ∧ l₂ = q₂ ++ v₂ ∧ Spelled before v₁ ∧
      Lexeme (.string none) (q₁ ++ .stray b :: q₂) ∧ Spelled after v₂ := by
  generalize hl : l₁ ++ .stray b :: l₂ = l at h
  induction h generalizing l₁ with
  | nil hblank =>
      rw [← hl] at hblank
      exact absurd (List.mem_append_right l₁ List.mem_cons_self) (stray_notMem_blank hblank)
  | @cons t ts r w rest hblank hw hrest ih =>
      rcases append_eq_append_cons hl.symm with ⟨m, hhead, rfl⟩ | ⟨m, rfl, htail⟩
      · rcases append_eq_append_cons hhead with ⟨_, rfl, -⟩ | ⟨q₁, rfl, rfl⟩
        · exact absurd (List.mem_append_right l₁ List.mem_cons_self) (stray_notMem_blank hblank)
        · obtain rfl := eq_string_none_of_stray_mem hw (List.mem_append_right q₁ List.mem_cons_self)
          exact ⟨[], ts, r, q₁, m, rest, rfl, rfl, rfl, .nil hblank, hw, hrest⟩
      · obtain ⟨before, after, v₁, q₁, q₂, v₂, rfl, rfl, rfl, hbefore, hstring, hafter⟩ :=
          ih htail.symm
        exact ⟨t :: before, after, r ++ w ++ v₁, q₁, q₂, v₂, rfl, (List.append_assoc _ _ _).symm,
          rfl, .cons hblank hw hbefore, hstring, hafter⟩

end EncoderSetup.Json

import EncoderSetup.Proofs.Json.Decoding
import EncoderSetup.Proofs.Json.Nesting
import EncoderSetup.Proofs.Json.Records

/-!
# What a reader skips

A record skips the values of fields that it does not know, so that a string there need not have a
text. `Shape` says where a reader finds records, and `Skipped` which strings of a value stand within
a skipped one. A reader that accepts a value has read every other string in it, and each has a text
(`Legible`); this passes from the fields of a record and the entries of a map to the whole.
-/

namespace EncoderSetup.Json

open EncoderSetup.Json.Symbol

/-- How the tokens of a container are made of those of its parts: a head and a value for each. -/
structure Container (α : Type) where
  opening : Token
  head : α → List Token
  value : α → Json
  closing : Token

def elementsOf : Container Json := ⟨.openArray, fun _ => [], id, .closeArray⟩

def membersOf : Container Member :=
  ⟨.openObject, fun m => [.string m.1, .colon], Prod.snd, .closeObject⟩

namespace Container

variable {α : Type} (c : Container α)

def part (a : α) : List Token := c.head a ++ tokens (c.value a)

/-- The tokens between the opening one and the value of a part, after these other parts. -/
def lead (l : List α) (a : α) : List Token := l.flatMap (fun b => c.part b ++ [.comma]) ++ c.head a

/-- The tokens up to the value of a part, after these other parts. -/
def upTo (l : List α) (a : α) : List Token := c.opening :: c.lead l a

/-- The tokens past the value of a part, before these other parts. -/
def past : List α → List Token
  | [] => [c.closing]
  | b :: rest => .comma :: (c.part b ++ past rest)

/-- The tokens of the whole container. -/
def all : List α → List Token
  | [] => [c.opening, c.closing]
  | a :: rest => c.opening :: (c.part a ++ c.past rest)

variable {c} {l : List α} {before after : List Token}

theorem value_or_rest_of_part {a : α} {r : List Token} (hhead : .string none ∉ c.head a)
    (h : c.part a ++ r = before ++ .string none :: after) :
    (∃ before' after', tokens (c.value a) = before' ++ .string none :: after' ∧
      before = c.head a ++ before' ∧ after = after' ++ r) ∨
      ∃ m, before = c.part a ++ m ∧ r = m ++ .string none :: after := by
  rw [part, List.append_assoc] at h
  rcases append_eq_append_cons h with ⟨m, hm, -⟩ | ⟨m, rfl, hrest⟩
  · rw [hm] at hhead
    exact absurd (List.mem_append_right before List.mem_cons_self) hhead
  · rcases append_eq_append_cons hrest with ⟨m', hvalue, hafter⟩ | ⟨m', rfl, hr⟩
    · exact Or.inl ⟨m, m', hvalue, rfl, hafter⟩
    · exact Or.inr ⟨m', (List.append_assoc _ _ _).symm, hr⟩

theorem exists_part_of_parts {a : α} (hclosing : c.closing ≠ .string none)
    (hhead : ∀ b ∈ a :: l, .string none ∉ c.head b)
    (h : c.part a ++ c.past l = before ++ .string none :: after) :
    ∃ l₁ b l₂ before' after', a :: l = l₁ ++ b :: l₂ ∧
      tokens (c.value b) = before' ++ .string none :: after' ∧
      before = c.lead l₁ b ++ before' ∧ after = after' ++ c.past l₂ := by
  induction l generalizing a before with
  | nil =>
      obtain ⟨before', after', hvalue, rfl, rfl⟩ | ⟨m, -, hr⟩ :=
        value_or_rest_of_part (hhead a List.mem_cons_self) h
      · exact ⟨[], a, [], before', after', rfl, hvalue, rfl, rfl⟩
      · obtain ⟨rfl, hc⟩ | ⟨_, _, hm⟩ := List.cons_eq_append_iff.mp hr
        · exact absurd (List.cons.inj hc).1.symm hclosing
        · cases (List.append_eq_nil_iff.mp hm.symm).2
  | cons d l ih =>
      obtain ⟨ha, htail⟩ := List.forall_mem_cons.mp hhead
      obtain ⟨before', after', hvalue, rfl, rfl⟩ | ⟨m, rfl, hr⟩ := value_or_rest_of_part ha h
      · exact ⟨[], a, d :: l, before', after', rfl, hvalue, rfl, rfl⟩
      · obtain ⟨-, hc⟩ | ⟨m, rfl, hparts⟩ := List.cons_eq_append_iff.mp hr
        · cases (List.cons.inj hc).1
        · obtain ⟨l₁, b, l₂, before', after', hl, hvalue, rfl, rfl⟩ := ih htail hparts
          refine ⟨a :: l₁, b, l₂, before', after', by rw [hl, List.cons_append], hvalue, ?_, rfl⟩
          simp [lead]

/-- A string without a text that is no head stands in the value of a part. -/
theorem exists_part_of_all (hopening : c.opening ≠ .string none)
    (hclosing : c.closing ≠ .string none) (hhead : ∀ a ∈ l, .string none ∉ c.head a)
    (h : c.all l = before ++ .string none :: after) :
    ∃ l₁ a l₂ before' after', l = l₁ ++ a :: l₂ ∧
      tokens (c.value a) = before' ++ .string none :: after' ∧
      before = c.upTo l₁ a ++ before' ∧ after = after' ++ c.past l₂ := by
  cases l with
  | nil =>
      have hmem : Token.string none ∈ c.all [] := h ▸ List.mem_append_right _ List.mem_cons_self
      simp only [all, List.mem_cons, List.not_mem_nil, or_false] at hmem
      exact (hmem.elim hopening.symm hclosing.symm).elim
  | cons a rest =>
      obtain ⟨-, hc⟩ | ⟨m, rfl, hparts⟩ := List.cons_eq_append_iff.mp h
      · exact absurd (List.cons.inj hc).1.symm hopening
      · obtain ⟨l₁, b, l₂, before', after', hl, hvalue, rfl, rfl⟩ :=
          exists_part_of_parts hclosing hhead hparts
        exact ⟨l₁, b, l₂, before', after', hl, hvalue, rfl, rfl⟩

end Container

theorem tokens_array (elements : List Json) :
    tokens (.array elements) = elementsOf.all elements := by
  have hrest (j : Json) (rest : List Json) :
      elementTokens (j :: rest) ++ [.closeArray] = tokens j ++ elementsOf.past rest := by
    induction rest generalizing j with
    | nil => rfl
    | cons e rest ih =>
        rw [elementTokens_cons_cons, List.append_assoc, ih, commaAfterElement, List.append_assoc]
        rfl
  cases elements with
  | nil => rfl
  | cons j rest =>
      rw [tokens, hrest]
      rfl

theorem tokens_object (members : List Member) :
    tokens (.object members) = membersOf.all members := by
  have hrest (m : Member) (rest : List Member) :
      memberTokens (m :: rest) ++ [.closeObject] = membersOf.part m ++ membersOf.past rest := by
    induction rest generalizing m with
    | nil => rfl
    | cons d rest ih =>
        rw [memberTokens_cons_cons, List.append_assoc, ih, commaAfterMember]
        simp [Container.past, Container.part, membersOf]
  cases members with
  | nil => rfl
  | cons m rest =>
      rw [tokens, hrest]
      rfl

theorem string_none_notMem_array {elements : List Json}
    (h : ∀ j ∈ elements, .string none ∉ tokens j) : .string none ∉ tokens (.array elements) := by
  intro hmem
  obtain ⟨before, after, htokens⟩ := List.append_of_mem hmem
  rw [tokens_array] at htokens
  obtain ⟨l₁, j, l₂, before', after', rfl, hvalue, -⟩ :=
    Container.exists_part_of_all (by simp [elementsOf]) (by simp [elementsOf])
      (by simp [elementsOf]) htokens
  have hj : .string none ∉ tokens j := h j (List.mem_append_right l₁ List.mem_cons_self)
  exact hj (hvalue ▸ List.mem_append_right before' List.mem_cons_self)

/-- What a reader expects: where it looks for a record, and of which fields. -/
inductive Shape where
  /-- A value that is read whole. -/
  | plain
  | nullable (s : Shape)
  | map (s : Shape)
  | record (fields : List (String × Shape))

/-- Between these tokens of a value stands a string within the value of a field that a record does
not know. The record is the value itself or stands further in: in a known field, whether the record
around it is an object or an array of its fields in order, or in an entry of a map. -/
inductive Skipped : Shape → Json → List Token → List Token → Prop where
  | unknown {fields : List (String × Shape)} {l₁ l₂ : List Member} {name : String} {u : Json}
      {text : Option String} {before after : List Token} : (∀ f ∈ fields, f.1 ≠ name) →
      tokens u = before ++ .string text :: after →
      Skipped (.record fields) (.object (l₁ ++ (some name, u) :: l₂))
        (membersOf.upTo l₁ (some name, u) ++ before) (after ++ membersOf.past l₂)
  | field {fields : List (String × Shape)} {l₁ l₂ : List Member} {f : String × Shape} {j : Json}
      {before after : List Token} : f ∈ fields → Skipped f.2 j before after →
      Skipped (.record fields) (.object (l₁ ++ (some f.1, j) :: l₂))
        (membersOf.upTo l₁ (some f.1, j) ++ before) (after ++ membersOf.past l₂)
  | place {fields : List (String × Shape)} {l₁ l₂ : List Json} {f : String × Shape} {j : Json}
      {before after : List Token} : fields[l₁.length]? = some f → Skipped f.2 j before after →
      Skipped (.record fields) (.array (l₁ ++ j :: l₂)) (elementsOf.upTo l₁ j ++ before)
        (after ++ elementsOf.past l₂)
  | entry {s : Shape} {l₁ l₂ : List Member} {m : Member} {before after : List Token} :
      Skipped s m.2 before after →
      Skipped (.map s) (.object (l₁ ++ m :: l₂)) (membersOf.upTo l₁ m ++ before)
        (after ++ membersOf.past l₂)
  | present {s : Shape} {j : Json} {before after : List Token} : Skipped s j before after →
      Skipped (.nullable s) j before after

/-- Every string of a value has a text, unless it is skipped. -/
def Legible (s : Shape) (j : Json) : Prop :=
  ∀ before after, tokens j = before ++ .string none :: after → Skipped s j before after

theorem legible_of_notMem {s : Shape} {j : Json} (h : .string none ∉ tokens j) : Legible s j := by
  intro before after hj
  rw [hj] at h
  exact absurd (List.mem_append_right before List.mem_cons_self) h

/-- Without a record nothing is skipped. -/
theorem Legible.notMem_of_map_plain {j : Json} (h : Legible (.map .plain) j) :
    .string none ∉ tokens j := by
  intro hmem
  obtain ⟨before, after, hj⟩ := List.append_of_mem hmem
  cases h before after hj with
  | entry hs => cases hs

/-- Every byte of the value that no character accounts for stands within a skipped string; the
tokens before and after that string spell what is before and after it. -/
def StraysSkipped (s : Shape) (j : Json) (bytes : List UInt8) : Prop :=
  ∀ l₁ x l₂, Decodes bytes (l₁ ++ .stray x :: l₂) →
    ∃ before after v₁ q₁ q₂ v₂, tokens j = before ++ .string none :: after ∧
      Skipped s j before after ∧ l₁ = v₁ ++ q₁ ∧ l₂ = q₂ ++ v₂ ∧ Spelled before v₁ ∧
      Lexeme (.string none) (q₁ ++ .stray x :: q₂) ∧ Spelled after v₂

theorem spelled_of_ofBytes? {bytes : List UInt8} {j : Json} (h : ofBytes? bytes = some j) :
    Spelled (tokens j) (ofBytes bytes) := ofSymbols?_eq_some_iff.mp h

theorem Legible.straysSkipped {s : Shape} {j : Json} {bytes : List UInt8} (hj : Legible s j)
    (h : ofBytes? bytes = some j) : StraysSkipped s j bytes := by
  intro l₁ x l₂ hdecodes
  have hspelled := spelled_of_ofBytes? h
  rw [ofBytes_eq_iff.mpr hdecodes] at hspelled
  obtain ⟨before, after, v₁, q₁, q₂, v₂, htokens, hv, hq, hparts⟩ := hspelled.exists_string
  have hskipped := hj before after htokens
  exact ⟨before, after, v₁, q₁, q₂, v₂, htokens, hskipped, hv, hq, hparts⟩

/-- Bytes that encode no text are read as a value, if at all, with a string that has no text. -/
theorem string_none_mem_tokens {bytes : List UInt8} {j : Json}
    (hbytes : ∀ s : String, bytes.toByteArray ≠ s.toUTF8) (h : ofBytes? bytes = some j) :
    .string none ∈ tokens j := by
  obtain ⟨x, hx⟩ := exists_stray_of_ne_toUTF8 hbytes
  obtain ⟨l₁, l₂, hl⟩ := List.append_of_mem hx
  have hspelled := spelled_of_ofBytes? h
  rw [hl] at hspelled
  obtain ⟨before, after, -, -, -, -, htokens, -⟩ := hspelled.exists_string
  rw [htokens]
  exact List.mem_append_right before List.mem_cons_self

/-! ## Readers -/

/-- What the reader accepts is legible. -/
def Shape.Covers {α : Type} (s : Shape) (read? : Json → Option α) : Prop :=
  ∀ j a, read? j = some a → Legible s j

theorem covers_uint32? : Shape.plain.Covers uint32? := by
  intro j w h
  obtain ⟨n, rfl, -, -⟩ := uint32?_eq_some_iff.mp h
  exact legible_of_notMem (by simp [tokens])

theorem covers_nullable? {α : Type} {s : Shape} {read? : Json → Option α} (h : s.Covers read?) :
    (Shape.nullable s).Covers (nullable? read?) := by
  intro j a hread
  unfold nullable? at hread
  split at hread
  · exact legible_of_notMem (by simp [tokens])
  · obtain ⟨b, hb, -⟩ := Option.map_eq_some_iff.mp hread
    exact fun before after hj => .present (h j b hb before after hj)

/-- In an object whose names have a text, a string without one stands in the value of a member. -/
theorem exists_member_of_tokens {given : List (String × Json)} {before after : List Token}
    (h : tokens (ofMembers given) = before ++ .string none :: after) :
    ∃ g₁ m g₂ before' after', given = g₁ ++ m :: g₂ ∧
      tokens m.2 = before' ++ .string none :: after' ∧
      before = membersOf.upTo (g₁.map fun m => (some m.1, m.2)) (some m.1, m.2) ++ before' ∧
      after = after' ++ membersOf.past (g₂.map fun m => (some m.1, m.2)) := by
  rw [ofMembers, tokens_object] at h
  have hhead : ∀ m ∈ given.map fun m => (some m.1, m.2), .string none ∉ membersOf.head m := by
    intro m hm
    obtain ⟨g, -, rfl⟩ := List.mem_map.mp hm
    simp [membersOf]
  obtain ⟨l₁, m, l₂, before', after', hl, hvalue, rfl, rfl⟩ :=
    Container.exists_part_of_all (by simp [membersOf]) (by simp [membersOf]) hhead h
  obtain ⟨g₁, g, rfl, rfl, hg⟩ := List.map_eq_append_iff.mp hl
  obtain ⟨m, g₂, rfl, rfl, rfl⟩ := List.map_eq_cons_iff.mp hg
  exact ⟨g₁, m, g₂, before', after', rfl, hvalue, rfl, rfl⟩

theorem exists_of_forall₂ {α β : Type} {R : α → β → Prop} {l : List α} {m : List β}
    (h : List.Forall₂ R l m) : ∀ a ∈ l, ∃ b, R a b := by
  induction h with
  | nil => exact fun _ ha => (List.not_mem_nil ha).elim
  | cons hab _ ih => exact List.forall_mem_cons.mpr ⟨⟨_, hab⟩, ih⟩

theorem covers_map? {κ α : Type} [Ord κ] [Std.TransOrd κ] [Std.LawfulEqOrd κ]
    {key? : String → Option κ} {s : Shape} {read? : Json → Option α} (h : s.Covers read?) :
    (Shape.map s).Covers fun j => j.map? key? read? := by
  intro j m hread before after hj
  obtain ⟨given, entries, rfl, hall, -⟩ := map?_eq_some_iff.mp hread
  obtain ⟨g₁, g, g₂, before', after', rfl, hg, rfl, rfl⟩ := exists_member_of_tokens hj
  obtain ⟨e, -, hvalue⟩ := exists_of_forall₂ hall g (List.mem_append_right g₁ List.mem_cons_self)
  have hskipped := h g.2 e.2 hvalue before' after' hg
  rw [ofMembers, List.map_append]
  exact Skipped.entry hskipped

theorem map_fst_zip_sublist {α β : Type} (l : List α) (m : List β) :
    ((l.zip m).map Prod.fst).Sublist l := by
  induction l generalizing m with
  | nil => exact List.Sublist.refl _
  | cons a l ih =>
      cases m with
      | nil => exact List.nil_sublist _
      | cons b m => exact (ih m).cons_cons a

/-- The fields of a record that is written as an array are its elements, in order. -/
theorem lookup_zip {names : List String} (hnames : names.Nodup) {elements : List Json} {i : Nat}
    {name : String} {j : Json} (hname : names[i]? = some name) (hj : elements[i]? = some j) :
    (names.zip elements).lookup name = some j := by
  have hmem : (name, j) ∈ names.zip elements :=
    List.mem_of_getElem? (List.getElem?_zip_eq_some.mpr ⟨hname, hj⟩)
  exact lookup_eq_some_of_mem (hnames.sublist (map_fst_zip_sublist names elements)) hmem

/-- A member is found by its name when no other has it. -/
theorem lookup_of_length_filter_le_one {g₁ g₂ : List (String × Json)} {m : String × Json}
    (h : ((g₁ ++ m :: g₂).filter (·.1 == m.1)).length ≤ 1) :
    (g₁ ++ m :: g₂).lookup m.1 = some m.2 := by
  refine List.lookup_eq_some_iff.mpr ⟨g₁, g₂, rfl, fun p hp => bne_iff_ne.mpr fun hname => ?_⟩
  have hpos : 0 < (g₁.filter (·.1 == m.1)).length :=
    List.length_pos_of_mem (List.mem_filter.mpr ⟨hp, by simp [hname]⟩)
  have hself : 0 < ((m :: g₂).filter (·.1 == m.1)).length :=
    List.length_pos_of_mem (List.mem_filter.mpr ⟨List.mem_cons_self, BEq.rfl⟩)
  rw [List.filter_append, List.length_append] at h
  omega

variable {fields : List (String × Shape)} {r : Record} {j : Json}

theorem legible_record_array {elements : List Json} (hnodup : (fields.map Prod.fst).Nodup)
    (hlength : elements.length ≤ fields.length)
    (hfields : ∀ f ∈ fields, ∀ i, ((fields.map Prod.fst).zip elements).lookup f.1 = some i →
      Legible f.2 i) : Legible (.record fields) (.array elements) := by
  intro before after hj
  rw [tokens_array] at hj
  obtain ⟨l₁, i, l₂, before', after', rfl, hi, rfl, rfl⟩ :=
    Container.exists_part_of_all (by simp [elementsOf]) (by simp [elementsOf])
      (by simp [elementsOf]) hj
  have hlt : l₁.length < fields.length := by
    rw [List.length_append, List.length_cons] at hlength
    omega
  have hf : fields[l₁.length]? = some fields[l₁.length] := List.getElem?_eq_getElem hlt
  have hname : (fields.map Prod.fst)[l₁.length]? = some fields[l₁.length].1 := by
    rw [List.getElem?_map, hf, Option.map_some]
  have hi' : (l₁ ++ i :: l₂)[l₁.length]? = some i := by simp
  have hlookup := lookup_zip hnodup hname hi'
  exact .place hf (hfields _ (List.getElem_mem hlt) i hlookup before' after' hi)

theorem legible_record_object {given : List (String × Json)}
    (honce : ∀ f ∈ fields, (given.filter (·.1 == f.1)).length ≤ 1)
    (hfields : ∀ f ∈ fields, ∀ i, given.lookup f.1 = some i → Legible f.2 i) :
    Legible (.record fields) (.ofMembers given) := by
  intro before after hj
  obtain ⟨g₁, g, g₂, before', after', rfl, hg, rfl, rfl⟩ := exists_member_of_tokens hj
  rw [ofMembers, List.map_append, List.map_cons]
  by_cases hknown : ∃ f ∈ fields, f.1 = g.1
  · obtain ⟨f, hf, hname⟩ := hknown
    have hlookup : (g₁ ++ g :: g₂).lookup f.1 = some g.2 := by
      rw [hname]
      exact lookup_of_length_filter_le_one (hname ▸ honce f hf)
    rw [← hname]
    exact .field hf (hfields f hf g.2 hlookup before' after' hg)
  · exact .unknown (fun f hf hname => hknown ⟨f, hf, hname⟩) hg

/-- A record is legible when its known fields are, each in its own shape. -/
theorem legible_record (hnodup : (fields.map Prod.fst).Nodup)
    (hr : j.record? (fields.map Prod.fst) = some r)
    (hfields : ∀ f ∈ fields, ∀ i, r f.1 = some i → Legible f.2 i) :
    Legible (.record fields) j := by
  unfold record? at hr
  split at hr
  · obtain ⟨hlength, hr⟩ := Option.ite_none_right_eq_some.mp hr
    obtain rfl := Option.some.inj hr
    exact legible_record_array hnodup (by simpa using hlength) hfields
  · obtain ⟨given, hgiven, hr⟩ := Option.bind_eq_some_iff.mp hr
    obtain ⟨honce, hr⟩ := Option.ite_none_right_eq_some.mp hr
    obtain rfl := Option.some.inj hr
    rw [members?_eq_some_iff.mp hgiven]
    exact legible_record_object (by simpa using honce) hfields
  · cases hr

theorem legible_of_required? {α : Type} {s : Shape} {read? : Json → Option α} {field : String}
    {a : α} (hs : s.Covers read?) (h : r.required? field read? = some a) :
    ∀ i, r field = some i → Legible s i := by
  intro i hi
  rw [Record.required?, hi] at h
  exact hs i a h

theorem legible_of_optional? {α : Type} {s : Shape} {read? : Json → Option α} {field : String}
    {a : Option α} (hs : s.Covers read?) (h : r.optional? field read? = some a) :
    ∀ i, r field = some i → Legible (.nullable s) i := by
  intro i hi
  rw [Record.optional?, hi] at h
  exact covers_nullable? hs i a h

end EncoderSetup.Json

import EncoderSetup.Proofs.Json.Scanning

/-!
# From lexemes to a value

The reader of tokens keeps the unfinished containers on a stack. `State.spent` are the tokens that
a state has used up: every step adds its token to them, so what is read as a value is the value's
token sequence, and `ofTokens?_eq_some_iff` says that every such sequence is read. With the scan,
a document is read as a value exactly when it spells the value's tokens (`ofText?_eq_some_iff`).
-/

namespace EncoderSetup.Json

/-- Induction on the nesting of a value. -/
@[elab_as_elim]
theorem nesting_induction {P : Json → Prop} (null : P .null) (bool : ∀ b, P (.bool b))
    (number : ∀ n, P (.number n)) (string : ∀ s, P (.string s))
    (array : ∀ elements, (∀ j ∈ elements, P j) → P (.array elements))
    (object : ∀ members, (∀ m ∈ members, P m.2) → P (.object members)) (j : Json) : P j :=
  match j with
  | .null => null
  | .bool b => bool b
  | .number n => number n
  | .string s => string s
  | .array elements =>
      array elements fun e _ => nesting_induction null bool number string array object e
  | .object members =>
      object members fun m _ => nesting_induction null bool number string array object m.2
termination_by sizeOf j
decreasing_by
  · have := List.sizeOf_lt_of_mem ‹e ∈ elements›
    simp only [Json.array.sizeOf_spec]
    omega
  · have hlt := List.sizeOf_lt_of_mem ‹m ∈ members›
    obtain ⟨name, value⟩ := m
    simp only [Prod.mk.sizeOf_spec] at hlt
    simp only [Json.object.sizeOf_spec]
    omega

def commaAfterElement (j : Json) : List Token := tokens j ++ [.comma]

def commaAfterMember (m : Member) : List Token := .string m.1 :: .colon :: (tokens m.2 ++ [.comma])

/-- The tokens of the elements or members before the one that is being read. -/
def Frame.spent : Frame → List Token
  | .elements read => .openArray :: read.reverse.flatMap commaAfterElement
  | .members read name =>
      .openObject :: (read.reverse.flatMap commaAfterMember ++ [.string name, .colon])

def spentBelow (stack : List Frame) : List Token := stack.reverse.flatMap Frame.spent

@[simp] theorem spentBelow_cons (f : Frame) (stack : List Frame) :
    spentBelow (f :: stack) = spentBelow stack ++ f.spent := by simp [spentBelow]

/-- The tokens that lead to a state. -/
def State.spent : State → List Token
  | .value stack => spentBelow stack
  | .firstElement stack => spentBelow stack ++ [.openArray]
  | .firstName stack => spentBelow stack ++ [.openObject]
  | .nextName read stack =>
      spentBelow stack ++ .openObject :: read.reverse.flatMap commaAfterMember
  | .colon read name stack =>
      spentBelow stack ++ .openObject :: (read.reverse.flatMap commaAfterMember ++ [.string name])
  | .complete j stack => spentBelow stack ++ tokens j

theorem elementTokens_append (l : List Json) (j : Json) :
    elementTokens (l ++ [j]) = l.flatMap commaAfterElement ++ tokens j := by
  induction l with
  | nil => simp [elementTokens]
  | cons d l ih =>
      rw [List.flatMap_cons, List.append_assoc, ← ih]
      cases l <;> simp [elementTokens, commaAfterElement]

theorem memberTokens_append (l : List Member) (m : Member) :
    memberTokens (l ++ [m]) =
      l.flatMap commaAfterMember ++ .string m.1 :: .colon :: tokens m.2 := by
  induction l with
  | nil => simp [memberTokens]
  | cons d l ih =>
      rw [List.flatMap_cons, List.append_assoc, ← ih]
      cases l <;> simp [memberTokens, commaAfterMember]

theorem spent_start {stack : List Frame} {t : Token} {s : State}
    (h : State.start stack t = some s) : s.spent = spentBelow stack ++ [t] := by
  cases t with
  | closeArray | closeObject | colon | comma => cases h
  | _ =>
      cases h
      simp [State.spent, tokens]

theorem spent_step {s s' : State} {t : Token} (h : s.step t = some s') :
    s'.spent = s.spent ++ [t] := by
  -- One case for each line of `State.step`, in its order.
  unfold State.step at h
  split at h
  · exact spent_start h
  · cases h
    simp [State.spent, tokens, elementTokens]
  · rw [spent_start h]
    simp [State.spent, Frame.spent]
  · cases h
    simp [State.spent, tokens, memberTokens]
  · cases h
    simp [State.spent]
  · cases h
    simp [State.spent]
  · cases h
    simp [State.spent, Frame.spent]
  · cases h
    simp [State.spent, Frame.spent, commaAfterElement]
  · cases h
    simp [State.spent, Frame.spent, tokens, elementTokens_append]
  · cases h
    simp [State.spent, Frame.spent, commaAfterMember]
  · cases h
    simp [State.spent, Frame.spent, tokens, memberTokens_append]
  · cases h

theorem spent_foldlM {s s' : State} {ts : List Token} (h : ts.foldlM State.step s = some s') :
    s'.spent = s.spent ++ ts := by
  induction ts generalizing s with
  | nil =>
      cases h
      exact (List.append_nil _).symm
  | cons t ts ih =>
      rw [List.foldlM_cons] at h
      obtain ⟨s₁, hs, h⟩ := Option.bind_eq_some_iff.mp h
      rw [ih h, spent_step hs, List.append_assoc]
      rfl

theorem exists_tokens_cons (j : Json) : ∃ t ts, tokens j = t :: ts ∧ t ≠ .closeArray := by
  cases j <;> exact ⟨_, _, rfl, by simp⟩

theorem step_firstElement {stack : List Frame} {t : Token} (h : t ≠ .closeArray) :
    State.step (.firstElement stack) t = State.step (.value (.elements [] :: stack)) t := by
  cases t <;> first | rfl | exact absurd rfl h

theorem elementTokens_cons_cons (j e : Json) (rest : List Json) :
    elementTokens (j :: e :: rest) = commaAfterElement j ++ elementTokens (e :: rest) := by
  simp [elementTokens, commaAfterElement]

theorem memberTokens_cons_cons (m d : Member) (rest : List Member) :
    memberTokens (m :: d :: rest) = commaAfterMember m ++ memberTokens (d :: rest) := by
  simp [memberTokens, commaAfterMember]

/-- The first element of an array is read like the later ones. -/
theorem foldlM_firstElement (j : Json) (rest : List Json) (stack : List Frame) (ts : List Token) :
    (elementTokens (j :: rest) ++ ts).foldlM State.step (.firstElement stack) =
      (elementTokens (j :: rest) ++ ts).foldlM State.step (.value (.elements [] :: stack)) := by
  obtain ⟨t, us, h, ht⟩ := exists_tokens_cons j
  have hfirst : ∃ us, elementTokens (j :: rest) = t :: us := by
    cases rest with
    | nil => exact ⟨us, h⟩
    | cons e rest =>
        rw [elementTokens_cons_cons, commaAfterElement, h]
        exact ⟨_, rfl⟩
  obtain ⟨us, hus⟩ := hfirst
  rw [hus, List.cons_append, List.foldlM_cons, List.foldlM_cons, step_firstElement ht]

/-- From a state that begins a value, the tokens of `j` lead to `j`. -/
def IsRead (j : Json) : Prop := ∀ (stack : List Frame) (ts : List Token),
  (tokens j ++ ts).foldlM State.step (.value stack) = ts.foldlM State.step (.complete j stack)

/-- Elements are read up to the bracket that closes their array. -/
theorem foldlM_elementTokens {j : Json} {rest : List Json} (h : ∀ e ∈ j :: rest, IsRead e)
    (read : List Json) (stack : List Frame) (ts : List Token) :
    (elementTokens (j :: rest) ++ .closeArray :: ts).foldlM State.step
        (.value (.elements read :: stack)) =
      ts.foldlM State.step (.complete (.array (read.reverse ++ j :: rest)) stack) := by
  obtain ⟨hj, hrest⟩ := List.forall_mem_cons.mp h
  induction rest generalizing j read with
  | nil =>
      rw [elementTokens, hj, List.foldlM_cons, ← List.reverse_cons]
      rfl
  | cons e rest ih =>
      obtain ⟨he, htail⟩ := List.forall_mem_cons.mp hrest
      have hnext := ih hrest (j :: read) he htail
      rw [List.reverse_cons, List.append_assoc] at hnext
      rw [elementTokens_cons_cons, commaAfterElement, List.append_assoc, List.append_assoc, hj,
        List.singleton_append, List.foldlM_cons]
      exact hnext

/-- Members are read up to the brace that closes their object. -/
theorem foldlM_memberTokens {m : Member} {rest : List Member} (h : ∀ d ∈ m :: rest, IsRead d.2)
    (read : List Member) (stack : List Frame) (ts : List Token) {s : State}
    (hs : ∀ name, s.step (.string name) = some (.colon read name stack)) :
    (memberTokens (m :: rest) ++ .closeObject :: ts).foldlM State.step s =
      ts.foldlM State.step (.complete (.object (read.reverse ++ m :: rest)) stack) := by
  obtain ⟨hm, hrest⟩ := List.forall_mem_cons.mp h
  induction rest generalizing m read s with
  | nil =>
      have hj := hm (.members read m.1 :: stack) (.closeObject :: ts)
      rw [List.foldlM_cons] at hj
      rw [memberTokens, List.cons_append, List.foldlM_cons, hs, ← List.reverse_cons]
      exact hj
  | cons d rest ih =>
      obtain ⟨hd, htail⟩ := List.forall_mem_cons.mp hrest
      have hnext := ih hrest (m :: read) (s := .nextName (m :: read) stack) (fun _ => rfl) hd htail
      rw [List.reverse_cons, List.append_assoc] at hnext
      have hj := hm (.members read m.1 :: stack)
        (.comma :: (memberTokens (d :: rest) ++ .closeObject :: ts))
      rw [List.foldlM_cons] at hj
      rw [memberTokens_cons_cons, commaAfterMember, List.append_assoc, List.cons_append,
        List.foldlM_cons, hs]
      simp only [List.cons_append, List.append_assoc, List.nil_append]
      exact hj.trans hnext

theorem isRead (j : Json) : IsRead j := by
  induction j using nesting_induction with
  | null => exact fun _ _ => rfl
  | bool b => exact fun _ _ => rfl
  | number n => exact fun _ _ => rfl
  | string s => exact fun _ _ => rfl
  | array elements h =>
      intro stack ts
      cases elements with
      | nil => rfl
      | cons j rest =>
          rw [tokens, List.cons_append, List.append_assoc, List.foldlM_cons]
          exact (foldlM_firstElement ..).trans (foldlM_elementTokens h [] stack ts)
  | object members h =>
      intro stack ts
      cases members with
      | nil => rfl
      | cons m rest =>
          rw [tokens, List.cons_append, List.append_assoc, List.foldlM_cons]
          exact foldlM_memberTokens h [] stack ts fun _ => rfl

/-- A token sequence is read exactly when it is that of a value. -/
theorem ofTokens?_eq_some_iff {ts : List Token} {j : Json} :
    ofTokens? ts = some j ↔ ts = tokens j := by
  constructor
  · intro h
    unfold ofTokens? at h
    split at h
    · next j' hs =>
        cases h
        exact (spent_foldlM hs).symm
    · cases h
  · rintro rfl
    have h := isRead j [] []
    rw [List.append_nil] at h
    rw [ofTokens?, h]
    rfl

open Scan (Separated)

theorem separated_cons {t : Token} {ts : List Token} (ht : t.isMark ∨ ∀ u ∈ ts.head?, u.isMark)
    (h : Separated ts) : Separated (t :: ts) :=
  List.isChain_cons.mpr ⟨fun u hu => ht.imp_right fun ht => ht u hu, h⟩

/-- The tokens of `j` stay separated when a mark follows them, or nothing. -/
def IsSeparable (j : Json) : Prop := ∀ ts : List Token, (∀ t ∈ ts.head?, t.isMark) →
  Separated ts → Separated (tokens j ++ ts)

theorem separated_elementTokens {l : List Json} (h : ∀ j ∈ l, IsSeparable j) {t : Token}
    {ts : List Token} (ht : t.isMark) (hts : Separated (t :: ts)) :
    Separated (elementTokens l ++ t :: ts) := by
  induction l with
  | nil => exact hts
  | cons j rest ih =>
      obtain ⟨hj, hrest⟩ := List.forall_mem_cons.mp h
      cases rest with
      | nil => exact hj _ (by simpa using ht) hts
      | cons e rest =>
          rw [elementTokens_cons_cons, commaAfterElement, List.append_assoc, List.append_assoc]
          exact hj _ (by simp [Token.isMark]) (separated_cons (Or.inl rfl) (ih hrest))

theorem separated_memberTokens {l : List Member} (h : ∀ m ∈ l, IsSeparable m.2) {t : Token}
    {ts : List Token} (ht : t.isMark) (hts : Separated (t :: ts)) :
    Separated (memberTokens l ++ t :: ts) := by
  induction l with
  | nil => exact hts
  | cons m rest ih =>
      obtain ⟨hm, hrest⟩ := List.forall_mem_cons.mp h
      have hname : ∀ us : List Token, Separated us →
          Separated (.string m.1 :: .colon :: us) := fun us hus =>
        separated_cons (Or.inr (by simp [Token.isMark])) (separated_cons (Or.inl rfl) hus)
      cases rest with
      | nil => exact hname _ (hm _ (by simpa using ht) hts)
      | cons d rest =>
          rw [memberTokens_cons_cons, commaAfterMember]
          simp only [List.cons_append, List.append_assoc, List.nil_append]
          exact hname _ (hm _ (by simp [Token.isMark]) (separated_cons (Or.inl rfl) (ih hrest)))

theorem isSeparable (j : Json) : IsSeparable j := by
  induction j using nesting_induction with
  | null => exact fun _ ht h => separated_cons (Or.inr ht) h
  | bool b => exact fun _ ht h => separated_cons (Or.inr ht) h
  | number n => exact fun _ ht h => separated_cons (Or.inr ht) h
  | string s => exact fun _ ht h => separated_cons (Or.inr ht) h
  | array elements h =>
      intro ts _ hts
      rw [tokens, List.cons_append, List.append_assoc]
      exact separated_cons (Or.inl rfl)
        (separated_elementTokens h rfl (separated_cons (Or.inl rfl) hts))
  | object members h =>
      intro ts _ hts
      rw [tokens, List.cons_append, List.append_assoc]
      exact separated_cons (Or.inl rfl)
        (separated_memberTokens h rfl (separated_cons (Or.inl rfl) hts))

theorem separated_tokens (j : Json) : Separated (tokens j) := by
  have h := isSeparable j [] (by simp) List.IsChain.nil
  rwa [List.append_nil] at h

/-- A document is read as the value whose tokens it spells. -/
theorem ofSymbols?_eq_some_iff {l : List Symbol} {j : Json} :
    ofSymbols? l = some j ↔ Spelled (tokens j) l := by
  simp only [ofSymbols?, Option.bind_eq_some_iff, ofTokens?_eq_some_iff, exists_eq_right,
    Scan.scan?_eq_some_iff (separated_tokens j)]

/-- A text is read exactly when it is the text of a value, and then as that value. -/
theorem ofText?_eq_some_iff {s : String} {j : Json} : ofText? s = some j ↔ IsText j s :=
  ofSymbols?_eq_some_iff

end EncoderSetup.Json

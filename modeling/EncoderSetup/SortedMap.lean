/-!
# Maps in key order

A finite map kept as its list of entries, strictly increasing by key. The list is determined by the
lookups alone (`SortedMap.ext_get?`), so two maps that answer every lookup alike are equal and every
listing of a map is canonical. `get?_insert`, `get?_erase`, `get?_ofList` and `get?_merge` say what
the operations do to a lookup; nothing else needs to unfold them.
-/

namespace EncoderSetup

/-- A finite map from `κ` to `α`, stored as its entries in increasing key order. -/
structure SortedMap (κ α : Type) [Ord κ] where
  entries : List (κ × α)
  /-- Each entry's key lies below all later ones. -/
  sorted : entries.Pairwise fun a b => compare a.1 b.1 = .lt
  deriving DecidableEq

namespace SortedMap

variable {κ α : Type} [Ord κ]

/-- The value of the first entry with key `k`. -/
def lookup (k : κ) : List (κ × α) → Option α
  | [] => none
  | e :: rest => if compare k e.1 = .eq then some e.2 else lookup k rest

/-- Puts an entry before the first larger key, in place of an equal one. -/
def insertEntry (k : κ) (v : α) : List (κ × α) → List (κ × α)
  | [] => [(k, v)]
  | e :: rest =>
      match compare k e.1 with
      | .lt => (k, v) :: e :: rest
      | .eq => (k, v) :: rest
      | .gt => e :: insertEntry k v rest

theorem lookup_append (k : κ) (l m : List (κ × α)) :
    lookup k (l ++ m) = (lookup k l).or (lookup k m) := by
  induction l with
  | nil => simp [lookup]
  | cons d rest ih => by_cases h : compare k d.1 = .eq <;> simp [lookup, h, ih]

theorem lookup_eq_none_of_lt {k : κ} {l : List (κ × α)} (h : ∀ e ∈ l, compare k e.1 = .lt) :
    lookup k l = none := by
  induction l with
  | nil => rfl
  | cons d rest ih =>
      have hd := List.forall_mem_cons.mp h
      simp [lookup, hd.1, ih hd.2]

theorem mem_insertEntry {k : κ} {v : α} {e : κ × α} {l : List (κ × α)}
    (h : e ∈ insertEntry k v l) : e = (k, v) ∨ e ∈ l := by
  induction l with
  | nil => simpa [insertEntry] using h
  | cons d rest ih =>
      unfold insertEntry at h
      split at h
      · simpa using h
      · rcases List.mem_cons.mp h with rfl | h
        · exact Or.inl rfl
        · exact Or.inr (List.mem_cons_of_mem _ h)
      · rcases List.mem_cons.mp h with rfl | h
        · exact Or.inr List.mem_cons_self
        · exact (ih h).imp_right (List.mem_cons_of_mem _)

section Ordered

variable [Std.TransOrd κ] [Std.LawfulEqOrd κ]

omit [Std.LawfulEqOrd κ] in
theorem pairwise_insertEntry (k : κ) (v : α) {l : List (κ × α)}
    (h : l.Pairwise fun a b => compare a.1 b.1 = .lt) :
    (insertEntry k v l).Pairwise fun a b => compare a.1 b.1 = .lt := by
  induction l with
  | nil => simp [insertEntry]
  | cons d rest ih =>
      have hd := List.pairwise_cons.mp h
      unfold insertEntry
      split
      · next hlt =>
          refine List.pairwise_cons.mpr ⟨fun e he => ?_, h⟩
          rcases List.mem_cons.mp he with rfl | he
          · exact hlt
          · exact Std.TransCmp.lt_trans hlt (hd.1 e he)
      · next heq =>
          refine List.pairwise_cons.mpr ⟨fun e he => ?_, hd.2⟩
          exact Std.TransCmp.lt_of_eq_of_lt heq (hd.1 e he)
      · next hgt =>
          refine List.pairwise_cons.mpr ⟨fun e he => ?_, ih hd.2⟩
          rcases mem_insertEntry he with rfl | he
          · exact Std.OrientedCmp.lt_of_gt hgt
          · exact hd.1 e he

theorem lookup_insertEntry (k k' : κ) (v : α) (l : List (κ × α)) :
    lookup k' (insertEntry k v l) = if compare k' k = .eq then some v else lookup k' l := by
  induction l with
  | nil => simp [insertEntry, lookup]
  | cons d rest ih =>
      unfold insertEntry
      split
      · rfl
      · next heq =>
          have hk : k = d.1 := Std.LawfulEqCmp.eq_of_compare heq
          subst hk
          by_cases h : compare k' d.1 = .eq <;> simp [lookup, h]
      · next hgt =>
          by_cases h : compare k' d.1 = .eq
          · have hk : k' = d.1 := Std.LawfulEqCmp.eq_of_compare h
            subst hk
            have hne : compare d.1 k ≠ .eq := by
              rw [Std.OrientedCmp.lt_of_gt hgt]
              decide
            simp [lookup, hne]
          · simp [lookup, h, ih]

omit [Std.TransOrd κ] in
theorem lookup_filter (k k' : κ) (l : List (κ × α)) :
    lookup k' (l.filter fun e => compare e.1 k != .eq) =
      if compare k' k = .eq then none else lookup k' l := by
  induction l with
  | nil => simp [lookup]
  | cons d rest ih =>
      by_cases hd : compare d.1 k = .eq
      · have hk : d.1 = k := Std.LawfulEqCmp.eq_of_compare hd
        subst hk
        by_cases h : compare k' d.1 = .eq <;> simp [lookup, h, ih]
      · rw [List.filter_cons_of_pos (by simpa using hd)]
        by_cases h : compare k' d.1 = .eq
        · have hk : k' = d.1 := Std.LawfulEqCmp.eq_of_compare h
          subst hk
          simp [lookup, hd]
        · simp [lookup, h, ih]

theorem lookup_of_mem {l : List (κ × α)} (hl : l.Pairwise fun a b => compare a.1 b.1 = .lt)
    {k : κ} {v : α} (h : (k, v) ∈ l) : lookup k l = some v := by
  induction l with
  | nil => cases h
  | cons d rest ih =>
      have hd := List.pairwise_cons.mp hl
      rcases List.mem_cons.mp h with rfl | h
      · simp [lookup]
      · have hne : compare k d.1 ≠ .eq := by
          rw [Std.OrientedCmp.gt_of_lt (hd.1 _ h)]
          decide
        simp [lookup, hne, ih hd.2 h]

omit [Std.TransOrd κ] in
theorem mem_of_lookup {l : List (κ × α)} {k : κ} {v : α} (h : lookup k l = some v) :
    (k, v) ∈ l := by
  induction l with
  | nil => cases h
  | cons d rest ih =>
      rw [lookup] at h
      split at h
      · next heq =>
          cases h
          rw [Std.LawfulEqCmp.eq_of_compare heq]
          exact List.mem_cons_self
      · exact List.mem_cons_of_mem _ (ih h)

omit [Std.TransOrd κ] in
/-- In a list in key order no key occurs twice, so the last entry of a key is the first. -/
theorem lookup_reverse {l : List (κ × α)} (hl : l.Pairwise fun a b => compare a.1 b.1 = .lt)
    (k : κ) : lookup k l.reverse = lookup k l := by
  induction l with
  | nil => rfl
  | cons d rest ih =>
      have hd := List.pairwise_cons.mp hl
      rw [List.reverse_cons, lookup_append, ih hd.2]
      by_cases h : compare k d.1 = .eq
      · have hk : k = d.1 := Std.LawfulEqCmp.eq_of_compare h
        subst hk
        simp [lookup, lookup_eq_none_of_lt hd.1]
      · simp [lookup, h]

/-- A list in key order is determined by its lookups. -/
theorem eq_of_lookup_eq {l m : List (κ × α)}
    (hl : l.Pairwise fun a b => compare a.1 b.1 = .lt)
    (hm : m.Pairwise fun a b => compare a.1 b.1 = .lt)
    (h : ∀ k, lookup k l = lookup k m) : l = m := by
  induction l generalizing m with
  | nil =>
      cases m with
      | nil => rfl
      | cons e m => simpa [lookup] using h e.1
  | cons d l ih =>
      cases m with
      | nil => simpa [lookup] using h d.1
      | cons e m =>
          have hd := List.pairwise_cons.mp hl
          have he := List.pairwise_cons.mp hm
          have hdm : d ∈ e :: m := mem_of_lookup (by rw [← h d.1]; simp [lookup])
          have hel : e ∈ d :: l := mem_of_lookup (by rw [h e.1]; simp [lookup])
          have hde : d = e := by
            rcases List.mem_cons.mp hdm with hdm | hdm
            · exact hdm
            · rcases List.mem_cons.mp hel with hel | hel
              · exact hel.symm
              · have := Std.TransCmp.lt_trans (he.1 d hdm) (hd.1 e hel)
                simp at this
          subst hde
          congr 1
          refine ih hd.2 he.2 fun k => ?_
          by_cases hk : compare k d.1 = .eq
          · rw [Std.LawfulEqCmp.eq_of_compare hk]
            rw [lookup_eq_none_of_lt hd.1, lookup_eq_none_of_lt he.1]
          · simpa [lookup, hk] using h k

end Ordered

/-! ## The map and its operations -/

def empty : SortedMap κ α := ⟨[], List.Pairwise.nil⟩

instance : EmptyCollection (SortedMap κ α) := ⟨empty⟩

instance : Inhabited (SortedMap κ α) := ⟨empty⟩

def get? (m : SortedMap κ α) (k : κ) : Option α := lookup k m.entries

def contains (m : SortedMap κ α) (k : κ) : Bool := (m.get? k).isSome

/-- The keys in increasing order. -/
def keys (m : SortedMap κ α) : List κ := m.entries.map Prod.fst

def size (m : SortedMap κ α) : Nat := m.entries.length

def isEmpty (m : SortedMap κ α) : Bool := m.entries.isEmpty

@[simp] theorem get?_empty (k : κ) : (empty : SortedMap κ α).get? k = none := rfl

def erase (m : SortedMap κ α) (k : κ) : SortedMap κ α :=
  ⟨m.entries.filter fun e => compare e.1 k != .eq, m.sorted.filter _⟩

variable [Std.TransOrd κ] [Std.LawfulEqOrd κ]

def insert (m : SortedMap κ α) (k : κ) (v : α) : SortedMap κ α :=
  ⟨insertEntry k v m.entries, pairwise_insertEntry k v m.sorted⟩

def insertAll (m : SortedMap κ α) (l : List (κ × α)) : SortedMap κ α :=
  l.foldl (fun m e => m.insert e.1 e.2) m

/-- The map with the entries of a list, a later entry replacing an earlier one of its key. -/
def ofList (l : List (κ × α)) : SortedMap κ α := empty.insertAll l

/-- The union of two maps; a key of both has its value in the second. -/
def merge (m n : SortedMap κ α) : SortedMap κ α := m.insertAll n.entries

/-- Maps that answer every lookup alike are equal. -/
theorem ext_get? {m n : SortedMap κ α} (h : ∀ k, m.get? k = n.get? k) : m = n := by
  cases m with
  | mk l hl =>
      cases n with
      | mk r hr =>
          have : l = r := eq_of_lookup_eq hl hr h
          subst this
          rfl

theorem get?_insert (m : SortedMap κ α) (k k' : κ) (v : α) :
    (m.insert k v).get? k' = if compare k' k = .eq then some v else m.get? k' :=
  lookup_insertEntry k k' v m.entries

omit [Std.TransOrd κ] in
theorem get?_erase (m : SortedMap κ α) (k k' : κ) :
    (m.erase k).get? k' = if compare k' k = .eq then none else m.get? k' :=
  lookup_filter k k' m.entries

/-- The last entry of a key counts, and one that the list does not have keeps its value. -/
theorem get?_insertAll (m : SortedMap κ α) (l : List (κ × α)) (k : κ) :
    (m.insertAll l).get? k = (lookup k l.reverse).or (m.get? k) := by
  induction l generalizing m with
  | nil => simp [insertAll, lookup]
  | cons e rest ih =>
      have h := ih (m.insert e.1 e.2)
      rw [get?_insert] at h
      rw [List.reverse_cons, lookup_append]
      by_cases hk : compare k e.1 = .eq <;> simpa [insertAll, lookup, hk] using h

theorem get?_ofList (l : List (κ × α)) (k : κ) :
    (ofList l : SortedMap κ α).get? k = lookup k l.reverse := by
  rw [ofList, get?_insertAll, get?_empty, Option.or_none]

theorem get?_merge (m n : SortedMap κ α) (k : κ) :
    (m.merge n).get? k = (n.get? k).or (m.get? k) := by
  rw [merge, get?_insertAll, lookup_reverse n.sorted]
  rfl

theorem mem_entries {m : SortedMap κ α} {k : κ} {v : α} :
    (k, v) ∈ m.entries ↔ m.get? k = some v :=
  ⟨lookup_of_mem m.sorted, mem_of_lookup⟩

end SortedMap

end EncoderSetup

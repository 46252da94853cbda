import EncoderSetup.SortedMap
import Mathlib.Data.List.Basic

/-!
# Values under their keys

A map whose values are replaced keeps its keys (`keys_mapValues`), and by `ext_get?` what is
computed from a map of kinds or lengths does not depend on the values behind them. A map that is
made of a list holds the last value of each key of the list (`mem_entries_ofList`).
-/

namespace EncoderSetup.SortedMap

variable {κ α β : Type} [Ord κ]

def mapValues (f : α → β) (m : SortedMap κ α) : SortedMap κ β :=
  ⟨m.entries.map fun e => (e.1, f e.2), by
    rw [List.pairwise_map]
    exact m.sorted⟩

theorem lookup_map (f : α → β) (k : κ) (l : List (κ × α)) :
    lookup k (l.map fun e => (e.1, f e.2)) = (lookup k l).map f := by
  induction l with
  | nil => rfl
  | cons d rest ih => by_cases h : compare k d.1 = .eq <;> simp [lookup, h, ih]

theorem get?_mapValues (f : α → β) (m : SortedMap κ α) (k : κ) :
    (m.mapValues f).get? k = (m.get? k).map f := lookup_map f k m.entries

theorem keys_mapValues (f : α → β) (m : SortedMap κ α) : (m.mapValues f).keys = m.keys := by
  simp [keys, mapValues]

theorem length_keys (m : SortedMap κ α) : m.keys.length = m.size := by simp [keys, size]

theorem eq_empty_of_isEmpty {m : SortedMap κ α} (h : m.isEmpty = true) : m = empty := by
  obtain ⟨l, hl⟩ := m
  have he : l = [] := List.isEmpty_iff.mp h
  subst he
  rfl

variable [Std.TransOrd κ] [Std.LawfulEqOrd κ]

theorem mem_keys {m : SortedMap κ α} {k : κ} : k ∈ m.keys ↔ ∃ v, m.get? k = some v := by
  simp only [keys, List.mem_map, Prod.exists, exists_and_right, exists_eq_right, mem_entries]

omit [Std.TransOrd κ] in
theorem nodup_keys (m : SortedMap κ α) : m.keys.Nodup := by
  refine List.pairwise_map.mpr (m.sorted.imp fun {a b} hlt heq => ?_)
  have hself : compare a.1 b.1 = .eq := Std.LawfulEqCmp.compare_eq_iff_eq.mpr heq
  rw [hself] at hlt
  cases hlt

omit [Std.TransOrd κ] [Std.LawfulEqOrd κ] in
/-- The values of some keys, in the order in which the keys are given. -/
theorem exists_entries {m : SortedMap κ α} {l : List κ} (h : ∀ k ∈ l, ∃ v, m.get? k = some v) :
    ∃ entries : List (κ × α),
      entries.map Prod.fst = l ∧ ∀ e ∈ entries, m.get? e.1 = some e.2 := by
  induction l with
  | nil => exact ⟨[], rfl, fun _ he => (List.not_mem_nil he).elim⟩
  | cons k rest ih =>
      obtain ⟨⟨v, hv⟩, hrest⟩ := List.forall_mem_cons.mp h
      obtain ⟨entries, rfl, hentries⟩ := ih hrest
      exact ⟨(k, v) :: entries, rfl, List.forall_mem_cons.mpr ⟨hv, hentries⟩⟩

@[simp] theorem get?_insert_self (m : SortedMap κ α) (k : κ) (v : α) :
    (m.insert k v).get? k = some v := by simp [get?_insert]

theorem get?_insert_of_ne (m : SortedMap κ α) {k k' : κ} (v : α) (h : k' ≠ k) :
    (m.insert k v).get? k' = m.get? k' := by simp [get?_insert, h]

omit [Std.TransOrd κ] in
@[simp] theorem get?_erase_self (m : SortedMap κ α) (k : κ) : (m.erase k).get? k = none := by
  simp [get?_erase]

omit [Std.TransOrd κ] in
theorem get?_erase_of_ne (m : SortedMap κ α) {k k' : κ} (h : k' ≠ k) :
    (m.erase k).get? k' = m.get? k' := by simp [get?_erase, h]

theorem ofList_entries (m : SortedMap κ α) : ofList m.entries = m :=
  ext_get? fun k => (get?_ofList m.entries k).trans (lookup_reverse m.sorted k)

omit [Std.TransOrd κ] in
theorem lookup_eq_none_iff {k : κ} {l : List (κ × α)} :
    lookup k l = none ↔ ∀ e ∈ l, e.1 ≠ k := by
  induction l with
  | nil => simp [lookup]
  | cons d rest ih =>
      rw [List.forall_mem_cons, ← ih]
      by_cases h : k = d.1
      · simp [lookup, h]
      · simp [lookup, h, Ne.symm h]

omit [Std.TransOrd κ] in
/-- The first entry of a key counts. -/
theorem lookup_eq_some_iff {k : κ} {v : α} {l : List (κ × α)} :
    lookup k l = some v ↔
      ∃ before after, l = before ++ (k, v) :: after ∧ ∀ e ∈ before, e.1 ≠ k := by
  constructor
  · intro h
    induction l with
    | nil => cases h
    | cons d rest ih =>
        by_cases hk : k = d.1
        · subst hk
          obtain rfl : d.2 = v := by simpa [lookup] using h
          exact ⟨[], rest, rfl, by simp⟩
        · obtain ⟨before, after, rfl, hb⟩ := ih (by simpa [lookup, hk] using h)
          exact ⟨d :: before, after, rfl, List.forall_mem_cons.mpr ⟨Ne.symm hk, hb⟩⟩
  · rintro ⟨before, after, rfl, hb⟩
    rw [lookup_append, lookup_eq_none_iff.mpr hb]
    simp [lookup]

/-- Where all keys are listed in order, the entries are those of the keys that have a value. -/
theorem entries_eq_filterMap {all : List κ} (hall : ∀ k, k ∈ all)
    (hsorted : all.Pairwise fun a b => compare a b = .lt) (m : SortedMap κ α) :
    m.entries = all.filterMap fun k => (m.get? k).map fun v => (k, v) := by
  have hl : (all.filterMap fun k => (m.get? k).map fun v => (k, v)).Pairwise
      fun a b => compare a.1 b.1 = .lt := by
    refine List.pairwise_filterMap.mpr (hsorted.imp fun {a b} hab d hd e he => ?_)
    obtain ⟨_, -, rfl⟩ := Option.map_eq_some_iff.mp hd
    obtain ⟨_, -, rfl⟩ := Option.map_eq_some_iff.mp he
    exact hab
  refine eq_of_lookup_eq m.sorted hl fun k => ?_
  cases hk : m.get? k with
  | none =>
      refine hk.trans (lookup_eq_none_iff.mpr fun e he => ?_).symm
      rintro rfl
      obtain ⟨k, -, hmem⟩ := List.mem_filterMap.mp he
      obtain ⟨v, hv, rfl⟩ := Option.map_eq_some_iff.mp hmem
      rw [hk] at hv
      cases hv
  | some v =>
      refine hk.trans (lookup_of_mem hl (List.mem_filterMap.mpr ⟨k, hall k, ?_⟩)).symm
      rw [hk, Option.map_some]

theorem flatMap_entries {β : Type} {all : List κ} (hall : ∀ k, k ∈ all)
    (hsorted : all.Pairwise fun a b => compare a b = .lt) (m : SortedMap κ α)
    (g : κ → α → List β) : (m.entries.flatMap fun e => g e.1 e.2) =
      all.flatMap fun k => (m.get? k).toList.flatMap (g k) := by
  rw [entries_eq_filterMap hall hsorted, List.filterMap_eq_flatMap_toList,
    List.flatMap_assoc]
  refine congrArg all.flatMap (funext fun k => ?_)
  cases m.get? k <;> simp

omit [Std.TransOrd κ] in
/-- Where all entries of a key have one value, it does not matter which of them is first. -/
theorem lookup_eq_some_of_forall {k : κ} {v : α} {l : List (κ × α)} (hmem : ∃ e ∈ l, e.1 = k)
    (hval : ∀ e ∈ l, e.1 = k → e.2 = v) : lookup k l = some v := by
  cases h : lookup k l with
  | none =>
      obtain ⟨e, he, hk⟩ := hmem
      exact absurd hk (lookup_eq_none_iff.mp h e he)
  | some w =>
      obtain ⟨before, after, rfl, -⟩ := lookup_eq_some_iff.mp h
      have hw : w = v := hval (k, w) (by simp) rfl
      rw [hw]

/-- The entries of a map that is made of a list: for each key the last one. -/
theorem mem_entries_ofList {k : κ} {v : α} {l : List (κ × α)} :
    (k, v) ∈ (ofList l).entries ↔
      ∃ before after, l = before ++ (k, v) :: after ∧ ∀ e ∈ after, e.1 ≠ k := by
  rw [mem_entries, get?_ofList, lookup_eq_some_iff]
  constructor
  · rintro ⟨before, after, h, hb⟩
    refine ⟨after.reverse, before.reverse, ?_, by simpa using hb⟩
    simpa using congrArg List.reverse h
  · rintro ⟨before, after, rfl, hb⟩
    exact ⟨after.reverse, before.reverse, by simp, by simpa using hb⟩

theorem exists_mem_entries_ofList {k : κ} {l : List (κ × α)} :
    (∃ e ∈ (ofList l).entries, e.1 = k) ↔ ∃ e ∈ l, e.1 = k := by
  have hkey : (∃ e ∈ (ofList l).entries, e.1 = k) ↔ ∃ v, lookup k l.reverse = some v := by
    simp only [← get?_ofList, ← mem_entries]
    constructor
    · rintro ⟨⟨_, v⟩, he, rfl⟩
      exact ⟨v, he⟩
    · rintro ⟨v, he⟩
      exact ⟨(k, v), he, rfl⟩
  rw [hkey, ← Option.ne_none_iff_exists', Ne, lookup_eq_none_iff]
  simp

end EncoderSetup.SortedMap

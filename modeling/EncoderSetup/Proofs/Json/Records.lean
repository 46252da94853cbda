import EncoderSetup.Proofs.Json.Typed
import EncoderSetup.Proofs.MappedValues
import Mathlib.Data.List.Nodup

/-!
# Records and maps that are read back

A written record is an object whose names are distinct: it is read with each field under its name
(`record?_ofMembers_bind`). A map is written with the names of its keys, and read back as itself
where reading undoes the writing of a key and of a value (`map?_ofMembers`).
-/

namespace EncoderSetup.Json

@[simp] theorem uint32?_ofNat (w : UInt32) : (ofNat w.toNat).uint32? = some w :=
  uint32?_eq_some_iff.mpr ⟨w.toNat, rfl, Nat.le_of_lt_succ w.toNat_lt, UInt32.ofNat_toNat⟩

theorem length_filter_name_le_one {given : List (String × Json)}
    (h : (given.map Prod.fst).Nodup) (field : String) :
    (given.filter (·.1 == field)).length ≤ 1 := by
  have hcount := List.nodup_iff_count_le_one.mp h field
  rwa [List.count, List.countP_map, List.countP_eq_length_filter] at hcount

theorem lookup_eq_some_of_mem {given : List (String × Json)} (h : (given.map Prod.fst).Nodup)
    {m : String × Json} (hm : m ∈ given) : given.lookup m.1 = some m.2 := by
  induction given with
  | nil => cases hm
  | cons d rest ih =>
      obtain ⟨hd, hrest⟩ := List.nodup_cons.mp h
      obtain rfl | hm := List.mem_cons.mp hm
      · exact List.lookup_cons_self
      · have hne : m.1 ≠ d.1 := fun heq => hd (heq ▸ List.mem_map_of_mem hm)
        rw [List.lookup_cons, beq_false_of_ne hne]
        exact ih hrest hm

/-- Members with other names would be skipped; a repeated name would be refused. -/
theorem record?_ofMembers {given : List (String × Json)} (h : (given.map Prod.fst).Nodup)
    (fields : List String) :
    (ofMembers given).record? fields = some fun field => given.lookup field := by
  have hgiven : (ofMembers given).members? = some given := members?_eq_some_iff.mpr rfl
  have honce : (fields.all fun field => (given.filter (·.1 == field)).length ≤ 1) = true := by
    rw [List.all_eq_true]
    intro field _
    exact decide_eq_true (length_filter_name_le_one h field)
  change ((ofMembers given).members?.bind fun given => _) = _
  rw [hgiven, Option.bind_some, if_pos honce]

/-- A reader of records accepts what is written when it does so with every member as a field. -/
theorem record?_ofMembers_bind {α : Type} {given : List (String × Json)} {fields : List String}
    {read : Record → Option α} {a : α} (h : (given.map Prod.fst).Nodup)
    (hread : ∀ r : Record, (∀ m ∈ given, r m.1 = some m.2) → read r = some a) :
    ((ofMembers given).record? fields).bind read = some a := by
  rw [record?_ofMembers h, Option.bind_some]
  exact hread _ fun m hm => lookup_eq_some_of_mem h hm

theorem map?_ofMembers {κ α : Type} [Ord κ] [Std.TransOrd κ] [Std.LawfulEqOrd κ]
    {key? : String → Option κ} {read? : Json → Option α} {name : κ → String} {write : α → Json}
    (hkey : ∀ k, key? (name k) = some k) (hread : ∀ a, read? (write a) = some a)
    (m : SortedMap κ α) :
    (ofMembers (m.entries.map fun e => (name e.1, write e.2))).map? key? read? = some m := by
  refine map?_eq_some_iff.mpr ⟨_, m.entries, rfl, ?_, SortedMap.ofList_entries m⟩
  rw [List.forall₂_map_left_iff, List.forall₂_same]
  intro e _
  exact ⟨hkey e.1, hread e.2⟩

/-- An absent value is written as null, so no value may be read from it. -/
theorem nullable?_ofOption {α : Type} {read? : Json → Option α} {write : α → Json}
    (hread : ∀ a, read? (write a) = some a) (hnull : read? .null = none) (o : Option α) :
    nullable? read? (ofOption write o) = some o := by
  cases o with
  | none => rfl
  | some a =>
      change nullable? read? (write a) = _
      unfold nullable?
      split
      · next h =>
          have hsome := hread a
          rw [h, hnull] at hsome
          cases hsome
      · rw [hread, Option.map_some]

end EncoderSetup.Json

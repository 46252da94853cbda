import EncoderSetup.Json.Read
import Mathlib.Data.List.Forall2

/-!
# When a value is read from JSON

Each reader as an equivalence: which JSON values it accepts, and as what.
-/

namespace EncoderSetup.Json

theorem mapM_eq_some_iff {α β : Type} {f : α → Option β} {l : List α} {m : List β} :
    l.mapM f = some m ↔ List.Forall₂ (fun a b => f a = some b) l m := by
  induction l generalizing m with
  | nil => simp [eq_comm]
  | cons a l ih =>
      simp only [List.mapM_cons, Option.bind_eq_bind, Option.bind_eq_some_iff, ih,
        List.forall₂_cons_left_iff]
      constructor
      · rintro ⟨b, hb, m, hm, h⟩
        exact ⟨b, m, hb, hm, (Option.some.inj h).symm⟩
      · rintro ⟨b, m, hb, hm, rfl⟩
        exact ⟨b, hb, m, hm, rfl⟩

theorem int?_eq_some_iff {low high n : Int} {j : Json} :
    j.int? low high = some n ↔ j = .number (some n) ∧ low ≤ n ∧ n ≤ high := by
  unfold int?
  split
  · next m =>
      by_cases h : low ≤ m ∧ m ≤ high
      · rw [if_pos h]
        constructor
        · intro hn
          cases hn
          exact ⟨rfl, h⟩
        · rintro ⟨hn, -⟩
          cases hn
          rfl
      · rw [if_neg h]
        refine ⟨nofun, ?_⟩
        rintro ⟨hn, hb⟩
        cases hn
        exact absurd hb h
  · next hne => exact ⟨nofun, fun h => absurd h.1 (hne n)⟩

theorem map_int?_eq_some_iff {α : Type} {f : Int → α} {low high : Int} {j : Json} {a : α} :
    (j.int? low high).map f = some a ↔
      ∃ n, j = .number (some n) ∧ low ≤ n ∧ n ≤ high ∧ f n = a := by
  simp only [Option.map_eq_some_iff, int?_eq_some_iff, and_assoc]

theorem map_toNat_int?_eq_some_iff {α : Type} {f : Nat → α} {high : Nat} {j : Json} {a : α} :
    (j.int? 0 high).map (fun n => f n.toNat) = some a ↔
      ∃ n : Nat, j = .number (some n) ∧ n ≤ high ∧ f n = a := by
  rw [map_int?_eq_some_iff]
  constructor
  · rintro ⟨n, rfl, hn, hle, rfl⟩
    obtain ⟨n, rfl⟩ := Int.eq_ofNat_of_zero_le hn
    exact ⟨n, rfl, by omega, rfl⟩
  · rintro ⟨n, rfl, hle, rfl⟩
    exact ⟨n, rfl, by omega, by omega, rfl⟩

theorem uint8?_eq_some_iff {j : Json} {w : UInt8} :
    j.uint8? = some w ↔ ∃ n : Nat, j = .number (some n) ∧ n ≤ 0xff ∧ .ofNat n = w :=
  map_toNat_int?_eq_some_iff

theorem uint32?_eq_some_iff {j : Json} {w : UInt32} :
    j.uint32? = some w ↔ ∃ n : Nat, j = .number (some n) ∧ n ≤ 0xffffffff ∧ .ofNat n = w :=
  map_toNat_int?_eq_some_iff

theorem uint64?_eq_some_iff {j : Json} {w : UInt64} :
    j.uint64? = some w ↔
      ∃ n : Nat, j = .number (some n) ∧ n ≤ 0xffffffffffffffff ∧ .ofNat n = w :=
  map_toNat_int?_eq_some_iff

theorem list?_eq_some_iff {α : Type} {read? : Json → Option α} {j : Json} {l : List α} :
    j.list? read? = some l ↔
      ∃ elements, j = .array elements ∧ List.Forall₂ (fun e a => read? e = some a) elements l := by
  cases j <;> simp [list?, mapM_eq_some_iff]

/-- All names of an object have a text exactly when it is one of named members. -/
theorem members?_eq_some_iff {j : Json} {l : List (String × Json)} :
    j.members? = some l ↔ j = .ofMembers l := by
  cases j with
  | object members =>
      have hname : ∀ (m : Option String × Json) (p : String × Json),
          m.1.map (·, m.2) = some p ↔ m = (some p.1, p.2) := by
        rintro ⟨_ | name, j⟩ ⟨name', j'⟩ <;> simp
      simp only [members?, mapM_eq_some_iff, hname, ofMembers, Json.object.injEq]
      rw [← List.forall₂_map_right_iff (f := fun p : String × Json => (some p.1, p.2)),
        List.forall₂_eq_eq_eq]
  | _ => simp [members?, ofMembers]

/-- The entries of a map, in the order of the members that they are read from. -/
theorem map?_eq_some_iff {κ α : Type} [Ord κ] [Std.TransOrd κ] [Std.LawfulEqOrd κ]
    {key? : String → Option κ} {read? : Json → Option α} {j : Json} {m : SortedMap κ α} :
    j.map? key? read? = some m ↔ ∃ members entries, j = .ofMembers members ∧
      List.Forall₂ (fun f e => key? f.1 = some e.1 ∧ read? f.2 = some e.2) members entries ∧
      .ofList entries = m := by
  have hentry : ∀ (f : String × Json) (e : κ × α),
      (do return (← key? f.1, ← read? f.2) : Option (κ × α)) = some e ↔
        key? f.1 = some e.1 ∧ read? f.2 = some e.2 := by
    rintro f ⟨k, a⟩
    simp [Option.bind_eq_some_iff]
  unfold map?
  constructor
  · intro h
    obtain ⟨members, hm, h⟩ := Option.bind_eq_some_iff.mp h
    obtain ⟨entries, he, h⟩ := Option.bind_eq_some_iff.mp h
    have hall := (mapM_eq_some_iff.mp he).imp fun f e => (hentry f e).mp
    exact ⟨members, entries, members?_eq_some_iff.mp hm, hall, Option.some.inj h⟩
  · rintro ⟨members, entries, hm, hall, rfl⟩
    refine Option.bind_eq_some_iff.mpr ⟨members, members?_eq_some_iff.mpr hm, ?_⟩
    refine Option.bind_eq_some_iff.mpr ⟨entries, mapM_eq_some_iff.mpr ?_, rfl⟩
    exact hall.imp fun f e => (hentry f e).mpr

/-- A map with names as keys, by what its values look like. -/
theorem map?_some_eq_some_iff {α : Type} {read? : Json → Option α} {fits : α → Json → Prop}
    (hread : ∀ {j a}, read? j = some a ↔ fits a j) {j : Json} {m : SortedMap String α} :
    j.map? some read? = some m ↔ ∃ entries : List (String × α),
      (∃ members, j = .ofMembers members ∧
        List.Forall₂ (fun e f => f.1 = e.1 ∧ fits e.2 f.2) entries members) ∧
      .ofList entries = m := by
  simp only [map?_eq_some_iff, hread, Option.some.injEq]
  constructor
  · rintro ⟨members, entries, hm, hall, rfl⟩
    exact ⟨entries, ⟨members, hm, hall.flip⟩, rfl⟩
  · rintro ⟨entries, ⟨members, hm, hall⟩, rfl⟩
    exact ⟨members, entries, hm, hall.flip, rfl⟩

theorem tagged?_eq_some_iff {j content : Json} {name : String} :
    j.tagged? = some (name, content) ↔ j = .object [(some name, content)] := by
  unfold tagged?
  split
  · simp
  · next hne => exact ⟨nofun, fun h => absurd h (hne name content)⟩

/-- A member of an enumeration: its name, or an object of its name and null. -/
theorem enumerated?_eq_some_iff {α : Type} [Enumeration α] {j : Json} {a : α} :
    enumerated? α j = some a ↔ j = .string (some (Enumeration.name a)) ∨
      j = .object [(some (Enumeration.name a), .null)] := by
  unfold enumerated?
  split
  · rw [Enumeration.ofName?_eq_some_iff]
    simp [eq_comm]
  · rw [Enumeration.ofName?_eq_some_iff]
    simp [eq_comm]
  · next hstring hobject =>
      refine ⟨nofun, ?_⟩
      rintro (rfl | rfl)
      · exact absurd rfl (hstring _)
      · exact absurd rfl (hobject _)

end EncoderSetup.Json

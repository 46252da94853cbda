/-!
# Named enumerations

A closed set of members, each with its own name, listed in declaration order. Names are read back
exactly (`ofName?_eq_some_iff`).
-/

namespace EncoderSetup

/-- A finite type whose members have distinct names. -/
class Enumeration (α : Type) where
  /-- Every member, in declaration order. -/
  members : List α
  name : α → String
  mem_members : ∀ a, a ∈ members
  nodup_names : (members.map name).Nodup

namespace Enumeration

def ofName? (α : Type) [Enumeration α] (s : String) : Option α :=
  (members : List α).find? fun a => name a == s

variable {α : Type} [Enumeration α]

theorem eq_of_name_eq_of_mem {l : List α} (hl : (l.map name).Nodup) {a b : α} (ha : a ∈ l)
    (hb : b ∈ l) (h : name a = name b) : a = b := by
  induction l with
  | nil => cases ha
  | cons c l ih =>
      rw [List.map_cons, List.nodup_cons] at hl
      rcases List.mem_cons.mp ha with rfl | ha'
      · rcases List.mem_cons.mp hb with rfl | hb'
        · rfl
        · exact absurd (h ▸ List.mem_map_of_mem hb') hl.1
      · rcases List.mem_cons.mp hb with rfl | hb'
        · exact absurd (h ▸ List.mem_map_of_mem ha') hl.1
        · exact ih hl.2 ha' hb'

theorem name_injective {a b : α} (h : name a = name b) : a = b :=
  eq_of_name_eq_of_mem nodup_names (mem_members a) (mem_members b) h

theorem ofName?_eq_some_iff {s : String} {a : α} : ofName? α s = some a ↔ name a = s := by
  constructor
  · intro h
    simpa using List.find?_some h
  · intro h
    subst h
    cases hf : ofName? α (name a) with
    | none =>
        have hn := List.find?_eq_none.mp hf a (mem_members a)
        simp at hn
    | some b =>
        have hb : name b = name a := by simpa using List.find?_some hf
        rw [name_injective hb]

@[simp] theorem ofName?_name (a : α) : ofName? α (name a) = some a :=
  ofName?_eq_some_iff.mpr rfl

end Enumeration

end EncoderSetup

import EncoderSetup.Proofs.Attribute.Invariant
import EncoderSetup.Proofs.Json.Nesting
import EncoderSetup.Proofs.Json.Typed

/-!
# The format of a profile

`IsProfile entries text` is the format: one JSON object whose members are names and values, each
value an object of exactly one member, its kind, with an integer in the range of the kind or an
array of bytes. The reader accepts exactly the texts of this format without an empty name, and the
last of equal names counts. An empty name is the only thing that it refuses as misuse; whatever else
a text is wrong in makes it malformed.
-/

namespace EncoderSetup

namespace Value

/-- What stands under the kind of a value: an integer in range, or an array of bytes. -/
inductive HasContent : Value → Json → Prop where
  | s32 {n : Int} : -0x80000000 ≤ n → n ≤ 0x7fffffff →
      HasContent (s32 (.ofInt n)) (.number (some n))
  | u32 {n : Nat} : n ≤ 0xffffffff → HasContent (u32 (.ofNat n)) (.number (some n))
  | s64 {n : Int} : -0x8000000000000000 ≤ n → n ≤ 0x7fffffffffffffff →
      HasContent (s64 (.ofInt n)) (.number (some n))
  | u64 {n : Nat} : n ≤ 0xffffffffffffffff → HasContent (u64 (.ofNat n)) (.number (some n))
  | ptr {n : Nat} : n ≤ 0xffffffffffffffff → HasContent (ptr ⟨.ofNat n⟩) (.number (some n))
  | st {numbers : List Nat} : (∀ n ∈ numbers, n ≤ 0xff) →
      HasContent (st (numbers.map UInt8.ofNat))
        (.array (numbers.map fun n : Nat => .number (some n)))

/-- An object of exactly one member, the kind of the value. -/
def HasForm (v : Value) (j : Json) : Prop :=
  ∃ content, j = .object [(some v.kind.name, content)] ∧ v.HasContent content

theorem list?_uint8?_eq_some_iff {j : Json} {bytes : List UInt8} :
    j.list? Json.uint8? = some bytes ↔
      ∃ numbers : List Nat, (∀ n ∈ numbers, n ≤ 0xff) ∧
        j = .array (numbers.map fun n : Nat => .number (some n)) ∧
        bytes = numbers.map UInt8.ofNat := by
  simp only [Json.list?_eq_some_iff, Json.uint8?_eq_some_iff]
  constructor
  · rintro ⟨elements, rfl, h⟩
    induction h with
    | nil => exact ⟨[], by simp, rfl, rfl⟩
    | cons hn _ ih =>
        obtain ⟨n, rfl, hle, rfl⟩ := hn
        obtain ⟨numbers, hall, he, rfl⟩ := ih
        cases he
        exact ⟨n :: numbers, List.forall_mem_cons.mpr ⟨hle, hall⟩, rfl, rfl⟩
  · rintro ⟨numbers, hall, rfl, rfl⟩
    refine ⟨_, rfl, ?_⟩
    rw [List.forall₂_map_left_iff, List.forall₂_map_right_iff, List.forall₂_same]
    exact fun n hn => ⟨n, rfl, hall n hn, rfl⟩

theorem ofContent?_eq_some_iff {kind : Kind} {content : Json} {v : Value} :
    ofContent? kind content = some v ↔ v.kind = kind ∧ v.HasContent content := by
  constructor
  · intro h
    cases kind with
    | s32 | s64 =>
        obtain ⟨_, hw, rfl⟩ := Option.map_eq_some_iff.mp h
        obtain ⟨n, rfl, hlow, hhigh, rfl⟩ := Json.map_int?_eq_some_iff.mp hw
        exact ⟨rfl, by constructor <;> assumption⟩
    | u32 =>
        obtain ⟨_, hw, rfl⟩ := Option.map_eq_some_iff.mp h
        obtain ⟨n, rfl, hn, rfl⟩ := Json.uint32?_eq_some_iff.mp hw
        exact ⟨rfl, .u32 hn⟩
    | u64 =>
        obtain ⟨_, hw, rfl⟩ := Option.map_eq_some_iff.mp h
        obtain ⟨n, rfl, hn, rfl⟩ := Json.uint64?_eq_some_iff.mp hw
        exact ⟨rfl, .u64 hn⟩
    | ptr =>
        obtain ⟨_, hw, rfl⟩ := Option.map_eq_some_iff.mp h
        obtain ⟨n, rfl, hn, rfl⟩ := Json.uint64?_eq_some_iff.mp hw
        exact ⟨rfl, .ptr hn⟩
    | st =>
        obtain ⟨_, hw, rfl⟩ := Option.map_eq_some_iff.mp h
        obtain ⟨numbers, hn, rfl, rfl⟩ := list?_uint8?_eq_some_iff.mp hw
        exact ⟨rfl, .st hn⟩
  · rintro ⟨rfl, h⟩
    cases h with
    | s32 hlow hhigh | s64 hlow hhigh =>
        exact Option.map_eq_some_iff.mpr
          ⟨_, Json.map_int?_eq_some_iff.mpr ⟨_, rfl, hlow, hhigh, rfl⟩, rfl⟩
    | u32 hn =>
        exact Option.map_eq_some_iff.mpr ⟨_, Json.uint32?_eq_some_iff.mpr ⟨_, rfl, hn, rfl⟩, rfl⟩
    | u64 hn | ptr hn =>
        exact Option.map_eq_some_iff.mpr ⟨_, Json.uint64?_eq_some_iff.mpr ⟨_, rfl, hn, rfl⟩, rfl⟩
    | st hn =>
        exact Option.map_eq_some_iff.mpr ⟨_, list?_uint8?_eq_some_iff.mpr ⟨_, hn, rfl, rfl⟩, rfl⟩

theorem ofJson?_eq_some_iff {j : Json} {v : Value} : ofJson? j = some v ↔ v.HasForm j := by
  simp only [ofJson?, Option.bind_eq_bind, Option.bind_eq_some_iff, Prod.exists,
    Json.tagged?_eq_some_iff, Enumeration.ofName?_eq_some_iff, ofContent?_eq_some_iff, HasForm]
  constructor
  · rintro ⟨_, content, rfl, _, rfl, rfl, h⟩
    exact ⟨content, rfl, h⟩
  · rintro ⟨content, rfl, h⟩
    exact ⟨_, content, rfl, _, rfl, rfl, h⟩

end Value

/-- An object whose members are these names and values, in this order. -/
def HasEntries (j : Json) (entries : List (String × Value)) : Prop :=
  ∃ members, j = .ofMembers members ∧
    List.Forall₂ (fun e m => m.1 = e.1 ∧ e.2.HasForm m.2) entries members

/-- A text that is a profile, with the names and values of its members in order. -/
def IsProfile (entries : List (String × Value)) (text : String) : Prop :=
  ∃ j, Json.IsText j text ∧ HasEntries j entries

theorem IsProfile.append_newline {entries : List (String × Value)} {text : String}
    (h : IsProfile entries text) : IsProfile entries (text ++ "\n") := by
  obtain ⟨j, hj, hentries⟩ := h
  exact ⟨j, hj.append_newline, hentries⟩

theorem profileEntries?_eq_some_iff {j : Json} {m : SortedMap String Value} :
    profileEntries? j = some m ↔ ∃ entries, HasEntries j entries ∧ .ofList entries = m :=
  Json.map?_some_eq_some_iff Value.ofJson?_eq_some_iff

namespace Store

variable {flags : DebugFlags} {s s' : Store} {name : String}

theorem gives_ofEntries (m : SortedMap String Value) : Checked.Gives (ofEntries m.entries)
    (if ∃ e ∈ m.entries, e.1 = "" then .error (.invalidArgument .emptyAttributeName)
      else .ok ⟨m, .empty⟩) := by
  have hm : m.entries.foldl (fun s e => s.put e.1 e.2) empty = ⟨m, .empty⟩ :=
    (putAll_of_pending_empty .empty m.entries).trans
      (congrArg (Store.mk · .empty) (SortedMap.ofList_entries m))
  rw [← hm]
  exact Session.gives_final_forM (fun e s => gives_setValue e.1 e.2 s) m.entries empty

/-- What a document gives: the store of its attributes, unless one of them has the empty name. -/
def profileResult (j : Option Json) : Except SetupError Store :=
  match j.bind profileEntries? with
  | none => .error Document.profile.malformed
  | some m =>
      if ∃ e ∈ m.entries, e.1 = "" then .error (.invalidArgument .emptyAttributeName)
      else .ok ⟨m, .empty⟩

theorem gives_ofProfile (j : Option Json) : Checked.Gives (ofProfile j) (profileResult j) := by
  unfold ofProfile profileResult
  cases j.bind profileEntries? with
  | none => exact Checked.gives_bind_of_error (Checked.gives_throw rfl)
  | some m => exact Checked.gives_bind (Checked.gives_pure m) (gives_ofEntries m)

/-- What loading a profile from a file gives. -/
def fileResult (path : String) (content : FileContent) : Except SetupError Store :=
  Document.profile.load (fun bytes => profileResult (Json.ofBytes? bytes)) path content

theorem gives_ofProfileFile (path : String) (content : FileContent) :
    Checked.Gives (ofProfileFile path content) (fileResult path content) := by
  cases content with
  | bytes bytes => exact gives_ofProfile _
  | unreadable => exact Checked.gives_throw rfl
  | unopened reason => exact Checked.gives_throw rfl

theorem pending_of_profileResult {j : Option Json} (h : profileResult j = .ok s) :
    s.pending = .empty := by
  unfold profileResult at h
  split at h
  · cases h
  · split at h
    · cases h
    · rw [← Except.ok.inj h]

theorem pending_of_fileResult {path : String} {content : FileContent}
    (h : fileResult path content = .ok s) : s.pending = .empty := by
  cases content with
  | bytes bytes => exact pending_of_profileResult h
  | unreadable => cases h
  | unopened reason => cases h

theorem ofText?_bind_eq_some_iff {text : String} {m : SortedMap String Value} :
    (Json.ofText? text).bind profileEntries? = some m ↔
      ∃ entries, IsProfile entries text ∧ .ofList entries = m := by
  simp only [Option.bind_eq_some_iff, Json.ofText?_eq_some_iff, profileEntries?_eq_some_iff]
  constructor
  · rintro ⟨j, hj, entries, h, rfl⟩
    exact ⟨entries, ⟨j, hj, h⟩, rfl⟩
  · rintro ⟨entries, ⟨j, hj, h⟩, rfl⟩
    exact ⟨j, hj, entries, h, rfl⟩

variable {text : String} {entries : List (String × Value)} {o : Except SetupError Store}

theorem profileResult_of_named (h : IsProfile entries text) (hn : ∀ e ∈ entries, e.1 ≠ "") :
    profileResult (Json.ofText? text) = .ok ⟨.ofList entries, .empty⟩ := by
  have hm := ofText?_bind_eq_some_iff.mpr ⟨entries, h, rfl⟩
  rw [profileResult, hm]
  refine if_neg fun he => ?_
  obtain ⟨e, he, h0⟩ := SortedMap.exists_mem_entries_ofList.mp he
  exact hn e he h0

theorem profileResult_of_emptyName (h : IsProfile entries text) (he : ∃ e ∈ entries, e.1 = "") :
    profileResult (Json.ofText? text) = .error (.invalidArgument .emptyAttributeName) := by
  have hm := ofText?_bind_eq_some_iff.mpr ⟨entries, h, rfl⟩
  rw [profileResult, hm]
  exact if_pos (SortedMap.exists_mem_entries_ofList.mpr he)

theorem profileResult_of_not_isProfile (h : ∀ entries, ¬ IsProfile entries text) :
    profileResult (Json.ofText? text) = .error (.malformed (.document .profile)) := by
  have hm : (Json.ofText? text).bind profileEntries? = none :=
    Option.eq_none_iff_forall_ne_some.mpr fun m hm => by
      obtain ⟨entries, hp, -⟩ := ofText?_bind_eq_some_iff.mp hm
      exact h entries hp
  rw [profileResult, hm]
  rfl

theorem yields_of_named (h : IsProfile entries text) (hn : ∀ e ∈ entries, e.1 ≠ "") :
    (ofProfileText text).run.Yields flags o ↔ o = .ok ⟨.ofList entries, .empty⟩ := by
  have hgives := gives_ofProfile (Json.ofText? text)
  rw [profileResult_of_named h hn] at hgives
  exact hgives.yields_ok

theorem yields_of_emptyName (h : IsProfile entries text) (he : ∃ e ∈ entries, e.1 = "") :
    (ofProfileText text).run.Yields flags o ↔ flags.contains .abort = false ∧
      o = .error (.invalidArgument .emptyAttributeName) := by
  have hgives := gives_ofProfile (Json.ofText? text)
  rw [profileResult_of_emptyName h he] at hgives
  have hfatal : ¬ Traced.Fatal flags (.invalidArgument .emptyAttributeName) ↔
      flags.contains .abort = false := by
    simp [Traced.Fatal, SetupError.isContractViolation]
  rw [ofProfileText, hgives.yields_error, hfatal]

theorem yields_of_not_isProfile (h : ∀ entries, ¬ IsProfile entries text) :
    (ofProfileText text).run.Yields flags o ↔ o = .error (.malformed (.document .profile)) := by
  have hgives := gives_ofProfile (Json.ofText? text)
  rw [profileResult_of_not_isProfile h] at hgives
  have hfatal : ¬ Traced.Fatal flags (.malformed (.document .profile)) := by
    simp [Traced.Fatal, SetupError.isContractViolation]
  rw [ofProfileText, hgives.yields_error]
  exact and_iff_right hfatal

/-- A profile without an empty name, one with an empty name, or no profile at all. -/
theorem profile_cases (text : String) :
    (∃ entries, IsProfile entries text ∧ ∀ e ∈ entries, e.1 ≠ "") ∨
      (∃ entries, IsProfile entries text ∧ ∃ e ∈ entries, e.1 = "") ∨
        ∀ entries, ¬ IsProfile entries text := by
  by_cases h : ∃ entries, IsProfile entries text
  · obtain ⟨entries, h⟩ := h
    by_cases he : ∃ e ∈ entries, e.1 = ""
    · exact Or.inr (Or.inl ⟨entries, h, he⟩)
    · exact Or.inl ⟨entries, h, fun e hm h0 => he ⟨e, hm, h0⟩⟩
  · exact Or.inr (Or.inr fun entries hp => h ⟨entries, hp⟩)

/-- A text is accepted exactly when it is a profile without an empty name. The store then holds the
last value of each name, and nothing else. A profile with an empty name is refused as misuse, which
the debug word can make fatal, and any other text is malformed. -/
theorem ofProfileText_accepts_exactly_profiles (text : String) (flags : DebugFlags) :
    ((∃ s, (ofProfileText text).run.Yields flags (.ok s)) ↔
      ∃ entries, IsProfile entries text ∧ ∀ e ∈ entries, e.1 ≠ "") ∧
    (∀ entries s, IsProfile entries text → (ofProfileText text).run.Yields flags (.ok s) →
      s.pending = .empty ∧ ∀ k v, (k, v) ∈ s.entries ↔
        ∃ before after, entries = before ++ (k, v) :: after ∧ ∀ e ∈ after, e.1 ≠ k) ∧
    ∀ e, (ofProfileText text).run.Yields flags (.error e) ↔
      ((∃ entries, IsProfile entries text ∧ ∃ m ∈ entries, m.1 = "") ∧
        flags.contains .abort = false ∧ e = .invalidArgument .emptyAttributeName) ∨
      (∀ entries, ¬ IsProfile entries text) ∧ e = .malformed (.document .profile) := by
  refine ⟨⟨?_, ?_⟩, fun entries s hp hs => ?_, fun e => ⟨fun h => ?_, ?_⟩⟩
  · rintro ⟨s, hs⟩
    rcases profile_cases text with h | ⟨entries, hp, he⟩ | hno
    · exact h
    · cases ((yields_of_emptyName hp he).mp hs).2
    · cases (yields_of_not_isProfile hno).mp hs
  · rintro ⟨entries, hp, hn⟩
    exact ⟨_, (yields_of_named hp hn).mpr rfl⟩
  · by_cases he : ∃ e ∈ entries, e.1 = ""
    · cases ((yields_of_emptyName hp he).mp hs).2
    · obtain rfl := Except.ok.inj ((yields_of_named hp fun e hm h0 => he ⟨e, hm, h0⟩).mp hs)
      exact ⟨rfl, fun k v => SortedMap.mem_entries_ofList⟩
  · rcases profile_cases text with ⟨entries, hp, hn⟩ | ⟨entries, hp, he⟩ | hno
    · cases (yields_of_named hp hn).mp h
    · obtain ⟨hf, he'⟩ := (yields_of_emptyName hp he).mp h
      exact Or.inl ⟨⟨entries, hp, he⟩, hf, Except.error.inj he'⟩
    · exact Or.inr ⟨hno, Except.error.inj ((yields_of_not_isProfile hno).mp h)⟩
  · rintro (⟨⟨entries, hp, he⟩, hf, rfl⟩ | ⟨hno, rfl⟩)
    · exact (yields_of_emptyName hp he).mpr ⟨hf, rfl⟩
    · exact (yields_of_not_isProfile hno).mpr rfl

end Store

end EncoderSetup

import EncoderSetup.Proofs.Attribute.ProfileFormat
import EncoderSetup.Proofs.Json.Rendering

/-!
# Profiles that are written and read back

Every store writes a text of the profile format, whatever its names and values are, and reading it
gives the committed attributes back (`yields_profileText`). Pending edits do not show in the text,
so a store that was read from a text has all of itself written.
-/

namespace EncoderSetup

namespace Value

theorem hasContent_st (bytes : List UInt8) :
    (st bytes).HasContent (.array (bytes.map fun b => .ofNat b.toNat)) := by
  have hle : ∀ n ∈ bytes.map UInt8.toNat, n ≤ 0xff := by
    intro n hn
    obtain ⟨b, -, rfl⟩ := List.mem_map.mp hn
    exact Nat.le_of_lt_succ b.toNat_lt
  have h := HasContent.st hle
  rw [List.map_map, List.map_map] at h
  simpa [Function.comp_def, Json.ofNat] using h

/-- What is written of a value is a form of it. -/
theorem hasForm_toJson (v : Value) : v.HasForm v.toJson := by
  cases v with
  | s32 w =>
      have h := HasContent.s32 w.le_toInt (Int.le_of_lt_add_one w.toInt_lt)
      rw [Int32.ofInt_toInt] at h
      exact ⟨_, rfl, h⟩
  | u32 w =>
      have h := HasContent.u32 (Nat.le_of_lt_succ w.toNat_lt)
      rw [UInt32.ofNat_toNat] at h
      exact ⟨_, rfl, h⟩
  | s64 w =>
      have h := HasContent.s64 w.le_toInt (Int.le_of_lt_add_one w.toInt_lt)
      rw [Int64.ofInt_toInt] at h
      exact ⟨_, rfl, h⟩
  | u64 w =>
      have h := HasContent.u64 (Nat.le_of_lt_succ w.toNat_lt)
      rw [UInt64.ofNat_toNat] at h
      exact ⟨_, rfl, h⟩
  | ptr a =>
      have h := HasContent.ptr (Nat.le_of_lt_succ a.word.toNat_lt)
      rw [UInt64.ofNat_toNat] at h
      exact ⟨_, rfl, h⟩
  | st bytes => exact ⟨_, rfl, hasContent_st bytes⟩

end Value

namespace Store

/-- Every store writes a profile: its committed attributes in the order of names. -/
theorem isProfile_profileText (s : Store) : IsProfile s.entries s.profileText := by
  refine ⟨s.toProfile, Json.ofText?_eq_some_iff.mp (Json.ofText?_pretty s.toProfile), _, rfl, ?_⟩
  rw [List.forall₂_map_right_iff, List.forall₂_same]
  exact fun e _ => ⟨rfl, e.2.hasForm_toJson⟩

theorem profileText_congr {s t : Store} (h : s.committed = t.committed) :
    s.profileText = t.profileText := by
  rw [profileText, profileText, toProfile, toProfile, entries, entries, h]

variable {s : Store} {flags : DebugFlags} {o : Except SetupError Store}

/-- Reading back the entries of a store gives the store without its pending edits. -/
theorem profileResult_of_entries {text : String} (h : s.committed.get? "" = none)
    (hp : IsProfile s.entries text) : profileResult (Json.ofText? text) = .ok s.discard := by
  have hn : ∀ e ∈ s.entries, e.1 ≠ "" := by
    rintro ⟨name, v⟩ he rfl
    rw [SortedMap.mem_entries.mp he] at h
    cases h
  rw [profileResult_of_named hp hn, entries, SortedMap.ofList_entries]
  rfl

theorem yields_profileText (h : s.committed.get? "" = none) :
    (ofProfileText s.profileText).run.Yields flags o ↔ o = .ok s.discard := by
  have hgives := gives_ofProfile (Json.ofText? s.profileText)
  rw [profileResult_of_entries h s.isProfile_profileText] at hgives
  exact hgives.yields_ok

theorem pending_of_yields_ofProfileText {text : String}
    (h : (ofProfileText text).run.Yields flags (.ok s)) : s.pending = .empty :=
  pending_of_profileResult ((gives_ofProfile _ _ _).mp h).1.symm

/-- A reachable store writes its committed attributes and nothing of its pending edits, and what it
wrote is read back as exactly these attributes. A store that was read from a text is read back as
itself, and writes the same text again. -/
theorem profileText_round_trip (h : s.Reachable) :
    (∀ flags o s', (Call.run .profileText).Leads flags s o s' ↔
      o = .ok (.text s.profileText) ∧ s' = s) ∧
    (∀ t : Store, t.committed = s.committed → t.profileText = s.profileText) ∧
    (∀ flags, ∃ t, (∀ o, (ofProfileText s.profileText).run.Yields flags o ↔ o = .ok t) ∧
      t.entries = s.entries ∧ t.hasPending = false) ∧
    ∀ text flags, (ofProfileText text).run.Yields flags (.ok s) →
      ∀ flags', ∃ t, (∀ o, (ofProfileText s.profileText).run.Yields flags' o ↔ o = .ok t) ∧
        t = s ∧ t.profileText = s.profileText := by
  have hname := h.wellFormed.emptyName
  refine ⟨fun flags o s' => ?_, fun t => profileText_congr, fun flags => ?_, ?_⟩
  · exact Session.leads_get_bind.trans Session.leads_pure
  · exact ⟨s.discard, fun o => yields_profileText hname, rfl, rfl⟩
  · intro text flags ht flags'
    have hs : s.discard = s := by rw [discard, ← pending_of_yields_ofProfileText ht]
    exact ⟨s.discard, fun o => yields_profileText hname, hs, congrArg profileText hs⟩

theorem awkward_names_round_trip : ∃ s : Store, s.Reachable ∧ s.hasPending = true ∧
    s.entries = [("a\"\\\n", .s64 (-0x8000000000000000)), ("é", .st [0, 255])] ∧
      ∃ t, (ofProfileText s.profileText).run.Yields .clear (.ok t) ∧ t.entries = s.entries ∧
        t.hasPending = false ∧ ∀ flags o,
          (ofProfileText t.profileText).run.Yields flags o ↔ o = .ok t := by
  let calls : List Call := [.set "é" (.st [0, 255]), .set "a\"\\\n" (.s64 (-0x8000000000000000)),
    .stage "a\"\\\n" [.s64 fun n => n + 1]]
  have hrun : (Call.runAll calls .empty).Yields .clear
      ([.ok .done, .ok .done, .ok (.edits [.ok (.value (.s64 (-0x8000000000000000)))])],
        Call.afterAll calls .empty) := by rfl
  have hs := Reachable.empty.runAll hrun
  obtain ⟨-, -, hread, -⟩ := profileText_round_trip hs
  obtain ⟨t, ht, hentries, hpending⟩ := hread .clear
  have hload := (ht (.ok t)).mpr rfl
  obtain ⟨-, -, -, hagain⟩ := profileText_round_trip (.profileText hload)
  refine ⟨_, hs, by decide, by decide, t, hload, hentries, hpending, fun flags o => ?_⟩
  obtain ⟨_, hyields, rfl, -⟩ := hagain _ _ hload flags
  exact hyields o

end Store

end EncoderSetup

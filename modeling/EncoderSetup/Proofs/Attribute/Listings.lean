import EncoderSetup.Proofs.Attribute.Independence
import EncoderSetup.Proofs.Attribute.ProfileRoundTrip
import Mathlib.Data.List.Nodup

/-!
# Listings are canonical

A store lists its committed entries in the order of code points. Whatever order the entries are
found in, sorting them by name, sorting the names and collecting them into a map leave what the
store lists (`SortedMap.Enumerates`), so that no output shows the history of a store, nor what is
pending in it.
-/

namespace EncoderSetup

def codePoints (s : String) : List ℕ := s.toList.map Char.toNat

theorem codePoints_lt_of_compare {a b : String} (h : compare a b = .lt) :
    codePoints a < codePoints b := by
  have hlt : a < b := compareOfLessAndEq_eq_lt.mp h
  exact List.map_lt (fun x y hxy => UInt32.lt_iff_toNat_lt.mp hxy) (String.lt_iff.mp hlt)

/-- What sorting by key may leave of a list, by whatever method. -/
structure IsSorting {κ α : Type} [Ord κ] (key : α → κ) (l m : List α) : Prop where
  perm : m.Perm l
  sorted : m.Pairwise fun a b => (compare (key a) (key b)).isLE

/-- Elements of one key might be left in any order, but there are none. -/
theorem IsSorting.eq {κ α : Type} [Ord κ] [Std.TransOrd κ] [Std.LawfulEqOrd κ] {key : α → κ}
    {l m m' : List α} (hkeys : (l.map key).Nodup) (h : IsSorting key l m)
    (h' : IsSorting key l m') : m = m' := by
  refine List.Perm.eq_of_pairwise (fun a b ha hb hab hba => ?_) h.sorted h'.sorted
    (h.perm.trans h'.perm.symm)
  have hkey : key a = key b := Std.LawfulEqCmp.eq_of_compare (Std.OrientedCmp.isLE_antisymm hab hba)
  exact List.inj_on_of_nodup_map hkeys (h.perm.mem_iff.mp ha) (h'.perm.mem_iff.mp hb) hkey

namespace SortedMap

variable {κ α : Type} [Ord κ]

/-- The list has every entry of the map once, in any order. -/
structure Enumerates (order : List (κ × α)) (m : SortedMap κ α) : Prop where
  nodup : (order.map Prod.fst).Nodup
  mem : ∀ k v, (k, v) ∈ order ↔ m.get? k = some v

variable [Std.TransOrd κ] [Std.LawfulEqOrd κ] {m : SortedMap κ α} {order : List (κ × α)}

theorem enumerates_iff_perm : Enumerates order m ↔ m.entries.Perm order := by
  constructor
  · intro h
    refine (List.perm_ext_iff_of_nodup (nodup_keys m).of_map h.nodup.of_map).mpr fun e => ?_
    exact mem_entries.trans (h.mem e.1 e.2).symm
  · intro h
    refine ⟨(h.map Prod.fst).nodup_iff.mp (nodup_keys m), fun k v => ?_⟩
    exact h.mem_iff.symm.trans mem_entries

theorem Enumerates.isSorting_entries_iff (h : Enumerates order m) {es : List (κ × α)} :
    IsSorting Prod.fst order es ↔ es = m.entries := by
  have hentries : IsSorting Prod.fst order m.entries :=
    ⟨enumerates_iff_perm.mp h, m.sorted.imp fun hlt => by rw [hlt]; rfl⟩
  constructor
  · intro hes
    exact hes.eq h.nodup hentries
  · rintro rfl
    exact hentries

theorem Enumerates.isSorting_keys_iff (h : Enumerates order m) {ks : List κ} :
    IsSorting id (order.map Prod.fst) ks ↔ ks = m.keys := by
  have hkeys : IsSorting id (order.map Prod.fst) m.keys :=
    ⟨(enumerates_iff_perm.mp h).map _,
      List.pairwise_map.mpr (m.sorted.imp fun hlt => by rw [id, id, hlt]; rfl)⟩
  constructor
  · intro hks
    exact hks.eq (by rw [List.map_id]; exact h.nodup) hkeys
  · rintro rfl
    exact hkeys

theorem Enumerates.ofList_eq (h : Enumerates order m) : ofList order = m := by
  refine ext_get? fun k => ?_
  rw [get?_ofList]
  cases hk : m.get? k with
  | none =>
      refine lookup_eq_none_iff.mpr fun e he => ?_
      rintro rfl
      rw [(h.mem e.1 e.2).mp (List.mem_reverse.mp he)] at hk
      cases hk
  | some v =>
      have hmem : (k, v) ∈ order.reverse := List.mem_reverse.mpr ((h.mem k v).mpr hk)
      refine lookup_eq_some_of_forall ⟨_, hmem, rfl⟩ fun e he hek => ?_
      subst hek
      rw [(h.mem e.1 e.2).mp (List.mem_reverse.mp he)] at hk
      exact Option.some.inj hk

end SortedMap

namespace Store

/-- Every listing is one of the committed mapping, whatever order the entries are found in. -/
structure ListsCanonically (s : Store) : Prop where
  increasing : s.entries.Pairwise fun a b => codePoints a.1 < codePoints b.1
  nodup : s.keys.Nodup
  mem_iff : ∀ k v, (k, v) ∈ s.entries ↔ s.value? k = some v
  keys_eq : s.keys = s.entries.map Prod.fst
  sortedEntries : ∀ order, SortedMap.Enumerates order s.committed → ∀ es,
    IsSorting Prod.fst order es ↔ es = s.entries
  sortedKeys : ∀ order, SortedMap.Enumerates order s.committed → ∀ ks,
    IsSorting id (order.map Prod.fst) ks ↔ ks = s.keys
  collected : ∀ order, SortedMap.Enumerates order s.committed → .ofList order = s.committed
  determined : ∀ t : Store, (∀ k, t.value? k = s.value? k) →
    t.entries = s.entries ∧ t.keys = s.keys ∧ t.dump = s.dump ∧ t.profileText = s.profileText ∧
      ∀ stage, StageConfig.issues ⟨stage, t⟩ = StageConfig.issues ⟨stage, s⟩

theorem listsCanonically (s : Store) : s.ListsCanonically where
  increasing := s.committed.sorted.imp codePoints_lt_of_compare
  nodup := SortedMap.nodup_keys _
  mem_iff := fun _ _ => SortedMap.mem_entries
  keys_eq := rfl
  sortedEntries := fun _ h _ => h.isSorting_entries_iff
  sortedKeys := fun _ h _ => h.isSorting_keys_iff
  collected := fun _ h => h.ofList_eq
  determined := fun t h => by
    have hcommitted : t.committed = s.committed := SortedMap.ext_get? h
    refine ⟨congrArg SortedMap.entries hcommitted, congrArg SortedMap.keys hcommitted, ?_,
      profileText_congr hcommitted, fun stage => ?_⟩
    · rw [dump, dump, lines, lines, entries, entries, hcommitted]
    · rw [StageConfig.issues, StageConfig.issues, entries, entries, hcommitted]

end Store

namespace Call

/-- Calls on distinct names leave the same store in every order, and each is answered as if it were
alone; what a store lists is determined by its committed mapping. -/
theorem independent_and_listed_canonically (s : Store) :
    (∀ calls calls' : List Call, OnDistinctNames calls → calls.Perm calls' → ∀ flags : DebugFlags,
      (flags.contains .abort = false →
        ∃ answers s', (runAll calls s).Yields flags (answers, s')) ∧
      ∀ answers s', (runAll calls s).Yields flags (answers, s') →
        answers.length = calls.length ∧
          (∀ p ∈ calls.zip answers, p.1.run.Leads flags s p.2 (p.1.after s)) ∧
          ∃ answers', answers'.length = calls'.length ∧
            (runAll calls' s).Yields flags (answers', s') ∧
            (calls'.zip answers').Perm (calls.zip answers)) ∧
      s.ListsCanonically := by
  refine ⟨fun calls calls' hcalls hp flags => ⟨fun hflags => ?_, fun answers s' h => ?_⟩,
    s.listsCanonically⟩
  · obtain ⟨⟨answers, s'⟩, hrun⟩ := Session.settled_runEach settled_run calls s
    exact ⟨answers, s', hrun flags hflags⟩
  · obtain ⟨answers', h', hperm⟩ := yields_runAll_perm hcalls hp h
    exact ⟨length_of_yields_runAll h, leads_of_yields_runAll hcalls h, answers',
      length_of_yields_runAll h', h', hperm⟩

/-- A set, a halved GOP length and a read that finds nothing, in both orders. -/
theorem reversed_calls_alike :
    let s : Store := Store.empty.put "rc.gop" (.u32 60)
    let calls : List Call := [.set "chan.id" (.s32 1), .stage "rc.gop" [.u32 fun gop => gop / 2],
      .read "rc.mode" .s32]
    let left : Store := (s.put "chan.id" (.s32 1)).putPending "rc.gop" (.u32 30)
    (∃ answers, (runAll calls.reverse s).Yields .clear (answers, left) ∧
      (calls.reverse.zip answers).Perm (calls.zip [.ok .done,
        .ok (.edits [.ok (.value (.u32 60))]),
        .error (.notFound (.attributeName "rc.mode"))])) ∧
      ∀ es, IsSorting Prod.fst [("rc.gop", .u32 60), ("chan.id", .s32 1)] es →
        es = left.entries := by
  intro s calls left
  have hcalls : OnDistinctNames calls :=
    ⟨by simp [calls, key?], by decide⟩
  have horder : SortedMap.Enumerates [("rc.gop", .u32 60), ("chan.id", .s32 1)] left.committed :=
    SortedMap.enumerates_iff_perm.mpr (by decide)
  obtain ⟨-, hruns⟩ :=
    (independent_and_listed_canonically s).1 calls _ hcalls (List.reverse_perm _).symm .clear
  obtain ⟨-, -, answers, -, hrun, hperm⟩ := hruns _ left (by rfl)
  exact ⟨⟨answers, hrun, hperm⟩, fun es =>
    ((independent_and_listed_canonically left).2.sortedEntries _ horder es).mp⟩

end Call

end EncoderSetup

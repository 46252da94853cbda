import EncoderSetup.Frame.Layout
import EncoderSetup.Proofs.Diagnostic.Outcome
import EncoderSetup.Proofs.Frame.Words

/-!
# Tables without a zero

The rules that a calculator looks up, and that none of their constants is zero: what divides or
aligns in a layout is one of these. `Calculator.ofTable_eq_ok_iff` says which tables have a
calculator.
-/

namespace EncoderSetup

namespace GeometryTable

variable {t : GeometryTable} {c : Coding} {f : PixelFormat}

theorem codingRule_eq_ok_iff {r : CodingRule} :
    t.codingRule c = .ok r ↔ t.coding.get? c = some r := by
  unfold codingRule
  cases t.coding.get? c <;> simp

theorem formatRule_eq_ok_iff {r : FormatRule} :
    t.formatRule f = .ok r ↔ t.formats.get? f = some r := by
  unfold formatRule
  cases t.formats.get? f <;> simp

theorem compressionRule_eq_ok_iff {r : CompressionRule} : t.compressionRule f = .ok r ↔
    ∃ rule, t.formats.get? f = some rule ∧ rule.compression = some r := by
  unfold compressionRule
  simp only [bind_eq_ok_iff, formatRule_eq_ok_iff]
  refine exists_congr fun rule => and_congr_right fun _ => ?_
  cases rule.compression <;> simp

theorem validate_eq_ok_iff : t.validate = .ok () ↔ ∀ e ∈ t.constants, e.2 ≠ 0 := by
  unfold validate
  cases hz : t.constants.find? fun e => e.2 == 0 with
  | none => simpa using List.find?_eq_none.mp hz
  | some e =>
      have he := List.find?_some hz
      have hm := List.mem_of_find?_eq_some hz
      simp only [reduceCtorEq, false_iff, not_forall]
      exact ⟨e, hm, fun hne => hne (by simpa using he)⟩

theorem codingConstants_subset {r : CodingRule} (hc : t.coding.get? c = some r) :
    codingConstants c r ⊆ t.constants := by
  intro e he
  have hm : (c, r) ∈ t.coding.entries := SortedMap.mem_entries.mpr hc
  exact List.mem_append_left _ (List.mem_append_left _ (List.mem_flatMap.mpr ⟨_, hm, he⟩))

theorem formatConstants_subset {r : FormatRule} (hf : t.formats.get? f = some r) :
    formatConstants f r ⊆ t.constants := by
  intro e he
  have hm : (f, r) ∈ t.formats.entries := SortedMap.mem_entries.mpr hf
  exact List.mem_append_left _ (List.mem_append_right _ (List.mem_flatMap.mpr ⟨_, hm, he⟩))

theorem compressionConstants_subset {r : FormatRule} {x : CompressionRule}
    (hx : r.compression = some x) : compressionConstants f x ⊆ formatConstants f r := by
  intro e he
  refine List.mem_append_right _ (List.mem_flatMap.mpr ⟨x, ?_, he⟩)
  rw [hx]
  exact List.mem_singleton_self x

theorem blockConstants_subset : blockConstants t.blocks ⊆ t.constants :=
  fun _ he => List.mem_append_right _ he

end GeometryTable

namespace Calculator

/-- The tables that have a calculator are those without a zero, and it computes over that table. -/
theorem ofTable_eq_ok_iff {t : GeometryTable} {k : Calculator} :
    ofTable t = .ok k ↔ k.table = t := by
  obtain ⟨table, valid⟩ := k
  unfold ofTable
  split
  · rw [Except.ok.injEq, Calculator.mk.injEq]
    exact eq_comm
  · next e he =>
      constructor
      · intro h
        cases h
      · rintro rfl
        rw [valid] at he
        cases he

theorem ofTable_of_validate_error {t : GeometryTable} {e : SetupError}
    (h : t.validate = .error e) : ofTable t = .error e := by
  unfold ofTable
  split
  · next hok =>
      rw [hok] at h
      cases h
  · next e' he =>
      rw [he] at h
      cases h
      rfl

variable {k : Calculator} {c : Coding} {f : PixelFormat}

theorem constant_ne_zero {e : String × UInt32} (he : e ∈ k.table.constants) : e.2 ≠ 0 :=
  GeometryTable.validate_eq_ok_iff.mp k.valid e he

theorem coding_ne_zero {r : CodingRule} (hc : k.table.coding.get? c = some r) : r.vAlign ≠ 0 :=
  constant_ne_zero (GeometryTable.codingConstants_subset hc List.mem_cons_self)

theorem format_ne_zero {r : FormatRule} (hf : k.table.formats.get? f = some r) :
    r.lumaBits ≠ 0 ∧ r.byteAlign ≠ 0 ∧ r.planeNum ≠ 0 ∧ r.planeDen ≠ 0 := by
  have h : ∀ e ∈ GeometryTable.formatConstants f r, e.2 ≠ 0 := fun e he =>
    constant_ne_zero (GeometryTable.formatConstants_subset hf he)
  simp only [GeometryTable.formatConstants, List.forall_mem_append, List.forall_mem_cons] at h
  exact ⟨h.1.1, h.1.2.1, h.1.2.2.1, h.1.2.2.2.1⟩

theorem compression_ne_zero {r : FormatRule} {x : CompressionRule}
    (hf : k.table.formats.get? f = some r) (hx : r.compression = some x) :
    x.bitsPerPixel ≠ 0 ∧ x.ratioNum ≠ 0 ∧ x.ratioDen ≠ 0 := by
  have h : ∀ e ∈ GeometryTable.compressionConstants f x, e.2 ≠ 0 := fun e he =>
    constant_ne_zero (GeometryTable.formatConstants_subset hf
      (GeometryTable.compressionConstants_subset hx he))
  simp only [GeometryTable.compressionConstants, List.forall_mem_cons] at h
  exact ⟨h.1, h.2.1, h.2.2.1⟩

theorem blocks_ne_zero (k : Calculator) :
    let b := k.table.blocks
    b.blockWidth ≠ 0 ∧ b.blockHeight ≠ 0 ∧ b.headerBytes ≠ 0 ∧ b.hAlign ≠ 0 ∧ b.vAlign ≠ 0 ∧
      b.headerAlign ≠ 0 ∧ b.bodyAlign ≠ 0 := by
  have h : ∀ e ∈ GeometryTable.blockConstants k.table.blocks, e.2 ≠ 0 := fun e he =>
    constant_ne_zero (GeometryTable.blockConstants_subset he)
  simp only [GeometryTable.blockConstants, List.forall_mem_cons] at h
  exact ⟨h.1, h.2.1, h.2.2.1, h.2.2.2.1, h.2.2.2.2.1, h.2.2.2.2.2.1, h.2.2.2.2.2.2.1⟩

theorem supported_eq_ok_iff {compressed : Bool} {r : FormatRule} :
    k.supported c f compressed = .ok r ↔ (∃ rule, k.table.coding.get? c = some rule) ∧
      k.table.formats.get? f = some r ∧ (compressed = true → ∃ x, r.compression = some x) := by
  unfold supported
  simp only [bind_eq_ok_iff, GeometryTable.codingRule_eq_ok_iff,
    GeometryTable.formatRule_eq_ok_iff]
  cases compressed with
  | false =>
      simp only [Bool.false_eq_true, if_false, pure, Except.pure, Except.ok.injEq]
      constructor
      · rintro ⟨rule, hc, r', hf, rfl⟩
        exact ⟨⟨rule, hc⟩, hf, False.elim⟩
      · rintro ⟨⟨rule, hc⟩, hf, -⟩
        exact ⟨rule, hc, r, hf, rfl⟩
  | true =>
      simp only [if_true, bind_eq_ok_iff, GeometryTable.compressionRule_eq_ok_iff, pure,
        Except.pure, Except.ok.injEq]
      constructor
      · rintro ⟨rule, hc, r', hf, x, ⟨r₁, hf₁, hx⟩, rfl⟩
        obtain rfl : r' = r₁ := Option.some.inj (hf.symm.trans hf₁)
        exact ⟨⟨rule, hc⟩, hf, fun _ => ⟨x, hx⟩⟩
      · rintro ⟨⟨rule, hc⟩, hf, hx⟩
        obtain ⟨x, hx⟩ := hx trivial
        exact ⟨rule, hc, r, hf, x, ⟨r, hf, hx⟩, rfl⟩

end Calculator

end EncoderSetup

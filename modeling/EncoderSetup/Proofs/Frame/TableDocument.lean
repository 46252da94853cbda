import EncoderSetup.Frame.ConstantsDocument
import EncoderSetup.Proofs.Frame.Table
import EncoderSetup.Proofs.Json.Records
import EncoderSetup.Proofs.Json.Rendering

/-!
# Tables that are written and read back

Every table writes a text that is read as that very table (`GeometryTable.ofJson?_toJson`), so that
reading it fails in one way alone: by the validation that every way to a calculator shares. Its
verdict is stated of the rules themselves (`GeometryTable.Nonzero`), and the constant that it names
by the order of declaration (`GeometryTable.FirstZero`), whatever order a table lists its rules in.
-/

namespace EncoderSetup

open Json (record?_ofMembers_bind map?_ofMembers)

theorem CodingRule.ofJson?_toJson (r : CodingRule) : ofJson? r.toJson = some r := by
  unfold ofJson? toJson
  refine record?_ofMembers_bind (by simp) fun fields h => ?_
  simp only [List.forall_mem_cons] at h
  simp [Json.Record.required?, h]

theorem CompressionRule.ofJson?_toJson (r : CompressionRule) : ofJson? r.toJson = some r := by
  unfold ofJson? toJson
  refine record?_ofMembers_bind (by simp) fun fields h => ?_
  simp only [List.forall_mem_cons] at h
  simp [Json.Record.required?, h]

theorem FormatRule.ofJson?_toJson (r : FormatRule) : ofJson? r.toJson = some r := by
  have hcompression := Json.nullable?_ofOption CompressionRule.ofJson?_toJson rfl r.compression
  unfold ofJson? toJson
  refine record?_ofMembers_bind (by simp) fun fields h => ?_
  simp only [List.forall_mem_cons] at h
  simp [Json.Record.required?, Json.Record.optional?, h, hcompression]

theorem BlockRule.ofJson?_toJson (r : BlockRule) : ofJson? r.toJson = some r := by
  unfold ofJson? toJson
  refine record?_ofMembers_bind (by simp) fun fields h => ?_
  simp only [List.forall_mem_cons] at h
  simp [Json.Record.required?, h]

namespace GeometryTable

variable {t : GeometryTable}

theorem ofJson?_toJson (t : GeometryTable) : ofJson? t.toJson = some t := by
  have hcoding : (Json.ofMembers (t.coding.entries.map fun e => (e.1.name, e.2.toJson))).map?
      (Enumeration.ofName? Coding) CodingRule.ofJson? = some t.coding :=
    map?_ofMembers Enumeration.ofName?_name CodingRule.ofJson?_toJson t.coding
  have hformats : (Json.ofMembers (t.formats.entries.map fun e => (e.1.name, e.2.toJson))).map?
      (Enumeration.ofName? PixelFormat) FormatRule.ofJson? = some t.formats :=
    map?_ofMembers Enumeration.ofName?_name FormatRule.ofJson?_toJson t.formats
  unfold ofJson? toJson
  refine record?_ofMembers_bind (by simp) fun fields h => ?_
  simp only [List.forall_mem_cons] at h
  simp [Json.Record.required?, h, hcoding, hformats, BlockRule.ofJson?_toJson]

/-- Nothing but the validation can refuse a table's own text. -/
theorem ofText_text (t : GeometryTable) :
    ofText t.text = (do t.validate; return t : Except SetupError GeometryTable) := by
  unfold ofText text ofDocument
  rw [Json.ofText?_pretty, Option.bind_some, ofJson?_toJson]
  rfl

/-- No constant is zero, in any rule of the table. -/
structure Nonzero (t : GeometryTable) : Prop where
  coding : ∀ c r, t.coding.get? c = some r → r.vAlign ≠ 0
  formats : ∀ f r, t.formats.get? f = some r →
    r.lumaBits ≠ 0 ∧ r.byteAlign ≠ 0 ∧ r.planeNum ≠ 0 ∧ r.planeDen ≠ 0
  compression : ∀ f r x, t.formats.get? f = some r → r.compression = some x →
    x.bitsPerPixel ≠ 0 ∧ x.ratioNum ≠ 0 ∧ x.ratioDen ≠ 0
  blocks : t.blocks.blockWidth ≠ 0 ∧ t.blocks.blockHeight ≠ 0 ∧ t.blocks.headerBytes ≠ 0 ∧
    t.blocks.hAlign ≠ 0 ∧ t.blocks.vAlign ≠ 0 ∧ t.blocks.headerAlign ≠ 0 ∧ t.blocks.bodyAlign ≠ 0

/-- The constants of the rules that the table has, in the order in which codings and formats are
declared. -/
def declaredConstants (t : GeometryTable) : List (String × UInt32) :=
  (Coding.all.flatMap fun c => (t.coding.get? c).toList.flatMap (codingConstants c)) ++
    (PixelFormat.all.flatMap fun f => (t.formats.get? f).toList.flatMap (formatConstants f)) ++
    blockConstants t.blocks

/-- A zero is declared under this name, and none before it. -/
def FirstZero (t : GeometryTable) (name : String) : Prop :=
  ∃ before after, t.declaredConstants = before ++ (name, 0) :: after ∧ ∀ e ∈ before, e.2 ≠ 0

/-- A table keeps its rules in the order in which their keys are declared. -/
theorem constants_eq_declaredConstants (t : GeometryTable) :
    t.constants = t.declaredConstants := by
  have hcoding : Coding.all.Pairwise fun a b => compare a b = .lt := by decide
  have hformat : PixelFormat.all.Pairwise fun a b => compare a b = .lt := by decide
  unfold constants declaredConstants
  rw [SortedMap.flatMap_entries Enumeration.mem_members hcoding,
    SortedMap.flatMap_entries Enumeration.mem_members hformat]
  rfl

theorem Nonzero.constant_ne_zero (h : t.Nonzero) : ∀ e ∈ t.constants, e.2 ≠ 0 := by
  have hcoding : ∀ d ∈ t.coding.entries, ∀ e ∈ codingConstants d.1 d.2, e.2 ≠ 0 := by
    rintro ⟨c, r⟩ hd
    simpa [codingConstants] using h.coding c r (SortedMap.mem_entries.mp hd)
  have hformats : ∀ d ∈ t.formats.entries, ∀ e ∈ formatConstants d.1 d.2, e.2 ≠ 0 := by
    rintro ⟨f, r⟩ hd
    have hf := SortedMap.mem_entries.mp hd
    refine List.forall_mem_append.mpr ⟨by simpa using h.formats f r hf, fun e he => ?_⟩
    obtain ⟨x, hx, he⟩ := List.mem_flatMap.mp he
    have hall : ∀ e ∈ compressionConstants f x, e.2 ≠ 0 := by
      simpa [compressionConstants] using h.compression f r x hf (by simpa using hx)
    exact hall e he
  have hblocks : ∀ e ∈ blockConstants t.blocks, e.2 ≠ 0 := by
    simpa [blockConstants] using h.blocks
  simp only [constants, List.forall_mem_append, List.forall_mem_flatMap]
  exact ⟨⟨hcoding, hformats⟩, hblocks⟩

theorem nonzero_iff : t.Nonzero ↔ t.validate = .ok () := by
  constructor
  · intro h
    exact validate_eq_ok_iff.mpr h.constant_ne_zero
  · intro h
    let k : Calculator := ⟨t, h⟩
    exact {
      coding := fun c r hc => k.coding_ne_zero hc
      formats := fun f r hf => k.format_ne_zero hf
      compression := fun f r x hf hx => k.compression_ne_zero hf hx
      blocks := k.blocks_ne_zero }

/-- The only refusal names the first zero. -/
theorem validate_of_not_nonzero (h : ¬ t.Nonzero) :
    ∃ name, t.FirstZero name ∧ t.validate = .error (.invalidArgument (.zeroConstant name)) := by
  cases hz : t.constants.find? fun e => e.2 == 0 with
  | none =>
      have hv : t.validate = .ok () := by rw [validate, hz]
      exact absurd (nonzero_iff.mpr hv) h
  | some e =>
      obtain ⟨he, before, after, happ, hb⟩ := List.find?_eq_some_iff_append.mp hz
      obtain ⟨name, v⟩ := e
      obtain rfl : v = 0 := by simpa using he
      refine ⟨name, ⟨before, after, ?_, fun e he => by simpa using hb e he⟩, by rw [validate, hz]⟩
      rw [← constants_eq_declaredConstants, happ]

/-- Writing a table, reading its text, validating it and making a calculator of it agree. -/
theorem text_round_trip (t : GeometryTable) :
    Json.ofText? t.text = some t.toJson ∧
      (t.Nonzero → ofText t.text = .ok t ∧ t.validate = .ok () ∧
        ∃ k, Calculator.ofTable t = .ok k ∧ k.table = t) ∧
      (¬ t.Nonzero → ∃ name, t.FirstZero name ∧ ∃ e : SetupError,
        e = .invalidArgument (.zeroConstant name) ∧
        e.message = "invalid argument: " ++ name ++ " must be > 0" ∧
        ofText t.text = .error e ∧ t.validate = .error e ∧ Calculator.ofTable t = .error e) := by
  refine ⟨Json.ofText?_pretty t.toJson, fun h => ?_, fun h => ?_⟩
  · have hv := nonzero_iff.mp h
    refine ⟨?_, hv, ⟨t, hv⟩, Calculator.ofTable_eq_ok_iff.mpr rfl, rfl⟩
    rw [ofText_text, hv]
    rfl
  · obtain ⟨name, hfirst, hv⟩ := validate_of_not_nonzero h
    refine ⟨name, hfirst, _, rfl, ?_, ?_, hv, Calculator.ofTable_of_validate_error hv⟩
    · exact String.append_assoc.symm
    · rw [ofText_text, hv]
      rfl

/-- Of two zeros the one that is declared first is named, and not the one that is listed first. -/
theorem text_round_trip_two_zeros :
    let t : GeometryTable :=
      { coding := .ofList [(.hevc, ⟨64⟩)]
        formats := .ofList
          [(.yuyv, ⟨16, 0, 1, 1, none⟩), (.yuv420sp, ⟨8, 16, 3, 2, some ⟨12, 1, 0⟩⟩)]
        blocks := builtin.blocks }
    ofText t.text = .error (.invalidArgument (.zeroConstant "yuv420sp.fbc.ratio_den")) ∧
      ofText builtin.text = .ok builtin := by
  intro t
  have ht : t.validate = .error (.invalidArgument (.zeroConstant "yuv420sp.fbc.ratio_den")) := by
    decide
  have hzero : ¬ t.Nonzero := by
    rw [nonzero_iff, ht]
    exact nofun
  obtain ⟨-, -, e, -, -, hread, hv, -⟩ := (text_round_trip t).2.2 hzero
  refine ⟨?_, ((text_round_trip builtin).2.1 (nonzero_iff.mpr rfl)).1⟩
  rw [ht] at hv
  cases hv
  exact hread

end GeometryTable

end EncoderSetup

import EncoderSetup.Attribute.Profile
import EncoderSetup.Frame.ConstantsDocument
import EncoderSetup.Lifecycle.Registry
import EncoderSetup.Proofs.Attribute.ProfileFormat
import EncoderSetup.Proofs.Json.Skipping

/-!
# Loading from bytes and from texts

A document is loaded from the bytes of a text as from the text itself. In other bytes a stray one
stands within a string that has no text. Profiles and registries know every member and read all of
their strings, so that such bytes are malformed; a geometry table skips the fields that it does not
know, and then each stray byte stands within the value of one (`GeometryTable.shape`).
-/

namespace EncoderSetup

open EncoderSetup.Json (Shape Legible StraysSkipped)

theorem Json.ofBytes?_of_eq_toUTF8 {bytes : List UInt8} {s : String}
    (h : bytes.toByteArray = s.toUTF8) : ofBytes? bytes = ofText? s := by
  unfold ofBytes? ofText?
  rw [Symbol.ofBytes_of_eq_toUTF8 h]

theorem Value.covers_ofJson? : Shape.plain.Covers Value.ofJson? := by
  intro j v h
  obtain ⟨content, rfl, hcontent⟩ := Value.ofJson?_eq_some_iff.mp h
  have hnone : .string none ∉ Json.tokens content := by
    cases hcontent with
    | st _ => exact Json.string_none_notMem_array (by simp [Json.tokens])
    | _ => simp [Json.tokens]
  exact Json.legible_of_notMem (by simp [Json.tokens, Json.memberTokens, hnone])

theorem Stage.covers_enumerated? : Shape.plain.Covers (Json.enumerated? Stage) := by
  intro j s h
  unfold Json.enumerated? at h
  split at h
  · exact Json.legible_of_notMem (by simp [Json.tokens])
  · exact Json.legible_of_notMem (by simp [Json.tokens, Json.memberTokens])
  · cases h

/-- A map of values that are read whole has no place for a stray byte. -/
theorem Json.bind_map?_eq_none {α : Type} {read? : Json → Option α} {bytes : List UInt8}
    (hread : Shape.plain.Covers read?) (h : ∀ s : String, bytes.toByteArray ≠ s.toUTF8) :
    ((ofBytes? bytes).bind fun j => j.map? some read?) = none := by
  refine Option.eq_none_iff_forall_ne_some.mpr fun m hm => ?_
  obtain ⟨j, hj, hm⟩ := Option.bind_eq_some_iff.mp hm
  exact (covers_map? hread j m hm).notMem_of_map_plain (string_none_mem_tokens h hj)

theorem Store.ofProfileBytes_of_ne_toUTF8 {bytes : List UInt8}
    (h : ∀ s : String, bytes.toByteArray ≠ s.toUTF8) :
    Store.ofProfileBytes bytes = throw (.malformed (.document .profile)) := by
  have hnone : (Json.ofBytes? bytes).bind profileEntries? = none :=
    Json.bind_map?_eq_none Value.covers_ofJson? h
  rw [Store.ofProfileBytes, Store.ofProfile, hnone]
  rfl

theorem Registry.ofBytes_of_ne_toUTF8 {bytes : List UInt8}
    (h : ∀ s : String, bytes.toByteArray ≠ s.toUTF8) :
    Registry.ofBytes bytes = throw (.malformed (.document .registry)) := by
  have hnone : (Json.ofBytes? bytes).bind Registry.entries? = none :=
    Json.bind_map?_eq_none Stage.covers_enumerated? h
  rw [Registry.ofBytes, Registry.ofDocument, hnone]
  rfl

def CodingRule.shape : Shape := .record [("v_align", .plain)]

def CompressionRule.shape : Shape :=
  .record [("bits_per_pixel", .plain), ("ratio_num", .plain), ("ratio_den", .plain)]

def FormatRule.shape : Shape :=
  .record [("luma_bits", .plain), ("byte_align", .plain), ("plane_num", .plain),
    ("plane_den", .plain), ("fbc", .nullable CompressionRule.shape)]

def BlockRule.shape : Shape :=
  .record [("block_width", .plain), ("block_height", .plain), ("hdr_bytes_per_block", .plain),
    ("h_align", .plain), ("v_align", .plain), ("hdr_align", .plain), ("bdy_align", .plain)]

/-- The fields of a table that are read; a field of another name is skipped. -/
def GeometryTable.shape : Shape :=
  .record [("coding", .map CodingRule.shape), ("formats", .map FormatRule.shape),
    ("fbc", BlockRule.shape)]

open Json (covers_uint32? covers_map? legible_record legible_of_required? legible_of_optional?)

theorem CodingRule.covers_ofJson? : shape.Covers ofJson? := by
  intro j rule h
  obtain ⟨r, hr, h⟩ := Option.bind_eq_some_iff.mp h
  simp only [Option.bind_eq_bind, Option.bind_eq_some_iff] at h
  obtain ⟨_, hvAlign, -⟩ := h
  refine legible_record (by simp) hr ?_
  simp only [List.forall_mem_cons, List.not_mem_nil, false_imp_iff, implies_true, and_true]
  exact legible_of_required? covers_uint32? hvAlign

theorem CompressionRule.covers_ofJson? : shape.Covers ofJson? := by
  intro j rule h
  obtain ⟨r, hr, h⟩ := Option.bind_eq_some_iff.mp h
  simp only [Option.bind_eq_bind, Option.bind_eq_some_iff] at h
  obtain ⟨_, hbits, _, hnum, _, hden, -⟩ := h
  refine legible_record (by simp) hr ?_
  simp only [List.forall_mem_cons, List.not_mem_nil, false_imp_iff, implies_true, and_true]
  exact ⟨legible_of_required? covers_uint32? hbits, legible_of_required? covers_uint32? hnum,
    legible_of_required? covers_uint32? hden⟩

theorem FormatRule.covers_ofJson? : shape.Covers ofJson? := by
  intro j rule h
  obtain ⟨r, hr, h⟩ := Option.bind_eq_some_iff.mp h
  simp only [Option.bind_eq_bind, Option.bind_eq_some_iff] at h
  obtain ⟨_, hbits, _, halign, _, hnum, _, hden, _, hcompression, -⟩ := h
  refine legible_record (by simp) hr ?_
  simp only [List.forall_mem_cons, List.not_mem_nil, false_imp_iff, implies_true, and_true]
  exact ⟨legible_of_required? covers_uint32? hbits, legible_of_required? covers_uint32? halign,
    legible_of_required? covers_uint32? hnum, legible_of_required? covers_uint32? hden,
    legible_of_optional? CompressionRule.covers_ofJson? hcompression⟩

theorem BlockRule.covers_ofJson? : shape.Covers ofJson? := by
  intro j rule h
  obtain ⟨r, hr, h⟩ := Option.bind_eq_some_iff.mp h
  simp only [Option.bind_eq_bind, Option.bind_eq_some_iff] at h
  obtain ⟨_, hwidth, _, hheight, _, hbytes, _, hh, _, hv, _, hheader, _, hbody, -⟩ := h
  refine legible_record (by simp) hr ?_
  simp only [List.forall_mem_cons, List.not_mem_nil, false_imp_iff, implies_true, and_true]
  exact ⟨legible_of_required? covers_uint32? hwidth, legible_of_required? covers_uint32? hheight,
    legible_of_required? covers_uint32? hbytes, legible_of_required? covers_uint32? hh,
    legible_of_required? covers_uint32? hv, legible_of_required? covers_uint32? hheader,
    legible_of_required? covers_uint32? hbody⟩

namespace GeometryTable

theorem covers_ofJson? : shape.Covers ofJson? := by
  intro j t h
  obtain ⟨r, hr, h⟩ := Option.bind_eq_some_iff.mp h
  simp only [Option.bind_eq_bind, Option.bind_eq_some_iff] at h
  obtain ⟨_, hcoding, _, hformats, _, hblocks, -⟩ := h
  refine legible_record (by simp) hr ?_
  simp only [List.forall_mem_cons, List.not_mem_nil, false_imp_iff, implies_true, and_true]
  exact ⟨legible_of_required? (covers_map? CodingRule.covers_ofJson?) hcoding,
    legible_of_required? (covers_map? FormatRule.covers_ofJson?) hformats,
    legible_of_required? BlockRule.covers_ofJson? hblocks⟩

theorem straysSkipped_of_ofBytes {bytes : List UInt8} {t : GeometryTable}
    (h : ofBytes bytes = .ok t) :
    ∃ j, Json.ofBytes? bytes = some j ∧ StraysSkipped shape j bytes := by
  obtain ⟨t', ht, -⟩ := bind_eq_ok_iff.mp h
  cases hread : (Json.ofBytes? bytes).bind ofJson? with
  | none =>
      rw [hread] at ht
      cases ht
  | some read =>
      obtain ⟨j, hj, hread⟩ := Option.bind_eq_some_iff.mp hread
      exact ⟨j, hj, (covers_ofJson? j read hread).straysSkipped hj⟩

end GeometryTable

/-- The bytes of a text load as the text does, to the same value or the same error. Bytes that
encode no text are malformed as a profile and as a registry, and they load as a table only if each
stray byte stands within a string in the value of an unknown field. -/
theorem bytes_load_as_text (bytes : List UInt8) (path : String) :
    (∀ s : String, bytes.toByteArray = s.toUTF8 →
      Store.ofProfileBytes bytes = Store.ofProfileText s ∧
        Store.ofProfileFile path (.bytes bytes) = Store.ofProfileText s ∧
        Registry.ofFile path (.bytes bytes) = Registry.ofText s ∧
        GeometryTable.ofFile path (.bytes bytes) = GeometryTable.ofText s) ∧
    ((∀ s : String, bytes.toByteArray ≠ s.toUTF8) →
      Store.ofProfileBytes bytes = throw (.malformed (.document .profile)) ∧
        Store.ofProfileFile path (.bytes bytes) = throw (.malformed (.document .profile)) ∧
        Registry.ofFile path (.bytes bytes) = throw (.malformed (.document .registry)) ∧
        ∀ t, GeometryTable.ofFile path (.bytes bytes) = .ok t →
          ∃ j, Json.ofBytes? bytes = some j ∧ StraysSkipped GeometryTable.shape j bytes) := by
  constructor
  · intro s h
    have hread := Json.ofBytes?_of_eq_toUTF8 h
    have hprofile : Store.ofProfileBytes bytes = Store.ofProfileText s := by
      rw [Store.ofProfileBytes, hread, Store.ofProfileText]
    have hregistry : Registry.ofBytes bytes = Registry.ofText s := by
      rw [Registry.ofBytes, hread, Registry.ofText]
    have htable : GeometryTable.ofBytes bytes = GeometryTable.ofText s := by
      rw [GeometryTable.ofBytes, hread, GeometryTable.ofText]
    exact ⟨hprofile, hprofile, hregistry, htable⟩
  · intro h
    have hprofile := Store.ofProfileBytes_of_ne_toUTF8 h
    exact ⟨hprofile, hprofile, Registry.ofBytes_of_ne_toUTF8 h,
      fun _ ht => GeometryTable.straysSkipped_of_ofBytes ht⟩

/-- A byte that no text has, in a comment on a table: the table loads, and no other document does. A
name that takes two bytes is a name like others. -/
theorem loading_of_stray_comment :
    let before := "\x7b\"coding\":\x7b\x7d,\"formats\":\x7b\x7d,\"fbc\":[1,1,1,1,1,1,1],\"#\":\""
    let comment : List UInt8 := before.toUTF8.toList ++ 0xff :: "\"\x7d".toUTF8.toList
    let profile := "\x7b\"é\":\x7b\"u32\":1\x7d\x7d"
    (GeometryTable.ofFile "t.json" (.bytes comment) =
        .ok ⟨.empty, .empty, ⟨1, 1, 1, 1, 1, 1, 1⟩⟩ ∧
      ∃ j, Json.ofBytes? comment = some j ∧ StraysSkipped GeometryTable.shape j comment) ∧
    Store.ofProfileBytes comment = throw (.malformed (.document .profile)) ∧
    Registry.ofFile "t.json" (.bytes comment) = throw (.malformed (.document .registry)) ∧
    Store.ofProfileBytes profile.toUTF8.toList = Store.ofProfileText profile := by
  intro before comment profile
  have hstray : .stray 0xff ∈ Json.Symbol.ofBytes comment := by decide +kernel
  have hcomment : ∀ s : String, comment.toByteArray ≠ s.toUTF8 := by
    intro s hs
    rw [Json.Symbol.ofBytes_of_eq_toUTF8 hs] at hstray
    exact Json.stray_notMem_ofChars _ _ hstray
  obtain ⟨hprofile, -, hregistry, htable⟩ := (bytes_load_as_text comment "t.json").2 hcomment
  have ht : GeometryTable.ofFile "t.json" (.bytes comment) =
      .ok ⟨.empty, .empty, ⟨1, 1, 1, 1, 1, 1, 1⟩⟩ := by decide +kernel
  have hbytes : profile.toUTF8.toList.toByteArray = profile.toUTF8 := by decide +kernel
  exact ⟨⟨ht, htable _ ht⟩, hprofile, hregistry,
    ((bytes_load_as_text profile.toUTF8.toList "t.json").1 profile hbytes).1⟩

end EncoderSetup

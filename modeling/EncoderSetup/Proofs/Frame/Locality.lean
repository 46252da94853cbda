import EncoderSetup.Proofs.Frame.Table

/-!
# Which constants an answer depends on

A request reads the rule of its coding type and, without compression, the planes of its pixel
format; with compression it reads the compression of the format and the blocks instead.
`GeometryTable.SameFor` says that two tables share these, and then their calculators answer alike,
errors and events included, whatever else the tables hold (`Calculator.answers_eq_of_sameFor`).
-/

namespace EncoderSetup

/-- Both fail by the same error, or both succeed with related values. -/
inductive Alike {α : Type} (r : α → α → Prop) : Except SetupError α → Except SetupError α → Prop
  | ok {a b : α} (h : r a b) : Alike r (.ok a) (.ok b)
  | error (e : SetupError) : Alike r (.error e) (.error e)

namespace Alike

variable {α β : Type} {r : α → α → Prop} {x y : Except SetupError α}

theorem bind {r' : β → β → Prop} {f g : α → Except SetupError β} (h : Alike r x y)
    (hfg : ∀ a b, r a b → Alike r' (f a) (g b)) : Alike r' (x >>= f) (y >>= g) := by
  cases h with
  | ok h => exact hfg _ _ h
  | error e => exact error e

theorem bind_eq {f g : α → Except SetupError β} (h : Alike r x y)
    (hfg : ∀ a b, r a b → f a = g b) : x >>= f = y >>= g := by
  cases h with
  | ok h => exact hfg _ _ h
  | error e => rfl

theorem bind_same {f g : β → Except SetupError α} (z : Except SetupError β)
    (hfg : ∀ b, Alike r (f b) (g b)) : Alike r (z >>= f) (z >>= g) := by
  cases z with
  | ok b => exact hfg b
  | error e => exact error e

end Alike

/-- The constants of a format that a request reads: those of its planes or its compression. -/
def FormatRule.SameFor : Bool → FormatRule → FormatRule → Prop
  | false, r, s => r.lumaBits = s.lumaBits ∧ r.byteAlign = s.byteAlign ∧
      r.planeNum = s.planeNum ∧ r.planeDen = s.planeDen
  | true, r, s => r.compression = s.compression

namespace GeometryTable

/-- The same granularity of rows, and for compressed frames the same blocks. -/
structure SameRows (t t' : GeometryTable) (c : Coding) (compressed : Bool) : Prop where
  coding : t.coding.get? c = t'.coding.get? c
  blocks : compressed = true → t.blocks = t'.blocks

/-- Everything that a request reads is the same; a format may be missing from both. -/
structure SameFor (t t' : GeometryTable) (c : Coding) (f : PixelFormat) (compressed : Bool) : Prop
    extends SameRows t t' c compressed where
  format : Option.Rel (FormatRule.SameFor compressed) (t.formats.get? f) (t'.formats.get? f)

variable {t t' : GeometryTable} {c : Coding} {f : PixelFormat} {compressed : Bool}

theorem SameRows.codingRule_eq (h : t.SameRows t' c compressed) :
    t.codingRule c = t'.codingRule c := by
  unfold codingRule
  rw [h.coding]

theorem alike_formatRule {r : FormatRule → FormatRule → Prop}
    (h : Option.Rel r (t.formats.get? f) (t'.formats.get? f)) :
    Alike r (t.formatRule f) (t'.formatRule f) := by
  unfold formatRule
  generalize t.formats.get? f = x at h
  generalize t'.formats.get? f = y at h
  cases h with
  | some h => exact .ok h
  | none => exact .error _

theorem SameFor.compressionRule_eq (h : t.SameFor t' c f true) :
    t.compressionRule f = t'.compressionRule f := by
  apply (alike_formatRule h.format).bind_eq
  intro r s hrs
  have hrs : r.compression = s.compression := hrs
  rw [hrs]

end GeometryTable

namespace Calculator

variable {k k' : Calculator} {c : Coding} {f : PixelFormat} {compressed : Bool}

theorem alike_supported (h : k.table.SameFor k'.table c f compressed) :
    Alike (FormatRule.SameFor compressed) (k.supported c f compressed)
      (k'.supported c f compressed) := by
  unfold supported
  rw [h.codingRule_eq]
  apply Alike.bind_same
  intro _
  apply (GeometryTable.alike_formatRule h.format).bind
  intro r s hrs
  cases compressed with
  | false => exact .ok hrs
  | true =>
      simp only [if_true, h.compressionRule_eq]
      exact Alike.bind_same _ fun _ => .ok hrs

theorem pixelStride_congr (r : PixelStrideRequest)
    (h : k.table.SameFor k'.table r.coding r.format r.compressed) :
    k.pixelStride r = k'.pixelStride r := by
  apply (alike_supported h).bind_eq
  intro a b hab
  cases hcomp : r.compressed with
  | true => rfl
  | false =>
      rw [hcomp] at hab
      simp only [hab.1]

theorem byteStride_congr (r : ByteStrideRequest)
    (h : k.table.SameFor k'.table r.coding r.format r.compressed) :
    k.byteStride r = k'.byteStride r := by
  apply (alike_supported h).bind_eq
  intro a b hab
  cases hcomp : r.compressed with
  | true => simp only [h.blocks hcomp, if_true]
  | false =>
      rw [hcomp] at hab
      simp only [hab.1, hab.2.1, Bool.false_eq_true, if_false]

theorem verticalAlign_congr (rule : CodingRule) (h : k.table.SameRows k'.table c compressed) :
    k.verticalAlign rule compressed = k'.verticalAlign rule compressed := by
  cases compressed with
  | false => rfl
  | true => simp only [verticalAlign, h.blocks rfl]

theorem verticalStride_congr (r : VerticalStrideRequest)
    (h : k.table.SameRows k'.table r.coding r.compressed) :
    k.verticalStride r = k'.verticalStride r := by
  unfold verticalStride
  simp only [h.codingRule_eq, verticalAlign_congr _ h]

theorem plainLayout_congr {a b : FormatRule} (hab : FormatRule.SameFor false a b)
    (p s v : UInt32) : plainLayout a p s v = plainLayout b p s v := by
  obtain ⟨-, -, hnum, hden⟩ := hab
  unfold plainLayout planeBytes
  rw [hnum, hden]

theorem compressedLayout_congr (h : k.table.SameFor k'.table c f true) (p s v : UInt32) :
    k.compressedLayout f p s v = k'.compressedLayout f p s v := by
  unfold compressedLayout headerBytes
  rw [h.compressionRule_eq, h.blocks rfl]

theorem layout_congr {r : FrameRequest} {a b : FormatRule}
    (h : k.table.SameFor k'.table r.coding r.format r.compressed)
    (hab : FormatRule.SameFor r.compressed a b) : k.layout r a = k'.layout r b := by
  have hbyte := byteStride_congr r.forByteStride h
  have hvertical := verticalStride_congr r.forVerticalStride h.toSameRows
  have hpixel (s) := pixelStride_congr (r.forPixelStride s) h
  unfold layout
  simp only [hbyte, hvertical, hpixel]
  cases hcomp : r.compressed with
  | false =>
      rw [hcomp] at hab
      simp only [plainLayout_congr hab, Bool.false_eq_true, if_false]
  | true =>
      rw [hcomp] at h
      simp only [compressedLayout_congr h, if_true]

theorem frameSize_congr (r : FrameRequest)
    (h : k.table.SameFor k'.table r.coding r.format r.compressed) :
    k.frameSize r = k'.frameSize r := by
  apply (alike_supported h).bind_eq
  intro a b hab
  rw [layout_congr h hab]

/-- Tables that share what a request reads give it the same answer, logged alike. -/
theorem answers_eq_of_sameFor (k k' : Calculator) :
    (∀ r : PixelStrideRequest, k.table.SameFor k'.table r.coding r.format r.compressed →
      k.pixelStride r = k'.pixelStride r) ∧
    (∀ r : ByteStrideRequest, k.table.SameFor k'.table r.coding r.format r.compressed →
      k.byteStride r = k'.byteStride r) ∧
    (∀ r : VerticalStrideRequest, k.table.SameRows k'.table r.coding r.compressed →
      k.verticalStride r = k'.verticalStride r) ∧
    ∀ r : FrameRequest, k.table.SameFor k'.table r.coding r.format r.compressed →
      k.frameSize r = k'.frameSize r ∧ k.frame r = k'.frame r := by
  refine ⟨pixelStride_congr, byteStride_congr, verticalStride_congr, ?_⟩
  intro r h
  have hsize := frameSize_congr r h
  refine ⟨hsize, ?_⟩
  unfold frame
  rw [hsize]

/-- One table has other blocks and no compression, another has rows of other bytes and planes: the
first answers the plain frame as the reference hardware does, the second the compressed one. -/
theorem answers_eq_odd_tables :
    let plain : GeometryTable :=
      ⟨.ofList [(.avc, ⟨16⟩)], .ofList [(.yuv420sp, ⟨8, 16, 3, 2, none⟩)], ⟨7, 7, 7, 7, 7, 7, 7⟩⟩
    let compressed : GeometryTable :=
      ⟨.ofList [(.avc, ⟨16⟩)], .ofList [(.yuv420sp, ⟨13, 48, 5, 7, some ⟨12, 1, 1⟩⟩)],
        GeometryTable.builtin.blocks⟩
    ∃ k k' : Calculator, k.table = plain ∧ k'.table = compressed ∧
      k.frameSize ⟨.avc, .yuv420sp, false, 1900, 1080, some 1936, none⟩ =
        .ok ⟨1936, 1936, 1088, 3159552, 0, 0, 0⟩ ∧
      k'.frameSize ⟨.avc, .yuv420sp, true, 1900, 1080, some 1936, none⟩ =
        .ok ⟨1920, 1920, 1088, 3264512, 130560, 3133440, 131072⟩ := by
  intro plain compressed
  let k : Calculator := ⟨plain, by rfl⟩
  let k' : Calculator := ⟨compressed, by rfl⟩
  have hplain : k.table.SameFor builtin.table .avc .yuv420sp false :=
    ⟨⟨by rfl, nofun⟩, .some ⟨rfl, rfl, rfl, rfl⟩⟩
  have hcompressed : k'.table.SameFor builtin.table .avc .yuv420sp true :=
    ⟨⟨by rfl, fun _ => rfl⟩, .some rfl⟩
  obtain ⟨-, -, -, hframe⟩ := answers_eq_of_sameFor k builtin
  obtain ⟨-, -, -, hframe'⟩ := answers_eq_of_sameFor k' builtin
  refine ⟨k, k', rfl, rfl, ?_, ?_⟩
  · rw [(hframe _ hplain).1]
    rfl
  · rw [(hframe' _ hcompressed).1]
    cbv

end Calculator

end EncoderSetup

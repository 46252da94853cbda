import EncoderSetup.Proofs.Frame.CompressedSize

/-!
# A layout holds its frame

Every answered layout has room for the pixels that were asked for. The bytes of a row are rounded up
and its pixels rounded down, but a stride of whole rows still spans `width` pixels
(`le_pixels_of_row_le`). In a compressed layout the header region ends before the body region
begins, and the body region ends inside the buffer (`frameSize_holds_frame`).
-/

namespace EncoderSetup

/-- A stride that spans the bytes of a row spans its pixels, whatever their depth in bits. -/
theorem le_pixels_of_row_le {width bits stride : ℕ} (hbits : 0 < bits)
    (h : (width * bits) ⌈/⌉ 8 ≤ stride) : width ≤ 8 * stride / bits := by
  have hrow : width * bits ≤ 8 * stride := (ceilDiv_le_iff_le_mul (by decide)).mp h
  exact (Nat.le_div_iff_mul_le hbits).mpr hrow

/-- A plain buffer: whole rows of whole pixels, aligned, and bytes for every plane. -/
structure FrameLayout.HoldsPlain (l : FrameLayout) (width : UInt32) (c : CodingRule)
    (f : FormatRule) : Prop where
  pixels_in_row : f.lumaBits.toNat * l.pixelStride.toNat ≤ 8 * l.byteStride.toNat
  width_in_pixels : f.lumaBits.toNat * width.toNat ≤ f.lumaBits.toNat * l.pixelStride.toNat
  byteStride_aligned : f.byteAlign.toNat ∣ l.byteStride.toNat
  verticalStride_aligned : c.vAlign.toNat ∣ l.verticalStride.toNat
  totalSize_pos : 0 < l.totalSize.toNat
  planes_in_buffer : l.byteStride.toNat * l.verticalStride.toNat * f.planeNum.toNat ≤
    l.totalSize.toNat * f.planeDen.toNat

/-- A compressed buffer: whole blocks, and two regions, neither empty, one after the other. -/
structure FrameLayout.HoldsCompressed (l : FrameLayout) (c : CodingRule) (b : BlockRule) :
    Prop where
  pixelStride_eq : l.pixelStride = l.byteStride
  byteStride_aligned : b.hAlign.toNat ∣ l.byteStride.toNat
  verticalStride_aligned : c.vAlign.toNat ∣ l.verticalStride.toNat
  verticalStride_blocks : b.vAlign.toNat ∣ l.verticalStride.toNat
  headerSize_pos : 0 < l.headerSize.toNat
  bodySize_pos : 0 < l.bodySize.toNat
  bodyOffset_aligned : b.headerAlign.toNat ∣ l.bodyOffset.toNat
  header_before_body : l.headerSize.toNat ≤ l.bodyOffset.toNat
  bodyOffset_le : l.bodyOffset.toNat ≤ l.totalSize.toNat
  bodyRegion_aligned : b.bodyAlign.toNat ∣ l.totalSize.toNat - l.bodyOffset.toNat
  body_in_buffer : l.bodySize.toNat ≤ l.totalSize.toNat - l.bodyOffset.toNat

namespace Calculator

variable {k : Calculator} {r : FrameRequest} {l : FrameLayout}

theorem plain_of_frameSize_eq_ok (h : k.frameSize r = .ok l) (hplain : r.compressed = false)
    (hw : r.width ≠ 0) (hh : r.height ≠ 0) :
    ∃ c f, k.table.coding.get? r.coding = some c ∧ k.table.formats.get? r.format = some f ∧
      Stride.IsChosen r.byteStride (fun m => (r.width.toNat * f.lumaBits.toNat) ⌈/⌉ 8 ≤ m ∧
        f.byteAlign.toNat ∣ m) l.byteStride.toNat ∧
      Stride.IsChosen r.vStride (fun m => r.height.toNat ≤ m ∧ c.vAlign.toNat ∣ m)
        l.verticalStride.toNat ∧
      l.pixelStride.toNat = 8 * l.byteStride.toNat / f.lumaBits.toNat ∧
      l.totalSize.toNat =
        (l.byteStride.toNat * l.verticalStride.toNat * f.planeNum.toNat) ⌈/⌉ f.planeDen.toNat ∧
      l.headerSize = 0 := by
  obtain ⟨f, hs, -⟩ := bind_eq_ok_iff.mp h
  obtain ⟨⟨c, hc⟩, hf, -⟩ := supported_eq_ok_iff.mp hs
  obtain ⟨-, -, -, hden⟩ := format_ne_zero hf
  obtain ⟨wB, hbyte, hB⟩ := byteStride_of_plain (r := r.forByteStride) hs hplain hw
  obtain ⟨wV, hvert, hV⟩ := verticalStride_of_plain (r := r.forVerticalStride) hc hplain hh
  rw [frameSize_of_pixels hs hw hh] at h
  simp only [layout, hbyte, hvert, bind_eq_ok_iff, Stride.narrow_eq_ok_iff, hplain,
    Bool.false_eq_true, if_false] at h
  obtain ⟨b, hb, v, hv, p, hp, hl⟩ := h
  obtain ⟨wP, hpixel, hP⟩ := pixelStride_of_plain (r := r.forPixelStride b) hs hplain hw
  rw [hpixel, Stride.narrow_eq_ok_iff] at hp
  obtain ⟨size, hsize, htotal, -⟩ | ⟨-, cause, he⟩ := plainLayout_cases hden p b v
  · rw [hsize] at hl
    obtain rfl := Except.ok.inj hl
    exact ⟨c, f, hc, hf, hb ▸ hB, hv ▸ hV, hp.trans hP, htotal, rfl⟩
  · rw [he] at hl
    cases hl

theorem holdsPlain_of_frameSize_eq_ok (h : k.frameSize r = .ok l) (hplain : r.compressed = false)
    (hw : r.width ≠ 0) (hh : r.height ≠ 0) :
    ∃ c f, k.table.coding.get? r.coding = some c ∧ k.table.formats.get? r.format = some f ∧
      r.width.toNat ≤ l.pixelStride.toNat ∧ r.height.toNat ≤ l.verticalStride.toNat ∧
      l.HoldsPlain r.width c f ∧ l.isCompressed = false := by
  obtain ⟨c, f, hc, hf, hB, hV, hpixels, htotal, hheader⟩ := plain_of_frameSize_eq_ok h hplain hw hh
  obtain ⟨hbits, -, hnum, hden⟩ := format_ne_zero hf
  obtain ⟨hrow, hbalign⟩ := hB.valid
  obtain ⟨hheight, hvalign⟩ := hV.valid
  have hwidth : r.width.toNat ≤ l.pixelStride.toNat :=
    hpixels ▸ le_pixels_of_row_le (Word.toNat_pos_of_ne hbits) hrow
  have hrow_pos : 0 < l.byteStride.toNat := lt_of_lt_of_le (ceilDiv_pos (Nat.mul_pos
    (Word.toNat_pos_of_ne hw) (Word.toNat_pos_of_ne hbits)) (by decide)) hrow
  have hrows_pos : 0 < l.verticalStride.toNat :=
    lt_of_lt_of_le (Word.toNat_pos_of_ne hh) hheight
  have hplanes := Nat.mul_pos (Nat.mul_pos hrow_pos hrows_pos) (Word.toNat_pos_of_ne hnum)
  have hden_pos := Word.toNat_pos_of_ne hden
  refine ⟨c, f, hc, hf, hwidth, hheight, ?_, by simp [FrameLayout.isCompressed, hheader]⟩
  exact
    { pixels_in_row := hpixels ▸ Nat.mul_div_le _ _
      width_in_pixels := Nat.mul_le_mul_left _ hwidth
      byteStride_aligned := hbalign
      verticalStride_aligned := hvalign
      totalSize_pos := htotal ▸ ceilDiv_pos hplanes hden_pos
      planes_in_buffer := by
        rw [htotal, Nat.mul_comm _ f.planeDen.toNat]
        exact (ceilDiv_le_iff_le_mul hden_pos).mp le_rfl }

theorem holdsCompressed_of_frameSize_eq_ok (h : k.frameSize r = .ok l)
    (hcomp : r.compressed = true) (hw : r.width ≠ 0) (hh : r.height ≠ 0) :
    ∃ c, k.table.coding.get? r.coding = some c ∧
      r.width.toNat ≤ l.pixelStride.toNat ∧ r.height.toNat ≤ l.verticalStride.toNat ∧
      l.HoldsCompressed c k.table.blocks ∧ l.isCompressed = true := by
  obtain ⟨c, cols, rows, hc, hC, hR, hl⟩ := compressedLayout_of_frameSize_eq_ok h hcomp hw hh
  obtain ⟨f, x, hf, hx, hpixel, rfl, rfl, hheader, hbody, hoffset, htotal⟩ :=
    compressedLayout_exact hl
  obtain ⟨hbw, hbh, hhb, -, -, hha, hba⟩ := k.blocks_ne_zero
  obtain ⟨hbits, hnum, hden⟩ := compression_ne_zero hf hx
  obtain ⟨hwidth, hcols⟩ := hC.valid
  obtain ⟨hheight, hrows, hblocks⟩ := hR.valid
  have hcols_pos := lt_of_lt_of_le (Word.toNat_pos_of_ne hw) hwidth
  have hrows_pos := lt_of_lt_of_le (Word.toNat_pos_of_ne hh) hheight
  have hheader_pos : 0 < l.headerSize.toNat := by
    rw [hheader]
    exact Nat.mul_pos (Nat.mul_pos (ceilDiv_pos hcols_pos (Word.toNat_pos_of_ne hbw))
      (ceilDiv_pos hrows_pos (Word.toNat_pos_of_ne hbh))) (Word.toNat_pos_of_ne hhb)
  have hbody_pos : 0 < l.bodySize.toNat := by
    rw [hbody]
    exact ceilDiv_pos (Nat.mul_pos (Nat.mul_pos (Nat.mul_pos hcols_pos hrows_pos)
      (Word.toNat_pos_of_ne hbits)) (Word.toNat_pos_of_ne hnum))
      (Nat.mul_pos (by decide) (Word.toNat_pos_of_ne hden))
  have hregion : l.totalSize.toNat - l.bodyOffset.toNat =
      roundUp l.bodySize.toNat k.table.blocks.bodyAlign.toNat := by omega
  refine ⟨c, hc, hpixel ▸ hwidth, hheight, ?_, ?_⟩
  · exact
      { pixelStride_eq := hpixel
        byteStride_aligned := hcols
        verticalStride_aligned := hrows
        verticalStride_blocks := hblocks
        headerSize_pos := hheader_pos
        bodySize_pos := hbody_pos
        bodyOffset_aligned := hoffset ▸ dvd_roundUp _ _
        header_before_body := hoffset ▸ le_roundUp _ (Word.toNat_pos_of_ne hha)
        bodyOffset_le := by omega
        bodyRegion_aligned := hregion ▸ dvd_roundUp _ _
        body_in_buffer := hregion ▸ le_roundUp _ (Word.toNat_pos_of_ne hba) }
  · have hne : l.headerSize ≠ 0 := by
      intro h0
      rw [h0, UInt32.toNat_zero] at hheader_pos
      exact Nat.lt_irrefl 0 hheader_pos
    simpa [FrameLayout.isCompressed] using hne

/-- Whatever strides are suggested, an answered layout has room for the frame, its regions are
aligned and do not overlap, and it says whether it is compressed. -/
theorem frameSize_holds_frame (k : Calculator) (r : FrameRequest) (l : FrameLayout)
    (h : k.frameSize r = .ok l) (hw : r.width ≠ 0) (hh : r.height ≠ 0) :
    r.width.toNat ≤ l.pixelStride.toNat ∧ r.height.toNat ≤ l.verticalStride.toNat ∧
      l.isCompressed = r.compressed ∧
      ∃ c f, k.table.coding.get? r.coding = some c ∧ k.table.formats.get? r.format = some f ∧
        (r.compressed = false → l.HoldsPlain r.width c f) ∧
        (r.compressed = true → l.HoldsCompressed c k.table.blocks) := by
  cases hcomp : r.compressed with
  | false =>
      obtain ⟨c, f, hc, hf, hwidth, hheight, hholds, hsays⟩ :=
        holdsPlain_of_frameSize_eq_ok h hcomp hw hh
      exact ⟨hwidth, hheight, hsays, c, f, hc, hf, fun _ => hholds, fun hn => by cases hn⟩
  | true =>
      obtain ⟨c, hc, hwidth, hheight, hholds, hsays⟩ :=
        holdsCompressed_of_frameSize_eq_ok h hcomp hw hh
      obtain ⟨f, hs, -⟩ := bind_eq_ok_iff.mp h
      obtain ⟨-, hf, -⟩ := supported_eq_ok_iff.mp hs
      exact ⟨hwidth, hheight, hsays, c, f, hc, hf, fun hn => (by cases hn), fun _ => hholds⟩

/-- Ten-bit rows of 1366 pixels end inside a byte; a suggestion of 100 bytes is too short. -/
theorem frameSize_holds_odd_frames :
    (⟨1382, 1728, 768, 1990656, 0, 0, 0⟩ : FrameLayout).HoldsPlain 1366 ⟨64⟩
        ⟨10, 64, 3, 2, some ⟨15, 16, 15⟩⟩ ∧
      (⟨1408, 1408, 768, 2232320, 67584, 2162688, 69632⟩ : FrameLayout).HoldsCompressed ⟨64⟩
        GeometryTable.builtin.blocks := by
  have hplain : builtin.frameSize ⟨.hevc, .yuv420sp10bit, false, 1366, 767, some 100, none⟩ =
      .ok ⟨1382, 1728, 768, 1990656, 0, 0, 0⟩ := by cbv
  have hcomp : builtin.frameSize ⟨.hevc, .yuv420sp10bit, true, 1367, 767, none, none⟩ =
      .ok ⟨1408, 1408, 768, 2232320, 67584, 2162688, 69632⟩ := by cbv
  obtain ⟨-, -, -, c, f, hc, hf, hp, -⟩ :=
    frameSize_holds_frame builtin _ _ hplain (by decide) (by decide)
  obtain ⟨-, -, -, c', f', hc', -, -, hx⟩ :=
    frameSize_holds_frame builtin _ _ hcomp (by decide) (by decide)
  obtain rfl : c = ⟨64⟩ := Option.some.inj (hc.symm.trans (by rfl))
  obtain rfl : f = ⟨10, 64, 3, 2, some ⟨15, 16, 15⟩⟩ := Option.some.inj (hf.symm.trans (by rfl))
  obtain rfl : c' = ⟨64⟩ := Option.some.inj (hc'.symm.trans (by rfl))
  exact ⟨hp rfl, hx rfl⟩

end Calculator

end EncoderSetup

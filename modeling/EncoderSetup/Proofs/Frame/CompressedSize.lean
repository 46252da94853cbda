import EncoderSetup.Proofs.Frame.PlainSize

/-!
# The exact size of compressed frames

What a compressed layout answers is exact. The header product is not checked before the header bytes
come in, but there are no more blocks than pixels; a padded region or a sum that saturated would not
narrow to 32 bits, so no answer shows one (`compressedLayout_exact`).
-/

namespace EncoderSetup.Calculator

variable {k : Calculator} {r : FrameRequest} {x : CompressionRule} {cols rows v : UInt32}

theorem headerBytes_eq_ok {header : UInt64}
    (h : k.headerBytes cols.toUInt64 rows.toUInt64 = .ok header) :
    header.toNat = cols.toNat ⌈/⌉ k.table.blocks.blockWidth.toNat *
      (rows.toNat ⌈/⌉ k.table.blocks.blockHeight.toNat) * k.table.blocks.headerBytes.toNat := by
  obtain ⟨hbw, hbh, -⟩ := k.blocks_ne_zero
  have h₁ := Word.toUInt64_ne_zero hbw
  have h₂ := Word.toUInt64_ne_zero hbh
  have hprod := Word.ceilDiv_mul_ceilDiv_lt cols rows h₁ h₂
  have hheader := Word.mul?_eq_some_iff.mp (Stride.checked_eq_ok_iff.mp h)
  rw [hheader, UInt64.toNat_mul, Nat.mod_eq_of_lt hprod, Word.toNat_ceilDiv _ h₁,
    Word.toNat_ceilDiv _ h₂]
  simp only [UInt32.toNat_toUInt64]

theorem bodyDivisor_ne_zero (hden : x.ratioDen ≠ 0) : x.ratioDen.toUInt64 * 8 ≠ 0 := by
  intro h0
  have hpos := Word.toNat_pos_of_ne hden
  have hden8 : (x.ratioDen.toUInt64 * 8).toNat = x.ratioDen.toNat * 8 :=
    Word.toNat_mul_toUInt64 x.ratioDen 8
  rw [h0, UInt64.toNat_zero] at hden8
  omega

theorem bodyBytes_eq_ok (hden : x.ratioDen ≠ 0) {body : UInt64}
    (h : bodyBytes x cols.toUInt64 rows.toUInt64 = .ok body) :
    body.toNat = (cols.toNat * rows.toNat * x.bitsPerPixel.toNat * x.ratioNum.toNat) ⌈/⌉
      (8 * x.ratioDen.toNat) := by
  have hden8 : (x.ratioDen.toUInt64 * 8).toNat = x.ratioDen.toNat * 8 :=
    Word.toNat_mul_toUInt64 x.ratioDen 8
  have hne := bodyDivisor_ne_zero hden
  have hbytes := Stride.checked_eq_ok_iff.mp h
  obtain ⟨pixels, hpixels, hbytes⟩ := Option.bind_eq_some_iff.mp hbytes
  obtain ⟨bits, hbits, hbytes⟩ := Option.bind_eq_some_iff.mp hbytes
  obtain ⟨-, hbody⟩ := (Word.mulRatioCeil?_eq_some_iff hne).mp hbytes
  rw [hbody, hden8, Nat.mul_comm x.ratioDen.toNat, Word.mul?_eq_some_iff.mp hbits,
    Word.mul?_eq_some_iff.mp hpixels, UInt32.toNat_toUInt64, UInt32.toNat_toUInt64,
    UInt32.toNat_toUInt64, UInt32.toNat_toUInt64]

theorem compressedLayout_exact {format : PixelFormat} {l : FrameLayout}
    (h : k.compressedLayout format cols v rows = .ok l) :
    ∃ f x, k.table.formats.get? format = some f ∧ f.compression = some x ∧
      l.pixelStride = cols ∧ l.byteStride = v ∧ l.verticalStride = rows ∧
      l.headerSize.toNat = cols.toNat ⌈/⌉ k.table.blocks.blockWidth.toNat *
        (rows.toNat ⌈/⌉ k.table.blocks.blockHeight.toNat) * k.table.blocks.headerBytes.toNat ∧
      l.bodySize.toNat = (cols.toNat * rows.toNat * x.bitsPerPixel.toNat * x.ratioNum.toNat) ⌈/⌉
        (8 * x.ratioDen.toNat) ∧
      l.bodyOffset.toNat = roundUp l.headerSize.toNat k.table.blocks.headerAlign.toNat ∧
      l.totalSize.toNat = l.bodyOffset.toNat +
        roundUp l.bodySize.toNat k.table.blocks.bodyAlign.toNat := by
  simp only [compressedLayout, bind_eq_ok_iff, GeometryTable.compressionRule_eq_ok_iff,
    Stride.narrow_eq_ok_iff] at h
  obtain ⟨x, ⟨f, hf, hx⟩, header, hheader, body, hbody, total, htotal, headerSize, hsize, bodySize,
    hbsize, bodyOffset, hoffset, hl⟩ := h
  obtain rfl := Except.ok.inj hl
  obtain ⟨-, -, hden⟩ := compression_ne_zero hf hx
  obtain ⟨-, -, -, -, -, hha, hba⟩ := k.blocks_ne_zero
  have hpad := Word.toNat_alignUp (Word.toUInt64_ne_zero hha)
    (Word.toNat_add_toUInt64_le (hsize ▸ headerSize.toNat_lt_size) k.table.blocks.headerAlign)
  have hbpad := Word.toNat_alignUp (Word.toUInt64_ne_zero hba)
    (Word.toNat_add_toUInt64_le (hbsize ▸ bodySize.toNat_lt_size) k.table.blocks.bodyAlign)
  have hsum : (Word.alignUp header k.table.blocks.headerAlign.toUInt64).toNat +
      (Word.alignUp body k.table.blocks.bodyAlign.toUInt64).toNat < UInt64.size := by
    have ho := bodyOffset.toNat_lt_size
    have hb := bodySize.toNat_lt_size
    have ha := k.table.blocks.bodyAlign.toNat_lt_size
    have hlt := roundUp_lt_add body.toNat (Word.toNat_pos (Word.toUInt64_ne_zero hba))
    rw [UInt32.toNat_toUInt64] at hlt hbpad
    simp only [UInt64.size, UInt32.size] at ho hb ha ⊢
    omega
  rw [UInt32.toNat_toUInt64] at hpad hbpad
  rw [Word.toNat_satAdd hsum, hpad, hbpad] at htotal
  refine ⟨f, x, hf, hx, rfl, rfl, rfl, ?_, ?_, ?_, ?_⟩
  · exact hsize.trans (headerBytes_eq_ok hheader)
  · exact hbsize.trans (bodyBytes_eq_ok hden hbody)
  · rw [hoffset, hpad, hsize]
  · rw [htotal, hoffset, hpad, hbsize]

/-- An answered compressed frame is laid out over the strides that are chosen for it. -/
theorem compressedLayout_of_frameSize_eq_ok {l : FrameLayout} (h : k.frameSize r = .ok l)
    (hcomp : r.compressed = true) (hw : r.width ≠ 0) (hh : r.height ≠ 0) :
    ∃ (c : CodingRule) (cols rows : UInt32), k.table.coding.get? r.coding = some c ∧
      Stride.IsChosen r.byteStride
        (fun m => r.width.toNat ≤ m ∧ k.table.blocks.hAlign.toNat ∣ m) cols.toNat ∧
      Stride.IsChosen r.vStride (fun m => r.height.toNat ≤ m ∧ c.vAlign.toNat ∣ m ∧
        k.table.blocks.vAlign.toNat ∣ m) rows.toNat ∧
      k.compressedLayout r.format cols cols rows = .ok l := by
  obtain ⟨f, hs, -⟩ := bind_eq_ok_iff.mp h
  obtain ⟨⟨c, hc⟩, -, -⟩ := supported_eq_ok_iff.mp hs
  obtain ⟨wC, hbyte, hC⟩ := byteStride_of_compressed (r := r.forByteStride) hs hcomp hw
  obtain ⟨wR, hvert, hR⟩ := verticalStride_of_compressed (r := r.forVerticalStride) hc hcomp hh
  rw [frameSize_of_pixels hs hw hh] at h
  simp only [layout, hbyte, hvert, bind_eq_ok_iff, Stride.narrow_eq_ok_iff, hcomp, if_true] at h
  obtain ⟨b, hb, v, hv, p, hp, hl⟩ := h
  rw [pixelStride_of_compressed (r := r.forPixelStride b) hs hcomp hw] at hp
  obtain rfl : b = p := Except.ok.inj hp
  exact ⟨c, b, v, hc, hb ▸ hC, hv ▸ hR, hl⟩

/-- In unbounded arithmetic every field of an answered compressed layout is exact. -/
theorem frameSize_compressed_exact (k : Calculator) (r : FrameRequest) (l : FrameLayout)
    (h : k.frameSize r = .ok l) (hcomp : r.compressed = true) (hw : r.width ≠ 0)
    (hh : r.height ≠ 0) :
    ∃ (c : CodingRule) (f : FormatRule) (x : CompressionRule) (C R : ℕ),
      k.table.coding.get? r.coding = some c ∧ k.table.formats.get? r.format = some f ∧
      f.compression = some x ∧
      let b := k.table.blocks
      Stride.IsChosen r.byteStride (fun m => r.width.toNat ≤ m ∧ b.hAlign.toNat ∣ m) C ∧
      Stride.IsChosen r.vStride
        (fun m => r.height.toNat ≤ m ∧ c.vAlign.toNat ∣ m ∧ b.vAlign.toNat ∣ m) R ∧
      l.byteStride.toNat = C ∧ l.pixelStride.toNat = C ∧ l.verticalStride.toNat = R ∧
      l.headerSize.toNat =
        (C ⌈/⌉ b.blockWidth.toNat) * (R ⌈/⌉ b.blockHeight.toNat) * b.headerBytes.toNat ∧
      l.bodySize.toNat = (C * R * x.bitsPerPixel.toNat * x.ratioNum.toNat) ⌈/⌉
        (8 * x.ratioDen.toNat) ∧
      l.bodyOffset.toNat = roundUp l.headerSize.toNat b.headerAlign.toNat ∧
      l.totalSize.toNat = l.bodyOffset.toNat + roundUp l.bodySize.toNat b.bodyAlign.toNat := by
  obtain ⟨c, cols, rows, hc, hC, hR, hl⟩ := compressedLayout_of_frameSize_eq_ok h hcomp hw hh
  obtain ⟨f, x, hf, hx, hpixel, hbyte, hrows, hsizes⟩ := compressedLayout_exact hl
  refine ⟨c, f, x, cols.toNat, rows.toNat, hc, hf, hx, hC, hR, ?_, ?_, ?_, hsizes⟩
  · rw [hbyte]
  · rw [hpixel]
  · rw [hrows]

theorem frameSize_compressed_exact_1080p : ∃ C R : ℕ,
    Stride.IsChosen none (fun m => 1920 ≤ m ∧ 64 ∣ m) C ∧
      Stride.IsChosen (some 1152) (fun m => 1080 ≤ m ∧ 64 ∣ m ∧ 16 ∣ m) R ∧
      C = 1920 ∧ R = 1152 ∧ (C ⌈/⌉ 16) * (R ⌈/⌉ 16) * 16 = 138240 ∧
      (C * R * 15 * 16) ⌈/⌉ (8 * 15) = 4423680 ∧ roundUp 138240 4096 = 139264 ∧
      139264 + roundUp 4423680 4096 = 4562944 := by
  have hok : builtin.frameSize ⟨.hevc, .yuv420sp10bit, true, 1920, 1080, none, some 1152⟩ =
      .ok ⟨1920, 1920, 1152, 4562944, 138240, 4423680, 139264⟩ := by cbv
  obtain ⟨c, f, x, C, R, hc, hf, hx, hC, hR, hbyte, -, hrows, hheader, hbody, hoffset, htotal⟩ :=
    frameSize_compressed_exact builtin _ _ hok rfl (by decide) (by decide)
  obtain rfl : c = ⟨64⟩ := Option.some.inj (hc.symm.trans (by rfl))
  obtain rfl : f = ⟨10, 64, 3, 2, some ⟨15, 16, 15⟩⟩ := Option.some.inj (hf.symm.trans (by rfl))
  obtain rfl := Option.some.inj hx
  exact ⟨C, R, hC, hR, hbyte.symm, hrows.symm, hheader.symm, hbody.symm, hoffset.symm, htotal.symm⟩

end EncoderSetup.Calculator

import EncoderSetup.Proofs.Frame.Strides

/-!
# The exact size of plain frames

A plain layout is refused exactly when a stride or the size does not fit 32 bits. The product
behind the size is checked at 64 bits before it is divided; it exceeds them only if the quotient
exceeds 32, because the divisor is itself a word of 32 bits (`planeBytes_cases`).
-/

namespace EncoderSetup.Calculator

variable {k : Calculator} {r : FrameRequest} {c : CodingRule} {f : FormatRule}

theorem frameSize_of_pixels (hs : k.supported r.coding r.format r.compressed = .ok f)
    (hw : r.width ≠ 0) (hh : r.height ≠ 0) : k.frameSize r = k.layout r f := by
  have hpixels : ¬ (r.width = 0 ∨ r.height = 0) := not_or.mpr ⟨hw, hh⟩
  unfold frameSize
  rw [hs, ok_bind, if_neg hpixels]

theorem planeBytes_cases (hden : f.planeDen ≠ 0) (b v : UInt32) :
    (∃ w, planeBytes f b.toUInt64 v.toUInt64 = .ok w ∧
      w.toNat = (b.toNat * v.toNat * f.planeNum.toNat) ⌈/⌉ f.planeDen.toNat) ∨
    UInt32.size ≤ (b.toNat * v.toNat * f.planeNum.toNat) ⌈/⌉ f.planeDen.toNat ∧
      ∃ cause, planeBytes f b.toUInt64 v.toUInt64 = .error (.invalidArgument cause) := by
  have hplane := Word.toNat_mul_toNat_lt b v
  unfold planeBytes
  cases hm : Word.mul? b.toUInt64 v.toUInt64 with
  | none =>
      have hle := Word.mul?_eq_none_iff.mp hm
      rw [UInt32.toNat_toUInt64, UInt32.toNat_toUInt64] at hle
      omega
  | some plane =>
      have hp := Word.mul?_eq_some_iff.mp hm
      rw [UInt32.toNat_toUInt64, UInt32.toNat_toUInt64] at hp
      rw [Option.bind_eq_bind, Option.bind_some]
      cases ht : Word.mulRatioCeil? plane f.planeNum.toUInt64 f.planeDen.toUInt64 with
      | none =>
          have hle := Word.mulRatioCeil?_eq_none_iff.mp ht
          rw [hp, UInt32.toNat_toUInt64] at hle
          refine Or.inr ⟨?_, _, rfl⟩
          by_contra hlt
          have hsmall := lt_mul_of_ceilDiv_lt (Word.toNat_pos_of_ne hden)
            f.planeDen.toNat_lt_size (not_le.mp hlt)
          exact absurd hle (not_le.mpr hsmall)
      | some w =>
          obtain ⟨-, hw⟩ := (Word.mulRatioCeil?_eq_some_iff (Word.toUInt64_ne_zero hden)).mp ht
          rw [hp, UInt32.toNat_toUInt64, UInt32.toNat_toUInt64] at hw
          exact Or.inl ⟨w, rfl, hw⟩

theorem plainLayout_cases (hden : f.planeDen ≠ 0) (p b v : UInt32) :
    (∃ size, plainLayout f p b v = .ok ⟨p, b, v, size, 0, 0, 0⟩ ∧
      size.toNat = (b.toNat * v.toNat * f.planeNum.toNat) ⌈/⌉ f.planeDen.toNat ∧
      size.toNat < UInt32.size) ∨
    UInt32.size ≤ (b.toNat * v.toNat * f.planeNum.toNat) ⌈/⌉ f.planeDen.toNat ∧
      ∃ cause, plainLayout f p b v = .error (.invalidArgument cause) := by
  unfold plainLayout
  obtain ⟨w, hbytes, hw⟩ | ⟨hle, cause, hbytes⟩ := planeBytes_cases hden b v
  · rw [hbytes, ok_bind, ← hw]
    obtain ⟨size, hsize, heq, -⟩ | ⟨hle, cause, hsize⟩ := Stride.narrow_cases .totalSize w
    · rw [hsize, ok_bind]
      exact Or.inl ⟨size, rfl, heq, size.toNat_lt_size⟩
    · rw [hsize, error_bind]
      exact Or.inr ⟨hle, cause, rfl⟩
  · rw [hbytes, error_bind]
    exact Or.inr ⟨hle, cause, rfl⟩

/-- A plain frame with pixels has its exact strides and size, or one of them exceeds 32 bits and the
request is refused. -/
theorem frameSize_plain_exact (k : Calculator) (r : FrameRequest) (c : CodingRule) (f : FormatRule)
    (hc : k.table.coding.get? r.coding = some c) (hf : k.table.formats.get? r.format = some f)
    (hplain : r.compressed = false) (hw : r.width ≠ 0) (hh : r.height ≠ 0) :
    ∃ B V : ℕ,
      Stride.IsChosen r.byteStride
        (fun m => (r.width.toNat * f.lumaBits.toNat) ⌈/⌉ 8 ≤ m ∧ f.byteAlign.toNat ∣ m) B ∧
      Stride.IsChosen r.vStride (fun m => r.height.toNat ≤ m ∧ c.vAlign.toNat ∣ m) V ∧
      let P := 8 * B / f.lumaBits.toNat
      let T := (B * V * f.planeNum.toNat) ⌈/⌉ f.planeDen.toNat
      let Fits := B < UInt32.size ∧ V < UInt32.size ∧ P < UInt32.size ∧ T < UInt32.size
      (Fits → ∃ l, k.frameSize r = .ok l ∧ l.byteStride.toNat = B ∧ l.verticalStride.toNat = V ∧
        l.pixelStride.toNat = P ∧ l.totalSize.toNat = T ∧
        l.headerSize = 0 ∧ l.bodySize = 0 ∧ l.bodyOffset = 0) ∧
      (¬ Fits → ∃ cause, k.frameSize r = .error (.invalidArgument cause)) := by
  have hs : k.supported r.coding r.format r.compressed = .ok f :=
    supported_eq_ok_iff.mpr ⟨⟨c, hc⟩, hf, fun hcomp => by rw [hplain] at hcomp; cases hcomp⟩
  obtain ⟨-, -, -, hden⟩ := format_ne_zero hf
  obtain ⟨wB, hbyte, hB⟩ := byteStride_of_plain (r := r.forByteStride) hs hplain hw
  obtain ⟨wV, hvert, hV⟩ := verticalStride_of_plain (r := r.forVerticalStride) hc hplain hh
  refine ⟨wB.toNat, wV.toNat, hB, hV, ?_⟩
  intro P T Fits
  have hlayout := frameSize_of_pixels hs hw hh
  unfold layout at hlayout
  rw [hbyte, hvert] at hlayout
  -- Each result is narrowed before the next is computed: the first that does not fit decides.
  obtain ⟨b, hb, hbB, hBlt⟩ | ⟨hle, cause, hb⟩ := Stride.narrow_cases .byteStride wB
  · obtain ⟨wP, hpixel, hP⟩ := pixelStride_of_plain (r := r.forPixelStride b) hs hplain hw
    change wP.toNat = 8 * b.toNat / f.lumaBits.toNat at hP
    rw [hbB] at hP
    rw [hb, ok_bind, hpixel] at hlayout
    obtain ⟨v, hv, hvV, hVlt⟩ | ⟨hle, cause, hv⟩ := Stride.narrow_cases .verticalStride wV
    · rw [hv, ok_bind] at hlayout
      obtain ⟨p, hp, hpP, hPlt⟩ | ⟨hle, cause, hp⟩ := Stride.narrow_cases .pixelStride wP
      · have htotal := plainLayout_cases hden p b v
        rw [hbB, hvV] at htotal
        rw [hp, ok_bind, hplain, if_neg Bool.false_ne_true] at hlayout
        rw [hP] at hpP hPlt
        obtain ⟨size, hsize, hT, hTlt⟩ | ⟨hle, cause, hsize⟩ := htotal
        · rw [hsize] at hlayout
          rw [hT] at hTlt
          exact ⟨fun _ => ⟨_, hlayout, hbB, hvV, hpP, hT, rfl, rfl, rfl⟩,
            fun hfits => absurd ⟨hBlt, hVlt, hPlt, hTlt⟩ hfits⟩
        · rw [hsize] at hlayout
          exact ⟨fun hfits => absurd hle (not_le.mpr hfits.2.2.2), fun _ => ⟨cause, hlayout⟩⟩
      · rw [hp, error_bind] at hlayout
        rw [hP] at hle
        exact ⟨fun hfits => absurd hle (not_le.mpr hfits.2.2.1), fun _ => ⟨cause, hlayout⟩⟩
    · rw [hv, error_bind] at hlayout
      exact ⟨fun hfits => absurd hle (not_le.mpr hfits.2.1), fun _ => ⟨cause, hlayout⟩⟩
  · rw [hb, error_bind] at hlayout
    exact ⟨fun hfits => absurd hle (not_le.mpr hfits.1), fun _ => ⟨cause, hlayout⟩⟩

theorem frameSize_plain_exact_1080p : ∃ B V : ℕ,
    Stride.IsChosen none (fun m => (1920 * 8) ⌈/⌉ 8 ≤ m ∧ 16 ∣ m) B ∧
      Stride.IsChosen none (fun m => 1080 ≤ m ∧ 16 ∣ m) V ∧
      B = 1920 ∧ V = 1088 ∧ (B * V * 3) ⌈/⌉ 2 = 3133440 := by
  have hok : builtin.frameSize ⟨.avc, .yuv420sp, false, 1920, 1080, none, none⟩ =
      .ok ⟨1920, 1920, 1088, 3133440, 0, 0, 0⟩ := by rfl
  obtain ⟨B, V, hB, hV, hfits, hrefused⟩ := frameSize_plain_exact builtin
    ⟨.avc, .yuv420sp, false, 1920, 1080, none, none⟩ ⟨16⟩ ⟨8, 16, 3, 2, some ⟨12, 1, 1⟩⟩
    (by rfl) (by rfl) rfl (by decide) (by decide)
  obtain ⟨l, hl, hb, hv, -, ht, -⟩ := hfits (by
    by_contra hn
    obtain ⟨cause, he⟩ := hrefused hn
    rw [hok] at he
    cases he)
  obtain rfl := Except.ok.inj (hok.symm.trans hl)
  exact ⟨B, V, hB, hV, hb.symm, hv.symm, ht.symm⟩

end EncoderSetup.Calculator

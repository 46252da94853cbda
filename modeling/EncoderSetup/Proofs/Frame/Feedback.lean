import EncoderSetup.Proofs.Frame.CompressedSize

/-!
# A layout's own strides are kept

The strides of an answered layout are valid suggestions for its frame: nonzero, large enough and
aligned. Suggested again, each is kept (`Stride.IsChosen.eq_of_suggested`), and since the sizes
follow from the strides, the same layout is answered.
-/

namespace EncoderSetup

namespace Stride

/-- A chosen stride is chosen again where it is itself suggested. -/
theorem IsChosen.eq_of_suggested {hint : Option UInt32} {Valid : ℕ → Prop} {n m : ℕ} {x : UInt32}
    (h : IsChosen hint Valid n) (hx : x.toNat = n) (hn : n ≠ 0)
    (hm : IsChosen (some x) Valid m) : m = n := by
  obtain ⟨y, hy, -, -, rfl⟩ | ⟨hrefused, -⟩ := hm
  · rw [← Option.some.inj hy, hx]
  · have hx0 : x ≠ 0 := by
      rintro rfl
      exact hn hx.symm
    exact absurd ⟨x, rfl, hx0, hx ▸ h.valid⟩ hrefused

theorem narrow_eq_ok_of_suggested {q : Quantity} {hint : Option UInt32} {D : ℕ → Prop} {a : ℕ}
    {v w : UInt64} {x : UInt32} (ha : 0 < a) (hx : narrow q v = .ok x)
    (hv : IsChosen hint (fun m => a ≤ m ∧ D m) v.toNat)
    (hw : IsChosen (some x) (fun m => a ≤ m ∧ D m) w.toNat) : narrow q w = .ok x := by
  have hxv := narrow_eq_ok_iff.mp hx
  have hpos := lt_of_lt_of_le ha hv.valid.1
  have hwv := hv.eq_of_suggested hxv hpos.ne' hw
  exact narrow_eq_ok_iff.mpr (hxv.trans hwv.symm)

end Stride

namespace Calculator

variable {k : Calculator} {c : CodingRule} {f : FormatRule} {b v : UInt32}

theorem leastRow_pos {r : ByteStrideRequest} (hf : k.table.formats.get? r.format = some f)
    (hw : r.width ≠ 0) : 0 < r.leastRow f := by
  have hwidth := Word.toNat_pos_of_ne hw
  obtain ⟨hbits, -⟩ := format_ne_zero hf
  unfold ByteStrideRequest.leastRow
  split
  · exact hwidth
  · exact ceilDiv_pos (Nat.mul_pos hwidth (Word.toNat_pos_of_ne hbits)) (by decide)

theorem byteStride_suggested {r : ByteStrideRequest}
    (hs : k.supported r.coding r.format r.compressed = .ok f) (hw : r.width ≠ 0)
    (h : k.byteStride r = .ok b) : k.byteStride { r with byteStride := some b } = .ok b := by
  obtain ⟨-, hf, -⟩ := supported_eq_ok_iff.mp hs
  obtain ⟨n, hfirst, hn⟩ := byteStride_isChosen hs hw
  obtain ⟨m, hagain, hm⟩ := byteStride_isChosen (r := { r with byteStride := some b }) hs hw
  rw [hfirst] at h
  rw [hagain]
  exact Stride.narrow_eq_ok_of_suggested (leastRow_pos hf hw) h hn hm

theorem verticalStride_suggested {r : VerticalStrideRequest}
    (hc : k.table.coding.get? r.coding = some c) (hh : r.height ≠ 0)
    (h : k.verticalStride r = .ok v) : k.verticalStride { r with vStride := some v } = .ok v := by
  obtain ⟨n, hfirst, hn⟩ := verticalStride_isChosen hc hh
  obtain ⟨m, hagain, hm⟩ := verticalStride_isChosen (r := { r with vStride := some v }) hc hh
  rw [hfirst] at h
  rw [hagain]
  exact Stride.narrow_eq_ok_of_suggested (Word.toNat_pos_of_ne hh) h hn hm

variable {p : UInt32} {l : FrameLayout}

theorem strides_of_plainLayout (h : plainLayout f p b v = .ok l) :
    l.byteStride = b ∧ l.verticalStride = v := by
  unfold plainLayout at h
  obtain ⟨total, -, h⟩ := bind_eq_ok_iff.mp h
  obtain ⟨size, -, h⟩ := bind_eq_ok_iff.mp h
  obtain rfl := Except.ok.inj h
  exact ⟨rfl, rfl⟩

variable {r : FrameRequest}

theorem layout_suggested (hs : k.supported r.coding r.format r.compressed = .ok f)
    (hw : r.width ≠ 0) (hh : r.height ≠ 0) (h : k.layout r f = .ok l) :
    k.layout { r with byteStride := some l.byteStride, vStride := some l.verticalStride } f =
      .ok l := by
  obtain ⟨⟨c, hc⟩, -⟩ := supported_eq_ok_iff.mp hs
  unfold layout at h
  obtain ⟨b, hb, h⟩ := bind_eq_ok_iff.mp h
  obtain ⟨v, hv, h⟩ := bind_eq_ok_iff.mp h
  obtain ⟨p, hp, h⟩ := bind_eq_ok_iff.mp h
  have hstrides : l.byteStride = b ∧ l.verticalStride = v := by
    by_cases hcomp : r.compressed = true
    · rw [if_pos hcomp] at h
      obtain ⟨_, _, -, -, -, hbyte, hvert, -⟩ := compressedLayout_exact h
      exact ⟨hbyte, hvert⟩
    · rw [if_neg hcomp] at h
      exact strides_of_plainLayout h
  obtain ⟨rfl, rfl⟩ := hstrides
  have hbyte := byteStride_suggested (r := r.forByteStride) hs hw hb
  have hvert := verticalStride_suggested (r := r.forVerticalStride) hc hh hv
  unfold layout
  apply bind_eq_ok_iff.mpr
  refine ⟨_, hbyte, ?_⟩
  apply bind_eq_ok_iff.mpr
  refine ⟨_, hvert, ?_⟩
  apply bind_eq_ok_iff.mpr
  exact ⟨p, hp, h⟩

/-- The strides of an answered layout, suggested for the same frame, give the same layout. -/
theorem frameSize_stable (k : Calculator) (r : FrameRequest) (l : FrameLayout)
    (h : k.frameSize r = .ok l) :
    k.frameSize { r with byteStride := some l.byteStride, vStride := some l.verticalStride } =
      .ok l := by
  obtain ⟨f, hs, h⟩ := bind_eq_ok_iff.mp h
  apply bind_eq_ok_iff.mpr
  refine ⟨f, hs, ?_⟩
  by_cases hempty : r.width = 0 ∨ r.height = 0
  · rw [if_pos hempty] at h ⊢
    exact h
  · obtain ⟨hw, hh⟩ := not_or.mp hempty
    rw [if_neg hempty] at h ⊢
    exact layout_suggested hs hw hh h

/-- Rows in groups of 6 and blocks in groups of 15: a suggestion of 45 rows is refused, and the 60
rows that are taken instead are kept when they come back. -/
theorem frameSize_stable_odd_rows :
    let t : GeometryTable := { GeometryTable.builtin with
      coding := .ofList [(.avc, ⟨6⟩)]
      blocks := { GeometryTable.builtin.blocks with vAlign := 15 } }
    ∃ k : Calculator, k.table = t ∧
      k.frameSize ⟨.avc, .yuv420sp, true, 100, 50, some 7, some 45⟩ =
        .ok ⟨128, 128, 60, 16384, 512, 11520, 4096⟩ ∧
      k.frameSize ⟨.avc, .yuv420sp, true, 100, 50, some 128, some 60⟩ =
        .ok ⟨128, 128, 60, 16384, 512, 11520, 4096⟩ := by
  intro t
  let k : Calculator := ⟨t, by rfl⟩
  have hok : k.frameSize ⟨.avc, .yuv420sp, true, 100, 50, some 7, some 45⟩ =
      .ok ⟨128, 128, 60, 16384, 512, 11520, 4096⟩ := by cbv
  exact ⟨k, rfl, hok, frameSize_stable k _ _ hok⟩

end Calculator

end EncoderSetup

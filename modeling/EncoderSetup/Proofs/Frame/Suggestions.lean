import EncoderSetup.Proofs.Frame.Monotone

/-!
# What a suggestion can do

A suggested stride is kept or it is ignored. Kept, it is one of the valid strides, none of which is
below the stride that is taken without it, so that a layout without suggestions is the smallest of
its frame. Ignored because it is zero, too small or not aligned (`Stride.Invalid`), it leaves no
trace: the answer, be it a layout or an error, is the one without it
(`Calculator.frameSize_least_without_suggestions`).
-/

namespace EncoderSetup

namespace Stride

/-- A suggestion that is zero, does not cover what it has to or is not aligned. -/
def Invalid (least align : ℕ) (h : UInt32) : Prop := h = 0 ∨ h.toNat < least ∨ ¬ align ∣ h.toNat

variable {hint : Option UInt32} {h : UInt32} {least align n m : ℕ}

theorem IsChosen.isLeast_of_none {Valid : ℕ → Prop} (hn : IsChosen none Valid n) :
    IsLeast {x | Valid x} n := by
  obtain ⟨h, hh, -⟩ | ⟨-, hleast⟩ := hn
  · cases hh
  · exact hleast

theorem IsChosen.isLeast_of_invalid (hinvalid : Invalid least align h)
    (hn : IsChosen (some h) (fun x => least ≤ x ∧ align ∣ x) n) :
    IsLeast {x | least ≤ x ∧ align ∣ x} n := by
  obtain ⟨h', hh, h0, ⟨hcover, haligned⟩, -⟩ | ⟨-, hleast⟩ := hn
  · obtain rfl := Option.some.inj hh
    obtain hzero | hsmall | hoff := hinvalid
    · exact absurd hzero h0
    · omega
    · exact absurd haligned hoff
  · exact hleast

end Stride

namespace Calculator

variable {k : Calculator} {c : CodingRule} {f : FormatRule} {h : UInt32}

theorem upTo_byteStride_none {r : ByteStrideRequest}
    (hs : k.supported r.coding r.format r.compressed = .ok f) (hw : r.width ≠ 0) :
    UpTo (· ≤ ·) (k.byteStride { r with byteStride := none }) (k.byteStride r) := by
  obtain ⟨n, hbare, hn⟩ := byteStride_isChosen (r := { r with byteStride := none }) hs hw
  obtain ⟨m, hgiven, hm⟩ := byteStride_isChosen hs hw
  rw [hbare, hgiven]
  exact upTo_narrow _ (UInt64.le_iff_toNat_le.mpr (hn.isLeast_of_none.2 hm.valid))

theorem upTo_verticalStride_none {r : VerticalStrideRequest}
    (hc : k.table.coding.get? r.coding = some c) (hh : r.height ≠ 0) :
    UpTo (· ≤ ·) (k.verticalStride { r with vStride := none }) (k.verticalStride r) := by
  obtain ⟨n, hbare, hn⟩ := verticalStride_isChosen (r := { r with vStride := none }) hc hh
  obtain ⟨m, hgiven, hm⟩ := verticalStride_isChosen hc hh
  rw [hbare, hgiven]
  exact upTo_narrow _ (UInt64.le_iff_toNat_le.mpr (hn.isLeast_of_none.2 hm.valid))

variable {r : FrameRequest}

theorem upTo_layout_withoutSuggestions
    (hs : k.supported r.coding r.format r.compressed = .ok f) (hw : r.width ≠ 0)
    (hh : r.height ≠ 0) :
    UpTo FrameLayout.Within (k.layout { r with byteStride := none, vStride := none } f)
      (k.layout r f) := by
  obtain ⟨⟨c, hc⟩, -⟩ := supported_eq_ok_iff.mp hs
  apply (upTo_byteStride_none (r := r.forByteStride) hs hw).bind
  intro b b' hb
  apply (upTo_verticalStride_none (r := r.forVerticalStride) hc hh).bind
  intro v v' hv
  apply (upTo_pixelStride (r := r.forPixelStride b') hs hw UInt32.le_rfl hb).bind
  intro p p' hp
  exact upTo_sizes hs hp hb hv

theorem upTo_frameSize_withoutSuggestions (k : Calculator) (r : FrameRequest) :
    UpTo FrameLayout.Within (k.frameSize { r with byteStride := none, vStride := none })
      (k.frameSize r) := by
  apply UpTo.bind_same
  intro f hs
  by_cases hempty : r.width = 0 ∨ r.height = 0
  · rw [if_pos hempty, if_pos hempty]
    exact UpTo.pure FrameLayout.zero.zero_within
  · obtain ⟨hw, hh⟩ := not_or.mp hempty
    rw [if_neg hempty, if_neg hempty]
    exact upTo_layout_withoutSuggestions hs hw hh

theorem byteStride_of_invalid {r : ByteStrideRequest}
    (hs : k.supported r.coding r.format r.compressed = .ok f) (hw : r.width ≠ 0)
    (hinvalid : Stride.Invalid (r.leastRow f) (k.rowAlign f r.compressed) h) :
    k.byteStride { r with byteStride := some h } = k.byteStride { r with byteStride := none } := by
  obtain ⟨n, hgiven, hn⟩ := byteStride_isChosen (r := { r with byteStride := some h }) hs hw
  obtain ⟨m, hbare, hm⟩ := byteStride_isChosen (r := { r with byteStride := none }) hs hw
  have hnm := (Stride.IsChosen.isLeast_of_invalid hinvalid hn).unique hm.isLeast_of_none
  rw [hgiven, hbare, UInt64.toNat_inj.mp hnm]

theorem verticalStride_of_invalid {r : VerticalStrideRequest}
    (hc : k.table.coding.get? r.coding = some c) (hh : r.height ≠ 0)
    (hinvalid : Stride.Invalid r.height.toNat (k.rowsAlign c r.compressed) h) :
    k.verticalStride { r with vStride := some h } =
      k.verticalStride { r with vStride := none } := by
  obtain ⟨n, hgiven, hn⟩ := verticalStride_isChosen (r := { r with vStride := some h }) hc hh
  obtain ⟨m, hbare, hm⟩ := verticalStride_isChosen (r := { r with vStride := none }) hc hh
  have hnm := (Stride.IsChosen.isLeast_of_invalid hinvalid hn).unique hm.isLeast_of_none
  rw [hgiven, hbare, UInt64.toNat_inj.mp hnm]

/-- Requests of one frame whose layouts agree where there are pixels have one answer. -/
theorem frameSize_eq_of_layout_eq {b b' v v' : Option UInt32}
    (h : ∀ f, k.supported r.coding r.format r.compressed = .ok f → r.width ≠ 0 → r.height ≠ 0 →
      k.layout { r with byteStride := b, vStride := v } f =
        k.layout { r with byteStride := b', vStride := v' } f) :
    k.frameSize { r with byteStride := b, vStride := v } =
      k.frameSize { r with byteStride := b', vStride := v' } := by
  apply bind_congr_of_ok
  intro f hs
  by_cases hempty : r.width = 0 ∨ r.height = 0
  · rw [if_pos hempty, if_pos hempty]
  · obtain ⟨hw, hh⟩ := not_or.mp hempty
    rw [if_neg hempty, if_neg hempty]
    exact h f hs hw hh

theorem frameSize_of_invalid_byteStride (k : Calculator) (r : FrameRequest) (h : UInt32)
    (hinvalid : ∀ f, k.table.formats.get? r.format = some f →
      Stride.Invalid (r.forByteStride.leastRow f) (k.rowAlign f r.compressed) h) :
    k.frameSize { r with byteStride := some h } = k.frameSize { r with byteStride := none } := by
  apply frameSize_eq_of_layout_eq (r := r)
  intro f hs hw _
  obtain ⟨-, hf, -⟩ := supported_eq_ok_iff.mp hs
  have hbyte := byteStride_of_invalid (r := r.forByteStride) hs hw (hinvalid f hf)
  unfold layout
  simp only [FrameRequest.forByteStride] at hbyte ⊢
  rw [hbyte]
  rfl

theorem frameSize_of_invalid_verticalStride (k : Calculator) (r : FrameRequest) (h : UInt32)
    (hinvalid : ∀ c, k.table.coding.get? r.coding = some c →
      Stride.Invalid r.height.toNat (k.rowsAlign c r.compressed) h) :
    k.frameSize { r with vStride := some h } = k.frameSize { r with vStride := none } := by
  apply frameSize_eq_of_layout_eq (r := r)
  intro f hs _ hh
  obtain ⟨⟨c, hc⟩, -⟩ := supported_eq_ok_iff.mp hs
  have hvertical := verticalStride_of_invalid (r := r.forVerticalStride) hc hh (hinvalid c hc)
  unfold layout
  simp only [FrameRequest.forVerticalStride] at hvertical ⊢
  rw [hvertical]
  rfl

/-- No suggestion makes a layout smaller in any field or turns a refusal into one, and an invalid
one changes nothing. -/
theorem frameSize_least_without_suggestions (k : Calculator) (r : FrameRequest) :
    (∀ l, k.frameSize r = .ok l →
      ∃ l₀, k.frameSize { r with byteStride := none, vStride := none } = .ok l₀ ∧ l₀.Within l) ∧
    (∀ h, (∀ f, k.table.formats.get? r.format = some f →
        Stride.Invalid (r.forByteStride.leastRow f) (k.rowAlign f r.compressed) h) →
      k.frameSize { r with byteStride := some h } = k.frameSize { r with byteStride := none }) ∧
    ∀ h, (∀ c, k.table.coding.get? r.coding = some c →
        Stride.Invalid r.height.toNat (k.rowsAlign c r.compressed) h) →
      k.frameSize { r with vStride := some h } = k.frameSize { r with vStride := none } :=
  ⟨k.upTo_frameSize_withoutSuggestions r, k.frameSize_of_invalid_byteStride r,
    k.frameSize_of_invalid_verticalStride r⟩

/-- Rows in groups of 6 and blocks in groups of 15: 192 pixels and 90 rows are kept, which is more
than the frame needs. A suggestion of 7 pixels is too small, and one of 75 rows ends inside a group
of six. -/
theorem frameSize_least_odd_rows :
    let t : GeometryTable := { GeometryTable.builtin with
      coding := .ofList [(.avc, ⟨6⟩)]
      blocks := { GeometryTable.builtin.blocks with vAlign := 15 } }
    ∃ k : Calculator, k.table = t ∧
      (∃ l, k.frameSize ⟨.avc, .yuv420sp, true, 100, 50, none, none⟩ = .ok l ∧
        l.Within ⟨192, 192, 90, 32768, 1152, 25920, 4096⟩) ∧
      k.frameSize ⟨.avc, .yuv420sp, true, 100, 50, some 7, some 90⟩ =
        k.frameSize ⟨.avc, .yuv420sp, true, 100, 50, none, some 90⟩ ∧
      k.frameSize ⟨.avc, .yuv420sp, true, 100, 50, some 192, some 75⟩ =
        k.frameSize ⟨.avc, .yuv420sp, true, 100, 50, some 192, none⟩ := by
  intro t
  let k : Calculator := ⟨t, by rfl⟩
  obtain ⟨hleast, hbyte, hvertical⟩ :=
    k.frameSize_least_without_suggestions ⟨.avc, .yuv420sp, true, 100, 50, some 192, some 90⟩
  have hok : k.frameSize ⟨.avc, .yuv420sp, true, 100, 50, some 192, some 90⟩ =
      .ok ⟨192, 192, 90, 32768, 1152, 25920, 4096⟩ := by cbv
  refine ⟨k, rfl, hleast _ hok, hbyte 7 ?_, hvertical 75 ?_⟩
  · intro f _
    have hsmall : (7 : UInt32).toNat < 100 := by decide
    exact Or.inr (Or.inl hsmall)
  · intro c hc
    obtain rfl : c = ⟨6⟩ := Option.some.inj (hc.symm.trans (by rfl))
    have hoff : ¬ Nat.lcm 6 15 ∣ 75 := by decide
    exact Or.inr (Or.inr hoff)

end Calculator

end EncoderSetup

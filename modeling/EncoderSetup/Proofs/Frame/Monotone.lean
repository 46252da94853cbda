import EncoderSetup.Proofs.Frame.CompressedSize

/-!
# A smaller frame needs no more

Two requests that differ in width and height alone are compared step by step. `Calculator.UpTo`
relates a step of the smaller frame to the same step of the larger one: where the larger is
answered, so is the smaller, by no more. It passes through the binds of a layout, so that each step
is compared on its own. A suggestion may be kept for the smaller frame and be too small for the
larger; it then lies below the stride that the larger one takes instead (`Stride.IsChosen.le`).
-/

namespace EncoderSetup

namespace Stride

theorem IsChosen.le {hint : Option UInt32} {D : ℕ → Prop} {a b n m : ℕ} (hab : a ≤ b)
    (hn : IsChosen hint (fun x => a ≤ x ∧ D x) n) (hm : IsChosen hint (fun x => b ≤ x ∧ D x) m) :
    n ≤ m := by
  have hvalid := hm.valid
  obtain ⟨h, hh, h0, ⟨-, hd⟩, rfl⟩ | ⟨-, hleast⟩ := hn
  · by_cases hb : b ≤ h.toNat
    · obtain ⟨h', hh', -, -, rfl⟩ | ⟨hrefused, -⟩ := hm
      · rw [Option.some.inj (hh.symm.trans hh')]
      · exact absurd ⟨h, hh, h0, hb, hd⟩ hrefused
    · exact (not_le.mp hb).le.trans hvalid.1
  · exact hleast.2 ⟨hab.trans hvalid.1, hvalid.2⟩

end Stride

namespace Word

variable {a b c d v w num den align : UInt64}

/-- Where the second result fits a word, so does the first, and it is not larger. -/
def UpTo (x y : Option UInt64) : Prop := ∀ q, y = some q → ∃ p, x = some p ∧ p ≤ q

theorem UpTo.bind {x y : Option UInt64} {f g : UInt64 → Option UInt64} (h : UpTo x y)
    (hfg : ∀ p q, p ≤ q → UpTo (f p) (g q)) : UpTo (x >>= f) (y >>= g) := by
  intro r hr
  obtain ⟨q, rfl, hr⟩ := Option.bind_eq_some_iff.mp hr
  obtain ⟨p, rfl, hpq⟩ := h q rfl
  exact hfg p q hpq r hr

theorem ne_zero_of_le {x y : UInt32} (hx : x ≠ 0) (hxy : x ≤ y) : y ≠ 0 := by
  rintro rfl
  exact hx (UInt32.le_antisymm hxy UInt32.zero_le)

theorem toUInt64_mono {x y : UInt32} (h : x ≤ y) : x.toUInt64 ≤ y.toUInt64 := by
  rw [UInt64.le_iff_toNat_le, UInt32.toNat_toUInt64, UInt32.toNat_toUInt64]
  exact UInt32.le_iff_toNat_le.mp h

theorem toNat_mul_toNat_le (hac : a ≤ c) (hbd : b ≤ d) :
    a.toNat * b.toNat ≤ c.toNat * d.toNat :=
  Nat.mul_le_mul (UInt64.le_iff_toNat_le.mp hac) (UInt64.le_iff_toNat_le.mp hbd)

theorem upTo_mul? (hac : a ≤ c) (hbd : b ≤ d) : UpTo (mul? a b) (mul? c d) := by
  intro q hq
  have hle := toNat_mul_toNat_le hac hbd
  have hq := mul?_eq_some_iff.mp hq
  cases hp : mul? a b with
  | none =>
      have hover := mul?_eq_none_iff.mp hp
      have hlt := q.toNat_lt_size
      omega
  | some p =>
      have hp := mul?_eq_some_iff.mp hp
      exact ⟨p, rfl, UInt64.le_iff_toNat_le.mpr (by omega)⟩

theorem ceilDiv_mono (hd : d ≠ 0) (h : v ≤ w) : ceilDiv v d ≤ ceilDiv w d := by
  rw [UInt64.le_iff_toNat_le, toNat_ceilDiv v hd, toNat_ceilDiv w hd]
  exact ceilDiv_le_ceilDiv (UInt64.le_iff_toNat_le.mp h) _

theorem ceilDiv_mul_ceilDiv_mono {x x' y y' : UInt32} (hx : x ≤ x') (hy : y ≤ y') (hd : d ≠ 0)
    (hc : c ≠ 0) : ceilDiv x.toUInt64 d * ceilDiv y.toUInt64 c ≤
      ceilDiv x'.toUInt64 d * ceilDiv y'.toUInt64 c := by
  rw [UInt64.le_iff_toNat_le, UInt64.toNat_mul, UInt64.toNat_mul,
    Nat.mod_eq_of_lt (ceilDiv_mul_ceilDiv_lt x y hd hc),
    Nat.mod_eq_of_lt (ceilDiv_mul_ceilDiv_lt x' y' hd hc)]
  exact toNat_mul_toNat_le (ceilDiv_mono hd (toUInt64_mono hx)) (ceilDiv_mono hc (toUInt64_mono hy))

theorem upTo_mulRatioCeil? (hden : den ≠ 0) (h : v ≤ w) :
    UpTo (mulRatioCeil? v num den) (mulRatioCeil? w num den) := by
  intro q hq
  obtain ⟨x, hx, rfl⟩ := Option.map_eq_some_iff.mp hq
  obtain ⟨p, hp, hpx⟩ := upTo_mul? h (UInt64.le_refl num) x hx
  exact ⟨_, Option.map_eq_some_iff.mpr ⟨p, hp, rfl⟩, ceilDiv_mono hden hpx⟩

theorem alignUp_mono (h : v ≤ w) (align : UInt64) : alignUp v align ≤ alignUp w align := by
  rw [UInt64.le_iff_toNat_le, toNat_alignUp_eq_min v, toNat_alignUp_eq_min w]
  exact min_le_min_right _ (roundUp_le_roundUp (UInt64.le_iff_toNat_le.mp h) _)

theorem satAdd_mono (hac : a ≤ c) (hbd : b ≤ d) : satAdd a b ≤ satAdd c d := by
  rw [UInt64.le_iff_toNat_le, toNat_satAdd_eq_min, toNat_satAdd_eq_min]
  exact min_le_min_right _
    (Nat.add_le_add (UInt64.le_iff_toNat_le.mp hac) (UInt64.le_iff_toNat_le.mp hbd))

end Word

/-- No field of the first layout exceeds that of the second. -/
structure FrameLayout.Within (l m : FrameLayout) : Prop where
  pixelStride : l.pixelStride ≤ m.pixelStride
  byteStride : l.byteStride ≤ m.byteStride
  verticalStride : l.verticalStride ≤ m.verticalStride
  totalSize : l.totalSize ≤ m.totalSize
  headerSize : l.headerSize ≤ m.headerSize
  bodySize : l.bodySize ≤ m.bodySize
  bodyOffset : l.bodyOffset ≤ m.bodyOffset

theorem FrameLayout.zero_within (l : FrameLayout) : FrameLayout.zero.Within l where
  pixelStride := UInt32.zero_le
  byteStride := UInt32.zero_le
  verticalStride := UInt32.zero_le
  totalSize := UInt32.zero_le
  headerSize := UInt32.zero_le
  bodySize := UInt32.zero_le
  bodyOffset := UInt32.zero_le

namespace Calculator

/-- Where the second call is answered, so is the first, and the answers are so related. -/
def UpTo {α : Type} (r : α → α → Prop) (x y : Except SetupError α) : Prop :=
  ∀ b, y = .ok b → ∃ a, x = .ok a ∧ r a b

theorem UpTo.pure {α : Type} {r : α → α → Prop} {a b : α} (h : r a b) :
    UpTo r (.ok a) (.ok b) := by
  intro c hc
  obtain rfl := Except.ok.inj hc
  exact ⟨a, rfl, h⟩

theorem UpTo.bind {α β : Type} {r : α → α → Prop} {r' : β → β → Prop} {x y : Except SetupError α}
    {f g : α → Except SetupError β} (h : UpTo r x y) (hfg : ∀ a b, r a b → UpTo r' (f a) (g b)) :
    UpTo r' (x >>= f) (y >>= g) := by
  intro c hc
  obtain ⟨b, rfl, hc⟩ := bind_eq_ok_iff.mp hc
  obtain ⟨a, rfl, hab⟩ := h b rfl
  exact hfg a b hab c hc

/-- A step that both calls share. -/
theorem UpTo.bind_same {α β : Type} {r : β → β → Prop} {x : Except SetupError α}
    {f g : α → Except SetupError β} (h : ∀ a, x = .ok a → UpTo r (f a) (g a)) :
    UpTo r (x >>= f) (x >>= g) := by
  intro c hc
  obtain ⟨a, rfl, hc⟩ := bind_eq_ok_iff.mp hc
  exact h a rfl c hc

theorem upTo_checked (q : Quantity) {x y : Option UInt64} (h : Word.UpTo x y) :
    UpTo (· ≤ ·) (Stride.checked q x) (Stride.checked q y) := by
  intro w hw
  obtain ⟨v, hv, hle⟩ := h w (Stride.checked_eq_ok_iff.mp hw)
  exact ⟨v, Stride.checked_eq_ok_iff.mpr hv, hle⟩

theorem upTo_narrow (q : Quantity) {v w : UInt64} (h : v ≤ w) :
    UpTo (· ≤ ·) (Stride.narrow q v) (Stride.narrow q w) := by
  intro y hy
  have hle := UInt64.le_iff_toNat_le.mp h
  have hy := Stride.narrow_eq_ok_iff.mp hy
  obtain ⟨x, hx, heq, -⟩ | ⟨hover, -⟩ := Stride.narrow_cases q v
  · exact ⟨x, hx, UInt32.le_iff_toNat_le.mpr (by omega)⟩
  · have hlt := y.toNat_lt_size
    omega

variable {k : Calculator} {f : FormatRule} {x : CompressionRule} {p p' b b' v v' : UInt32}

theorem upTo_headerBytes (hp : p ≤ p') (hv : v ≤ v') :
    UpTo (· ≤ ·) (k.headerBytes p.toUInt64 v.toUInt64) (k.headerBytes p'.toUInt64 v'.toUInt64) := by
  obtain ⟨hwidth, hheight, -⟩ := k.blocks_ne_zero
  have hblocks := Word.ceilDiv_mul_ceilDiv_mono hp hv (Word.toUInt64_ne_zero hwidth)
    (Word.toUInt64_ne_zero hheight)
  exact upTo_checked _ (Word.upTo_mul? hblocks (UInt64.le_refl _))

theorem upTo_bodyBytes (hden : x.ratioDen ≠ 0) (hp : p ≤ p') (hv : v ≤ v') :
    UpTo (· ≤ ·) (bodyBytes x p.toUInt64 v.toUInt64) (bodyBytes x p'.toUInt64 v'.toUInt64) := by
  apply upTo_checked
  apply (Word.upTo_mul? (Word.toUInt64_mono hp) (Word.toUInt64_mono hv)).bind
  intro pixels pixels' hpixels
  apply (Word.upTo_mul? hpixels (UInt64.le_refl _)).bind
  intro bits bits' hbits
  exact Word.upTo_mulRatioCeil? (bodyDivisor_ne_zero hden) hbits

theorem upTo_planeBytes (hden : f.planeDen ≠ 0) (hb : b ≤ b') (hv : v ≤ v') :
    UpTo (· ≤ ·) (planeBytes f b.toUInt64 v.toUInt64) (planeBytes f b'.toUInt64 v'.toUInt64) := by
  apply upTo_checked
  apply (Word.upTo_mul? (Word.toUInt64_mono hb) (Word.toUInt64_mono hv)).bind
  intro plane plane' hplane
  exact Word.upTo_mulRatioCeil? (Word.toUInt64_ne_zero hden) hplane

theorem upTo_plainLayout (hden : f.planeDen ≠ 0) (hp : p ≤ p') (hb : b ≤ b') (hv : v ≤ v') :
    UpTo FrameLayout.Within (plainLayout f p b v) (plainLayout f p' b' v') := by
  apply (upTo_planeBytes hden hb hv).bind
  intro total total' htotal
  apply (upTo_narrow _ htotal).bind
  intro size size' hsize
  exact .pure
    { FrameLayout.zero_within _ with
      pixelStride := hp
      byteStride := hb
      verticalStride := hv
      totalSize := hsize }

theorem upTo_compressedLayout (k : Calculator) (format : PixelFormat) (hp : p ≤ p') (hb : b ≤ b')
    (hv : v ≤ v') :
    UpTo FrameLayout.Within (k.compressedLayout format p b v)
      (k.compressedLayout format p' b' v') := by
  apply UpTo.bind_same
  intro x hx
  obtain ⟨rule, hf, hcompression⟩ := GeometryTable.compressionRule_eq_ok_iff.mp hx
  obtain ⟨-, -, hden⟩ := compression_ne_zero hf hcompression
  apply (upTo_headerBytes hp hv).bind
  intro header header' hheader
  apply (upTo_bodyBytes hden hp hv).bind
  intro body body' hbody
  have hoffset := Word.alignUp_mono hheader k.table.blocks.headerAlign.toUInt64
  have hpadded := Word.alignUp_mono hbody k.table.blocks.bodyAlign.toUInt64
  apply (upTo_narrow _ (Word.satAdd_mono hoffset hpadded)).bind
  intro total total' htotal
  apply (upTo_narrow _ hheader).bind
  intro headerSize headerSize' hheaderSize
  apply (upTo_narrow _ hbody).bind
  intro bodySize bodySize' hbodySize
  apply (upTo_narrow _ hoffset).bind
  intro bodyOffset bodyOffset' hbodyOffset
  exact .pure ⟨hp, hb, hv, htotal, hheaderSize, hbodySize, hbodyOffset⟩

variable {c : CodingRule}

theorem leastRow_mono {r : ByteStrideRequest} {w : UInt32} (hw : w ≤ r.width) :
    ({ r with width := w } : ByteStrideRequest).leastRow f ≤ r.leastRow f := by
  have hwidth := UInt32.le_iff_toNat_le.mp hw
  unfold ByteStrideRequest.leastRow
  split
  · exact hwidth
  · exact ceilDiv_le_ceilDiv (Nat.mul_le_mul_right _ hwidth) 8

theorem upTo_byteStride {r : ByteStrideRequest} {w : UInt32}
    (hs : k.supported r.coding r.format r.compressed = .ok f) (hw0 : w ≠ 0) (hw : w ≤ r.width) :
    UpTo (· ≤ ·) (k.byteStride { r with width := w }) (k.byteStride r) := by
  obtain ⟨n, hsmall, hn⟩ := byteStride_isChosen (r := { r with width := w }) hs hw0
  obtain ⟨m, hlarge, hm⟩ := byteStride_isChosen hs (Word.ne_zero_of_le hw0 hw)
  rw [hsmall, hlarge]
  exact upTo_narrow _ (UInt64.le_iff_toNat_le.mpr (hn.le (leastRow_mono hw) hm))

theorem upTo_verticalStride {r : VerticalStrideRequest} {h : UInt32}
    (hc : k.table.coding.get? r.coding = some c) (hh0 : h ≠ 0) (hh : h ≤ r.height) :
    UpTo (· ≤ ·) (k.verticalStride { r with height := h }) (k.verticalStride r) := by
  obtain ⟨n, hsmall, hn⟩ := verticalStride_isChosen (r := { r with height := h }) hc hh0
  obtain ⟨m, hlarge, hm⟩ := verticalStride_isChosen hc (Word.ne_zero_of_le hh0 hh)
  rw [hsmall, hlarge]
  exact upTo_narrow _ (UInt64.le_iff_toNat_le.mpr (hn.le (UInt32.le_iff_toNat_le.mp hh) hm))

theorem upTo_pixelStride {r : PixelStrideRequest} {w b : UInt32}
    (hs : k.supported r.coding r.format r.compressed = .ok f) (hw0 : w ≠ 0) (hw : w ≤ r.width)
    (hb : b ≤ r.byteStride) :
    UpTo (· ≤ ·) (k.pixelStride { r with width := w, byteStride := b }) (k.pixelStride r) := by
  have hr0 := Word.ne_zero_of_le hw0 hw
  by_cases hcomp : r.compressed = true
  · rw [pixelStride_of_compressed (r := { r with width := w, byteStride := b }) hs hcomp hw0,
      pixelStride_of_compressed hs hcomp hr0]
    exact .pure hb
  · have hplain := Bool.eq_false_iff.mpr hcomp
    obtain ⟨n, hsmall, hn⟩ :=
      pixelStride_of_plain (r := { r with width := w, byteStride := b }) hs hplain hw0
    obtain ⟨m, hlarge, hm⟩ := pixelStride_of_plain hs hplain hr0
    rw [hsmall, hlarge]
    apply upTo_narrow
    rw [UInt64.le_iff_toNat_le, hn, hm]
    exact Nat.div_le_div_right (Nat.mul_le_mul_left 8 (UInt32.le_iff_toNat_le.mp hb))

variable {r : FrameRequest} {w h : UInt32}

theorem upTo_sizes (hs : k.supported r.coding r.format r.compressed = .ok f) (hp : p ≤ p')
    (hb : b ≤ b') (hv : v ≤ v') :
    UpTo FrameLayout.Within
      (if r.compressed then k.compressedLayout r.format p b v else plainLayout f p b v)
      (if r.compressed then k.compressedLayout r.format p' b' v' else plainLayout f p' b' v') := by
  obtain ⟨-, hf, -⟩ := supported_eq_ok_iff.mp hs
  obtain ⟨-, -, -, hden⟩ := format_ne_zero hf
  split
  · exact upTo_compressedLayout k r.format hp hb hv
  · exact upTo_plainLayout hden hp hb hv

theorem upTo_layout (hs : k.supported r.coding r.format r.compressed = .ok f) (hw0 : w ≠ 0)
    (hh0 : h ≠ 0) (hw : w ≤ r.width) (hh : h ≤ r.height) :
    UpTo FrameLayout.Within (k.layout { r with width := w, height := h } f) (k.layout r f) := by
  obtain ⟨⟨c, hc⟩, -⟩ := supported_eq_ok_iff.mp hs
  apply (upTo_byteStride (r := r.forByteStride) hs hw0 hw).bind
  intro b b' hb
  apply (upTo_verticalStride (r := r.forVerticalStride) hc hh0 hh).bind
  intro v v' hv
  apply (upTo_pixelStride (r := r.forPixelStride b') hs hw0 hw hb).bind
  intro p p' hp
  exact upTo_sizes hs hp hb hv

theorem upTo_frameSize (hw : w ≤ r.width) (hh : h ≤ r.height) :
    UpTo FrameLayout.Within (k.frameSize { r with width := w, height := h }) (k.frameSize r) := by
  apply UpTo.bind_same
  intro f hs
  by_cases hsmall : w = 0 ∨ h = 0
  · intro l _
    exact ⟨.zero, if_pos hsmall, l.zero_within⟩
  · obtain ⟨hw0, hh0⟩ := not_or.mp hsmall
    have hlarge : ¬ (r.width = 0 ∨ r.height = 0) :=
      not_or.mpr ⟨Word.ne_zero_of_le hw0 hw, Word.ne_zero_of_le hh0 hh⟩
    rw [if_neg hsmall, if_neg hlarge]
    exact upTo_layout hs hw0 hh0 hw hh

/-- Whatever strides are suggested, a frame that is neither wider nor higher than one with a layout
has a layout too, and no field of it is larger. -/
theorem frameSize_monotone (k : Calculator) (r : FrameRequest) (w h : UInt32) (hw : w ≤ r.width)
    (hh : h ≤ r.height) (l : FrameLayout) (hl : k.frameSize r = .ok l) :
    ∃ l', k.frameSize { r with width := w, height := h } = .ok l' ∧ l'.Within l :=
  upTo_frameSize hw hh l hl

/-- The suggested stride of 1376 bytes is kept for 1366 pixels and too short for 1380; a frame
without rows needs nothing. -/
theorem frameSize_monotone_kept_stride :
    (∃ l, builtin.frameSize ⟨.avc, .yuv420sp, false, 1366, 700, some 1376, none⟩ = .ok l ∧
      l.Within ⟨1392, 1392, 768, 1603584, 0, 0, 0⟩ ∧ l.byteStride = 1376) ∧
    ∃ l, builtin.frameSize ⟨.avc, .yuv420sp, false, 1366, 0, some 1376, none⟩ = .ok l ∧
      l.Within ⟨1392, 1392, 768, 1603584, 0, 0, 0⟩ ∧ l.byteStride = 0 := by
  have hlarge : builtin.frameSize ⟨.avc, .yuv420sp, false, 1380, 768, some 1376, none⟩ =
      .ok ⟨1392, 1392, 768, 1603584, 0, 0, 0⟩ := by rfl
  obtain ⟨l, hl, hwithin⟩ := frameSize_monotone builtin _ 1366 700 (by decide) (by decide) _ hlarge
  obtain ⟨m, hm, hmwithin⟩ := frameSize_monotone builtin _ 1366 0 (by decide) (by decide) _ hlarge
  refine ⟨⟨l, hl, hwithin, ?_⟩, m, hm, hmwithin, ?_⟩
  · have hkept : builtin.frameSize ⟨.avc, .yuv420sp, false, 1366, 700, some 1376, none⟩ =
        .ok ⟨1376, 1376, 704, 1453056, 0, 0, 0⟩ := by rfl
    rw [← Except.ok.inj (hkept.symm.trans hl)]
  · rw [← Except.ok.inj ((by rfl : builtin.frameSize _ = .ok .zero).symm.trans hm)]
    rfl

end Calculator

end EncoderSetup

import EncoderSetup.Proofs.Frame.CompressedSize

/-!
# When a compressed frame is refused

A compressed frame is refused where one of its exact sizes does not fit 32 bits, and in one case
more: the body size is multiplied out in 64 bits before it is divided, and a product beyond them is
refused even if the quotient would fit (`Calculator.frameSize_compressed_refused_iff`). The divisor
is three bits wider than the ratio of the table, so that this takes a denominator of 30 bits or
more; below that, what overflows does not fit either (`CompressedFits.bodyProduct_lt`).
-/

namespace EncoderSetup

/-- The entries of all blocks that a frame touches. -/
def BlockRule.headerSize (b : BlockRule) (cols rows : ℕ) : ℕ :=
  (cols ⌈/⌉ b.blockWidth.toNat) * (rows ⌈/⌉ b.blockHeight.toNat) * b.headerBytes.toNat

/-- What the body size is divided from. -/
def CompressionRule.bodyProduct (x : CompressionRule) (cols rows : ℕ) : ℕ :=
  cols * rows * x.bitsPerPixel.toNat * x.ratioNum.toNat

def CompressionRule.bodySize (x : CompressionRule) (cols rows : ℕ) : ℕ :=
  x.bodyProduct cols rows ⌈/⌉ (8 * x.ratioDen.toNat)

/-- Every exact value of a compressed layout fits 32 bits. -/
structure CompressedFits (b : BlockRule) (x : CompressionRule) (cols rows : ℕ) : Prop where
  stride : cols < UInt32.size
  verticalStride : rows < UInt32.size
  headerSize : b.headerSize cols rows < UInt32.size
  bodySize : x.bodySize cols rows < UInt32.size
  bodyOffset : roundUp (b.headerSize cols rows) b.headerAlign.toNat < UInt32.size
  totalSize : roundUp (b.headerSize cols rows) b.headerAlign.toNat +
    roundUp (x.bodySize cols rows) b.bodyAlign.toNat < UInt32.size

/-- With a divisor of 32 bits, a product beyond 64 bits has no quotient of 32. -/
theorem CompressedFits.bodyProduct_lt {b : BlockRule} {x : CompressionRule} {cols rows : ℕ}
    (h : CompressedFits b x cols rows) (hden : x.ratioDen ≠ 0)
    (hsmall : 8 * x.ratioDen.toNat < UInt32.size) : x.bodyProduct cols rows < UInt64.size := by
  have hpos := Word.toNat_pos_of_ne hden
  exact lt_mul_of_ceilDiv_lt (by omega) hsmall h.bodySize

/-- Where a condition holds there is an answer with a property, and elsewhere it is misuse. -/
def AnswersIff {α : Type} (x : Except SetupError α) (P : Prop) (Q : α → Prop) : Prop :=
  (P ∧ ∃ a, x = .ok a ∧ Q a) ∨ ¬ P ∧ ∃ cause, x = .error (.invalidArgument cause)

namespace AnswersIff

variable {α β : Type} {x : Except SetupError α} {P P' : Prop} {Q : α → Prop}

theorem ok {a : α} (h : Q a) : AnswersIff (.ok a) True Q := Or.inl ⟨trivial, a, rfl, h⟩

theorem congr (h : AnswersIff x P Q) (hP : P ↔ P') : AnswersIff x P' Q := by
  obtain ⟨hp, hok⟩ | ⟨hp, herror⟩ := h
  · exact Or.inl ⟨hP.mp hp, hok⟩
  · exact Or.inr ⟨fun hp' => hp (hP.mpr hp'), herror⟩

/-- A second step follows only where the first is answered. -/
theorem bind {f : α → Except SetupError β} {Q' : β → Prop} (h : AnswersIff x P Q)
    (hf : ∀ a, Q a → AnswersIff (f a) P' Q') : AnswersIff (x >>= f) (P ∧ P') Q' := by
  obtain ⟨hp, a, rfl, ha⟩ | ⟨hp, cause, rfl⟩ := h
  · rw [ok_bind]
    exact (hf a ha).congr (by simp only [hp, true_and])
  · exact Or.inr ⟨fun hand => hp hand.1, cause, rfl⟩

theorem ok_iff (h : AnswersIff x P Q) : (∃ a, x = .ok a) ↔ P := by
  obtain ⟨hp, a, ha, -⟩ | ⟨hp, cause, he⟩ := h
  · exact iff_of_true ⟨a, ha⟩ hp
  · refine iff_of_false ?_ hp
    rintro ⟨a, ha⟩
    rw [he] at ha
    cases ha

theorem misuse_iff (h : AnswersIff x P Q) :
    (∃ cause, x = .error (.invalidArgument cause)) ↔ ¬ P := by
  obtain ⟨hp, a, ha, -⟩ | ⟨hp, he⟩ := h
  · refine iff_of_false ?_ (not_not_intro hp)
    rintro ⟨cause, he⟩
    rw [ha] at he
    cases he
  · exact iff_of_true he hp

variable (q : Quantity) {v num den : UInt64} {m n d : ℕ}

theorem narrow (hv : v.toNat = n) :
    AnswersIff (Stride.narrow q v) (n < UInt32.size) fun x => x.toNat = n := by
  subst hv
  obtain ⟨x, hx, heq, hlt⟩ | ⟨hle, he⟩ := Stride.narrow_cases q v
  · exact Or.inl ⟨hlt, x, hx, heq⟩
  · exact Or.inr ⟨not_lt.mpr hle, he⟩

theorem checked_mul? (hv : v.toNat = n) (hnum : num.toNat = m) :
    AnswersIff (Stride.checked q (Word.mul? v num)) (n * m < UInt64.size)
      fun p => p.toNat = n * m := by
  subst hv hnum
  cases hp : Word.mul? v num with
  | some p =>
      have heq := Word.mul?_eq_some_iff.mp hp
      exact Or.inl ⟨heq ▸ p.toNat_lt_size, p, rfl, heq⟩
  | none => exact Or.inr ⟨not_lt.mpr (Word.mul?_eq_none_iff.mp hp), _, rfl⟩

theorem checked_mulRatioCeil? (h0 : den ≠ 0) (hv : v.toNat = n) (hnum : num.toNat = m)
    (hden : den.toNat = d) :
    AnswersIff (Stride.checked q (Word.mulRatioCeil? v num den)) (n * m < UInt64.size)
      fun p => p.toNat = (n * m) ⌈/⌉ d := by
  subst hv hnum hden
  cases hp : Word.mulRatioCeil? v num den with
  | some p =>
      obtain ⟨hlt, heq⟩ := (Word.mulRatioCeil?_eq_some_iff h0).mp hp
      exact Or.inl ⟨hlt, p, rfl, heq⟩
  | none => exact Or.inr ⟨not_lt.mpr (Word.mulRatioCeil?_eq_none_iff.mp hp), _, rfl⟩

end AnswersIff

namespace Word

variable {v w : UInt64} {a b : UInt32} {n m : ℕ}

theorem toNat_alignUp_toUInt64 (ha : a ≠ 0) (hv : v.toNat = n) :
    (alignUp v a.toUInt64).toNat = min (roundUp n a.toNat) (UInt64.size - 1) := by
  rw [toNat_alignUp_eq_min, granularity_of_ne_zero (toUInt64_ne_zero ha), hv,
    UInt32.toNat_toUInt64]

/-- However often it is clamped, the sum of two padded regions is the exact one or the limit. -/
theorem toNat_satAdd_alignUp (ha : a ≠ 0) (hb : b ≠ 0) (hv : v.toNat = n) (hw : w.toNat = m) :
    (satAdd (alignUp v a.toUInt64) (alignUp w b.toUInt64)).toNat =
      min (roundUp n a.toNat + roundUp m b.toNat) (UInt64.size - 1) := by
  rw [toNat_satAdd_eq_min, toNat_alignUp_toUInt64 ha hv, toNat_alignUp_toUInt64 hb hw]
  omega

/-- What is clamped to a word does not fit 32 bits. -/
theorem min_lt_size_iff : min n (UInt64.size - 1) < UInt32.size ↔ n < UInt32.size := by
  simp only [UInt64.size, UInt32.size]
  omega

end Word

namespace Calculator

variable {k : Calculator} {f : FormatRule} {x : CompressionRule} {p v : UInt32}

theorem headerBytes_answersIff (k : Calculator) (p v : UInt32) :
    AnswersIff (k.headerBytes p.toUInt64 v.toUInt64)
      (k.table.blocks.headerSize p.toNat v.toNat < UInt64.size)
      fun header => header.toNat = k.table.blocks.headerSize p.toNat v.toNat := by
  obtain ⟨hwidth, hheight, -⟩ := k.blocks_ne_zero
  have h₁ := Word.toUInt64_ne_zero hwidth
  have h₂ := Word.toUInt64_ne_zero hheight
  refine AnswersIff.checked_mul? _ ?_ (UInt32.toNat_toUInt64 _)
  rw [UInt64.toNat_mul, Nat.mod_eq_of_lt (Word.ceilDiv_mul_ceilDiv_lt p v h₁ h₂),
    Word.toNat_ceilDiv _ h₁, Word.toNat_ceilDiv _ h₂]
  simp only [UInt32.toNat_toUInt64]

/-- The factors come in one by one, but none is zero, so that the last product decides. -/
theorem bodyBytes_answersIff (hbits : x.bitsPerPixel ≠ 0) (hnum : x.ratioNum ≠ 0)
    (hden : x.ratioDen ≠ 0) (p v : UInt32) :
    AnswersIff (bodyBytes x p.toUInt64 v.toUInt64) (x.bodyProduct p.toNat v.toNat < UInt64.size)
      fun body => body.toNat = x.bodySize p.toNat v.toNat := by
  have hden8 : (x.ratioDen.toUInt64 * 8).toNat = 8 * x.ratioDen.toNat := by
    rw [Nat.mul_comm]
    exact Word.toNat_mul_toUInt64 x.ratioDen 8
  have hbytes : bodyBytes x p.toUInt64 v.toUInt64 =
      Stride.checked .bodyProduct (Word.mul? p.toUInt64 v.toUInt64) >>= fun pixels =>
        Stride.checked .bodyProduct (Word.mul? pixels x.bitsPerPixel.toUInt64) >>= fun bits =>
          Stride.checked .bodyProduct
            (Word.mulRatioCeil? bits x.ratioNum.toUInt64 (x.ratioDen.toUInt64 * 8)) := by
    simp only [← Stride.checked_bind]
    rfl
  rw [hbytes]
  apply AnswersIff.congr
  case h =>
    apply (AnswersIff.checked_mul? _ (UInt32.toNat_toUInt64 p) (UInt32.toNat_toUInt64 v)).bind
    intro pixels hpixels
    apply (AnswersIff.checked_mul? _ hpixels (UInt32.toNat_toUInt64 x.bitsPerPixel)).bind
    intro bits hproduct
    exact AnswersIff.checked_mulRatioCeil? _ (bodyDivisor_ne_zero hden) hproduct
      (UInt32.toNat_toUInt64 x.ratioNum) hden8
  case hP =>
    have hbit := Nat.le_mul_of_pos_right (p.toNat * v.toNat) (Word.toNat_pos_of_ne hbits)
    have hproduct := Nat.le_mul_of_pos_right (p.toNat * v.toNat * x.bitsPerPixel.toNat)
      (Word.toNat_pos_of_ne hnum)
    exact ⟨fun h => h.2.2, fun h => ⟨(hbit.trans hproduct).trans_lt h, hproduct.trans_lt h, h⟩⟩

theorem compressedLayout_answersIff {format : PixelFormat}
    (hf : k.table.formats.get? format = some f) (hx : f.compression = some x) (p b v : UInt32) :
    AnswersIff (k.compressedLayout format p b v)
      (CompressedFits k.table.blocks x p.toNat v.toNat ∧
        x.bodyProduct p.toNat v.toNat < UInt64.size) fun _ => True := by
  obtain ⟨hbits, hnum, hden⟩ := compression_ne_zero hf hx
  obtain ⟨-, -, -, -, -, hha, hba⟩ := k.blocks_ne_zero
  unfold compressedLayout
  rw [GeometryTable.compressionRule_eq_ok_iff.mpr ⟨f, hf, hx⟩, ok_bind]
  -- The conditions are collected as the steps go, in their order.
  apply AnswersIff.congr
  case h =>
    apply (k.headerBytes_answersIff p v).bind
    intro header hheader
    apply (bodyBytes_answersIff hbits hnum hden p v).bind
    intro body hbody
    have htotal := Word.toNat_satAdd_alignUp hha hba hheader hbody
    have hoffset := Word.toNat_alignUp_toUInt64 hha hheader
    apply (AnswersIff.narrow .totalSize htotal).bind
    intro totalSize _
    apply (AnswersIff.narrow .headerSize hheader).bind
    intro headerSize _
    apply (AnswersIff.narrow .bodySize hbody).bind
    intro bodySize _
    apply (AnswersIff.narrow .bodyOffset hoffset).bind
    intro bodyOffset _
    exact AnswersIff.ok trivial
  case hP =>
    simp only [Word.min_lt_size_iff, and_true]
    constructor
    · rintro ⟨-, hproduct, htotal, hheader, hbody, hoffset⟩
      exact ⟨⟨p.toNat_lt_size, v.toNat_lt_size, hheader, hbody, hoffset, htotal⟩, hproduct⟩
    · rintro ⟨⟨-, -, hheader, hbody, hoffset, htotal⟩, hproduct⟩
      have hsize : UInt32.size < UInt64.size := by decide
      exact ⟨hheader.trans hsize, hproduct, htotal, hheader, hbody, hoffset⟩

variable {r : FrameRequest} {c : CodingRule}

theorem layout_answersIff (hc : k.table.coding.get? r.coding = some c)
    (hf : k.table.formats.get? r.format = some f) (hx : f.compression = some x)
    (hcomp : r.compressed = true) (hw : r.width ≠ 0) (hh : r.height ≠ 0) :
    ∃ C R : ℕ,
      Stride.IsChosen r.byteStride
        (fun m => r.width.toNat ≤ m ∧ k.table.blocks.hAlign.toNat ∣ m) C ∧
      Stride.IsChosen r.vStride (fun m => r.height.toNat ≤ m ∧ c.vAlign.toNat ∣ m ∧
        k.table.blocks.vAlign.toNat ∣ m) R ∧
      AnswersIff (k.layout r f)
        (CompressedFits k.table.blocks x C R ∧ x.bodyProduct C R < UInt64.size) fun _ => True := by
  have hs : k.supported r.coding r.format r.compressed = .ok f :=
    supported_eq_ok_iff.mpr ⟨⟨c, hc⟩, hf, fun _ => ⟨x, hx⟩⟩
  obtain ⟨wC, hbyte, hC⟩ := byteStride_of_compressed (r := r.forByteStride) hs hcomp hw
  obtain ⟨wR, hvertical, hR⟩ := verticalStride_of_compressed (r := r.forVerticalStride) hc hcomp hh
  refine ⟨wC.toNat, wR.toNat, hC, hR, ?_⟩
  have hlayout (b v : UInt32) (hb : b.toNat = wC.toNat) (hv : v.toNat = wR.toNat) :
      AnswersIff (k.pixelStride (r.forPixelStride b) >>= fun p =>
          if r.compressed then k.compressedLayout r.format p b v else plainLayout f p b v)
        (CompressedFits k.table.blocks x wC.toNat wR.toNat ∧
          x.bodyProduct wC.toNat wR.toNat < UInt64.size) fun _ => True := by
    rw [pixelStride_of_compressed (r := r.forPixelStride b) hs hcomp hw, ok_bind, if_pos hcomp,
      ← hb, ← hv]
    exact compressedLayout_answersIff hf hx b b v
  have hsteps := (AnswersIff.narrow .byteStride rfl).bind fun b hb =>
    (AnswersIff.narrow .verticalStride rfl).bind fun v hv => hlayout b v hb hv
  unfold layout
  rw [hbyte, hvertical]
  exact hsteps.congr ⟨fun h => h.2.2, fun h => ⟨h.1.stride, h.1.verticalStride, h⟩⟩

/-- A compressed frame with pixels is answered exactly where all its sizes fit 32 bits and the
product behind the body size fits 64, and it is refused as misuse elsewhere. Where the divisor of
that product fits 32 bits, the sizes alone decide. -/
theorem frameSize_compressed_refused_iff (k : Calculator) (r : FrameRequest) (c : CodingRule)
    (f : FormatRule) (x : CompressionRule) (hc : k.table.coding.get? r.coding = some c)
    (hf : k.table.formats.get? r.format = some f) (hx : f.compression = some x)
    (hcomp : r.compressed = true) (hw : r.width ≠ 0) (hh : r.height ≠ 0) :
    ∃ C R : ℕ,
      Stride.IsChosen r.byteStride
        (fun m => r.width.toNat ≤ m ∧ k.table.blocks.hAlign.toNat ∣ m) C ∧
      Stride.IsChosen r.vStride (fun m => r.height.toNat ≤ m ∧ c.vAlign.toNat ∣ m ∧
        k.table.blocks.vAlign.toNat ∣ m) R ∧
      let Fits := CompressedFits k.table.blocks x C R
      ((∃ l, k.frameSize r = .ok l) ↔ Fits ∧ x.bodyProduct C R < UInt64.size) ∧
      ((∃ cause, k.frameSize r = .error (.invalidArgument cause)) ↔
        ¬ Fits ∨ UInt64.size ≤ x.bodyProduct C R) ∧
      (8 * x.ratioDen.toNat < UInt32.size → Fits → x.bodyProduct C R < UInt64.size) := by
  have hs : k.supported r.coding r.format r.compressed = .ok f :=
    supported_eq_ok_iff.mpr ⟨⟨c, hc⟩, hf, fun _ => ⟨x, hx⟩⟩
  obtain ⟨-, -, hden⟩ := compression_ne_zero hf hx
  obtain ⟨C, R, hC, hR, hlayout⟩ := layout_answersIff hc hf hx hcomp hw hh
  rw [← frameSize_of_pixels hs hw hh] at hlayout
  refine ⟨C, R, hC, hR, hlayout.ok_iff, ?_, fun hsmall hfits => hfits.bodyProduct_lt hden hsmall⟩
  rw [hlayout.misuse_iff, not_and_or, not_lt]

/-- Ten-bit video on the reference hardware has sizes that fit, its widest frame has not. -/
theorem frameSize_compressed_refused_iff_ten_bit :
    (∃ C R : ℕ, Stride.IsChosen none (fun m => 1920 ≤ m ∧ 64 ∣ m) C ∧
      Stride.IsChosen (some 1152) (fun m => 1080 ≤ m ∧ 64 ∣ m ∧ 16 ∣ m) R ∧
      CompressedFits GeometryTable.builtin.blocks ⟨15, 16, 15⟩ C R ∧
      C * R * 15 * 16 < UInt64.size) ∧
    ∃ C R : ℕ, Stride.IsChosen none (fun m => 4294967295 ≤ m ∧ 64 ∣ m) C ∧
      Stride.IsChosen none (fun m => 1 ≤ m ∧ 64 ∣ m ∧ 16 ∣ m) R ∧
      ¬ CompressedFits GeometryTable.builtin.blocks ⟨15, 16, 15⟩ C R := by
  have hok : builtin.frameSize ⟨.hevc, .yuv420sp10bit, true, 1920, 1080, none, some 1152⟩ =
      .ok ⟨1920, 1920, 1152, 4562944, 138240, 4423680, 139264⟩ := by cbv
  have hrefused : builtin.frameSize ⟨.hevc, .yuv420sp10bit, true, 4294967295, 1, none, none⟩ =
      .error (.invalidArgument (.exceeds .byteStride 4294967296)) := by cbv
  obtain ⟨C, R, hC, hR, hanswered, -⟩ := frameSize_compressed_refused_iff builtin
    ⟨.hevc, .yuv420sp10bit, true, 1920, 1080, none, some 1152⟩ ⟨64⟩
    ⟨10, 64, 3, 2, some ⟨15, 16, 15⟩⟩ ⟨15, 16, 15⟩ (by rfl) (by rfl) rfl rfl (by decide) (by decide)
  obtain ⟨C', R', hC', hR', -, hmisuse, hsizes⟩ := frameSize_compressed_refused_iff builtin
    ⟨.hevc, .yuv420sp10bit, true, 4294967295, 1, none, none⟩ ⟨64⟩
    ⟨10, 64, 3, 2, some ⟨15, 16, 15⟩⟩ ⟨15, 16, 15⟩ (by rfl) (by rfl) rfl rfl (by decide) (by decide)
  refine ⟨⟨C, R, hC, hR, hanswered.mp ⟨_, hok⟩⟩, C', R', hC', hR', fun hfits => ?_⟩
  have hproduct := hsizes (by decide) hfits
  obtain hunfit | hover := hmisuse.mp ⟨_, hrefused⟩
  · exact hunfit hfits
  · exact absurd hproduct (not_lt.mpr hover)

/-- A ratio of one, written with the largest numbers there are: the frame would take 800 MiB, but
its bits times the numerator do not fit a word. -/
theorem fitting_frame_refused :
    let x : CompressionRule := ⟨12, 4294967295, 4294967295⟩
    let t : GeometryTable := { GeometryTable.builtin with
      formats := .ofList [(.yuv420sp, ⟨8, 16, 3, 2, some x⟩)] }
    ∃ k : Calculator, k.table = t ∧
      k.frameSize ⟨.avc, .yuv420sp, true, 32768, 16384, none, none⟩ =
        .error (.invalidArgument (.overflow .bodyProduct)) ∧
      Stride.IsChosen none (fun m => 32768 ≤ m ∧ 64 ∣ m) 32768 ∧
      Stride.IsChosen none (fun m => 16384 ≤ m ∧ 16 ∣ m ∧ 16 ∣ m) 16384 ∧
      CompressedFits t.blocks x 32768 16384 ∧
      t.blocks.headerSize 32768 16384 = 33554432 ∧ x.bodySize 32768 16384 = 805306368 := by
  intro x t
  have hchosen {Valid : ℕ → Prop} {n : ℕ} (hn : Valid n) (hleast : ∀ m, Valid m → n ≤ m) :
      Stride.IsChosen none Valid n := Or.inr ⟨nofun, hn, fun m hm => hleast m hm⟩
  have hheader : t.blocks.headerSize 32768 16384 = 33554432 := by decide
  have hbody : x.bodySize 32768 16384 = 805306368 := by decide
  refine ⟨⟨t, by rfl⟩, rfl, by cbv, hchosen (by decide) fun m hm => hm.1,
    hchosen (by decide) fun m hm => hm.1, ?_, hheader, hbody⟩
  exact
    { stride := by decide
      verticalStride := by decide
      headerSize := by rw [hheader]; decide
      bodySize := by rw [hbody]; decide
      bodyOffset := by rw [hheader]; decide
      totalSize := by rw [hheader, hbody]; decide }

end Calculator

end EncoderSetup

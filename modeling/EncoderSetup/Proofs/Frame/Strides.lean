import EncoderSetup.Proofs.Frame.Table

/-!
# Strides in exact arithmetic

`Stride.IsChosen` is the rule for a stride over unbounded numbers: a suggested one is kept where it
is valid, else the least valid one is taken. Both strides of a frame follow it, plain or compressed;
the word arithmetic in between never saturates, so that only narrowing to 32 bits can fail.
-/

namespace EncoderSetup

namespace Stride

/-- The suggested stride where it is nonzero and valid, else the least valid one. -/
def IsChosen (hint : Option UInt32) (Valid : ℕ → Prop) (n : ℕ) : Prop :=
  (∃ h, hint = some h ∧ h ≠ 0 ∧ Valid h.toNat ∧ n = h.toNat) ∨
    (¬ ∃ h, hint = some h ∧ h ≠ 0 ∧ Valid h.toNat) ∧ IsLeast {m | Valid m} n

theorem IsChosen.valid {hint : Option UInt32} {Valid : ℕ → Prop} {n : ℕ}
    (h : IsChosen hint Valid n) : Valid n := by
  obtain ⟨x, -, -, hx, rfl⟩ | ⟨-, hleast⟩ := h
  · exact hx
  · exact hleast.1

variable {least align : UInt64} {q : Quantity} {v : UInt64} {x : UInt32}

theorem isKept_iff (ha : align ≠ 0) (h : UInt32) : isKept least align h.toUInt64 = true ↔
    h ≠ 0 ∧ least.toNat ≤ h.toNat ∧ align.toNat ∣ h.toNat := by
  have h0 : h.toUInt64 ≠ 0 ↔ h ≠ 0 := by
    refine ⟨fun hne h0 => hne ?_, Word.toUInt64_ne_zero⟩
    rw [h0]
    rfl
  unfold isKept
  rw [Bool.and_eq_true, Bool.and_eq_true, bne_iff_ne, decide_eq_true_iff, Word.isAligned_iff ha,
    UInt64.le_iff_toNat_le, UInt32.toNat_toUInt64, h0, and_assoc]

theorem isChosen_keepOrAlign (hint : Option UInt32) (ha : align ≠ 0)
    (hbound : least.toNat + align.toNat ≤ UInt64.size) :
    IsChosen hint (fun m => least.toNat ≤ m ∧ align.toNat ∣ m)
      (keepOrAlign hint least align).toNat := by
  have hleast := Word.isLeast_alignUp ha hbound
  cases hint with
  | none =>
      refine Or.inr ⟨?_, hleast⟩
      rintro ⟨h, hh, -⟩
      cases hh
  | some h =>
      unfold keepOrAlign
      by_cases hk : isKept least align h.toUInt64 = true
      · obtain ⟨h0, hv⟩ := (isKept_iff ha h).mp hk
        refine Or.inl ⟨h, rfl, h0, hv, ?_⟩
        simp only [hk, if_true, UInt32.toNat_toUInt64]
      · simp only [hk]
        refine Or.inr ⟨?_, hleast⟩
        rintro ⟨h', hh, h0, hv⟩
        obtain rfl := Option.some.inj hh
        exact hk ((isKept_iff ha h).mpr ⟨h0, hv⟩)

theorem isChosen_keepOrAlign_toUInt64 (hint : Option UInt32) (least : UInt32) {align : UInt32}
    (ha : align ≠ 0) : IsChosen hint (fun m => least.toNat ≤ m ∧ align.toNat ∣ m)
      (keepOrAlign hint least.toUInt64 align.toUInt64).toNat := by
  have hleast : least.toUInt64.toNat < UInt32.size := by
    rw [UInt32.toNat_toUInt64]
    exact least.toNat_lt_size
  have h := isChosen_keepOrAlign hint (Word.toUInt64_ne_zero ha)
    (Word.toNat_add_toUInt64_le hleast align)
  rwa [UInt32.toNat_toUInt64, UInt32.toNat_toUInt64] at h

theorem checked_eq_ok_iff {o : Option UInt64} : checked q o = .ok v ↔ o = some v := by
  cases o <;> simp [checked]

theorem checked_bind (q : Quantity) (o : Option UInt64) (f : UInt64 → Option UInt64) :
    checked q (o.bind f) = checked q o >>= fun v => checked q (f v) := by
  cases o <;> rfl

theorem narrow_eq_ok_iff : narrow q v = .ok x ↔ x.toNat = v.toNat := by
  have hx := x.toNat_lt_size
  unfold narrow
  by_cases h : v.toNat < UInt32.size
  · have hv : v.toUInt32.toNat = v.toNat := by
      rw [UInt64.toNat_toUInt32]
      exact Nat.mod_eq_of_lt h
    rw [if_pos h, Except.ok.injEq, ← UInt32.toNat_inj, hv]
    exact eq_comm
  · simp only [if_neg h, reduceCtorEq, false_iff]
    omega

theorem narrow_cases (q : Quantity) (v : UInt64) :
    (∃ x, narrow q v = .ok x ∧ x.toNat = v.toNat ∧ v.toNat < UInt32.size) ∨
      UInt32.size ≤ v.toNat ∧ ∃ cause, narrow q v = .error (.invalidArgument cause) := by
  by_cases h : v.toNat < UInt32.size
  · have hok : narrow q v = .ok v.toUInt32 := if_pos h
    exact Or.inl ⟨_, hok, narrow_eq_ok_iff.mp hok, h⟩
  · exact Or.inr ⟨by omega, _, if_neg h⟩

end Stride

/-- What a stride has to cover: the bytes of a row, or its pixels where they are compressed. -/
def ByteStrideRequest.leastRow (r : ByteStrideRequest) (f : FormatRule) : ℕ :=
  if r.compressed then r.width.toNat else (r.width.toNat * f.lumaBits.toNat) ⌈/⌉ 8

namespace Calculator

variable {k : Calculator} {c : CodingRule} {f : FormatRule}

/-- What a stride of a row is a multiple of. -/
def rowAlign (k : Calculator) (f : FormatRule) (compressed : Bool) : ℕ :=
  if compressed then k.table.blocks.hAlign.toNat else f.byteAlign.toNat

/-- What a number of rows is a multiple of. -/
def rowsAlign (k : Calculator) (c : CodingRule) (compressed : Bool) : ℕ :=
  if compressed then Nat.lcm c.vAlign.toNat k.table.blocks.vAlign.toNat else c.vAlign.toNat

theorem byteStride_of_plain {r : ByteStrideRequest}
    (hs : k.supported r.coding r.format r.compressed = .ok f) (hplain : r.compressed = false)
    (hw : r.width ≠ 0) :
    ∃ w, k.byteStride r = Stride.narrow .byteStride w ∧
      Stride.IsChosen r.byteStride (fun m =>
        (r.width.toNat * f.lumaBits.toNat) ⌈/⌉ 8 ≤ m ∧ f.byteAlign.toNat ∣ m) w.toNat := by
  obtain ⟨-, hf, -⟩ := supported_eq_ok_iff.mp hs
  obtain ⟨-, halign, -, -⟩ := format_ne_zero hf
  have hprod := Word.toNat_mul_toNat_lt r.width f.lumaBits
  cases hrow : Word.mulRatioCeil? r.width.toUInt64 f.lumaBits.toUInt64 8 with
  | none =>
      have hle := Word.mulRatioCeil?_eq_none_iff.mp hrow
      rw [UInt32.toNat_toUInt64, UInt32.toNat_toUInt64] at hle
      omega
  | some row =>
      obtain ⟨-, hr⟩ := (Word.mulRatioCeil?_eq_some_iff (by decide)).mp hrow
      rw [UInt32.toNat_toUInt64, UInt32.toNat_toUInt64] at hr
      change row.toNat = (r.width.toNat * f.lumaBits.toNat) ⌈/⌉ 8 at hr
      have hbound : row.toNat + f.byteAlign.toUInt64.toNat ≤ UInt64.size := by
        have ha := f.byteAlign.toNat_lt_size
        rw [hr, UInt32.toNat_toUInt64, Nat.ceilDiv_eq_add_pred_div]
        simp only [UInt64.size, UInt32.size] at hprod ha ⊢
        omega
      have hchosen := Stride.isChosen_keepOrAlign r.byteStride
        (Word.toUInt64_ne_zero halign) hbound
      rw [hr, UInt32.toNat_toUInt64] at hchosen
      refine ⟨_, ?_, hchosen⟩
      unfold byteStride
      rw [hs, ok_bind]
      simp only [hplain, hw, if_false, Bool.false_eq_true, hrow, Stride.checked, ok_bind]

theorem byteStride_of_compressed {r : ByteStrideRequest}
    (hs : k.supported r.coding r.format r.compressed = .ok f) (hcomp : r.compressed = true)
    (hw : r.width ≠ 0) :
    ∃ w, k.byteStride r = Stride.narrow .byteStride w ∧
      Stride.IsChosen r.byteStride
        (fun m => r.width.toNat ≤ m ∧ k.table.blocks.hAlign.toNat ∣ m) w.toNat := by
  obtain ⟨-, -, -, halign, -⟩ := k.blocks_ne_zero
  refine ⟨_, ?_, Stride.isChosen_keepOrAlign_toUInt64 r.byteStride r.width halign⟩
  unfold byteStride
  rw [hs, ok_bind]
  simp only [hcomp, hw, if_false, if_true]

theorem byteStride_isChosen {r : ByteStrideRequest}
    (hs : k.supported r.coding r.format r.compressed = .ok f) (hw : r.width ≠ 0) :
    ∃ w, k.byteStride r = Stride.narrow .byteStride w ∧
      Stride.IsChosen r.byteStride
        (fun m => r.leastRow f ≤ m ∧ k.rowAlign f r.compressed ∣ m) w.toNat := by
  unfold ByteStrideRequest.leastRow rowAlign
  by_cases hcomp : r.compressed = true
  · simp only [if_pos hcomp]
    exact byteStride_of_compressed hs hcomp hw
  · simp only [if_neg hcomp]
    exact byteStride_of_plain hs (Bool.eq_false_iff.mpr hcomp) hw

theorem verticalStride_of_rows {r : VerticalStrideRequest}
    (hc : k.table.coding.get? r.coding = some c) (hh : r.height ≠ 0) :
    k.verticalStride r = Stride.narrow .verticalStride
      (Stride.keepOrAlign r.vStride r.height.toUInt64 (k.verticalAlign c r.compressed)) := by
  unfold verticalStride
  simp only [GeometryTable.codingRule_eq_ok_iff.mpr hc, ok_bind, hh, if_false]

theorem verticalStride_of_plain {r : VerticalStrideRequest}
    (hc : k.table.coding.get? r.coding = some c) (hplain : r.compressed = false)
    (hh : r.height ≠ 0) :
    ∃ w, k.verticalStride r = Stride.narrow .verticalStride w ∧
      Stride.IsChosen r.vStride (fun m => r.height.toNat ≤ m ∧ c.vAlign.toNat ∣ m) w.toNat := by
  have hchosen := Stride.isChosen_keepOrAlign_toUInt64 r.vStride r.height (coding_ne_zero hc)
  refine ⟨_, verticalStride_of_rows hc hh, ?_⟩
  simpa only [verticalAlign, hplain, Bool.false_eq_true, if_false] using hchosen

theorem toNat_verticalAlign_of_compressed (k : Calculator) (c : CodingRule) :
    (k.verticalAlign c true).toNat = Nat.lcm c.vAlign.toNat k.table.blocks.vAlign.toNat := by
  have hlcm := Word.toNat_lcm (Word.lcm_toUInt64_lt_size c.vAlign k.table.blocks.vAlign)
  rw [verticalAlign, if_pos rfl, hlcm, UInt32.toNat_toUInt64, UInt32.toNat_toUInt64]

theorem verticalAlign_ne_zero {coding : Coding} (compressed : Bool)
    (hc : k.table.coding.get? coding = some c) : k.verticalAlign c compressed ≠ 0 := by
  cases compressed with
  | false => exact Word.toUInt64_ne_zero (coding_ne_zero hc)
  | true =>
      obtain ⟨-, -, -, -, hb, -⟩ := k.blocks_ne_zero
      have hpos := Nat.lcm_pos (Word.toNat_pos_of_ne (coding_ne_zero hc)) (Word.toNat_pos_of_ne hb)
      intro h0
      have hlcm := k.toNat_verticalAlign_of_compressed c
      rw [h0, UInt64.toNat_zero] at hlcm
      omega

/-- The multiples of the common granularity are the common multiples of the two. -/
theorem verticalStride_of_compressed {r : VerticalStrideRequest}
    (hc : k.table.coding.get? r.coding = some c) (hcomp : r.compressed = true)
    (hh : r.height ≠ 0) :
    ∃ w, k.verticalStride r = Stride.narrow .verticalStride w ∧
      Stride.IsChosen r.vStride (fun m => r.height.toNat ≤ m ∧ c.vAlign.toNat ∣ m ∧
        k.table.blocks.vAlign.toNat ∣ m) w.toNat := by
  have hlcm := k.toNat_verticalAlign_of_compressed c
  have hne := verticalAlign_ne_zero true hc
  have hbound : r.height.toUInt64.toNat + (k.verticalAlign c true).toNat ≤ UInt64.size := by
    rw [hlcm, UInt32.toNat_toUInt64]
    exact Word.toNat_add_lcm_le r.height c.vAlign k.table.blocks.vAlign
  have hchosen := Stride.isChosen_keepOrAlign r.vStride hne hbound
  rw [hlcm, UInt32.toNat_toUInt64] at hchosen
  simp only [Nat.lcm_dvd_iff] at hchosen
  refine ⟨_, verticalStride_of_rows hc hh, ?_⟩
  rw [hcomp]
  exact hchosen

theorem verticalStride_isChosen {r : VerticalStrideRequest}
    (hc : k.table.coding.get? r.coding = some c) (hh : r.height ≠ 0) :
    ∃ w, k.verticalStride r = Stride.narrow .verticalStride w ∧
      Stride.IsChosen r.vStride
        (fun m => r.height.toNat ≤ m ∧ k.rowsAlign c r.compressed ∣ m) w.toNat := by
  unfold rowsAlign
  by_cases hcomp : r.compressed = true
  · simp only [if_pos hcomp, Nat.lcm_dvd_iff]
    exact verticalStride_of_compressed hc hcomp hh
  · simp only [if_neg hcomp]
    exact verticalStride_of_plain hc (Bool.eq_false_iff.mpr hcomp) hh

theorem pixelStride_of_plain {r : PixelStrideRequest}
    (hs : k.supported r.coding r.format r.compressed = .ok f) (hplain : r.compressed = false)
    (hw : r.width ≠ 0) :
    ∃ w, k.pixelStride r = Stride.narrow .pixelStride w ∧
      w.toNat = 8 * r.byteStride.toNat / f.lumaBits.toNat := by
  have hbits : (r.byteStride.toUInt64 * 8).toNat = r.byteStride.toNat * 8 :=
    Word.toNat_mul_toUInt64 r.byteStride 8
  refine ⟨r.byteStride.toUInt64 * 8 / f.lumaBits.toUInt64, ?_, ?_⟩
  · unfold pixelStride
    rw [hs, ok_bind]
    simp only [hplain, hw, if_false, Bool.false_eq_true]
  · rw [UInt64.toNat_div, hbits, UInt32.toNat_toUInt64, Nat.mul_comm]

theorem pixelStride_of_compressed {r : PixelStrideRequest}
    (hs : k.supported r.coding r.format r.compressed = .ok f) (hcomp : r.compressed = true)
    (hw : r.width ≠ 0) : k.pixelStride r = .ok r.byteStride := by
  unfold pixelStride
  rw [hs, ok_bind]
  simp only [hcomp, hw, if_false, if_true]
  rfl

end Calculator

end EncoderSetup

import EncoderSetup.Proofs.Frame.Coverage
import EncoderSetup.Proofs.Frame.GuardedSteps

/-!
# Layout arithmetic meets no fault

A call of a calculator in guarded steps stops at a zero divisor, at an unchecked result beyond a
word and in a loop that does not end. Over a table without a zero no call meets one, so that the
guarded call answers what the plain one does (`Calculator.no_call_faults`). Products stay in their
words because every factor was narrowed to 32 bits before, or came from the table.
-/

namespace EncoderSetup

/-- What a call answers, unless one of its steps faults. -/
abbrev Guarded (α : Type) : Type := ExceptT SetupError (Except Fault) α

namespace Guarded

variable {α β : Type}

def answer (o : Except SetupError α) : Guarded α := ExceptT.mk (.ok o)

def isKept (least align hint : UInt64) : Except Fault Bool :=
  if hint != 0 && least ≤ hint then isAligned hint align else .ok false

def keepOrAlign (hint : Option UInt32) (least align : UInt64) : Except Fault UInt64 :=
  match hint with
  | some h => do if ← isKept least align h.toUInt64 then return h.toUInt64 else alignUp least align
  | none => alignUp least align

variable (k : Calculator)

def verticalAlign (r : CodingRule) (compressed : Bool) : Except Fault UInt64 :=
  if compressed then lcm r.vAlign.toUInt64 k.table.blocks.vAlign.toUInt64
  else .ok r.vAlign.toUInt64

def pixelStride (r : PixelStrideRequest) : Guarded UInt32 := do
  let f ← answer (k.supported r.coding r.format r.compressed)
  if r.width = 0 then return 0
  if r.compressed then return r.byteStride
  let bits ← mul r.byteStride.toUInt64 8
  let pixels ← div bits f.lumaBits.toUInt64
  answer (Stride.narrow .pixelStride pixels)

def byteStride (r : ByteStrideRequest) : Guarded UInt32 := do
  let f ← answer (k.supported r.coding r.format r.compressed)
  if r.width = 0 then return 0
  if r.compressed then
    let w ← keepOrAlign r.byteStride r.width.toUInt64 k.table.blocks.hAlign.toUInt64
    answer (Stride.narrow .byteStride w)
  else
    let ratio ← mulRatioCeil? r.width.toUInt64 f.lumaBits.toUInt64 8
    let row ← answer (Stride.checked .rowBytes ratio)
    let w ← keepOrAlign r.byteStride row f.byteAlign.toUInt64
    answer (Stride.narrow .byteStride w)

def verticalStride (r : VerticalStrideRequest) : Guarded UInt32 := do
  let c ← answer (k.table.codingRule r.coding)
  if r.height = 0 then return 0
  let align ← verticalAlign k c r.compressed
  let w ← keepOrAlign r.vStride r.height.toUInt64 align
  answer (Stride.narrow .verticalStride w)

def headerBytes (cols rows : UInt64) : Guarded UInt64 := do
  let b := k.table.blocks
  let across ← ceilDiv cols b.blockWidth.toUInt64
  let down ← ceilDiv rows b.blockHeight.toUInt64
  let blocks ← mul across down
  answer (Stride.checked .headerProduct (Word.mul? blocks b.headerBytes.toUInt64))

/-- The divisor is multiplied out only once the product before it is known to fit. -/
def bodyBytes (r : CompressionRule) (cols rows : UInt64) : Guarded UInt64 := do
  let product := (Word.mul? cols rows).bind (Word.mul? · r.bitsPerPixel.toUInt64)
  let bits ← answer (Stride.checked .bodyProduct product)
  let den ← mul r.ratioDen.toUInt64 8
  let body ← mulRatioCeil? bits r.ratioNum.toUInt64 den
  answer (Stride.checked .bodyProduct body)

def planeBytes (r : FormatRule) (byteStride rows : UInt64) : Guarded UInt64 := do
  let plane ← answer (Stride.checked .totalSize (Word.mul? byteStride rows))
  let total ← mulRatioCeil? plane r.planeNum.toUInt64 r.planeDen.toUInt64
  answer (Stride.checked .totalSize total)

def compressedLayout (format : PixelFormat) (pixelStride byteStride verticalStride : UInt32) :
    Guarded FrameLayout := do
  let r ← answer (k.table.compressionRule format)
  let cols := pixelStride.toUInt64
  let rows := verticalStride.toUInt64
  let header ← headerBytes k cols rows
  let body ← bodyBytes r cols rows
  let offset ← alignUp header k.table.blocks.headerAlign.toUInt64
  let padded ← alignUp body k.table.blocks.bodyAlign.toUInt64
  let totalSize ← answer (Stride.narrow .totalSize (Word.satAdd offset padded))
  let headerSize ← answer (Stride.narrow .headerSize header)
  let bodySize ← answer (Stride.narrow .bodySize body)
  let bodyOffset ← answer (Stride.narrow .bodyOffset offset)
  return {
    pixelStride, byteStride, verticalStride, totalSize, headerSize, bodySize, bodyOffset }

def plainLayout (r : FormatRule) (pixelStride byteStride verticalStride : UInt32) :
    Guarded FrameLayout := do
  let total ← planeBytes r byteStride.toUInt64 verticalStride.toUInt64
  let totalSize ← answer (Stride.narrow .totalSize total)
  return { FrameLayout.zero with pixelStride, byteStride, verticalStride, totalSize }

def layout (r : FrameRequest) (f : FormatRule) : Guarded FrameLayout := do
  let byte ← byteStride k r.forByteStride
  let vertical ← verticalStride k r.forVerticalStride
  let pixel ← pixelStride k (r.forPixelStride byte)
  if r.compressed then compressedLayout k r.format pixel byte vertical
  else plainLayout f pixel byte vertical

def frameSize (r : FrameRequest) : Guarded FrameLayout := do
  let f ← answer (k.supported r.coding r.format r.compressed)
  if r.width = 0 ∨ r.height = 0 then return .zero
  layout k r f

/-! ## No step of a call faults -/

theorem step_ok_bind (a : α) (f : α → Guarded β) :
    ((liftM (Except.ok a : Except Fault α) : Guarded α) >>= f) = f a := rfl

/-- A guarded call that answers at each step what the plain one does, answers what it does. -/
theorem answer_bind (x : Except SetupError α) {f : α → Guarded β} {g : α → Except SetupError β}
    (h : ∀ a, x = .ok a → f a = answer (g a)) : (answer x >>= f) = answer (x >>= g) := by
  cases x with
  | ok a => exact h a rfl
  | error e => rfl

theorem isKept_eq_ok {least align : UInt64} (ha : align ≠ 0) (hint : UInt64) :
    isKept least align hint = .ok (Stride.isKept least align hint) := by
  unfold isKept Stride.isKept
  cases hint != 0 && least ≤ hint with
  | true => exact isAligned_eq_ok hint ha
  | false => rfl

theorem keepOrAlign_eq_ok (hint : Option UInt32) (least : UInt64) {align : UInt64}
    (ha : align ≠ 0) :
    keepOrAlign hint least align = .ok (Stride.keepOrAlign hint least align) := by
  cases hint with
  | none => exact alignUp_eq_ok least ha
  | some h =>
      simp only [keepOrAlign, Stride.keepOrAlign, isKept_eq_ok ha, ok_bind]
      split
      · rfl
      · exact alignUp_eq_ok least ha

variable {k : Calculator}

theorem verticalAlign_eq_ok (k : Calculator) (r : CodingRule) (compressed : Bool) :
    verticalAlign k r compressed = .ok (k.verticalAlign r compressed) := by
  cases compressed with
  | false => rfl
  | true => exact lcm_eq_ok (Word.lcm_toUInt64_lt_size _ _)

theorem pixelStride_eq_answer (k : Calculator) (r : PixelStrideRequest) :
    pixelStride k r = answer (k.pixelStride r) := by
  apply answer_bind
  intro f hs
  obtain ⟨-, hf, -⟩ := Calculator.supported_eq_ok_iff.mp hs
  have hbits : mul r.byteStride.toUInt64 8 = .ok (r.byteStride.toUInt64 * 8) :=
    mul_toUInt64_eq_ok r.byteStride 8
  have hluma := Word.toUInt64_ne_zero (Calculator.format_ne_zero hf).1
  by_cases hw : r.width = 0
  · rw [if_pos hw, if_pos hw]
    rfl
  · rw [if_neg hw, if_neg hw, hbits, step_ok_bind, div_eq_ok _ hluma, step_ok_bind]
    cases r.compressed <;> rfl

theorem byteStride_eq_answer (k : Calculator) (r : ByteStrideRequest) :
    byteStride k r = answer (k.byteStride r) := by
  apply answer_bind
  intro f hs
  obtain ⟨-, hf, -⟩ := Calculator.supported_eq_ok_iff.mp hs
  obtain ⟨-, hbyte, -, -⟩ := Calculator.format_ne_zero hf
  obtain ⟨-, -, -, hblock, -, -, -⟩ := Calculator.blocks_ne_zero k
  by_cases hw : r.width = 0
  · rw [if_pos hw, if_pos hw]
    rfl
  · rw [if_neg hw, if_neg hw]
    cases r.compressed with
    | true =>
        rw [if_pos rfl, if_pos rfl, keepOrAlign_eq_ok _ _ (Word.toUInt64_ne_zero hblock),
          step_ok_bind]
    | false =>
        have h8 : (8 : UInt64) ≠ 0 := by decide
        rw [if_neg Bool.false_ne_true, if_neg Bool.false_ne_true, mulRatioCeil?_eq_ok _ _ h8,
          step_ok_bind]
        apply answer_bind
        intro row _
        rw [keepOrAlign_eq_ok _ _ (Word.toUInt64_ne_zero hbyte), step_ok_bind]

theorem verticalStride_eq_answer (k : Calculator) (r : VerticalStrideRequest) :
    verticalStride k r = answer (k.verticalStride r) := by
  apply answer_bind
  intro c hc
  have halign : k.verticalAlign c r.compressed ≠ 0 :=
    Calculator.verticalAlign_ne_zero _ (GeometryTable.codingRule_eq_ok_iff.mp hc)
  by_cases hh : r.height = 0
  · rw [if_pos hh, if_pos hh]
    rfl
  · rw [if_neg hh, if_neg hh, verticalAlign_eq_ok, step_ok_bind, keepOrAlign_eq_ok _ _ halign,
      step_ok_bind]

theorem headerBytes_eq_answer (k : Calculator) (x y : UInt32) :
    headerBytes k x.toUInt64 y.toUInt64 = answer (k.headerBytes x.toUInt64 y.toUInt64) := by
  obtain ⟨hwidth, hheight, -⟩ := Calculator.blocks_ne_zero k
  have h₁ := Word.toUInt64_ne_zero hwidth
  have h₂ := Word.toUInt64_ne_zero hheight
  have hmul := mul_eq_ok (Word.ceilDiv_mul_ceilDiv_lt x y h₁ h₂)
  unfold headerBytes
  simp only [ceilDiv_eq_ok _ h₁, ceilDiv_eq_ok _ h₂, hmul, step_ok_bind]
  rfl

theorem bodyBytes_eq_answer {r : CompressionRule} (hden : r.ratioDen ≠ 0) (cols rows : UInt64) :
    bodyBytes r cols rows = answer (Calculator.bodyBytes r cols rows) := by
  have hmul : mul r.ratioDen.toUInt64 8 = .ok (r.ratioDen.toUInt64 * 8) :=
    mul_toUInt64_eq_ok r.ratioDen 8
  have hbody : Calculator.bodyBytes r cols rows =
      Stride.checked .bodyProduct (((Word.mul? cols rows).bind
        (Word.mul? · r.bitsPerPixel.toUInt64)).bind
          (Word.mulRatioCeil? · r.ratioNum.toUInt64 (r.ratioDen.toUInt64 * 8))) := by
    rw [Option.bind_assoc]
    rfl
  rw [hbody, Stride.checked_bind]
  apply answer_bind
  intro bits _
  rw [hmul, step_ok_bind, mulRatioCeil?_eq_ok _ _ (Calculator.bodyDivisor_ne_zero hden),
    step_ok_bind]

theorem planeBytes_eq_answer {r : FormatRule} (hden : r.planeDen ≠ 0) (byteStride rows : UInt64) :
    planeBytes r byteStride rows = answer (Calculator.planeBytes r byteStride rows) := by
  have hplane : Calculator.planeBytes r byteStride rows = Stride.checked .totalSize
      ((Word.mul? byteStride rows).bind
        (Word.mulRatioCeil? · r.planeNum.toUInt64 r.planeDen.toUInt64)) := rfl
  rw [hplane, Stride.checked_bind]
  apply answer_bind
  intro plane _
  rw [mulRatioCeil?_eq_ok _ _ (Word.toUInt64_ne_zero hden), step_ok_bind]

theorem compressedLayout_eq_answer (k : Calculator) (f : PixelFormat) (cols v rows : UInt32) :
    compressedLayout k f cols v rows = answer (k.compressedLayout f cols v rows) := by
  obtain ⟨-, -, -, -, -, hheader, hbody⟩ := Calculator.blocks_ne_zero k
  apply answer_bind
  intro x hx
  obtain ⟨rule, hf, hx⟩ := GeometryTable.compressionRule_eq_ok_iff.mp hx
  obtain ⟨-, -, hden⟩ := Calculator.compression_ne_zero hf hx
  simp only [headerBytes_eq_answer, bodyBytes_eq_answer hden]
  apply answer_bind
  intro header _
  apply answer_bind
  intro body _
  rw [alignUp_eq_ok _ (Word.toUInt64_ne_zero hheader), step_ok_bind,
    alignUp_eq_ok _ (Word.toUInt64_ne_zero hbody), step_ok_bind]
  apply answer_bind
  intro totalSize _
  apply answer_bind
  intro headerSize _
  apply answer_bind
  intro bodySize _
  exact answer_bind _ fun bodyOffset _ => rfl

theorem plainLayout_eq_answer {f : FormatRule} (hden : f.planeDen ≠ 0) (p b v : UInt32) :
    plainLayout f p b v = answer (Calculator.plainLayout f p b v) := by
  unfold plainLayout Calculator.plainLayout
  rw [planeBytes_eq_answer hden]
  apply answer_bind
  intro total _
  exact answer_bind _ fun totalSize _ => rfl

theorem layout_eq_answer {r : FrameRequest} {f : FormatRule}
    (hf : k.table.formats.get? r.format = some f) :
    layout k r f = answer (k.layout r f) := by
  obtain ⟨-, -, -, hden⟩ := Calculator.format_ne_zero hf
  unfold layout Calculator.layout
  rw [byteStride_eq_answer]
  apply answer_bind
  intro byte _
  rw [verticalStride_eq_answer]
  apply answer_bind
  intro vertical _
  rw [pixelStride_eq_answer]
  apply answer_bind
  intro pixel _
  cases r.compressed with
  | true => exact compressedLayout_eq_answer k r.format pixel byte vertical
  | false => exact plainLayout_eq_answer hden pixel byte vertical

theorem frameSize_eq_answer (k : Calculator) (r : FrameRequest) :
    frameSize k r = answer (k.frameSize r) := by
  apply answer_bind
  intro f hs
  obtain ⟨-, hf, -⟩ := Calculator.supported_eq_ok_iff.mp hs
  by_cases h0 : r.width = 0 ∨ r.height = 0
  · rw [if_pos h0, if_pos h0]
    rfl
  · rw [if_neg h0, if_neg h0, layout_eq_answer hf]

end Guarded

/-- A call in guarded steps meets no fault, answers what the plain call does, and refuses only what
is not covered or cannot be represented. -/
structure Guarded.IsSafe {α : Type} (x : Guarded α) (plain : Except SetupError α) : Prop where
  run_eq : x.run = .ok plain
  refuses : Refuses plain

/-- Over a table without a zero, no division of a call is by zero, no unchecked product or sum
exceeds a word, and the loop for the common divisor ends. -/
theorem Calculator.no_call_faults (k : Calculator) :
    (∀ a b, Guarded.gcd a b = .ok (Word.gcd a b)) ∧
      (∀ r, Guarded.IsSafe (Guarded.pixelStride k r) (k.pixelStride r)) ∧
      (∀ r, Guarded.IsSafe (Guarded.byteStride k r) (k.byteStride r)) ∧
      (∀ r, Guarded.IsSafe (Guarded.verticalStride k r) (k.verticalStride r)) ∧
      ∀ r, Guarded.IsSafe (Guarded.frameSize k r) (k.frameSize r) := by
  have hpixel (r) : (Guarded.pixelStride k r).run = .ok (k.pixelStride r) :=
    congrArg ExceptT.run (Guarded.pixelStride_eq_answer k r)
  have hbyte (r) : (Guarded.byteStride k r).run = .ok (k.byteStride r) :=
    congrArg ExceptT.run (Guarded.byteStride_eq_answer k r)
  have hvertical (r) : (Guarded.verticalStride k r).run = .ok (k.verticalStride r) :=
    congrArg ExceptT.run (Guarded.verticalStride_eq_answer k r)
  have hframe (r) : (Guarded.frameSize k r).run = .ok (k.frameSize r) :=
    congrArg ExceptT.run (Guarded.frameSize_eq_answer k r)
  refine ⟨Guarded.gcd_eq_ok, ?_, ?_, ?_, ?_⟩
  · exact fun r => ⟨hpixel r, (k.pixelStride_in_order r).refuses⟩
  · exact fun r => ⟨hbyte r, (k.byteStride_in_order r).refuses⟩
  · exact fun r => ⟨hvertical r, (k.verticalStride_in_order r).refuses⟩
  · exact fun r => ⟨hframe r, (k.frameSize_in_order r).refuses⟩

end EncoderSetup

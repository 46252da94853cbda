import EncoderSetup.Frame.Alignment
import EncoderSetup.Frame.Constants

/-!
# Frame layouts

The strides and sizes of a frame buffer. A stride that the caller suggests is kept when it is large
enough and aligned; otherwise the smallest aligned one is taken. The arithmetic is that of 64-bit
words; a result beyond 32 bits, or a checked product beyond 64, is refused.
-/

namespace EncoderSetup

structure PixelStrideRequest where
  coding : Coding
  format : PixelFormat
  compressed : Bool
  width : UInt32
  byteStride : UInt32
  deriving DecidableEq, Repr

structure ByteStrideRequest where
  coding : Coding
  format : PixelFormat
  compressed : Bool
  width : UInt32
  /-- The stride to keep if it is valid. -/
  byteStride : Option UInt32
  deriving DecidableEq, Repr

structure VerticalStrideRequest where
  coding : Coding
  compressed : Bool
  height : UInt32
  /-- The stride to keep if it is valid. -/
  vStride : Option UInt32
  deriving DecidableEq, Repr

structure FrameRequest where
  coding : Coding
  format : PixelFormat
  compressed : Bool
  width : UInt32
  height : UInt32
  /-- The byte stride to keep if it is valid. -/
  byteStride : Option UInt32
  /-- The vertical stride to keep if it is valid. -/
  vStride : Option UInt32
  deriving DecidableEq, Repr

namespace FrameRequest

def forByteStride (r : FrameRequest) : ByteStrideRequest :=
  ⟨r.coding, r.format, r.compressed, r.width, r.byteStride⟩

def forVerticalStride (r : FrameRequest) : VerticalStrideRequest :=
  ⟨r.coding, r.compressed, r.height, r.vStride⟩

def forPixelStride (r : FrameRequest) (byteStride : UInt32) : PixelStrideRequest :=
  ⟨r.coding, r.format, r.compressed, r.width, byteStride⟩

end FrameRequest

/--
The layout of a frame buffer. A compressed frame has its header region at the start and its body
region at `bodyOffset`; without compression those three fields are zero.
-/
structure FrameLayout where
  pixelStride : UInt32
  byteStride : UInt32
  verticalStride : UInt32
  /-- The bytes to allocate. -/
  totalSize : UInt32
  /-- The header bytes before alignment. -/
  headerSize : UInt32
  /-- The body bytes before alignment. -/
  bodySize : UInt32
  bodyOffset : UInt32
  deriving DecidableEq, Repr

namespace FrameLayout

def zero : FrameLayout := ⟨0, 0, 0, 0, 0, 0, 0⟩

def isCompressed (l : FrameLayout) : Bool := l.headerSize != 0

def fields (l : FrameLayout) : List (String × UInt32) :=
  [(Quantity.pixelStride.name, l.pixelStride), (Quantity.byteStride.name, l.byteStride),
    (Quantity.verticalStride.name, l.verticalStride), (Quantity.totalSize.name, l.totalSize),
    (Quantity.headerSize.name, l.headerSize), (Quantity.bodySize.name, l.bodySize),
    (Quantity.bodyOffset.name, l.bodyOffset)]

def line (l : FrameLayout) : String :=
  "FrameLayout \x7b " ++
    String.intercalate ", " (l.fields.map fun f => f.1 ++ ": " ++ toString f.2.toNat) ++ " \x7d"

end FrameLayout

def Event.laidOut (l : FrameLayout) : Event :=
  ⟨.debug, some "frame layout", [("layout", l.line)]⟩

namespace Stride

/-- A value that must fit 32 bits. -/
def narrow (q : Quantity) (v : UInt64) : Except SetupError UInt32 :=
  if v.toNat < UInt32.size then .ok v.toUInt32 else .error (.invalidArgument (.exceeds q v))

def checked (q : Quantity) : Option UInt64 → Except SetupError UInt64
  | some v => .ok v
  | none => .error (.invalidArgument (.overflow q))

def isKept (least align hint : UInt64) : Bool :=
  hint != 0 && least ≤ hint && Word.isAligned hint align

/-- The suggested stride if it may be kept, else the smallest aligned one. -/
def keepOrAlign (hint : Option UInt32) (least align : UInt64) : UInt64 :=
  match hint with
  | some h => if isKept least align h.toUInt64 then h.toUInt64 else Word.alignUp least align
  | none => Word.alignUp least align

end Stride

/-- Layout arithmetic over a table of constants without a zero. -/
structure Calculator where
  table : GeometryTable
  valid : table.validate = .ok ()

namespace Calculator

/-- The calculator of a table, unless a constant is zero. -/
def ofTable (t : GeometryTable) : Except SetupError Calculator :=
  match h : t.validate with
  | .ok () => .ok ⟨t, h⟩
  | .error e => .error e

def builtin : Calculator := ⟨.builtin, by rfl⟩

variable (k : Calculator)

/-- The rule of a format, once coding type, format and compression are known to be covered. -/
def supported (c : Coding) (f : PixelFormat) (compressed : Bool) :
    Except SetupError FormatRule := do
  let _ ← k.table.codingRule c
  let r ← k.table.formatRule f
  if compressed then
    let _ ← k.table.compressionRule f
  return r

/-- The granularity of the vertical stride; a compressed frame also follows its blocks. -/
def verticalAlign (r : CodingRule) (compressed : Bool) : UInt64 :=
  if compressed then Word.lcm r.vAlign.toUInt64 k.table.blocks.vAlign.toUInt64
  else r.vAlign.toUInt64

/-- The pixels that a byte stride spans; a compressed stride is counted in pixels already. -/
def pixelStride (r : PixelStrideRequest) : Except SetupError UInt32 := do
  let f ← k.supported r.coding r.format r.compressed
  if r.width = 0 then return 0
  if r.compressed then return r.byteStride
  Stride.narrow .pixelStride (r.byteStride.toUInt64 * 8 / f.lumaBits.toUInt64)

/-- The byte stride of a row; that of a compressed frame counts pixels. -/
def byteStride (r : ByteStrideRequest) : Except SetupError UInt32 := do
  let f ← k.supported r.coding r.format r.compressed
  if r.width = 0 then return 0
  if r.compressed then
    Stride.narrow .byteStride
      (Stride.keepOrAlign r.byteStride r.width.toUInt64 k.table.blocks.hAlign.toUInt64)
  else
    let row ← Stride.checked .rowBytes
      (Word.mulRatioCeil? r.width.toUInt64 f.lumaBits.toUInt64 8)
    Stride.narrow .byteStride (Stride.keepOrAlign r.byteStride row f.byteAlign.toUInt64)

def verticalStride (r : VerticalStrideRequest) : Except SetupError UInt32 := do
  let c ← k.table.codingRule r.coding
  if r.height = 0 then return 0
  Stride.narrow .verticalStride
    (Stride.keepOrAlign r.vStride r.height.toUInt64 (k.verticalAlign c r.compressed))

def headerBytes (cols rows : UInt64) : Except SetupError UInt64 :=
  let b := k.table.blocks
  let blocks := Word.ceilDiv cols b.blockWidth.toUInt64 * Word.ceilDiv rows b.blockHeight.toUInt64
  Stride.checked .headerProduct (Word.mul? blocks b.headerBytes.toUInt64)

def bodyBytes (r : CompressionRule) (cols rows : UInt64) : Except SetupError UInt64 :=
  Stride.checked .bodyProduct do
    let pixels ← Word.mul? cols rows
    let bits ← Word.mul? pixels r.bitsPerPixel.toUInt64
    Word.mulRatioCeil? bits r.ratioNum.toUInt64 (r.ratioDen.toUInt64 * 8)

def planeBytes (r : FormatRule) (byteStride rows : UInt64) : Except SetupError UInt64 :=
  Stride.checked .totalSize do
    let plane ← Word.mul? byteStride rows
    Word.mulRatioCeil? plane r.planeNum.toUInt64 r.planeDen.toUInt64

def compressedLayout (format : PixelFormat) (pixelStride byteStride verticalStride : UInt32) :
    Except SetupError FrameLayout := do
  let r ← k.table.compressionRule format
  let cols := pixelStride.toUInt64
  let rows := verticalStride.toUInt64
  let header ← k.headerBytes cols rows
  let body ← bodyBytes r cols rows
  let offset := Word.alignUp header k.table.blocks.headerAlign.toUInt64
  let padded := Word.alignUp body k.table.blocks.bodyAlign.toUInt64
  let totalSize ← Stride.narrow .totalSize (Word.satAdd offset padded)
  let headerSize ← Stride.narrow .headerSize header
  let bodySize ← Stride.narrow .bodySize body
  let bodyOffset ← Stride.narrow .bodyOffset offset
  return {
    pixelStride, byteStride, verticalStride, totalSize, headerSize, bodySize, bodyOffset }

def plainLayout (r : FormatRule) (pixelStride byteStride verticalStride : UInt32) :
    Except SetupError FrameLayout := do
  let total ← planeBytes r byteStride.toUInt64 verticalStride.toUInt64
  let totalSize ← Stride.narrow .totalSize total
  return { FrameLayout.zero with pixelStride, byteStride, verticalStride, totalSize }

def layout (r : FrameRequest) (f : FormatRule) : Except SetupError FrameLayout := do
  let byteStride ← k.byteStride r.forByteStride
  let verticalStride ← k.verticalStride r.forVerticalStride
  let pixelStride ← k.pixelStride (r.forPixelStride byteStride)
  if r.compressed then k.compressedLayout r.format pixelStride byteStride verticalStride
  else plainLayout f pixelStride byteStride verticalStride

/-- The layout of a frame; without pixels it is all zero. -/
def frameSize (r : FrameRequest) : Except SetupError FrameLayout := do
  let f ← k.supported r.coding r.format r.compressed
  if r.width = 0 ∨ r.height = 0 then return .zero
  k.layout r f

/-- The layout of a frame, which is logged if it has pixels and the debug word asks for it. -/
def frame (r : FrameRequest) : Checked FrameLayout := do
  let l ← MonadExcept.ofExcept (k.frameSize r)
  if r.width ≠ 0 ∧ r.height ≠ 0 then Traced.logIf .layouts (.laidOut l)
  return l

/-- The layouts of several frames, each computed on its own. -/
def frames (rs : List FrameRequest) : Traced (List (Except SetupError FrameLayout)) :=
  rs.mapM fun r => (k.frame r).run

end Calculator

end EncoderSetup

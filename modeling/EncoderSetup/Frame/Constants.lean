import EncoderSetup.Document
import EncoderSetup.SortedMap

/-!
# Hardware constants

What a hardware revision demands of frame buffers, as plain data: per coding type, per pixel format
and for the blocks of the compressed layout. The constants divide and align, so a usable table has
no zero among them; `GeometryTable.validate` names the first one it finds.
-/

namespace EncoderSetup

structure CodingRule where
  /-- The granularity of the vertical stride in rows. -/
  vAlign : UInt32
  deriving DecidableEq, Repr

structure CompressionRule where
  /-- Bits per pixel over all planes, before compression. -/
  bitsPerPixel : UInt32
  /-- The worst size of the body relative to the uncompressed size: its numerator. -/
  ratioNum : UInt32
  ratioDen : UInt32
  deriving DecidableEq, Repr

structure FormatRule where
  /-- Bits per pixel in a row of the first plane. -/
  lumaBits : UInt32
  byteAlign : UInt32
  /-- Bytes of the frame per byte of the first plane: the numerator. -/
  planeNum : UInt32
  planeDen : UInt32
  compression : Option CompressionRule
  deriving DecidableEq, Repr

/-- The blocks and regions of the compressed layout. -/
structure BlockRule where
  blockWidth : UInt32
  blockHeight : UInt32
  headerBytes : UInt32
  /-- The granularity of the horizontal stride in pixels. -/
  hAlign : UInt32
  /-- The granularity of the vertical stride in rows, besides that of the coding type. -/
  vAlign : UInt32
  headerAlign : UInt32
  bodyAlign : UInt32
  deriving DecidableEq, Repr

/-- The constants of one hardware revision. -/
structure GeometryTable where
  coding : SortedMap Coding CodingRule
  formats : SortedMap PixelFormat FormatRule
  blocks : BlockRule
  deriving DecidableEq

namespace GeometryTable

def codingConstants (c : Coding) (r : CodingRule) : List (String × UInt32) :=
  [(c.name ++ ".v_align", r.vAlign)]

def compressionConstants (f : PixelFormat) (r : CompressionRule) : List (String × UInt32) :=
  [(f.name ++ ".fbc.bits_per_pixel", r.bitsPerPixel), (f.name ++ ".fbc.ratio_num", r.ratioNum),
    (f.name ++ ".fbc.ratio_den", r.ratioDen)]

def formatConstants (f : PixelFormat) (r : FormatRule) : List (String × UInt32) :=
  [(f.name ++ ".luma_bits", r.lumaBits), (f.name ++ ".byte_align", r.byteAlign),
    (f.name ++ ".plane_num", r.planeNum), (f.name ++ ".plane_den", r.planeDen)] ++
    r.compression.toList.flatMap (compressionConstants f)

def blockConstants (r : BlockRule) : List (String × UInt32) :=
  [("fbc.block_width", r.blockWidth), ("fbc.block_height", r.blockHeight),
    ("fbc.hdr_bytes_per_block", r.headerBytes), ("fbc.h_align", r.hAlign),
    ("fbc.v_align", r.vAlign), ("fbc.hdr_align", r.headerAlign), ("fbc.bdy_align", r.bodyAlign)]

/-- Every constant with its name: coding types, pixel formats, then the blocks. -/
def constants (t : GeometryTable) : List (String × UInt32) :=
  (t.coding.entries.flatMap fun e => codingConstants e.1 e.2) ++
    (t.formats.entries.flatMap fun e => formatConstants e.1 e.2) ++ blockConstants t.blocks

/-- Refuses a table with a zero among its constants, by the first one. -/
def validate (t : GeometryTable) : Except SetupError Unit :=
  match t.constants.find? fun c => c.2 == 0 with
  | some c => .error (.invalidArgument (.zeroConstant c.1))
  | none => .ok ()

def codingRule (t : GeometryTable) (c : Coding) : Except SetupError CodingRule :=
  match t.coding.get? c with
  | some r => .ok r
  | none => .error (.unsupportedFormat (.coding c))

def formatRule (t : GeometryTable) (f : PixelFormat) : Except SetupError FormatRule :=
  match t.formats.get? f with
  | some r => .ok r
  | none => .error (.unsupportedFormat (.format f))

def compressionRule (t : GeometryTable) (f : PixelFormat) : Except SetupError CompressionRule := do
  let r ← t.formatRule f
  match r.compression with
  | some c => .ok c
  | none => .error (.unsupportedFormat (.compression f))

/-- The formats of the reference hardware; ten-bit samples fill 512 bytes of a block with 480. -/
def builtinFormats : List (PixelFormat × FormatRule) :=
  [
    (.yuv420sp, ⟨8, 16, 3, 2, some ⟨12, 1, 1⟩⟩),
    (.yuv420sp10bit, ⟨10, 64, 3, 2, some ⟨15, 16, 15⟩⟩),
    (.yuv422sp, ⟨8, 16, 2, 1, some ⟨16, 1, 1⟩⟩),
    (.yuv422sp10bit, ⟨10, 64, 2, 1, some ⟨20, 1, 1⟩⟩),
    (.yuv420p, ⟨8, 16, 3, 2, none⟩),
    (.yuv420spVu, ⟨8, 16, 3, 2, none⟩),
    (.yuv422p, ⟨8, 16, 2, 1, none⟩),
    (.yuv422spVu, ⟨8, 16, 2, 1, none⟩),
    (.yuyv, ⟨16, 32, 1, 1, none⟩),
    (.yvyu, ⟨16, 32, 1, 1, none⟩),
    (.uyvy, ⟨16, 32, 1, 1, none⟩),
    (.vyuy, ⟨16, 32, 1, 1, none⟩),
    (.yuv400, ⟨8, 16, 1, 1, some ⟨8, 1, 1⟩⟩),
    (.yuv440sp, ⟨8, 16, 2, 1, none⟩),
    (.yuv411sp, ⟨8, 16, 3, 2, none⟩),
    (.yuv444sp, ⟨8, 16, 3, 1, some ⟨24, 1, 1⟩⟩),
    (.yuv444p, ⟨8, 16, 3, 1, none⟩),
    (.rgb565, ⟨16, 16, 1, 1, some ⟨16, 1, 1⟩⟩),
    (.bgr565, ⟨16, 16, 1, 1, some ⟨16, 1, 1⟩⟩),
    (.rgb555, ⟨16, 16, 1, 1, none⟩),
    (.bgr555, ⟨16, 16, 1, 1, none⟩),
    (.rgb444, ⟨16, 16, 1, 1, none⟩),
    (.bgr444, ⟨16, 16, 1, 1, none⟩),
    (.rgb888, ⟨24, 16, 1, 1, some ⟨24, 1, 1⟩⟩),
    (.bgr888, ⟨24, 16, 1, 1, some ⟨24, 1, 1⟩⟩),
    (.rgb101010, ⟨32, 16, 1, 1, some ⟨32, 1, 1⟩⟩),
    (.bgr101010, ⟨32, 16, 1, 1, some ⟨32, 1, 1⟩⟩),
    (.argb8888, ⟨32, 16, 1, 1, some ⟨32, 1, 1⟩⟩),
    (.abgr8888, ⟨32, 16, 1, 1, some ⟨32, 1, 1⟩⟩),
    (.bgra8888, ⟨32, 16, 1, 1, some ⟨32, 1, 1⟩⟩),
    (.rgba8888, ⟨32, 16, 1, 1, some ⟨32, 1, 1⟩⟩)
  ]

def builtin : GeometryTable where
  coding := .ofList
    [(.mpeg2, ⟨16⟩), (.h263, ⟨16⟩), (.mpeg4, ⟨16⟩), (.avc, ⟨16⟩), (.mjpeg, ⟨8⟩), (.vp8, ⟨16⟩),
      (.vp9, ⟨64⟩), (.hevc, ⟨64⟩), (.avs2, ⟨64⟩), (.av1, ⟨64⟩)]
  formats := .ofList builtinFormats
  blocks :=
    { blockWidth := 16
      blockHeight := 16
      headerBytes := 16
      hAlign := 64
      vAlign := 16
      headerAlign := 4096
      bodyAlign := 4096 }

end GeometryTable

end EncoderSetup

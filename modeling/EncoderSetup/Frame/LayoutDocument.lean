import EncoderSetup.Frame.Layout
import EncoderSetup.Json.Read

/-!
# Requests and layouts in JSON

The records of the layout calculator. Suggested strides may be absent or null and are written as
null when there is none.
-/

namespace EncoderSetup

open Json (bool? uint32? enumerated? ofMembers ofMember ofNat)

/-- A suggested stride as JSON. -/
def Json.ofStride : Option UInt32 → Json := Json.ofOption fun v => ofNat v.toNat

def PixelStrideRequest.ofJson? (j : Json) : Option PixelStrideRequest := do
  let r ← j.record? ["coding", "format", "fbc", "width", "byte_stride"]
  return {
    coding := ← r.required? "coding" (enumerated? Coding)
    format := ← r.required? "format" (enumerated? PixelFormat)
    compressed := ← r.required? "fbc" bool?
    width := ← r.required? "width" uint32?
    byteStride := ← r.required? "byte_stride" uint32? }

def PixelStrideRequest.toJson (r : PixelStrideRequest) : Json :=
  ofMembers [("coding", ofMember r.coding), ("format", ofMember r.format),
    ("fbc", .bool r.compressed), ("width", ofNat r.width.toNat),
    ("byte_stride", ofNat r.byteStride.toNat)]

def ByteStrideRequest.ofJson? (j : Json) : Option ByteStrideRequest := do
  let r ← j.record? ["coding", "format", "fbc", "width", "byte_stride"]
  return {
    coding := ← r.required? "coding" (enumerated? Coding)
    format := ← r.required? "format" (enumerated? PixelFormat)
    compressed := ← r.required? "fbc" bool?
    width := ← r.required? "width" uint32?
    byteStride := ← r.optional? "byte_stride" uint32? }

def ByteStrideRequest.toJson (r : ByteStrideRequest) : Json :=
  ofMembers [("coding", ofMember r.coding), ("format", ofMember r.format),
    ("fbc", .bool r.compressed), ("width", ofNat r.width.toNat),
    ("byte_stride", Json.ofStride r.byteStride)]

def VerticalStrideRequest.ofJson? (j : Json) : Option VerticalStrideRequest := do
  let r ← j.record? ["coding", "fbc", "height", "v_stride"]
  return {
    coding := ← r.required? "coding" (enumerated? Coding)
    compressed := ← r.required? "fbc" bool?
    height := ← r.required? "height" uint32?
    vStride := ← r.optional? "v_stride" uint32? }

def VerticalStrideRequest.toJson (r : VerticalStrideRequest) : Json :=
  ofMembers [("coding", ofMember r.coding), ("fbc", .bool r.compressed),
    ("height", ofNat r.height.toNat), ("v_stride", Json.ofStride r.vStride)]

def FrameRequest.ofJson? (j : Json) : Option FrameRequest := do
  let r ← j.record? ["coding", "format", "fbc", "width", "height", "byte_stride", "v_stride"]
  return {
    coding := ← r.required? "coding" (enumerated? Coding)
    format := ← r.required? "format" (enumerated? PixelFormat)
    compressed := ← r.required? "fbc" bool?
    width := ← r.required? "width" uint32?
    height := ← r.required? "height" uint32?
    byteStride := ← r.optional? "byte_stride" uint32?
    vStride := ← r.optional? "v_stride" uint32? }

def FrameRequest.toJson (r : FrameRequest) : Json :=
  ofMembers [("coding", ofMember r.coding), ("format", ofMember r.format),
    ("fbc", .bool r.compressed), ("width", ofNat r.width.toNat),
    ("height", ofNat r.height.toNat), ("byte_stride", Json.ofStride r.byteStride),
    ("v_stride", Json.ofStride r.vStride)]

def FrameLayout.ofJson? (j : Json) : Option FrameLayout := do
  let r ← j.record? (FrameLayout.zero.fields.map Prod.fst)
  return {
    pixelStride := ← r.required? "h_stride_by_pixel" uint32?
    byteStride := ← r.required? "h_stride_by_byte" uint32?
    verticalStride := ← r.required? "v_stride" uint32?
    totalSize := ← r.required? "size_total" uint32?
    headerSize := ← r.required? "size_fbc_hdr" uint32?
    bodySize := ← r.required? "size_fbc_bdy" uint32?
    bodyOffset := ← r.required? "fbc_bdy_offset" uint32? }

def FrameLayout.toJson (l : FrameLayout) : Json :=
  ofMembers (l.fields.map fun f => (f.1, ofNat f.2.toNat))

end EncoderSetup

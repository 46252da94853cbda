import EncoderSetup.Frame.Constants
import EncoderSetup.Json.Read
import EncoderSetup.Json.Render

/-!
# Tables of hardware constants as documents

A table is a JSON record of its coding types, its pixel formats and its blocks. Reading a table from
a document also validates it; `GeometryTable.ofJson?` alone does not.
-/

namespace EncoderSetup

open Json (uint32? ofMembers ofNat)

def CodingRule.ofJson? (j : Json) : Option CodingRule := do
  let r ← j.record? ["v_align"]
  return ⟨← r.required? "v_align" uint32?⟩

def CodingRule.toJson (r : CodingRule) : Json := ofMembers [("v_align", ofNat r.vAlign.toNat)]

def CompressionRule.ofJson? (j : Json) : Option CompressionRule := do
  let r ← j.record? ["bits_per_pixel", "ratio_num", "ratio_den"]
  return {
    bitsPerPixel := ← r.required? "bits_per_pixel" uint32?
    ratioNum := ← r.required? "ratio_num" uint32?
    ratioDen := ← r.required? "ratio_den" uint32? }

def CompressionRule.toJson (r : CompressionRule) : Json :=
  ofMembers [("bits_per_pixel", ofNat r.bitsPerPixel.toNat),
    ("ratio_num", ofNat r.ratioNum.toNat), ("ratio_den", ofNat r.ratioDen.toNat)]

def FormatRule.ofJson? (j : Json) : Option FormatRule := do
  let r ← j.record? ["luma_bits", "byte_align", "plane_num", "plane_den", "fbc"]
  return {
    lumaBits := ← r.required? "luma_bits" uint32?
    byteAlign := ← r.required? "byte_align" uint32?
    planeNum := ← r.required? "plane_num" uint32?
    planeDen := ← r.required? "plane_den" uint32?
    compression := ← r.optional? "fbc" CompressionRule.ofJson? }

def FormatRule.toJson (r : FormatRule) : Json :=
  ofMembers [("luma_bits", ofNat r.lumaBits.toNat), ("byte_align", ofNat r.byteAlign.toNat),
    ("plane_num", ofNat r.planeNum.toNat), ("plane_den", ofNat r.planeDen.toNat),
    ("fbc", Json.ofOption CompressionRule.toJson r.compression)]

def BlockRule.ofJson? (j : Json) : Option BlockRule := do
  let r ← j.record? ["block_width", "block_height", "hdr_bytes_per_block", "h_align", "v_align",
    "hdr_align", "bdy_align"]
  return {
    blockWidth := ← r.required? "block_width" uint32?
    blockHeight := ← r.required? "block_height" uint32?
    headerBytes := ← r.required? "hdr_bytes_per_block" uint32?
    hAlign := ← r.required? "h_align" uint32?
    vAlign := ← r.required? "v_align" uint32?
    headerAlign := ← r.required? "hdr_align" uint32?
    bodyAlign := ← r.required? "bdy_align" uint32? }

def BlockRule.toJson (r : BlockRule) : Json :=
  ofMembers [("block_width", ofNat r.blockWidth.toNat),
    ("block_height", ofNat r.blockHeight.toNat),
    ("hdr_bytes_per_block", ofNat r.headerBytes.toNat), ("h_align", ofNat r.hAlign.toNat),
    ("v_align", ofNat r.vAlign.toNat), ("hdr_align", ofNat r.headerAlign.toNat),
    ("bdy_align", ofNat r.bodyAlign.toNat)]

namespace GeometryTable

/-- A table in JSON, valid or not. -/
def ofJson? (j : Json) : Option GeometryTable := do
  let r ← j.record? ["coding", "formats", "fbc"]
  return {
    coding := ← r.required? "coding" fun j =>
      j.map? (Enumeration.ofName? Coding) CodingRule.ofJson?
    formats := ← r.required? "formats" fun j =>
      j.map? (Enumeration.ofName? PixelFormat) FormatRule.ofJson?
    blocks := ← r.required? "fbc" BlockRule.ofJson? }

def toJson (t : GeometryTable) : Json :=
  ofMembers [("coding", ofMembers (t.coding.entries.map fun e => (e.1.name, e.2.toJson))),
    ("formats", ofMembers (t.formats.entries.map fun e => (e.1.name, e.2.toJson))),
    ("fbc", t.blocks.toJson)]

def text (t : GeometryTable) : String := t.toJson.pretty

/-- The valid table of a document. -/
def ofDocument (j : Option Json) : Except SetupError GeometryTable := do
  let t ← Document.table.expect (j.bind ofJson?)
  t.validate
  return t

def ofText (text : String) : Except SetupError GeometryTable := ofDocument (Json.ofText? text)

def ofBytes (bytes : List UInt8) : Except SetupError GeometryTable :=
  ofDocument (Json.ofBytes? bytes)

def ofFile (path : String) (content : FileContent) : Except SetupError GeometryTable :=
  Document.table.load ofBytes path content

end GeometryTable

end EncoderSetup

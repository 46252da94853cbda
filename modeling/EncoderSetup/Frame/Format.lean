import EncoderSetup.Enumeration

/-!
# Coding types and pixel formats

The video standards an encoder produces and the memory layouts it reads, each with the numeric id of
the hardware interface and the name that tables and the command line use.
-/

namespace EncoderSetup

inductive Coding where
  | mpeg2
  | h263
  | mpeg4
  | avc
  | mjpeg
  | vp8
  | vp9
  | hevc
  | avs2
  | av1
  deriving DecidableEq, Repr, Inhabited

namespace Coding

/-- Every coding type in the order of tables. -/
def all : List Coding := [mpeg2, h263, mpeg4, avc, mjpeg, vp8, vp9, hevc, avs2, av1]

def name : Coding → String
  | mpeg2 => "mpeg2"
  | h263 => "h263"
  | mpeg4 => "mpeg4"
  | avc => "avc"
  | mjpeg => "mjpeg"
  | vp8 => "vp8"
  | vp9 => "vp9"
  | hevc => "hevc"
  | avs2 => "avs2"
  | av1 => "av1"

instance : Enumeration Coding where
  members := all
  name := name
  mem_members c := by cases c <;> decide
  nodup_names := by decide

def rawId : Coding → UInt32
  | mpeg2 => 2
  | h263 => 3
  | mpeg4 => 4
  | avc => 7
  | mjpeg => 8
  | vp8 => 9
  | vp9 => 10
  | hevc => 0x01000004
  | avs2 => 0x01000007
  | av1 => 0x01000008

def ofRawId? (raw : UInt32) : Option Coding := all.find? fun c => c.rawId == raw

instance : Ord Coding := ⟨compareOn Coding.ctorIdx⟩

instance : Std.TransOrd Coding := inferInstanceAs (Std.TransCmp (compareOn Coding.ctorIdx))

/-- The order of keys is the order of tables. -/
theorem all_getElem?_ctorIdx (c : Coding) : all[c.ctorIdx]? = some c := by cases c <;> rfl

instance : Std.LawfulEqOrd Coding where
  compare_self {a} := @Std.ReflCmp.compare_self _ (compareOn Coding.ctorIdx) _ a
  eq_of_compare {a b} h := by
    have hi : a.ctorIdx = b.ctorIdx := Std.LawfulEqOrd.eq_of_compare h
    exact Option.some.inj (by rw [← all_getElem?_ctorIdx a, hi, all_getElem?_ctorIdx b])

end Coding

inductive PixelFormat where
  | yuv420sp
  | yuv420sp10bit
  | yuv422sp
  | yuv422sp10bit
  | yuv420p
  | yuv420spVu
  | yuv422p
  | yuv422spVu
  | yuyv
  | yvyu
  | uyvy
  | vyuy
  | yuv400
  | yuv440sp
  | yuv411sp
  | yuv444sp
  | yuv444p
  | rgb565
  | bgr565
  | rgb555
  | bgr555
  | rgb444
  | bgr444
  | rgb888
  | bgr888
  | rgb101010
  | bgr101010
  | argb8888
  | abgr8888
  | bgra8888
  | rgba8888
  deriving DecidableEq, Repr, Inhabited

namespace PixelFormat

/-- Every pixel format in the order of tables. -/
def all : List PixelFormat :=
  [yuv420sp, yuv420sp10bit, yuv422sp, yuv422sp10bit, yuv420p, yuv420spVu, yuv422p, yuv422spVu, yuyv,
    yvyu, uyvy, vyuy, yuv400, yuv440sp, yuv411sp, yuv444sp, yuv444p, rgb565, bgr565, rgb555, bgr555,
    rgb444, bgr444, rgb888, bgr888, rgb101010, bgr101010, argb8888, abgr8888, bgra8888, rgba8888]

def name : PixelFormat → String
  | yuv420sp => "yuv420sp"
  | yuv420sp10bit => "yuv420sp10bit"
  | yuv422sp => "yuv422sp"
  | yuv422sp10bit => "yuv422sp10bit"
  | yuv420p => "yuv420p"
  | yuv420spVu => "yuv420sp_vu"
  | yuv422p => "yuv422p"
  | yuv422spVu => "yuv422sp_vu"
  | yuyv => "yuyv"
  | yvyu => "yvyu"
  | uyvy => "uyvy"
  | vyuy => "vyuy"
  | yuv400 => "yuv400"
  | yuv440sp => "yuv440sp"
  | yuv411sp => "yuv411sp"
  | yuv444sp => "yuv444sp"
  | yuv444p => "yuv444p"
  | rgb565 => "rgb565"
  | bgr565 => "bgr565"
  | rgb555 => "rgb555"
  | bgr555 => "bgr555"
  | rgb444 => "rgb444"
  | bgr444 => "bgr444"
  | rgb888 => "rgb888"
  | bgr888 => "bgr888"
  | rgb101010 => "rgb101010"
  | bgr101010 => "bgr101010"
  | argb8888 => "argb8888"
  | abgr8888 => "abgr8888"
  | bgra8888 => "bgra8888"
  | rgba8888 => "rgba8888"

instance : Enumeration PixelFormat where
  members := all
  name := name
  mem_members f := by cases f <;> decide
  nodup_names := by decide

/-- The raw id of the first packed RGB format; those of the others follow. -/
def rgbBase : UInt32 := 0x00010000

def rawId : PixelFormat → UInt32
  | yuv420sp => 0
  | yuv420sp10bit => 1
  | yuv422sp => 2
  | yuv422sp10bit => 3
  | yuv420p => 4
  | yuv420spVu => 5
  | yuv422p => 6
  | yuv422spVu => 7
  | yuyv => 8
  | yvyu => 9
  | uyvy => 10
  | vyuy => 11
  | yuv400 => 12
  | yuv440sp => 13
  | yuv411sp => 14
  | yuv444sp => 15
  | yuv444p => 16
  | rgb565 => rgbBase
  | bgr565 => rgbBase + 1
  | rgb555 => rgbBase + 2
  | bgr555 => rgbBase + 3
  | rgb444 => rgbBase + 4
  | bgr444 => rgbBase + 5
  | rgb888 => rgbBase + 6
  | bgr888 => rgbBase + 7
  | rgb101010 => rgbBase + 8
  | bgr101010 => rgbBase + 9
  | argb8888 => rgbBase + 10
  | abgr8888 => rgbBase + 11
  | bgra8888 => rgbBase + 12
  | rgba8888 => rgbBase + 13

def ofRawId? (raw : UInt32) : Option PixelFormat := all.find? fun f => f.rawId == raw

def isRgb (f : PixelFormat) : Bool := rgbBase ≤ f.rawId

instance : Ord PixelFormat := ⟨compareOn PixelFormat.ctorIdx⟩

instance : Std.TransOrd PixelFormat :=
  inferInstanceAs (Std.TransCmp (compareOn PixelFormat.ctorIdx))

/-- The order of keys is the order of tables. -/
theorem all_getElem?_ctorIdx (f : PixelFormat) : all[f.ctorIdx]? = some f := by cases f <;> rfl

instance : Std.LawfulEqOrd PixelFormat where
  compare_self {a} := @Std.ReflCmp.compare_self _ (compareOn PixelFormat.ctorIdx) _ a
  eq_of_compare {a b} h := by
    have hi : a.ctorIdx = b.ctorIdx := Std.LawfulEqOrd.eq_of_compare h
    exact Option.some.inj (by rw [← all_getElem?_ctorIdx a, hi, all_getElem?_ctorIdx b])

end PixelFormat

end EncoderSetup

import EncoderSetup.Diagnostic.Traced
import EncoderSetup.Text.Column

/-!
# Well-known attributes

The attributes that the encoder reads: the kind each one has and the stages at which it is read. A
store may hold other attributes too; nothing is said about those.
-/

namespace EncoderSetup

structure Definition where
  name : String
  kind : Kind
  stages : List Stage
  description : String
  deriving DecidableEq, Repr

namespace Definition

def isReadAt (d : Definition) (s : Stage) : Bool := d.stages.contains s

def line (d : Definition) : String :=
  Column.left 20 d.name ++ " " ++ Column.left 3 d.kind.name ++ " " ++
    Column.left 28 (String.intercalate "," (d.stages.map Stage.name)) ++ " " ++ d.description

end Definition

namespace Schema

/-- Fixed when the channel is created. -/
def creation : List Stage := [.init]

/-- Fixed until the next reset. -/
def parameters : List Stage := [.init, .reset]

/-- Read again whenever encoding starts. -/
def running : List Stage := [.init, .reset, .start]

def definitions : List Definition :=
  [
    ⟨"chan.id", .s32, Stage.all, "encoder channel id"⟩,
    ⟨"init.coding", .s32, creation, "coding type raw id"⟩,
    ⟨"init.online", .s32, creation, "online (direct-from-capture) mode"⟩,
    ⟨"init.buf_size", .u32, creation, "stream buffer size in bytes"⟩,
    ⟨"init.max_strm_cnt", .u32, creation, "max queued output packets"⟩,
    ⟨"init.max_width", .u32, creation, "max frame width the channel may be reset to"⟩,
    ⟨"init.max_height", .u32, creation, "max frame height the channel may be reset to"⟩,
    ⟨"init.name", .st, creation, "channel name bytes"⟩,
    ⟨"base.low_delay", .s32, parameters, "low delay output"⟩,
    ⟨"base.smart_en", .s32, parameters, "smart encoding"⟩,
    ⟨"prep.width", .s32, parameters, "input width in pixels"⟩,
    ⟨"prep.height", .s32, parameters, "input height in pixels"⟩,
    ⟨"prep.hor_stride", .s32, parameters, "input byte stride"⟩,
    ⟨"prep.ver_stride", .s32, parameters, "input vertical stride"⟩,
    ⟨"prep.format", .s32, parameters, "input pixel format raw id"⟩,
    ⟨"prep.fbc", .s32, parameters, "input is FBC compressed"⟩,
    ⟨"prep.rotation", .s32, running, "rotation in quarter turns"⟩,
    ⟨"prep.mirroring", .s32, running, "horizontal mirroring"⟩,
    ⟨"rc.mode", .s32, running, "rate control mode"⟩,
    ⟨"rc.bps_target", .s32, running, "target bitrate"⟩,
    ⟨"rc.bps_max", .s32, running, "max bitrate"⟩,
    ⟨"rc.bps_min", .s32, running, "min bitrate"⟩,
    ⟨"rc.fps_in_num", .s32, running, "input frame rate numerator"⟩,
    ⟨"rc.fps_in_denom", .s32, running, "input frame rate denominator"⟩,
    ⟨"rc.fps_out_num", .s32, running, "output frame rate numerator"⟩,
    ⟨"rc.fps_out_denom", .s32, running, "output frame rate denominator"⟩,
    ⟨"rc.gop", .s32, running, "intra period in frames"⟩,
    ⟨"rc.qp_init", .s32, running, "initial qp"⟩,
    ⟨"rc.qp_min", .s32, running, "min qp"⟩,
    ⟨"rc.qp_max", .s32, running, "max qp"⟩,
    ⟨"rc.drop_mode", .s32, running, "frame drop mode"⟩,
    ⟨"h264.profile", .s32, parameters, "H.264 profile_idc"⟩,
    ⟨"h264.level", .s32, parameters, "H.264 level_idc"⟩,
    ⟨"h264.cabac_en", .s32, parameters, "CABAC entropy coding"⟩,
    ⟨"h265.profile", .s32, parameters, "H.265 general_profile_idc"⟩,
    ⟨"h265.level", .s32, parameters, "H.265 general_level_idc"⟩,
    ⟨"jpeg.q_factor", .s32, running, "JPEG quality factor"⟩,
    ⟨"jpeg.qf_max", .s32, running, "JPEG max quality factor"⟩,
    ⟨"jpeg.qf_min", .s32, running, "JPEG min quality factor"⟩,
    ⟨"split.mode", .u32, running, "slice split mode"⟩,
    ⟨"split.arg", .u32, running, "slice split argument"⟩,
    ⟨"roi.regions", .st, running, "packed ROI region table"⟩,
    ⟨"osd.data", .ptr, running, "OSD descriptor owned by the caller"⟩,
    ⟨"user.data", .ptr, running, "per-frame user data owned by the caller"⟩,
    ⟨"start.frame_count", .u64, [.start], "frames to encode before auto stop, 0 = unbounded"⟩,
    ⟨"stop.flush", .s32, [.stop], "drain pending packets before stopping"⟩
  ]

def lookup? (name : String) : Option Definition := definitions.find? fun d => d.name == name

def lines : List String := definitions.map Definition.line

def dump : String := String.join (lines.map (· ++ "\n"))

def heading : Event :=
  ⟨.info, some "encoder attribute schema", [("keys", toString definitions.length)]⟩

def «show» : Traced Unit := do
  Traced.log heading
  lines.forM fun text => Traced.log (.listed text)

end Schema

end EncoderSetup

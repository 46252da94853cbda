import EncoderSetup.Text.Column

/-!
# Commands and their switches

The commands of the program, the switches that each one takes, and the help texts made from them. A
switch either takes a value, shown by a placeholder, or is a flag.
-/

namespace EncoderSetup.CommandLine

/-- The commands, from the program itself down. -/
inductive Level where
  | program
  | geometry
  | cfg
  | cfgShow
  | cfgSchema
  deriving DecidableEq, Repr

inductive Switch where
  | verbose
  | help
  | version
  | coding
  | format
  | width
  | height
  | fbc
  | byteStride
  | vStride
  | table
  | json
  | input
  | stage
  | profiles
  deriving DecidableEq, Repr

namespace Switch

def long : Switch → String
  | verbose => "verbose"
  | help => "help"
  | version => "version"
  | coding => "coding"
  | format => "format"
  | width => "width"
  | height => "height"
  | fbc => "fbc"
  | byteStride => "byte-stride"
  | vStride => "v-stride"
  | table => "table"
  | json => "json"
  | input => "in"
  | stage => "stage"
  | profiles => "profiles"

def short? : Switch → Option Char
  | verbose => some 'v'
  | help => some 'h'
  | version => some 'V'
  | _ => none

/-- What the value is called; a flag takes none. -/
def placeholder? : Switch → Option String
  | coding => some "CODING"
  | format => some "FORMAT"
  | width => some "WIDTH"
  | height => some "HEIGHT"
  | byteStride => some "BYTE_STRIDE"
  | vStride => some "V_STRIDE"
  | table => some "TABLE"
  | input => some "IN_PATH"
  | stage => some "STAGE"
  | profiles => some "PROFILES"
  | verbose | help | version | fbc | json => none

def takesValue (s : Switch) : Bool := s.placeholder?.isSome

def shown (s : Switch) : String :=
  match s.placeholder? with
  | some p => "--" ++ s.long ++ " <" ++ p ++ ">"
  | none => "--" ++ s.long

def purpose : Switch → String
  | verbose => "Log at debug level"
  | help => "Print help"
  | version => "Print version"
  | coding => "Coding type, e.g. \x60avc\x60, \x60hevc\x60, \x60mjpeg\x60"
  | format => "Pixel format, e.g. \x60yuv420sp\x60, \x60rgba8888\x60"
  | width => "Frame width in pixels"
  | height => "Frame height in rows"
  | fbc => "Use the FBC compressed layout"
  | byteStride => "Byte stride to keep when valid"
  | vStride => "Vertical stride to keep when valid"
  | table => "Geometry table JSON replacing the built-in constants"
  | json => "Print the layout as JSON"
  | input => "Attribute profile JSON"
  | stage => "Profile name selecting the lifecycle stage [default: init]"
  | profiles =>
      "Extra profile names (JSON object of name to stage) merged over the built-ins"

end Switch

namespace Level

def name : Level → String
  | program => "hwvenc"
  | geometry => "hwvenc geometry"
  | cfg => "hwvenc cfg"
  | cfgShow => "hwvenc cfg show"
  | cfgSchema => "hwvenc cfg schema"

def purpose? : Level → Option String
  | program => none
  | geometry => some "Print the stride and size layout of one frame"
  | cfg => some "Inspect encoder configs"
  | cfgShow => some "Load an attribute profile and print it with stage diagnostics"
  | cfgSchema => some "List the well-known attribute keys"

def switches : Level → List Switch
  | program => [.verbose, .help, .version]
  | geometry =>
      [.coding, .format, .width, .height, .fbc, .byteStride, .vStride, .table, .json, .verbose,
        .help]
  | cfg => [.verbose, .help]
  | cfgShow => [.input, .stage, .profiles, .json, .verbose, .help]
  | cfgSchema => [.verbose, .help]

def required : Level → List Switch
  | geometry => [.coding, .format, .width, .height]
  | cfgShow => [.input]
  | program | cfg | cfgSchema => []

def commands : Level → List (String × Level)
  | program => [("geometry", geometry), ("cfg", cfg)]
  | cfg => [("show", cfgShow), ("schema", cfgSchema)]
  | geometry | cfgShow | cfgSchema => []

def isGroup (l : Level) : Bool := !l.commands.isEmpty

def long? (l : Level) (name : String) : Option Switch := l.switches.find? fun s => s.long == name

def short? (l : Level) (c : Char) : Option Switch := l.switches.find? fun s => s.short? == some c

def usage (l : Level) : String :=
  "Usage: " ++ l.name ++ " [OPTIONS]" ++ String.join (l.required.map fun s => " " ++ s.shown) ++
    if l.isGroup then " <COMMAND>" else ""

/-- A switch in a help text: its letter and its name. -/
def switchCell (s : Switch) : String :=
  match s.short? with
  | some c => "-" ++ String.singleton c ++ ", " ++ s.shown
  | none => "    " ++ s.shown

def purposeOf (l : Level) (s : Switch) : String :=
  if l = .cfgShow ∧ s = .json then "Print the committed attributes as JSON instead of the text dump"
  else s.purpose

/-- Rows of two texts, the first in a column as wide as the longest of them. -/
def table (rows : List (String × String)) : List String :=
  let width := rows.foldl (fun w r => max w r.1.length) 0
  rows.map fun r => "  " ++ Column.left width r.1 ++ "  " ++ r.2

def commandTable (l : Level) : List String :=
  if l.isGroup then
    "" :: "Commands:" :: table ((l.commands.map fun c => (c.1, c.2.purpose?.getD "")) ++
      [("help", "Print this message or the help of the given subcommand(s)")])
  else []

def help (l : Level) : String :=
  let purpose := l.purpose?.toList.flatMap fun p => [p, ""]
  let switches := table (l.switches.map fun s => (switchCell s, l.purposeOf s))
  String.join
    ((purpose ++ [l.usage] ++ l.commandTable ++ "" :: "Options:" :: switches).map (· ++ "\n"))

end Level

end EncoderSetup.CommandLine

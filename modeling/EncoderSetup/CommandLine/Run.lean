import EncoderSetup.Attribute.Profile
import EncoderSetup.CommandLine.Arguments
import EncoderSetup.Frame.ConstantsDocument
import EncoderSetup.Frame.LayoutDocument
import EncoderSetup.Lifecycle.Config

/-!
# Carrying out a command

A command is a computation over what is found at the paths it names; it answers with the texts for
the two output streams, or fails with an error and the contexts in which it occurred. A failing
command prints nothing on the standard output.
-/

namespace EncoderSetup.CommandLine

/-- An error, and what the program was about to do, outermost first. -/
structure ContextError where
  contexts : List String
  error : SetupError
  deriving DecidableEq, Repr

namespace ContextError

/-- The texts from the outermost context to the innermost reason. -/
def chain (e : ContextError) : List String := e.contexts ++ e.error.message :: e.error.reasons

def indented (width : Nat) (s : String) : String :=
  String.ofList <| s.toList.flatMap fun c =>
    if c = '\n' then '\n' :: List.replicate width ' ' else [c]

/-- The causes of a failure, numbered where there are several. -/
def causeLines : List String → List String
  | [cause] => ["    " ++ indented 4 cause]
  | causes =>
      causes.zipIdx.map fun c => Column.right 5 (toString c.2) ++ ": " ++ indented 7 c.1

def report (e : ContextError) : String :=
  match e.chain with
  | [] => ""
  | [text] => "Error: " ++ text ++ "\n"
  | text :: causes =>
      "Error: " ++ text ++ "\n\nCaused by:\n" ++
        String.join ((causeLines causes).map (· ++ "\n"))

end ContextError

abbrev Step (α : Type) : Type := ExceptT ContextError Traced α

namespace Step

variable {α : Type}

/-- A checked computation, in a context if there is one. -/
def inContext (contexts : List String) (x : Checked α) : Step α := ExceptT.mk do
  return (← x.run).mapError fun e => ⟨contexts, e⟩

/-- A result that may be an error, in a context if there is one. -/
def ofExcept (contexts : List String) (x : Except SetupError α) : Step α :=
  inContext contexts (MonadExcept.ofExcept x)

end Step

structure Printed where
  output : String
  diagnostics : String
  deriving DecidableEq, Repr

abbrev Files : Type := String → FileContent

def loading (d : Document) (path : String) : List String :=
  ["load " ++ d.name ++ " '" ++ path ++ "'"]

def GeometryArguments.calculator (files : Files) (args : GeometryArguments) : Step Calculator :=
  match args.table with
  | none => pure .builtin
  | some path => do
      let table ← Step.ofExcept (loading .table path) (GeometryTable.ofFile path (files path))
      Step.ofExcept [] (Calculator.ofTable table)

def GeometryArguments.request (args : GeometryArguments) : FrameRequest where
  coding := args.coding
  format := args.format
  compressed := args.fbc
  width := args.width
  height := args.height
  byteStride := args.byteStride
  vStride := args.vStride

def GeometryArguments.context (args : GeometryArguments) : String :=
  "lay out " ++ args.coding.name ++ " " ++ args.format.name ++ " " ++ toString args.width.toNat ++
    "x" ++ toString args.height.toNat

/-- A layout as lines of a name and a number; the regions only of a compressed one. -/
def layoutLines (l : FrameLayout) : String :=
  let shown := if l.isCompressed then l.fields else l.fields.take 4
  String.join (shown.map fun f => Column.left 18 f.1 ++ toString f.2.toNat ++ "\n")

def printLayout (files : Files) (args : GeometryArguments) : Step Printed := do
  let k ← args.calculator files
  let l ← Step.inContext [args.context] (k.frame args.request)
  return ⟨if args.json then l.toJson.pretty ++ "\n" else layoutLines l, ""⟩

/-- The built-in names, overridden by those of a document if there is one. -/
def ShowArguments.registry (files : Files) (args : ShowArguments) : Step Registry :=
  match args.profiles with
  | none => pure .builtin
  | some path => do
      let extra ← Step.inContext (loading .registry path) (Registry.ofFile path (files path))
      return Registry.builtin.merge extra

/-- Prints a profile with the issues it has at a stage. -/
def printConfig (files : Files) (args : ShowArguments) : Step Printed := do
  let registry ← args.registry files
  let stage ← Step.ofExcept [] (registry.resolve args.stage)
  let attributes ← Step.inContext (loading .profile args.input)
    (Store.ofProfileFile args.input (files args.input))
  let config : StageConfig := ⟨stage, attributes⟩
  return {
    output := if args.json then attributes.profileText ++ "\n" else config.dump
    diagnostics := String.join (config.issues.map fun i => "warning: " ++ i.text ++ "\n") }

def Command.run (files : Files) : Command → Step Printed
  | .geometry args => printLayout files args
  | .cfgShow args => printConfig files args
  | .cfgSchema => return ⟨Schema.dump, ""⟩

def Command.paths : Command → List String
  | .geometry args => args.table.toList
  | .cfgShow args => args.profiles.toList ++ [args.input]
  | .cfgSchema => []

/-- How the program ends: its exit code and what it prints. -/
structure Ending where
  code : Nat
  output : String
  diagnostics : String
  deriving DecidableEq, Repr

/-- How the program ends without a command to carry out. -/
def Halt.ending : Halt → Ending
  | .usage e => ⟨2, "", e.message⟩
  | .help l => ⟨0, l.help, ""⟩
  | .bare l => ⟨2, "", l.help⟩
  | .version => ⟨0, "hwvenc 0.1.0\n", ""⟩

def Ending.ofOutcome : Except ContextError Printed → Ending
  | .ok p => ⟨0, p.output, p.diagnostics⟩
  | .error e => ⟨1, "", e.report⟩

/-- The program: what the arguments ask for, carried out. -/
def program (files : Files) (args : List String) : Traced Ending :=
  match readArguments args with
  | .error halt => pure halt.ending
  | .ok i => do return .ofOutcome (← (i.command.run files).run)

/-- The paths that the arguments make the program look at. -/
def namedPaths (args : List String) : List String :=
  match readArguments args with
  | .ok i => i.command.paths
  | .error _ => []

def isVerbose (args : List String) : Bool :=
  match readArguments args with
  | .ok i => i.verbose
  | .error _ => false

/-- The events that a log shows: all of them, or only errors. -/
def shownEvents (verbose : Bool) (events : List Event) : List Event :=
  if verbose then events else events.filter fun e => e.level = .error

end EncoderSetup.CommandLine

import EncoderSetup.CommandLine.Switch
import EncoderSetup.Frame.Naming
import EncoderSetup.Text.Terminal

/-!
# Reading the arguments

The arguments are read from the left, one command level after the other. The value of a switch is
only looked at when the next switch of the level has been recognised or the arguments end, so an
argument that the level does not know is met before a bad value. After `--` no switch and no command
is recognised any more.
-/

namespace EncoderSetup.CommandLine

/-- Why a text is not the number that is wanted. -/
inductive NumberFault where
  | empty
  | invalidDigit
  | tooLarge
  | tooSmall
  | outOfRange (n : Int)
  deriving DecidableEq, Repr

def NumberFault.text : NumberFault → String
  | empty => "cannot parse integer from empty string"
  | invalidDigit => "invalid digit found in string"
  | tooLarge => "number too large to fit in target type"
  | tooSmall => "number too small to fit in target type"
  | outOfRange n => toString n ++ " is not in 0..=4294967295"

/-- Adds decimal digits to a signed number of 64 bits; the first fault counts. -/
def readDigits (negative : Bool) : Int → List Char → Except NumberFault Int
  | n, [] => .ok n
  | n, c :: rest =>
      match Numeral.digitValue? 10 c with
      | none => .error .invalidDigit
      | some d =>
          let next := if negative then 10 * n - d else 10 * n + d
          if next < -0x8000000000000000 then .error .tooSmall
          else if 0x7fffffffffffffff < next then .error .tooLarge
          else readDigits negative next rest

def readInteger : List Char → Except NumberFault Int
  | [] => .error .empty
  | ['+'] | ['-'] => .error .invalidDigit
  | '+' :: digits => readDigits false 0 digits
  | '-' :: digits => readDigits true 0 digits
  | digits => readDigits false 0 digits

def readNumber (s : String) : Except NumberFault UInt32 := do
  let n ← readInteger s.toList
  if 0 ≤ n ∧ n ≤ 0xffffffff then return UInt32.ofNat n.toNat else throw (.outOfRange n)

/-- Why arguments are not understood. -/
inductive UsageError where
  | unexpectedArgument (arg : String)
  | unknownCommand (name : String)
  | valueRequired (s : Switch)
  | invalidValue (s : Switch) (value reason : String)
  | repeated (s : Switch)
  | unneededValue (s : Switch) (value : String)
  | missingArguments (missing : List Switch)
  | commandRequired (l : Level)
  deriving DecidableEq, Repr

/-- The end of a message, which points to the help text. -/
def pointer (rest : String) : List String :=
  [rest ++ "\n\nFor more information, try '", "--help", "'.\n"]

/-- A message in spans, every other of which is highlighted. Where the highlighting changes, no
terminal sequence stays open. -/
def UsageError.spans : UsageError → List String
  | unexpectedArgument arg => ["error: unexpected argument '", arg] ++ pointer "' found"
  | unknownCommand name => ["error: unrecognized subcommand '", name] ++ pointer "'"
  | valueRequired s =>
      ["error: a value is required for '", s.shown] ++ pointer "' but none was supplied"
  | invalidValue s value reason =>
      ["error: invalid value '", value, "' for '", s.shown] ++ pointer ("': " ++ reason)
  | repeated s => ["error: the argument '", s.shown] ++ pointer "' cannot be used multiple times"
  | unneededValue s value =>
      ["error: unexpected value '", value, "' for '", s.shown] ++
        pointer "' found; no more were expected"
  | missingArguments missing =>
      "error: the following required arguments were not provided:" ::
        missing.flatMap (fun s => ["\n  ", s.shown]) ++ pointer ""
  | commandRequired l =>
      ["error: '", l.name] ++ pointer "' requires a subcommand but one was not provided"

def UsageError.message (e : UsageError) : String := String.join (e.spans.map Terminal.visible)

/-- What the arguments lead to without a command to carry out. -/
inductive Halt where
  | usage (e : UsageError)
  | help (l : Level)
  /-- A group was called without any argument, and answers with its help text. -/
  | bare (l : Level)
  | version

structure Settings where
  given : List Switch
  coding : Option Coding
  format : Option PixelFormat
  width : Option UInt32
  height : Option UInt32
  byteStride : Option UInt32
  vStride : Option UInt32
  table : Option String
  input : Option String
  stage : Option String
  profiles : Option String

namespace Settings

def empty : Settings := ⟨[], none, none, none, none, none, none, none, none, none, none⟩

def has (g : Settings) (s : Switch) : Bool := g.given.contains s

/-- Reads a value, or says what is wrong with it. -/
def checked {ε α : Type} (text : ε → String) (s : Switch) (value : String) :
    Except ε α → Except Halt α
  | .ok a => .ok a
  | .error e => .error (.usage (.invalidValue s value (text e)))

def number (s : Switch) (value : String) : Except Halt UInt32 :=
  checked NumberFault.text s value (readNumber value)

def path (s : Switch) (value : String) : Except Halt String :=
  if value.isEmpty then .error (.usage (.valueRequired s)) else .ok value

/-- Takes a switch and its value, which is empty for a flag. -/
def give (g : Settings) (s : Switch) (value : String) : Except Halt Settings := do
  if g.has s then throw (.usage (.repeated s))
  let g := { g with given := s :: g.given }
  match s with
  | .verbose | .fbc | .json => return g
  | .help | .version => return g
  | .coding =>
      return { g with coding := ← checked SetupError.message s value (Coding.ofName value) }
  | .format =>
      return { g with format := ← checked SetupError.message s value (PixelFormat.ofName value) }
  | .width => return { g with width := ← number s value }
  | .height => return { g with height := ← number s value }
  | .byteStride => return { g with byteStride := ← number s value }
  | .vStride => return { g with vStride := ← number s value }
  | .table => return { g with table := ← path s value }
  | .input => return { g with input := ← path s value }
  | .stage => return { g with stage := value }
  | .profiles => return { g with profiles := ← path s value }

end Settings

structure GeometryArguments where
  coding : Coding
  format : PixelFormat
  width : UInt32
  height : UInt32
  fbc : Bool
  byteStride : Option UInt32
  vStride : Option UInt32
  table : Option String
  json : Bool
  deriving DecidableEq, Repr

structure ShowArguments where
  input : String
  stage : String
  profiles : Option String
  json : Bool
  deriving DecidableEq, Repr

inductive Command where
  | geometry (args : GeometryArguments)
  | cfgShow (args : ShowArguments)
  | cfgSchema
  deriving DecidableEq, Repr

/-- A command and whether its log is shown in full. -/
structure Invocation where
  command : Command
  verbose : Bool
  deriving DecidableEq, Repr

def Settings.command (g : Settings) (l : Level) : Except Halt Command :=
  let missing := Halt.usage (.missingArguments (l.required.filter fun s => !g.has s))
  match l with
  | .geometry =>
      match g.coding, g.format, g.width, g.height with
      | some coding, some format, some width, some height =>
          .ok (.geometry
            { coding, format, width, height
              fbc := g.has .fbc
              byteStride := g.byteStride
              vStride := g.vStride
              table := g.table
              json := g.has .json })
      | _, _, _, _ => .error missing
  | .cfgShow =>
      match g.input with
      | some input =>
          .ok (.cfgShow
            { input
              stage := g.stage.getD "init"
              profiles := g.profiles
              json := g.has .json })
      | none => .error missing
  | .cfgSchema => .ok .cfgSchema
  | .program | .cfg =>
      if g.given.isEmpty then .error (.bare l) else .error (.usage (.commandRequired l))

/-- A level being read: its settings, and a switch whose value is yet to come or to be looked at. -/
structure Reading where
  settings : Settings
  pending : Option (Switch × Option String)

namespace Reading

def start : Reading := ⟨.empty, none⟩

/-- Whether the next argument is the value of a switch. -/
def awaitsValue (r : Reading) : Bool :=
  match r.pending with
  | some (_, none) => true
  | _ => false

def settle (r : Reading) : Except Halt Reading :=
  match r.pending with
  | none => .ok r
  | some (s, none) => .error (.usage (.valueRequired s))
  | some (s, some value) => do return ⟨← r.settings.give s value, none⟩

def flag (l : Level) (r : Reading) (s : Switch) : Except Halt Reading := do
  let r ← r.settle
  match s with
  | .help => throw (.help l)
  | .version => throw .version
  | s => return ⟨← r.settings.give s "", none⟩

/-- Takes a switch with the value attached to it, if any. -/
def switch (l : Level) (r : Reading) (s : Switch) (attached : Option String) :
    Except Halt Reading := do
  match s.takesValue, attached with
  | true, some value =>
      let r ← r.settle
      return ⟨← r.settings.give s value, none⟩
  | true, none =>
      let r ← r.settle
      return ⟨r.settings, some (s, none)⟩
  | false, some value => throw (.usage (.unneededValue s value))
  | false, none => r.flag l s

/-- Takes the letters after one dash, which are flags. -/
def letters (l : Level) (r : Reading) : List Char → Except Halt Reading
  | [] => .ok r
  | c :: rest =>
      match l.short? c with
      | some s => do letters l (← r.flag l s) rest
      | none => .error (.usage (.unexpectedArgument ("-" ++ String.singleton c)))

/-- Takes what follows two dashes: a name, and after an equals sign a value. -/
def word (l : Level) (r : Reading) (cs : List Char) : Except Halt Reading :=
  let name := String.ofList (cs.takeWhile (· ≠ '='))
  let attached :=
    match cs.dropWhile (· ≠ '=') with
    | [] => none
    | _ :: value => some (String.ofList value)
  match l.long? name with
  | some s => r.switch l s attached
  | none => .error (.usage (.unexpectedArgument ("--" ++ name)))

/-- An argument that is neither a switch nor a value; after `--` it may be the name of a command. -/
def stray (l : Level) (afterDashes : Bool) (arg : String) : UsageError :=
  if l.isGroup then
    if afterDashes && (arg == "help" || (l.commands.lookup arg).isSome) then .unexpectedArgument arg
    else .unknownCommand arg
  else .unexpectedArgument arg

end Reading

/-- The help text that `help` and the names after it ask for. In a group `help` is a name too, with
none below it. -/
def helpTopic : Level → List String → Halt
  | l, [] => .help l
  | l, name :: rest =>
      match l.commands.lookup name with
      | some next => helpTopic next rest
      | none =>
          if l.isGroup && name == "help" then
            match rest with
            | [] => .help l
            | below :: _ => .usage (.unknownCommand below)
          else .usage (.unknownCommand name)

def readLevel (l : Level) (r : Reading) (afterDashes : Bool) :
    List String → Except Halt Invocation
  | [] => do
      let r ← r.settle
      return ⟨← r.settings.command l, r.settings.has .verbose⟩
  | arg :: rest =>
      if afterDashes then .error (.usage (Reading.stray l true arg))
      else
        let next := if r.awaitsValue then none else l.commands.lookup arg
        match next, arg.toList with
        | some next, _ => do
            let i ← readLevel next .start false rest
            return { i with verbose := i.verbose || r.settings.has .verbose }
        | none, ['-', '-'] => readLevel l r true rest
        | none, '-' :: '-' :: cs => do readLevel l (← r.word l cs) false rest
        | none, '-' :: c :: cs => do readLevel l (← r.letters l (c :: cs)) false rest
        | none, _ =>
            match r.pending with
            | some (s, none) => readLevel l ⟨r.settings, some (s, some arg)⟩ false rest
            | _ =>
                if l.isGroup && arg == "help" then .error (helpTopic l rest)
                else .error (.usage (Reading.stray l false arg))

def readArguments (args : List String) : Except Halt Invocation :=
  readLevel .program .start false args

end EncoderSetup.CommandLine

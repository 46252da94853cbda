import EncoderSetup.Enumeration

/-!
# Lifecycle stages

The stages of an encoder channel, in the order in which a channel passes through them; the position
of a stage is its raw id.
-/

namespace EncoderSetup

inductive Stage where
  | init
  | deinit
  | reset
  | start
  | stop
  deriving DecidableEq, Repr, Inhabited

namespace Stage

def all : List Stage := [init, deinit, reset, start, stop]

def name : Stage → String
  | init => "init"
  | deinit => "deinit"
  | reset => "reset"
  | start => "start"
  | stop => "stop"

instance : Enumeration Stage where
  members := all
  name := name
  mem_members s := by cases s <;> decide
  nodup_names := by decide

def rawId : Stage → UInt32
  | init => 0
  | deinit => 1
  | reset => 2
  | start => 3
  | stop => 4

/-- The number of stages, which is the first raw id that names none. -/
def count : UInt32 := 5

def ofRawId? (raw : UInt32) : Option Stage := all[raw.toNat]?

end Stage

end EncoderSetup

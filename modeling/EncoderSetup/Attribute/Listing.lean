import EncoderSetup.Attribute.Store
import EncoderSetup.Text.Column

/-!
# Listing a store

One line for each committed attribute, in the order of names: the name in 28 columns, the kind in
three, and the value. The dump and the logged listing have the same lines.
-/

namespace EncoderSetup.Store

def line (name : String) (v : Value) : String :=
  Column.left 28 name ++ " " ++ Column.left 3 v.kind.name ++ " " ++ v.text

def lines (s : Store) : List String := s.entries.map fun e => line e.1 e.2

def dump (s : Store) : String := String.join (s.lines.map (· ++ "\n"))

def «show» (s : Store) : Traced Unit := do
  Traced.log (.storeHeading s.size s.pending.size)
  s.lines.forM fun text => Traced.log (.listed text)

end EncoderSetup.Store

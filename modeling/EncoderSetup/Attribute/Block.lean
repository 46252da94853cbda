/-!
# Blocks of bytes and the structures in them

A block has a fixed length. A structure is stored in a block by its layout: a size, a way to write
over a block of that size and a way to read one. `StructLayout.Lawful` says that writing determines
every byte and that reading undoes it.
-/

namespace EncoderSetup

abbrev Block (size : Nat) : Type := { bytes : List UInt8 // bytes.length = size }

namespace Block

def zeros (size : Nat) : Block size := ⟨List.replicate size 0, List.length_replicate⟩

def whole (bytes : List UInt8) : Block bytes.length := ⟨bytes, rfl⟩

/-- Bytes written over others from an offset on; those past the end are ignored. -/
def overlay : (offset : Nat) → (new old : List UInt8) → List UInt8
  | _, _, [] => []
  | 0, [], old => old
  | 0, n :: new, _ :: old => n :: overlay 0 new old
  | offset + 1, new, o :: old => o :: overlay offset new old

@[simp] theorem length_overlay (offset : Nat) (new old : List UInt8) :
    (overlay offset new old).length = old.length := by
  fun_induction overlay offset new old <;> simp_all

def patch (offset : Nat) (new : List UInt8) {size : Nat} (b : Block size) : Block size :=
  ⟨overlay offset new b.val, by rw [length_overlay, b.property]⟩

end Block

/-- How a structure is laid out in a block. -/
structure StructLayout (α : Type) where
  size : Nat
  write : α → Block size → Block size
  read : Block size → α

namespace StructLayout

variable {α : Type}

def encode (layout : StructLayout α) (a : α) : Block layout.size :=
  layout.write a (Block.zeros layout.size)

/-- Writing determines every byte, and reading undoes it. -/
structure Lawful (layout : StructLayout α) : Prop where
  write_eq_encode : ∀ a b, layout.write a b = layout.encode a
  read_encode : ∀ a, layout.read (layout.encode a) = a

end StructLayout

def littleEndian (w : UInt16) : List UInt8 := [w.toUInt8, (w >>> 8).toUInt8]

def ofLittleEndian (low high : UInt8) : UInt16 := low.toUInt16 ||| high.toUInt16 <<< 8

structure Region where
  x : UInt16
  y : UInt16
  width : UInt16
  height : UInt16
  deriving DecidableEq, Repr

/-- A rectangle as four 16-bit words, each low byte first. -/
def Region.layout : StructLayout Region where
  size := 8
  write r _ :=
    ⟨littleEndian r.x ++ littleEndian r.y ++ littleEndian r.width ++ littleEndian r.height, rfl⟩
  read b :=
    have := b.property
    { x := ofLittleEndian b.val[0] b.val[1]
      y := ofLittleEndian b.val[2] b.val[3]
      width := ofLittleEndian b.val[4] b.val[5]
      height := ofLittleEndian b.val[6] b.val[7] }

/-- The bounds of the quantizer and the value it starts from. -/
structure QuantizerRange where
  min : UInt8
  max : UInt8
  initial : Int16
  deriving DecidableEq, Repr

/-- The bounds as a byte each, the initial value as a 16-bit word with the low byte first. -/
def QuantizerRange.layout : StructLayout QuantizerRange where
  size := 4
  write q _ := ⟨[q.min, q.max] ++ littleEndian q.initial.toUInt16, rfl⟩
  read b :=
    have := b.property
    { min := b.val[0]
      max := b.val[1]
      initial := (ofLittleEndian b.val[2] b.val[3]).toInt16 }

def emptyLayout : StructLayout Unit where
  size := 0
  write _ b := b
  read _ := ()

end EncoderSetup

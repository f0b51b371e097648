import GifBitmap.Bytes

/-!
# Color tables

A color table lists colors; pixels are indices into it.  In a GIF it is stored as
red, green and blue bytes, and a packed byte elsewhere says whether the table is
present, whether it is sorted, and how long it is (`TableShape`).
-/

namespace GifBitmap

/-- A color by its red, green and blue parts. -/
structure Color where
  red : UInt8
  green : UInt8
  blue : UInt8
  deriving Repr, DecidableEq

namespace Color

/-- The three parts in the order in which a GIF stores them. -/
def toBytes (color : Color) : Bytes :=
  [color.red, color.green, color.blue]

end Color

/-- The colors that the indices of a picture refer to. -/
structure ColorTable where
  colors : List Color
  deriving Repr, DecidableEq

namespace ColorTable

def empty : ColorTable :=
  ⟨[]⟩

/-- The whole triples of a byte string, in order; one or two bytes left over are dropped. -/
def triples : Bytes → List Color
  | red :: green :: blue :: rest => ⟨red, green, blue⟩ :: triples rest
  | _ => []

/-- The table stored in a byte string. -/
def ofBytes (bytes : Bytes) : ColorTable :=
  ⟨triples bytes⟩

def length (table : ColorTable) : Nat :=
  table.colors.length

def isEmpty (table : ColorTable) : Bool :=
  table.colors.isEmpty

/-- The color at an index, if the table reaches that far. -/
def color? (table : ColorTable) (index : Nat) : Option Color :=
  table.colors[index]?

/-- The bytes that store the table in a GIF. -/
def toBytes (table : ColorTable) : Bytes :=
  table.colors.flatMap Color.toBytes

theorem triples_flatMap_toBytes (colors : List Color) :
    triples (colors.flatMap Color.toBytes) = colors := by
  induction colors with
  | nil => rfl
  | cons color colors ih => simp [Color.toBytes, triples, ih]

/-- A stored table is read back. -/
theorem ofBytes_toBytes (table : ColorTable) : ofBytes table.toBytes = table := by
  simp [ofBytes, toBytes, triples_flatMap_toBytes]

end ColorTable

/-- What a packed byte says about a color table. -/
structure TableShape where
  present : Bool
  sorted : Bool
  /-- The table holds two to the power of this number plus one colors. -/
  exponent : Fin 8
  deriving Repr, DecidableEq

namespace TableShape

/-- The shape of a table that is absent and unsorted, with the least exponent. -/
def absent : TableShape :=
  ⟨false, false, ⟨0, by decide⟩⟩

def length (shape : TableShape) : Nat :=
  if shape.present then 2 ^ (shape.exponent.val + 1) else 0

def isEmpty (shape : TableShape) : Bool :=
  shape.length == 0

def byteCount (shape : TableShape) : Nat :=
  3 * shape.length

end TableShape
end GifBitmap

import GifBitmap.Error

/-!
# Code sizes and code widths

The image data begin with a minimum code size `n`.  Codes below `2 ^ n` stand for a
single index, the next two clear the table and end the data, and all later codes
are assigned while decoding.  Codes are at first `n + 1` bits wide and never wider
than twelve.
-/

namespace GifBitmap
namespace Lzw

/-- The greatest number of bits of a code. -/
def maxWidth : Nat := 12

/-- The greatest number of entries that codes can name. -/
def maxEntries : Nat := 2 ^ maxWidth

/-- A minimum code size. -/
structure CodeSize where
  bits : Nat
  two_le : 2 ≤ bits
  le_max : bits ≤ maxWidth
  deriving Repr, DecidableEq

namespace CodeSize

/-- The code size that a byte gives, if it is one. -/
def ofByte (byte : UInt8) : Except Error CodeSize :=
  if h : 2 ≤ byte.toNat ∧ byte.toNat ≤ maxWidth then
    .ok ⟨byte.toNat, h.1, h.2⟩
  else
    .error (.codeSizeOutOfRange byte)

/-- The code that clears the table; all codes below it stand for a single index. -/
def clearCode (size : CodeSize) : Nat :=
  2 ^ size.bits

def endCode (size : CodeSize) : Nat :=
  size.clearCode + 1

/-- The first code that is assigned while decoding. -/
def firstFree (size : CodeSize) : Nat :=
  size.clearCode + 2

end CodeSize

/-- The number of bits that the next code takes. -/
structure Width where
  bits : Nat
  pos : 0 < bits
  le_max : bits ≤ maxWidth
  deriving Repr, DecidableEq

namespace Width

/-- The width of the first code, and of the first one after a clear code. -/
def initial (size : CodeSize) : Width :=
  ⟨min maxWidth (size.bits + 1), Nat.lt_min.mpr ⟨by decide, Nat.succ_pos _⟩, Nat.min_le_left _ _⟩

/-- One bit more, up to the maximum. -/
def grow (width : Width) : Width :=
  ⟨min maxWidth (width.bits + 1), Nat.lt_min.mpr ⟨by decide, Nat.succ_pos _⟩, Nat.min_le_left _ _⟩

def codes (width : Width) : Nat :=
  2 ^ width.bits

end Width
end Lzw
end GifBitmap

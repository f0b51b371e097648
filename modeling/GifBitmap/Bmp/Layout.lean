import GifBitmap.Error

/-!
# Layout of a bitmap file

An indexed bitmap is a file header of 14 bytes, an information header of 40 bytes,
a color table of four bytes a color, and the rows of pixels, each filled up to a
multiple of four bytes.

Sizes are computed in words of fixed length.  Products and sums are checked one by one, but the
headers are added to the size of the color table without a check.  This is the only step at which
a size can leave its word: for the thirteen numbers of colors in `HeadersOverflow` the sum wraps
around and is used as it is.  (A program that is built to stop at such a sum stops there.)

Main facts:
* `product_eq`, `sum_eq`: a checked operation is the exact one, put into a field;
* `rowStride_eq`: a row is filled up to the least multiple of four;
* `pixelOffset_eq`, `pixelArraySize_eq`: what is checked of the parts of a file.
-/

namespace GifBitmap
namespace Bmp

def fileHeaderSize : Nat := 14

def infoHeaderSize : Nat := 40

def colorEntrySize : Nat := 4

/-- The sizes from which the layout of a file follows. -/
structure Layout where
  width : UInt32
  height : UInt32
  /-- The number of colors of the color table. -/
  colors : UInt32
  deriving Repr, DecidableEq

namespace Layout

/-- The number as an unsigned 32-bit field, or the given failure if it does not fit. -/
def field (failure : Error) (value : Nat) : Except Error UInt32 :=
  if value < UInt32.size then .ok (UInt32.ofNat value) else .error failure

/-- A product of words, unless it overflows. -/
def product (failure : Error) (first second : UInt32) : Except Error UInt32 :=
  if first.toNat * second.toNat < UInt32.size then .ok (first * second) else .error failure

/-- A sum of words, unless it overflows. -/
def sum (failure : Error) (first second : UInt32) : Except Error UInt32 :=
  if first.toNat + second.toNat < UInt32.size then .ok (first + second) else .error failure

/-- The layout of a picture with the given number of colors. -/
def ofSizes (width height : UInt32) (colors : Nat) : Except Error Layout := do
  return { width, height, colors := ← field .numberOutOfRange colors }

/-- The number of bytes of a row, filled up to a multiple of four by a mask without the two
lowest bits. -/
def rowStride (layout : Layout) : Nat :=
  ((layout.width.toUInt64 + 3) &&& ~~~3).toNat

/-- The number of bytes that fill up a row. -/
def rowPadding (layout : Layout) : Nat :=
  layout.rowStride - layout.width.toNat

/-- The offset of the first row of pixels.  The headers are added without a check. -/
def pixelOffset (layout : Layout) : Except Error UInt32 := do
  let table ← product .tooLarge layout.colors (UInt32.ofNat colorEntrySize)
  return UInt32.ofNat (fileHeaderSize + infoHeaderSize) + table

/-- The number of bytes of all rows; the stride alone has to fit a field as well. -/
def pixelArraySize (layout : Layout) : Except Error UInt32 := do
  let stride ← field .numberOutOfRange layout.rowStride
  product .tooLarge stride layout.height

def fileSize (layout : Layout) : Except Error UInt32 := do
  let offset ← layout.pixelOffset
  let rows ← layout.pixelArraySize
  sum .tooLarge offset rows

/-- The numbers of colors whose table fits a field, but not the headers and the table. -/
def HeadersOverflow (colors : Nat) : Prop :=
  0x3FFFFFF3 ≤ colors ∧ colors ≤ 0x3FFFFFFF

instance (colors : Nat) : Decidable (HeadersOverflow colors) :=
  inferInstanceAs (Decidable (_ ∧ _))

theorem field_of_lt
    (failure : Error)
    {value : Nat}
    (h : value < UInt32.size) :
    field failure value = .ok (UInt32.ofNat value) :=
  if_pos h

theorem field_of_le
    (failure : Error)
    {value : Nat}
    (h : UInt32.size ≤ value) :
    field failure value = .error failure :=
  if_neg (Nat.not_lt_of_le h)

theorem product_eq (failure : Error) (first second : UInt32) :
    product failure first second = field failure (first.toNat * second.toNat) := by
  rw [product, field, UInt32.ofNat_mul, UInt32.ofNat_toNat, UInt32.ofNat_toNat]

theorem sum_eq (failure : Error) (first second : UInt32) :
    sum failure first second = field failure (first.toNat + second.toNat) := by
  rw [sum, field, UInt32.ofNat_add, UInt32.ofNat_toNat, UInt32.ofNat_toNat]

/-- The least multiple of four that is at least the given number. -/
def roundUpToFour (value : Nat) : Nat :=
  (value + 3) / 4 * 4

theorem le_roundUpToFour (value : Nat) : value ≤ roundUpToFour value := by
  unfold roundUpToFour
  omega

/-- No smaller multiple of four is large enough. -/
theorem roundUpToFour_le
    {value multiple : Nat}
    (h : value ≤ 4 * multiple) :
    roundUpToFour value ≤ 4 * multiple := by
  unfold roundUpToFour
  omega

/-- A mask without the two lowest bits takes a number down to a multiple of four. -/
theorem toNat_and_not_three (value : UInt64) :
    (value &&& ~~~3).toNat = value.toNat / 4 * 4 := by
  have hmask : (~~~(3 : UInt64)).toNat = (2 ^ 62 - 1) <<< 2 := by decide
  have hshift : value.toNat / 4 * 4 = value.toNat >>> 2 <<< 2 := by
    rw [Nat.shiftLeft_eq, Nat.shiftRight_eq_div_pow]
  rw [UInt64.toNat_and, hmask, hshift]
  refine Nat.eq_of_testBit_eq fun index => ?_
  rw [Nat.testBit_and, Nat.testBit_shiftLeft, Nat.testBit_shiftLeft, Nat.testBit_shiftRight,
    Nat.testBit_two_pow_sub_one]
  by_cases hlow : 2 ≤ index
  · have hindex : 2 + (index - 2) = index := by omega
    rw [hindex]
    by_cases hhigh : index - 2 < 62
    · simp [hlow, hhigh]
    · -- the mask ends with the word, where the number has no bits either
      have hbit : value.toNat.testBit index = false :=
        Nat.testBit_lt_two_pow (Nat.lt_of_lt_of_le value.toNat_lt
          (Nat.pow_le_pow_right (by decide) (by omega)))
      simp [hbit]
  · simp [hlow]

/-- No width is so large that filling up a row leaves the word. -/
theorem rowStride_eq (layout : Layout) :
    layout.rowStride = roundUpToFour layout.width.toNat := by
  have hwidth := layout.width.toNat_lt
  have hsum : (layout.width.toUInt64 + 3).toNat = layout.width.toNat + 3 := by
    have hlt : layout.width.toNat + 3 < UInt64.size := by
      unfold UInt64.size
      omega
    rw [UInt64.toNat_add, UInt32.toNat_toUInt64]
    exact Nat.mod_eq_of_lt hlt
  rw [rowStride, toNat_and_not_three, hsum, roundUpToFour]

theorem width_le_rowStride (layout : Layout) : layout.width.toNat ≤ layout.rowStride := by
  rw [rowStride_eq]
  exact le_roundUpToFour _

theorem four_dvd_rowStride (layout : Layout) : 4 ∣ layout.rowStride := by
  rw [rowStride_eq]
  exact ⟨_, Nat.mul_comm _ 4⟩

/-- Only the size of the color table is checked; the offset is the word that the sum leaves. -/
theorem pixelOffset_eq (layout : Layout) :
    layout.pixelOffset =
      if colorEntrySize * layout.colors.toNat < UInt32.size then
        .ok (UInt32.ofNat
          (fileHeaderSize + infoHeaderSize + colorEntrySize * layout.colors.toNat))
      else
        .error .tooLarge := by
  have htable : layout.colors.toNat * (UInt32.ofNat colorEntrySize).toNat =
      colorEntrySize * layout.colors.toNat :=
    Nat.mul_comm _ _
  rw [pixelOffset, product_eq, htable]
  split
  · rename_i hfits
    rw [field_of_lt _ hfits]
    exact congrArg Except.ok (UInt32.ofNat_add _ _).symm
  · rename_i hlarge
    rw [field_of_le _ (Nat.le_of_not_lt hlarge)]
    rfl

theorem pixelArraySize_eq (layout : Layout) :
    layout.pixelArraySize =
      if layout.rowStride < UInt32.size then
        field .tooLarge (layout.rowStride * layout.height.toNat)
      else
        .error .numberOutOfRange := by
  rw [pixelArraySize]
  split
  · rename_i hfits
    rw [field_of_lt _ hfits]
    change product .tooLarge (UInt32.ofNat layout.rowStride) layout.height = _
    rw [product_eq, UInt32.toNat_ofNat_of_lt' hfits]
  · rename_i hlarge
    rw [field_of_le _ (Nat.le_of_not_lt hlarge)]
    rfl

end Layout
end Bmp
end GifBitmap

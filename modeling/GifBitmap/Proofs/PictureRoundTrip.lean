import GifBitmap.Conversion
import GifBitmap.Proofs.Bmp.Delivery
import GifBitmap.Proofs.Canvas
import GifBitmap.Proofs.Gif.Acceptance
import GifBitmap.Proofs.Gif.ImageData

/-!
# From the pixels of a GIF to those of a bitmap

A picture that is stored in a GIF, with an image that takes up the screen, is found again
in the bitmap file that the conversion writes: its size, its colors in order, and the
index of every pixel.
-/

namespace GifBitmap

namespace Conversion

theorem toNat_width_bitmapOf (picture : Gif.Picture) (table : ColorTable) :
    (bitmapOf picture table).width.toNat = picture.preamble.screen.width.toNat :=
  UInt16.toNat_toUInt32 _

theorem toNat_height_bitmapOf (picture : Gif.Picture) (table : ColorTable) :
    (bitmapOf picture table).height.toNat = picture.preamble.screen.height.toNat :=
  UInt16.toNat_toUInt32 _

/-- The canvas of every screen fits a bitmap, with any color table that a GIF can hold. -/
theorem fits_bitmapOf
    (picture : Gif.Picture)
    {table : ColorTable}
    (htable : table.length ≤ 256) :
    (bitmapOf picture table).Fits := by
  have hwidth := toNat_width_bitmapOf picture table
  have hheight := toNat_height_bitmapOf picture table
  have hcolumns := picture.preamble.screen.width.toNat_lt
  have hlines := picture.preamble.screen.height.toNat_lt
  -- Even 65535 rows of 65536 bytes leave room for the headers and 256 colors.
  have hstride : (bitmapOf picture table).layout.rowStride ≤ 4 * 2 ^ 14 := by
    rw [Bmp.Layout.rowStride_eq]
    refine Bmp.Layout.roundUpToFour_le ?_
    change (bitmapOf picture table).width.toNat ≤ _
    omega
  have hrows := Nat.mul_le_mul hstride (Nat.le_of_lt_succ hlines)
  have hcolors : (bitmapOf picture table).layout.colors.toNat = table.length :=
    UInt32.toNat_ofNat_of_lt' (Nat.lt_of_le_of_lt htable (by decide))
  have hoffset : (bitmapOf picture table).layout.offsetOf = 54 + 4 * table.length := by
    rw [Bmp.Layout.offsetOf, hcolors]
    rfl
  refine ⟨⟨?_, ?_, Nat.lt_of_le_of_lt hstride (by decide), ?_, ?_, ?_⟩, ?_⟩
  · rw [Bmp.Bitmap.pixels, hwidth, hheight, ← Canvas.width_compose, ← Canvas.height_compose]
    exact Canvas.isWhole_compose picture
  · exact Nat.lt_of_le_of_lt (Nat.mul_le_mul_left 4 htable) (by decide)
  · rw [hoffset, hheight]
    omega
  · omega
  · omega
  · omega

/-- The bitmap file of a picture whose image takes up the screen shows the indices that
were stored. -/
theorem shows_bitmapOf
    {picture : Gif.Picture}
    {table : ColorTable}
    {pixels : List UInt8}
    (hcovers : picture.frame.image.Covers picture.preamble.screen)
    (hpixels : pixels.length =
      picture.preamble.screen.width.toNat * picture.preamble.screen.height.toNat)
    (hdata : picture.frame.data.indices =
      (RowOrder.storedIndices picture.frame.image.interlaced
        picture.preamble.screen.width.toNat picture.preamble.screen.height.toNat
        pixels).toArray)
    (htable : table.length ≤ 256) :
    Bmp.Shows (bitmapOf picture table).file
      picture.preamble.screen.width.toNat picture.preamble.screen.height.toNat table
      (fun x y => pixels[y * picture.preamble.screen.width.toNat + x]?) := by
  have hfits := fits_bitmapOf picture htable
  have hshows := Bmp.Bitmap.shows_encoding hfits
  rw [toNat_width_bitmapOf, toNat_height_bitmapOf,
    Bmp.Bitmap.bytes_encoding_eq_file hfits.toPasses] at hshows
  refine ⟨hshows.width_eq, hshows.height_eq, hshows.colors_eq, hshows.color_eq, ?_⟩
  intro x y hx hy
  have hshown := Canvas.index?_compose_of_covers hcovers hpixels hdata hx hy
  rw [Canvas.index?, Canvas.width_compose, Canvas.height_compose, if_pos ⟨hx, hy⟩] at hshown
  exact (hshows.index_eq x y hx hy).trans hshown

/-- No table of a picture that was decoded has more colors than a byte can tell apart. -/
theorem length_le_of_decode
    {limit : Gif.PixelLimit}
    {input rest : Input}
    {picture : Gif.Picture}
    {table : ColorTable}
    (hdecode : Gif.decode limit input = (.ok picture, rest))
    (htable : picture.colorTable? = some table) :
    table.length ≤ 256 := by
  obtain ⟨file, indices, -, -, -, rfl⟩ := Gif.advances_of_decode hdecode
  exact file.length_le_of_table htable

/-- What is left of a conversion, once a picture with a color table was decoded, is to write its
bitmap. -/
theorem prepare_of_decode
    {limit : Gif.PixelLimit}
    {input rest : Input}
    {picture : Gif.Picture}
    {table : ColorTable}
    (hdecode : Gif.decode limit input = (.ok picture, rest))
    (htable : picture.colorTable? = some table) :
    prepare limit input =
      (.ok ⟨rest.consumed, bitmapOf picture table⟩, noteClipping picture rest) := by
  rw [prepare, hdecode]
  dsimp only
  rw [htable]

/-- What was prepared was decoded first, and has a color table. -/
theorem exists_picture_of_prepare
    {limit : Gif.PixelLimit}
    {input rest : Input}
    {prepared : Prepared}
    (hprepare : prepare limit input = (.ok prepared, rest)) :
    ∃ picture last table,
      Gif.decode limit input = (.ok picture, last) ∧
        picture.colorTable? = some table ∧
        prepared = ⟨last.consumed, bitmapOf picture table⟩ := by
  rw [prepare] at hprepare
  split at hprepare
  · exact absurd (congrArg Prod.fst hprepare) nofun
  · rename_i picture last hdecode
    split at hprepare
    · exact absurd (congrArg Prod.fst hprepare) nofun
    · rename_i table htable
      exact ⟨picture, last, table, hdecode, htable,
        (Except.ok.inj (congrArg Prod.fst hprepare)).symm⟩

/-- Every bitmap that was prepared can be written. -/
theorem fits_of_prepare
    {limit : Gif.PixelLimit}
    {input rest : Input}
    {prepared : Prepared}
    (hprepare : prepare limit input = (.ok prepared, rest)) :
    prepared.bitmap.Fits := by
  obtain ⟨picture, last, table, hdecode, htable, rfl⟩ := exists_picture_of_prepare hprepare
  exact fits_bitmapOf picture (length_le_of_decode hdecode htable)

/-- What was prepared is written to a sink that accepts all that is offered. -/
theorem convert_of_prepare
    {limit : Gif.PixelLimit}
    {source : Source}
    {prepared : Prepared}
    {rest : Input}
    (hprepare : prepare limit (.ofSource source) = (.ok prepared, rest)) :
    let outcome := convert limit source (.empty .plain)
    outcome.result = .ok ⟨prepared.gifSize, prepared.bitmap.file.length⟩ ∧
      outcome.sink.accepted.toList = prepared.bitmap.file := by
  obtain ⟨last, hencode⟩ : ∃ last,
      (Bmp.Encoder.ofSink (.empty .plain)).encode prepared.bitmap =
        (.ok ⟨prepared.bitmap.layout, prepared.bitmap.file.length⟩, last) :=
    ⟨_, Bmp.Encoder.encode_of_acceptsAll rfl ⟨nofun, rfl, rfl⟩
      (fits_of_prepare hprepare).toPasses⟩
  obtain ⟨-, -, haccepted, hclose⟩ := Bmp.Encoder.accepted_of_encode hencode
  intro outcome
  have houtcome : outcome = convert limit source (.empty .plain) := rfl
  rw [convert, hprepare] at houtcome
  dsimp only at houtcome
  rw [hencode] at houtcome
  rw [houtcome]
  rw [← hclose] at haccepted
  exact ⟨rfl, haccepted⟩

/-- A picture that was decoded is written to a sink that accepts all that is offered. -/
theorem convert_of_decode
    {limit : Gif.PixelLimit}
    {source : Source}
    {picture : Gif.Picture}
    {rest : Input}
    {table : ColorTable}
    (hdecode : Gif.decode limit (.ofSource source) = (.ok picture, rest))
    (htable : picture.colorTable? = some table) :
    let outcome := convert limit source (.empty .plain)
    outcome.result = .ok ⟨rest.consumed, outcome.sink.accepted.size⟩ ∧
      outcome.sink.accepted.toList = (bitmapOf picture table).file := by
  intro outcome
  obtain ⟨hresult, haccepted⟩ := convert_of_prepare (prepare_of_decode hdecode htable)
  refine ⟨hresult.trans ?_, haccepted⟩
  rw [← haccepted, Array.length_toList]

/-- Any file whose image takes up the screen, with any encoding of the stored indices in
blocks of any lengths, is converted to a bitmap file that shows the same picture.  The
input is read up to the end of the image data, whatever stands behind. -/
theorem convert_stored_picture
    {limit : Gif.PixelLimit}
    {file : Gif.File}
    {table : ColorTable}
    {pixels : List UInt8}
    {written padding : Lzw.BitString}
    (hlimit : ∀ most, limit = some most →
      file.screen.width.toNat * file.screen.height.toNat ≤ most)
    (hcovers : file.body.image.Covers file.screen)
    (htable : file.body.localTable.or file.globalTable = some table)
    (hbits : file.body.codeSize.bits ≤ 11)
    (hpixels : pixels.length = file.screen.width.toNat * file.screen.height.toNat)
    (hencodes : Lzw.EncodesIndices file.body.codeSize.bits
      ((RowOrder.storedIndices file.body.image.interlaced file.screen.width.toNat
        file.screen.height.toNat pixels).map UInt8.toNat) written)
    (hblocks : Lzw.bitsOf (file.body.blocks.flatMap Gif.SubBlock.payload) = written ++ padding)
    (tail : Bytes) :
    let outcome := convert limit (.ofBytes (file.toBytes ++ tail) .plain) (.empty .plain)
    outcome.result = .ok ⟨file.toBytes.length, outcome.sink.accepted.size⟩ ∧
      Bmp.Shows outcome.sink.accepted.toList file.screen.width.toNat file.screen.height.toNat
        table (fun x y => pixels[y * file.screen.width.toNat + x]?) := by
  obtain ⟨stored, hstored⟩ : ∃ stored, stored =
      RowOrder.storedIndices file.body.image.interlaced file.screen.width.toNat
        file.screen.height.toNat pixels := ⟨_, rfl⟩
  rw [← hstored] at hencodes
  have hindices : file.body.indices = .ok stored.toArray := by
    apply Gif.Body.indices_of_encodes hbits hencodes hblocks
    rw [hstored, RowOrder.length_storedIndices _ hpixels, hcovers.width_eq, hcovers.height_eq]
  have hwithin : file.WithinLimit limit := by
    intro most hmost
    rw [hcovers.width_eq, hcovers.height_eq]
    exact ⟨hlimit most hmost, hlimit most hmost⟩
  have hlength := file.length_le_of_table htable
  have hsteady := Source.steady_plain (file.toBytes ++ tail)
  obtain ⟨rest, hdecode, hadvances⟩ : ∃ rest,
      Gif.decode limit (.ofSource (.ofBytes (file.toBytes ++ tail) .plain)) =
          (.ok (file.picture stored.toArray), rest) ∧
        (Input.ofSource (.ofBytes (file.toBytes ++ tail) .plain)).Advances file.toBytes rest :=
    Gif.decode_of_file hsteady rfl hwithin hindices
  obtain ⟨hresult, haccepted⟩ := convert_of_decode hdecode htable
  have hconsumed : rest.consumed = file.toBytes.length := by
    rw [hadvances.consumed_eq]
    exact Nat.zero_add _
  intro outcome
  constructor
  · rw [← hconsumed]
    exact hresult
  · have hdata := congrArg List.toArray hstored
    have hshows := @shows_bitmapOf (file.picture stored.toArray) table pixels hcovers hpixels
      hdata hlength
    rw [← haccepted] at hshows
    exact hshows

/-- Two columns and three interlaced rows, in two blocks between which a code is cut. -/
theorem convert_stored_picture_of_interlaced_rows :
    let outcome := convert (some 6)
      (.ofBytes
        [0x47, 0x49, 0x46, 0x38, 0x39, 0x61, 2, 0, 3, 0, 0x81, 0, 0,
          0, 0, 0, 255, 0, 0, 0, 255, 0, 0, 0, 255, 0x21, 0xFE, 1, 0x2C, 0,
          0x2C, 0, 0, 0, 0, 2, 0, 3, 0, 0x40, 2, 2, 0x48, 0x40, 2, 0xA6, 0x00, 0, 0x3B]
        .plain)
      (.empty .plain)
    outcome.result = .ok ⟨48, outcome.sink.accepted.size⟩ ∧
      Bmp.Shows outcome.sink.accepted.toList 2 3
        ⟨[⟨0, 0, 0⟩, ⟨255, 0, 0⟩, ⟨0, 255, 0⟩, ⟨0, 0, 255⟩]⟩
        (fun x y => [0, 1, 2, 3, 1, 0][y * 2 + x]?) := by
  let file : Gif.File := {
    screen := ⟨2, 3, 0x81, 0, 0⟩
    globalTable := some ⟨[⟨0, 0, 0⟩, ⟨255, 0, 0⟩, ⟨0, 255, 0⟩, ⟨0, 0, 255⟩]⟩
    body := {
      extensions := [.other 0xFE (by decide) [⟨[0x2C], by decide, by decide⟩]]
      image := ⟨0, 0, 2, 3, 0x40⟩
      localTable := none
      codeSize := ⟨2, by decide, by decide⟩
      blocks := [⟨[0x48, 0x40], by decide, by decide⟩, ⟨[0xA6, 0x00], by decide, by decide⟩]
      localTable_fits := rfl }
    globalTable_fits := rfl
    controls_le_one := by decide }
  have hencodes : Lzw.EncodesIndices 2 [0, 1, 1, 0, 2, 3]
      (Lzw.lowBits 3 0 ++ (Lzw.lowBits 3 1 ++ (Lzw.lowBits 3 1 ++ (Lzw.lowBits 4 0 ++
        (Lzw.lowBits 4 2 ++ (Lzw.lowBits 4 3 ++ Lzw.lowBits 4 5)))))) := by
    refine @Lzw.Encodes.phrase 2 _ _ _ [0] [1, 1, 0, 2, 3] _ rfl (by decide) ?_
    refine @Lzw.Encodes.phrase 2 _ _ _ [1] [1, 0, 2, 3] _ rfl (by decide) ?_
    refine @Lzw.Encodes.phrase 2 _ _ _ [1] [0, 2, 3] _ rfl (by decide) ?_
    refine @Lzw.Encodes.phrase 2 _ _ _ [0] [2, 3] _ rfl (by decide) ?_
    refine @Lzw.Encodes.phrase 2 _ _ _ [2] [3] _ rfl (by decide) ?_
    exact @Lzw.Encodes.phrase 2 _ _ _ [3] [] _ rfl (by decide) .finish
  have hlimit : ∀ most, some 6 = some most →
      file.screen.width.toNat * file.screen.height.toNat ≤ most := by
    rintro most ⟨⟩
    exact Nat.le_refl 6
  have hblocks : Lzw.bitsOf [0x48, 0x40, 0xA6, 0x00] =
      Lzw.lowBits 3 0 ++ (Lzw.lowBits 3 1 ++ (Lzw.lowBits 3 1 ++ (Lzw.lowBits 4 0 ++
        (Lzw.lowBits 4 2 ++ (Lzw.lowBits 4 3 ++ Lzw.lowBits 4 5))))) ++ Lzw.lowBits 7 0 := by
    decide
  have hstored : [0, 1, 1, 0, 2, 3] =
      (RowOrder.storedIndices (Gif.ImageDescriptor.interlaced ⟨0, 0, 2, 3, 0x40⟩) 2 3
        [0, 1, 2, 3, 1, 0]).map UInt8.toNat := by
    decide
  rw [hstored] at hencodes
  have hpixels : ([0, 1, 2, 3, 1, 0] : List UInt8).length =
      file.screen.width.toNat * file.screen.height.toNat := rfl
  have hconverted := convert_stored_picture hlimit ⟨rfl, rfl, rfl, rfl⟩ rfl (by decide)
    hpixels hencodes hblocks [0x3B]
  have hbytes : file.toBytes ++ [0x3B] =
      [0x47, 0x49, 0x46, 0x38, 0x39, 0x61, 2, 0, 3, 0, 0x81, 0, 0,
        0, 0, 0, 255, 0, 0, 0, 255, 0, 0, 0, 255, 0x21, 0xFE, 1, 0x2C, 0,
        0x2C, 0, 0, 0, 0, 2, 0, 3, 0, 0x40, 2, 2, 0x48, 0x40, 2, 0xA6, 0x00, 0, 0x3B] := by
    decide
  rw [hbytes] at hconverted
  exact hconverted

end Conversion
end GifBitmap

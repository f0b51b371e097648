import GifBitmap.Proofs.PictureRoundTrip

/-!
# What a conversion leads to

A conversion decodes before it writes.  If it cannot decode, or finds no color table, it ends
with that failure and leaves the sink alone.  Otherwise the file of the bitmap can be made, with
any screen and any color table that a GIF can hold, and only the sink can still fail.

Main facts, for every source and every sink:
* `convert_of_error`, `convert_of_no_table`: the failures in front of the writing;
* `convert_of_table`: all else is the writing of the bitmap by a new encoder;
* `failure_of_convert`: the failures of the writing are those of the sink;
* `convert_outcome`: all cases together, with the byte counts at the end.
-/

namespace GifBitmap

namespace Conversion

variable
  {limit : Gif.PixelLimit}
  {source : Source}
  {sink : Sink}
  {picture : Gif.Picture}
  {rest : Input}
  {table : ColorTable}

theorem convert_of_error
    {cause : Error}
    (hdecode : Gif.decode limit (.ofSource source) = (.error cause, rest)) :
    convert limit source sink = ⟨.error cause, rest.source, sink, rest.events⟩ := by
  have hprepare : prepare limit (.ofSource source) = (.error cause, rest) := by
    rw [prepare, hdecode]
  rw [convert, hprepare]

theorem convert_of_no_table
    (hdecode : Gif.decode limit (.ofSource source) = (.ok picture, rest))
    (htable : picture.colorTable? = none) :
    convert limit source sink = ⟨.error .missingColorTable, rest.source, sink, rest.events⟩ := by
  have hprepare : prepare limit (.ofSource source) = (.error .missingColorTable, rest) := by
    rw [prepare, hdecode]
    dsimp only
    rw [htable]
  rw [convert, hprepare]

/-- Once a picture with a color table was decoded, a conversion gives its bitmap to a new
encoder. -/
theorem convert_of_table
    (hdecode : Gif.decode limit (.ofSource source) = (.ok picture, rest))
    (htable : picture.colorTable? = some table) :
    let outcome := convert limit source sink
    let writing := (Bmp.Encoder.ofSink sink).encode (bitmapOf picture table)
    outcome.result = writing.1.map (fun written => ⟨rest.consumed, written.size⟩) ∧
      outcome.source = rest.source ∧
      outcome.sink = writing.2.close := by
  have hsource : (noteClipping picture rest).source = rest.source := by
    rw [noteClipping]
    split <;> rfl
  intro outcome writing
  have houtcome : outcome = convert limit source sink := rfl
  rw [convert, prepare_of_decode hdecode htable] at houtcome
  dsimp only at houtcome
  cases hwriting : (Bmp.Encoder.ofSink sink).encode (bitmapOf picture table) with
  | mk result last =>
      have hsame : writing = (result, last) := hwriting
      rw [hwriting] at houtcome
      rw [hsame, houtcome]
      cases result with
      | error cause => exact ⟨rfl, hsource, rfl⟩
      | ok written => exact ⟨rfl, hsource, rfl⟩

/-- When a bitmap can be written at all, a conversion fails only where its sink does. -/
theorem failure_of_convert
    {cause : Error}
    (hdecode : Gif.decode limit (.ofSource source) = (.ok picture, rest))
    (htable : picture.colorTable? = some table)
    (h : (convert limit source sink).result = .error cause) :
    ∃ failure, cause = .stream failure ∧ sink.Raises failure := by
  have hfits := fits_bitmapOf picture (length_le_of_decode hdecode htable)
  rw [(convert_of_table hdecode htable).1] at h
  cases hencode : (Bmp.Encoder.ofSink sink).encode (bitmapOf picture table) with
  | mk result last =>
      rw [hencode] at h
      cases result with
      | error found =>
          obtain rfl : found = cause := Except.error.inj h
          exact Bmp.Encoder.failure_of_encode hfits.toPasses hencode
      | ok written => exact absurd h nofun

/-- A conversion to a sink that accepts all that is offered succeeds. -/
theorem exists_statistics
    (hdecode : Gif.decode limit (.ofSource source) = (.ok picture, rest))
    (htable : picture.colorTable? = some table)
    (hchunk : sink.manner.chunk ≠ some 0)
    (hlimit : sink.manner.limit = none)
    (hflush : sink.manner.flushFailure = none) :
    ∃ statistics, (convert limit source sink).result = .ok statistics := by
  have hfits := fits_bitmapOf picture (length_le_of_decode hdecode htable)
  have haccepts : sink.manner.AcceptsAll := ⟨hchunk, hlimit, hflush⟩
  rw [(convert_of_table hdecode htable).1,
    Bmp.Encoder.encode_of_acceptsAll rfl haccepts hfits.toPasses]
  exact ⟨_, rfl⟩

/-- The counts of a conversion are the bytes that were delivered and those that were written. -/
theorem counts_of_convert
    {statistics : Statistics}
    (hdecode : Gif.decode limit (.ofSource source) = (.ok picture, rest))
    (htable : picture.colorTable? = some table)
    (h : (convert limit source sink).result = .ok statistics) :
    let outcome := convert limit source sink
    statistics = ⟨rest.consumed, (bitmapOf picture table).fileSize⟩ ∧
      outcome.source.delivered = source.delivered + statistics.gifSize ∧
      outcome.sink.accepted.toList =
        sink.accepted.toList ++ (bitmapOf picture table).file := by
  obtain ⟨hresult, hsource, hsink⟩ := @convert_of_table limit source sink _ _ _ hdecode htable
  cases hencode : (Bmp.Encoder.ofSink sink).encode (bitmapOf picture table) with
  | mk result last =>
      rw [hresult, hencode] at h
      cases result with
      | error cause => exact absurd h nofun
      | ok written =>
          obtain rfl := Except.ok.inj h
          obtain ⟨hpasses, rfl, haccepted, hclose⟩ := Bmp.Encoder.accepted_of_encode hencode
          obtain ⟨file, -, hadvances, -⟩ := Gif.advances_of_decode hdecode
          have hconsumed : rest.consumed = (Gif.File.toBytes file).length :=
            hadvances.consumed_eq.trans (Nat.zero_add _)
          refine ⟨?_, ?_, ?_⟩
          · exact congrArg _ (Bmp.Bitmap.length_file hpasses)
          · rw [hsource, hadvances.delivered_eq]
            exact congrArg _ hconsumed.symm
          · rw [hsink, hencode, hclose]
            exact haccepted

theorem fileSize_bitmapOf (picture : Gif.Picture) (table : ColorTable) :
    (bitmapOf picture table).fileSize =
      54 + 4 * table.length +
        picture.preamble.screen.height.toNat *
          (4 * ((picture.preamble.screen.width.toNat + 3) / 4)) := by
  rw [Bmp.Bitmap.fileSize, Bmp.Bitmap.stride, toNat_width_bitmapOf, toNat_height_bitmapOf]
  rfl

/-- A conversion that cannot decode ends with the failure of the decoding, and one without a
color table with that failure; neither touches the sink.

In all other cases there is an index for every pixel and all sizes fit their fields, so only the
sink can fail.  At the end the sink holds the file of the bitmap with the local color table, or
the global one if there is none.  The counts are the bytes that were read, which is the number
delivered, and the bytes of the file, which is the size in its header. -/
theorem convert_outcome (limit : Gif.PixelLimit) (source : Source) (sink : Sink) :
    let reading := Gif.decode limit (.ofSource source)
    let outcome := convert limit source sink
    (∀ cause,
      reading.1 = .error cause → outcome.result = .error cause ∧ outcome.sink = sink) ∧
      ∀ picture,
        reading.1 = .ok picture →
          (picture.frame.localTable.or picture.preamble.globalTable = none →
            outcome.result = .error .missingColorTable ∧ outcome.sink = sink) ∧
          ∀ table,
            picture.frame.localTable.or picture.preamble.globalTable = some table →
              let width := picture.preamble.screen.width.toNat
              let height := picture.preamble.screen.height.toNat
              let size := 54 + 4 * table.length + height * (4 * ((width + 3) / 4))
              let bitmap := bitmapOf picture table
              bitmap.indices.size = width * height ∧
                bitmap.encode = .ok bitmap.encoding ∧
                (∀ cause,
                  outcome.result = .error cause →
                    ∃ failure, cause = .stream failure ∧ sink.Raises failure) ∧
                (sink.manner.chunk ≠ some 0 →
                  sink.manner.limit = none →
                    sink.manner.flushFailure = none →
                      ∃ statistics, outcome.result = .ok statistics) ∧
                ∀ statistics,
                  outcome.result = .ok statistics →
                    statistics = ⟨reading.2.consumed, size⟩ ∧
                      outcome.source.delivered = source.delivered + statistics.gifSize ∧
                      outcome.sink.accepted.toList = sink.accepted.toList ++ bitmap.file ∧
                      bitmap.file.length = size ∧
                      Bmp.numberAt bitmap.file 2 4 = size ∧
                      Bmp.numberAt bitmap.file 46 4 = table.length ∧
                      ∀ place,
                        place < table.length →
                          Bmp.colorAt? bitmap.file place = table.colors[place]? := by
  intro reading outcome
  constructor
  · intro cause hcause
    have houtcome : outcome = _ := convert_of_error (Prod.ext hcause rfl)
    rw [houtcome]
    exact ⟨rfl, rfl⟩
  · intro picture hpicture
    have hdecode : Gif.decode limit (.ofSource source) = (.ok picture, reading.2) :=
      Prod.ext hpicture rfl
    constructor
    · intro hnone
      have houtcome : outcome = _ := convert_of_no_table hdecode hnone
      rw [houtcome]
      exact ⟨rfl, rfl⟩
    · intro table htable width height size bitmap
      have hfits : bitmap.Fits := fits_bitmapOf picture (length_le_of_decode hdecode htable)
      have hpixels : bitmap.pixels = width * height := by
        rw [Bmp.Bitmap.pixels, toNat_width_bitmapOf, toNat_height_bitmapOf]
      have hsize : bitmap.fileSize = size := fileSize_bitmapOf picture table
      have hshows := Bmp.Bitmap.shows_encoding hfits
      rw [Bmp.Bitmap.bytes_encoding_eq_file hfits.toPasses] at hshows
      refine ⟨hfits.size_eq.trans hpixels, Bmp.Bitmap.encode_eq_ok_iff.mpr ⟨hfits.toPasses, rfl⟩,
        fun _ => failure_of_convert hdecode htable, exists_statistics hdecode htable, ?_⟩
      intro statistics hok
      obtain ⟨hcounts, hdelivered, haccepted⟩ := counts_of_convert hdecode htable hok
      rw [← hsize]
      exact ⟨hcounts, hdelivered, haccepted, Bmp.Bitmap.length_file hfits.toPasses,
        Bmp.Bitmap.numberAt_fileSize hfits, hshows.colors_eq, hshows.color_eq⟩

/-- A color table with as many colors as there can be. -/
def longestTable : ColorTable :=
  ⟨List.replicate 256 ⟨10, 20, 30⟩⟩

theorem length_longestTable : longestTable.length = 256 :=
  List.length_replicate

def pixelBody : Gif.Body where
  extensions := []
  image := ⟨0, 0, 1, 1, 0⟩
  localTable := none
  codeSize := ⟨2, by decide, by decide⟩
  blocks := [⟨[0x4C, 1], by decide, by decide⟩]
  localTable_fits := rfl

theorem controls_pixelBody : pixelBody.controls.length ≤ 1 := by
  decide

/-- A file with the largest screen and the largest color table. -/
def widestFile : Gif.File where
  screen := ⟨65535, 65535, 0x87, 3, 0⟩
  globalTable := some longestTable
  body := pixelBody
  globalTable_fits := congrArg some length_longestTable
  controls_le_one := controls_pixelBody

theorem decode_widestFile
    {source : Source}
    {tail : Bytes}
    (hsteady : source.Steady)
    (hpending : source.pending = widestFile.toBytes ++ tail) :
    ∃ rest,
      Gif.decode none (.ofSource source) = (.ok (widestFile.picture #[1]), rest) ∧
        (Input.ofSource source).Advances widestFile.toBytes rest := by
  have hindices : pixelBody.indices = .ok #[1] := by cbv
  have hwithin : widestFile.WithinLimit none := by simp [Gif.File.WithinLimit]
  exact Gif.decode_of_file hsteady hpending hwithin hindices

/-- The bitmap of the largest screen, converted from single bytes with interruptions between them
and written in pieces of five bytes, is just small enough for its header. -/
theorem convert_outcome_of_widest_file :
    let source := Source.ofBytes (widestFile.toBytes ++ [0x3B]) ⟨some 1, true, none⟩
    let outcome := convert none source (.empty ⟨some 5, none, none, none⟩)
    outcome.result = .ok ⟨widestFile.toBytes.length, 4294902838⟩ ∧
      outcome.source.delivered = widestFile.toBytes.length ∧
      outcome.sink.accepted.size = 4294902838 := by
  intro source outcome
  have hsteady : source.Steady := ⟨by simp [source, Source.ofBytes], rfl⟩
  obtain ⟨rest, hdecode, hadvances⟩ := decode_widestFile hsteady rfl
  obtain ⟨-, hdecoded⟩ := convert_outcome none source (.empty ⟨some 5, none, none, none⟩)
  obtain ⟨-, hwritten⟩ := hdecoded _ (congrArg Prod.fst hdecode)
  obtain ⟨-, -, -, htotal, hcounts⟩ := hwritten longestTable rfl
  obtain ⟨statistics, hok⟩ := htotal (by simp [Sink.empty]) rfl rfl
  obtain ⟨hstatistics, hdelivered, haccepted, hlength, -⟩ := hcounts statistics hok
  have hread : (Gif.decode none (.ofSource source)).2.consumed = widestFile.toBytes.length := by
    rw [hdecode, hadvances.consumed_eq]
    exact Nat.zero_add _
  rw [hread, length_longestTable] at hstatistics
  subst hstatistics
  rw [length_longestTable] at hlength
  refine ⟨hok, hdelivered.trans (Nat.zero_add _), ?_⟩
  have hsize := congrArg List.length haccepted
  rw [Array.length_toList, List.length_append, hlength] at hsize
  exact hsize

end Conversion
end GifBitmap

import GifBitmap.Proofs.ConversionOrder
import GifBitmap.Proofs.Gif.DecodeEvents

/-!
# The events of a conversion

Behind the events of decoding there is a warning if the image reaches beyond the screen, and the
two events of a complete conversion if there is one.  Whatever the source and the sink, this
tells every event of a conversion, and all that are more than debugging.

Main facts:
* `Gif.atLeast_dataEvents`: which events of image data are warnings;
* `Conversion.exists_end`: the events behind those of decoding;
* `Conversion.convert_events`: the events of a conversion.
-/

namespace GifBitmap

namespace Event

variable {events : List Event}

theorem atLeast_append (level : Level) (events more : List Event) :
    atLeast level (events ++ more) = atLeast level events ++ atLeast level more :=
  List.filter_append _ _

theorem atLeast_info_eq_nil (h : ∀ event ∈ events, event.level = .debug) :
    atLeast .info events = [] := by
  rw [atLeast, List.filter_eq_nil_iff]
  intro event hevent
  rw [h event hevent]
  decide

end Event

namespace Gif

variable
  {start : Lzw.Decompressor}
  {pixels : Nat}
  {fed passed : List SubBlock}
  {last : Bytes}

/-- Of the events of image data only the two warnings are more than debugging. -/
theorem atLeast_dataEvents :
    Event.atLeast .info (dataEvents start pixels fed passed last) =
      truncationEvents pixels (start.decompress (payloads fed) #[]) ++
        if last = [0] ∧ start.KeepsOn pixels (payloads fed) #[] then [.endCodeMissing] else [] := by
  have hfed : Event.atLeast .info (fed.map SubBlock.fedEvent) = [] :=
    Event.atLeast_info_eq_nil (List.forall_mem_map.mpr fun _ _ => rfl)
  have hpassed : Event.atLeast .info (passed.map SubBlock.passedEvent) = [] :=
    Event.atLeast_info_eq_nil (List.forall_mem_map.mpr fun _ _ => rfl)
  simp only [dataEvents, truncationEvents, Event.atLeast_append, hfed, hpassed, List.nil_append]
  congr 1
  · split
    · rfl
    · rfl
  · split
    · rfl
    · rfl

/-- There is one of the two warnings at most. -/
theorem truncationEvents_eq_nil_or :
    truncationEvents pixels (start.decompress (payloads fed) #[]) = [] ∨
      ¬start.KeepsOn pixels (payloads fed) #[] := by
  by_cases hkeeps : start.KeepsOn pixels (payloads fed) #[]
  · exact .inl (if_neg fun hbeyond => Nat.not_lt_of_le hkeeps.2.2 hbeyond.2)
  · exact .inr hkeeps

end Gif

namespace Conversion

variable
  {limit : Gif.PixelLimit}
  {source : Source}
  {sink : Sink}
  {picture : Gif.Picture}
  {rest : Input}
  {table : ColorTable}

/-- The event of an image that reaches beyond the right or the lower edge of the screen. -/
def clippingEvents (picture : Gif.Picture) : List Event :=
  let screen := picture.preamble.screen
  let image := picture.frame.image
  if screen.width.toNat < image.left.toNat + image.width.toNat ∨
      screen.height.toNat < image.top.toNat + image.height.toNat then
    [.imageClipped image]
  else
    []

theorem events_noteClipping (picture : Gif.Picture) (input : Input) :
    (noteClipping picture input).events.toList =
      input.events.toList ++ clippingEvents picture := by
  unfold noteClipping clippingEvents Canvas.isClipped
  simp only [Bool.or_eq_true, decide_eq_true_eq]
  split
  · simp [Input.note]
  · simp

theorem atLeast_clippingEvents (picture : Gif.Picture) :
    Event.atLeast .info (clippingEvents picture) = clippingEvents picture := by
  unfold clippingEvents
  dsimp only
  split
  · rfl
  · rfl

/-- The events of a result, with the layout of the bitmap that was to be written. -/
def resultEvents (layout : Bmp.Layout) : Except Error Statistics → List Event
  | .error _ => []
  | .ok statistics => completion statistics layout

/-- A success has two events, a failure none. -/
theorem exists_resultEvents (layout : Bmp.Layout) (result : Except Error Statistics) :
    ∃ written converted,
      resultEvents layout result = written ++ converted ∧
        Event.atLeast .info written = [] ∧
        Event.atLeast .info converted = converted ∧
        (∀ statistics,
          result = .ok statistics →
            written = [.bitmapWritten layout statistics.bitmapSize] ∧
              converted = [.converted statistics.gifSize statistics.bitmapSize]) ∧
        ∀ cause, result = .error cause → written = [] ∧ converted = [] := by
  cases result with
  | error cause => exact ⟨[], [], rfl, rfl, rfl, fun _ => nofun, fun _ _ => ⟨rfl, rfl⟩⟩
  | ok statistics =>
      refine ⟨[_], [_], rfl, rfl, rfl, fun found hfound => ?_, fun _ => nofun⟩
      obtain rfl := Except.ok.inj hfound
      exact ⟨rfl, rfl⟩

/-- The events of a conversion of a picture that was decoded and has a color table. -/
theorem events_of_table
    (hdecode : Gif.decode limit (.ofSource source) = (.ok picture, rest))
    (htable : picture.colorTable? = some table) :
    let outcome := convert limit source sink
    outcome.events.toList =
      rest.events.toList ++
        (clippingEvents picture ++
          resultEvents (bitmapOf picture table).layout outcome.result) := by
  unfold convert
  rw [prepare_of_decode hdecode htable]
  dsimp only
  rw [← List.append_assoc, ← events_noteClipping]
  cases hencode : (Bmp.Encoder.ofSink sink).encode (bitmapOf picture table) with
  | mk result last =>
      cases result with
      | error failure => exact (List.append_nil _).symm
      | ok written =>
          obtain ⟨-, rfl, -⟩ := Bmp.Encoder.accepted_of_encode hencode
          dsimp only
          rw [Array.toList_appendList]
          rfl

/-- What the events behind those of decoding tell of a reading and of the result. -/
structure TellsEnd
    (reading : Except Error Gif.Picture)
    (result : Except Error Statistics)
    (clipped written converted : List Event) : Prop where
  /-- With a color table, an image beyond an edge of the screen is told. -/
  clipped_eq : ∀ picture table,
    reading = .ok picture →
      picture.frame.localTable.or picture.preamble.globalTable = some table →
        let screen := picture.preamble.screen
        let image := picture.frame.image
        clipped =
          if screen.width.toNat < image.left.toNat + image.width.toNat ∨
              screen.height.toNat < image.top.toNat + image.height.toNat then
            [.imageClipped image]
          else
            []
  /-- Without a picture and a color table, it is not. -/
  clipped_eq_nil :
    (∀ picture table,
      reading = .ok picture →
        picture.frame.localTable.or picture.preamble.globalTable ≠ some table) →
      clipped = []
  /-- A success is told, with the bitmap in front of it. -/
  of_ok : ∀ statistics,
    result = .ok statistics →
      ∃ picture table,
        reading = .ok picture ∧
          picture.frame.localTable.or picture.preamble.globalTable = some table ∧
          written =
            [.bitmapWritten (bitmapOf picture table).layout statistics.bitmapSize] ∧
          converted = [.converted statistics.gifSize statistics.bitmapSize]
  /-- A failure is not. -/
  of_error : ∀ cause, result = .error cause → written = [] ∧ converted = []

/-- A reading without a picture that has a color table, or with one. -/
theorem reading_cases (limit : Gif.PixelLimit) (source : Source) :
    let reading := Gif.decode limit (.ofSource source)
    ((∀ picture table, reading.1 = .ok picture → picture.colorTable? ≠ some table) ∧
        ∀ sink, ∃ cause,
          convert limit source sink =
            ⟨.error cause, reading.2.source, sink, reading.2.events⟩) ∨
      ∃ picture table, reading.1 = .ok picture ∧ picture.colorTable? = some table := by
  intro reading
  cases hreading : reading.1 with
  | error cause =>
      exact .inl ⟨fun _ _ => nofun, fun _ => ⟨cause, convert_of_error (Prod.ext hreading rfl)⟩⟩
  | ok picture =>
      cases htable : picture.colorTable? with
      | some table => exact .inr ⟨picture, table, rfl, htable⟩
      | none =>
          refine .inl ⟨fun _ _ hsame => ?_,
            fun _ => ⟨_, convert_of_no_table (Prod.ext hreading rfl) htable⟩⟩
          rw [← Except.ok.inj hsame, htable]
          exact nofun

/-- The events behind those of decoding. -/
theorem exists_end (limit : Gif.PixelLimit) (source : Source) (sink : Sink) :
    let reading := Gif.decode limit (.ofSource source)
    let outcome := convert limit source sink
    ∃ clipped written converted,
      outcome.events.toList =
          reading.2.events.toList ++ (clipped ++ (written ++ converted)) ∧
        Event.atLeast .info clipped = clipped ∧
        Event.atLeast .info written = [] ∧
        Event.atLeast .info converted = converted ∧
        TellsEnd reading.1 outcome.result clipped written converted := by
  intro reading outcome
  rcases reading_cases limit source with ⟨hnone, hfails⟩ | ⟨picture, table, hpicture, htable⟩
  · obtain ⟨cause, houtcome⟩ := hfails sink
    have hresult : outcome.result = .error cause := congrArg Outcome.result houtcome
    have hevents : outcome.events = reading.2.events := congrArg Outcome.events houtcome
    refine ⟨[], [], [], ?_, rfl, rfl, rfl, ?_⟩
    · rw [hevents, List.append_nil, List.append_nil, List.append_nil]
    · exact {
        clipped_eq := fun picture table hpicture htable =>
          absurd htable (hnone picture table hpicture)
        clipped_eq_nil := fun _ => rfl
        of_ok := fun statistics hok => by simp [hresult] at hok
        of_error := fun _ _ => ⟨rfl, rfl⟩ }
  · have hevents : outcome.events.toList = reading.2.events.toList ++ (clippingEvents picture ++
        resultEvents (bitmapOf picture table).layout outcome.result) :=
      events_of_table (Prod.ext hpicture rfl) htable
    obtain ⟨written, converted, hsplit, hwritten, hconverted, hok, herror⟩ :=
      exists_resultEvents (bitmapOf picture table).layout outcome.result
    rw [hsplit] at hevents
    refine ⟨clippingEvents picture, written, converted, hevents, atLeast_clippingEvents picture,
      hwritten, hconverted, ?_⟩
    exact {
      clipped_eq := fun other _ hother _ => by
        obtain rfl := Except.ok.inj (hother.symm.trans hpicture)
        rfl
      clipped_eq_nil := fun hnone => absurd htable (hnone picture table hpicture)
      of_ok := fun statistics hsuccess =>
        ⟨picture, table, hpicture, htable, hok statistics hsuccess⟩
      of_error := herror }

/-- The events of a conversion, whatever the source and the sink, in the order of the log:

* first the parts of the file in front of the image data;
* then, if the fields that were read begin with the front of a file up to its image data, one
  event for each block that was read behind it, with its size.  A block is passed over if the end
  code was met in a block in front of it, or there were more indices than pixels there.  Behind the
  blocks that are fed there is a warning if they are decompressed without a failure to more indices
  than there are pixels, and at the end one if the empty block was read while there was something
  left to be decompressed;
* then the warning about an image beyond the screen, if there is a picture with a color table;
* and at the end, of a conversion that succeeds, the bitmap and the byte counts.

No others are more than debugging. -/
theorem convert_events (limit : Gif.PixelLimit) (source : Source) (sink : Sink) :
    let reading := Gif.decode limit (.ofSource source)
    let taken := source.pending.take reading.2.consumed
    let outcome := convert limit source sink
    ∃ early fed truncated passed unended clipped written converted : List Event,
      outcome.events.toList =
          early ++ (fed ++ (truncated ++ (passed ++ unended))) ++
            (clipped ++ (written ++ converted)) ∧
        Event.atLeast .info outcome.events.toList =
          truncated ++ unended ++ (clipped ++ converted) ∧
        (truncated = [] ∨ unended = []) ∧
        (∀ event ∈ early, event.IsOfBlock) ∧
        (((∀ file : Gif.File, file.WithinLimit limit → ¬file.frontToBytes <+: taken) ∧
            fed ++ (truncated ++ (passed ++ unended)) = []) ∨
          ∃ (file : Gif.File) (fedBlocks passedBlocks : List Gif.SubBlock) (last read : Bytes),
            let start := Lzw.Decompressor.initial file.body.codeSize
            let pixels := file.body.image.width.toNat * file.body.image.height.toNat
            let expanded := start.decompress (Gif.payloads fedBlocks) #[]
            file.WithinLimit limit ∧
              taken = file.frontToBytes ++ read ∧
              file.body.blocks = fedBlocks ++ passedBlocks ∧
              Gif.ReadsData start pixels fedBlocks passedBlocks last read ∧
              fed = fedBlocks.map (fun block => .imageData block.payload.length) ∧
              truncated =
                (if expanded.failure = none ∧ pixels < expanded.buffer.size then
                  [.indicesTruncated pixels]
                else
                  []) ∧
              passed = passedBlocks.map (fun block => .imageDataSkipped block.payload.length) ∧
              unended =
                if last = [0] ∧
                    expanded.failure = none ∧
                    expanded.decompressor.isDone = false ∧
                    expanded.buffer.size ≤ pixels then
                  [.endCodeMissing]
                else
                  []) ∧
        TellsEnd reading.1 outcome.result clipped written converted := by
  intro reading taken outcome
  obtain ⟨early, data, hdecode, hearly, hdata⟩ := Gif.decode_events limit source
  obtain ⟨clipped, written, converted, hevents, hclipped, hwritten, hconverted, hend⟩ :=
    exists_end limit source sink
  have hquiet : Event.atLeast .info early = [] :=
    Event.atLeast_info_eq_nil fun event hevent => (hearly event hevent).level_eq
  have hwhole : outcome.events.toList = early ++ data ++ (clipped ++ (written ++ converted)) := by
    rw [← hdecode]
    exact hevents
  have hloud : Event.atLeast .info outcome.events.toList =
      Event.atLeast .info data ++ (clipped ++ converted) := by
    simp only [hwhole, Event.atLeast_append, hquiet, hclipped, hwritten, hconverted,
      List.nil_append]
  rcases hdata with ⟨rfl, hnone⟩ |
    ⟨file, fed, passed, last, read, hwithin, htaken, hblocks, hreads, rfl⟩
  · exact ⟨early, [], [], [], [], clipped, written, converted, hwhole, hloud, .inl rfl, hearly,
      .inl ⟨hnone, rfl⟩, hend⟩
  · refine ⟨early, _, _, _, _, clipped, written, converted, hwhole, ?_, ?_, hearly,
      .inr ⟨file, fed, passed, last, read, hwithin, htaken, hblocks, hreads, rfl, rfl, rfl, rfl⟩,
      hend⟩
    · rw [hloud, Gif.atLeast_dataEvents]
    · refine Gif.truncationEvents_eq_nil_or.imp id fun hstops => if_neg ?_
      exact fun hends => hstops hends.2

/-- The end code stands behind an index too many in one block, and the image beside the screen. -/
example :
    let bytes : Bytes :=
      [0x47, 0x49, 0x46, 0x38, 0x39, 0x61, 1, 0, 1, 0, 0x80, 0, 0, 0, 0, 0, 255, 255, 255,
        0x2C, 1, 0, 0, 0, 1, 0, 1, 0, 0, 2, 2, 0x4C, 0x0A, 1, 0x05, 0]
    Event.atLeast .info (convert none (.ofBytes bytes .plain) (.empty .plain)).events.toList =
      [.indicesTruncated 1, .imageClipped ⟨1, 0, 1, 1, 0⟩, .converted 36 66] := by
  simp only [convert, prepare, Gif.decode_eq_run_rounds]
  cbv

end Conversion
end GifBitmap

import GifBitmap.Gif.Decoder
import GifBitmap.Proofs.Gif.Translation

/-!
# Files that are cut

Decoding reads a file field by field (`fieldLengths`), and asks for no byte behind the last
of these fields.  A file that is cut behind them is decoded as before, whatever stands
there instead, and so is a source that fails only there.  A cut in front of that lies in one
of the fields, and decoding ends with it: no later failure takes its place.

Main facts:
* `liesInFile_of_scanFile`: the end of the input is never a failure of the decoding itself;
* `decode_eq_scanFile`: decoding is a scan of the bytes that the source can deliver;
* `sum_fieldLengths_le_iff`: which cuts decoding does not see;
* `decode_cut`: what a cut at any place leads to.
-/

namespace GifBitmap

namespace Gif

open FieldReader

/-- What decoding makes of a byte string. -/
def scanFile (limit : PixelLimit) (bytes : Bytes) : Scan Picture :=
  (rounds (Phase.step limit) (bytes.length + 1) .start).scan 0 bytes

/-- The lengths of the fields that decoding asks for, in order.  All of them but the last one
are there; the last one may go beyond the end. -/
def fieldLengths (limit : PixelLimit) (bytes : Bytes) : List Nat :=
  (scanFile limit bytes).asked

variable {limit : PixelLimit} {bytes : Bytes} {manner : Source.Manner}

theorem scanFile_eq
    {most : Nat}
    (h : bytes.length < most) :
    scanFile limit bytes = (rounds (Phase.step limit) most .start).scan 0 bytes :=
  scan_rounds_eq (Phase.step_progresses limit) .start 0 (Nat.lt_succ_self _) h

/-- Decoding is a description with more rounds than there are bytes. -/
theorem decode_eq_run_rounds (limit : PixelLimit) (input : Input) :
    decode limit input =
      (rounds (Phase.step limit) (input.source.pending.length + 1) .start).run input :=
  repeatUntil_eq_run_rounds (Phase.step_progresses limit) .start input (Nat.lt_succ_self _)

/-- Decoding is a scan of the bytes that the source of an input can deliver. -/
theorem decode_eq_scan
    (limit : PixelLimit)
    (input : Input)
    (hchunk : input.source.manner.chunk ≠ some 0) :
    ∃ interruptNext,
      decode limit input =
        ((rounds (Phase.step limit) ((atHand input).length + 1) .start).scan input.consumed
          (atHand input)).outcome input interruptNext := by
  have hlength : (atHand input).length < input.source.pending.length + 1 := by
    rw [length_atHand]
    exact Nat.lt_succ_of_le input.source.available_le
  rw [decode_eq_run_rounds,
    scan_rounds_eq (Phase.step_progresses limit) .start _ (Nat.lt_succ_self _) hlength]
  exact run_eq_scan _ input hchunk

/-- Decoding a new input is a scan of a file, the bytes that the source can deliver. -/
theorem decode_eq_scanFile
    (limit : PixelLimit)
    {source : Source}
    (hchunk : source.manner.chunk ≠ some 0) :
    ∃ interruptNext,
      decode limit (.ofSource source) =
        (scanFile limit (atHand (.ofSource source))).outcome (.ofSource source)
          interruptNext :=
  decode_eq_scan limit (.ofSource source) hchunk

/-- Decoding does not read on behind a failure of its own. -/
theorem liesInFile_of_scanFile
    {cause : Error}
    (h : (scanFile limit bytes).ending = .failure cause) :
    cause.LiesInFile :=
  (Translated.rounds (translated_step 0 limit) _ .start).failsOnly.failure h

/-- Bytes behind the fields that were asked for make no difference. -/
theorem scanFile_take_append
    {cut : Nat}
    (hcut : cut ≤ bytes.length)
    (h : (fieldLengths limit bytes).sum ≤ cut)
    (tail : Bytes) :
    scanFile limit (bytes.take cut ++ tail) = scanFile limit bytes := by
  -- Enough rounds for both byte strings.
  obtain ⟨most, hmost⟩ : ∃ most, most = bytes.length + tail.length + 1 := ⟨_, rfl⟩
  have hlong : (bytes.take cut ++ tail).length < most := by
    rw [List.length_append, List.length_take]
    omega
  have hshort : bytes.length < most := by omega
  rw [fieldLengths, scanFile_eq hshort] at h
  rw [scanFile_eq hlong, scanFile_eq hshort]
  exact scan_take_append hcut h tail

/-- Decoding ends short in the field that stands on both sides of a cut. -/
theorem scanFile_take_of_lt
    {cut : Nat}
    (hcut : cut ≤ bytes.length)
    (h : cut < (fieldLengths limit bytes).sum) :
    ∃ front count back events,
      fieldLengths limit bytes = front ++ count :: back ∧
        front.sum ≤ cut ∧
        cut < front.sum + count ∧
        scanFile limit (bytes.take cut) = ⟨.short count, front, events⟩ := by
  have hlength : (bytes.take cut).length < bytes.length + 1 := by
    rw [List.length_take]
    omega
  rw [scanFile_eq hlength]
  exact scan_take_of_lt hcut h

theorem available_ofBytes_of_none (hfault : manner.fault = none) :
    (Source.ofBytes bytes manner).available = bytes.length := by
  simp [Source.available, Source.beforeFault, Source.ofBytes, hfault]

theorem available_ofBytes_of_some
    {cut : Nat}
    {failure : StreamError}
    (hfault : manner.fault = some (cut, failure))
    (hcut : cut ≤ bytes.length) :
    (Source.ofBytes bytes manner).available = cut := by
  simp [Source.available, Source.beforeFault, Source.ofBytes, hfault, hcut]

theorem shortage_ofBytes_of_none (hfault : manner.fault = none) :
    (Source.ofBytes bytes manner).shortage = .endOfSource := by
  simp [Source.shortage, Source.ofBytes, hfault]

theorem shortage_ofBytes_of_some
    {cut : Nat}
    {failure : StreamError}
    (hfault : manner.fault = some (cut, failure))
    (hcut : cut ≤ bytes.length) :
    (Source.ofBytes bytes manner).shortage = failure := by
  simp [Source.shortage, Source.ofBytes, hfault, hcut]

/-- All that can be seen of a reading: its result, the number of bytes in the fields that were
read, the number of bytes delivered, and the events. -/
def observed (reading : Except Error Picture × Input) :
    Except Error Picture × Nat × Nat × Array Event :=
  (reading.1, reading.2.consumed, reading.2.source.delivered, reading.2.events)

theorem observed_eq_iff
    {reading : Except Error Picture × Input}
    {result : Except Error Picture}
    {consumed delivered : Nat}
    {events : Array Event} :
    observed reading = (result, consumed, delivered, events) ↔
      reading.1 = result ∧
        reading.2.consumed = consumed ∧
        reading.2.source.delivered = delivered ∧
        reading.2.events = events := by
  simp only [observed, Prod.mk.injEq]

theorem observed_decode
    (limit : PixelLimit)
    (bytes : Bytes)
    (hchunk : manner.chunk ≠ some 0) :
    let source := Source.ofBytes bytes manner
    let scan := scanFile limit (bytes.take source.available)
    observed (decode limit (.ofSource source)) =
      (scan.result 0 source.shortage, scan.fields.sum, scan.delivered source.available,
        scan.events.toArray) := by
  intro source scan
  obtain ⟨interruptNext, hdecode⟩ := @decode_eq_scanFile limit source hchunk
  have hconsumed : 0 + scan.fields.sum = scan.fields.sum := Nat.zero_add _
  have hdelivered : 0 + scan.delivered source.available = scan.delivered source.available :=
    Nat.zero_add _
  have hevents : (#[] : Array Event) ++ scan.events = scan.events.toArray := by simp
  rw [hdecode, observed, Scan.outcome]
  exact congrArg _ (Prod.ext hconsumed (Prod.ext hdelivered hevents))

/-- Without a fault all the bytes are scanned. -/
theorem observed_decode_of_none
    (limit : PixelLimit)
    (bytes : Bytes)
    (hchunk : manner.chunk ≠ some 0)
    (hfault : manner.fault = none) :
    let scan := scanFile limit bytes
    observed (decode limit (.ofSource (.ofBytes bytes manner))) =
      (scan.result 0 .endOfSource, scan.fields.sum, scan.delivered bytes.length,
        scan.events.toArray) := by
  have h := observed_decode limit bytes hchunk
  dsimp only at h
  rw [available_ofBytes_of_none hfault, shortage_ofBytes_of_none hfault, List.take_length] at h
  exact h

/-- With a fault the bytes in front of it are scanned. -/
theorem observed_decode_of_some
    (limit : PixelLimit)
    {cut : Nat}
    {failure : StreamError}
    (hchunk : manner.chunk ≠ some 0)
    (hfault : manner.fault = some (cut, failure))
    (hcut : cut ≤ bytes.length) :
    let scan := scanFile limit (bytes.take cut)
    observed (decode limit (.ofSource (.ofBytes bytes manner))) =
      (scan.result 0 failure, scan.fields.sum, scan.delivered cut, scan.events.toArray) := by
  have h := observed_decode limit bytes hchunk
  dsimp only at h
  rw [available_ofBytes_of_some hfault hcut, shortage_ofBytes_of_some hfault hcut] at h
  exact h

theorem observed_decode_plain (limit : PixelLimit) (bytes : Bytes) :
    let scan := scanFile limit bytes
    observed (decode limit (.ofSource (.ofBytes bytes .plain))) =
      (scan.result 0 .endOfSource, scan.fields.sum, scan.delivered bytes.length,
        scan.events.toArray) :=
  observed_decode_of_none limit bytes (by simp [Source.Manner.plain]) rfl

theorem result_decode_plain (limit : PixelLimit) (bytes : Bytes) :
    (decode limit (.ofSource (.ofBytes bytes .plain))).1 =
      (scanFile limit bytes).result 0 .endOfSource :=
  congrArg Prod.fst (observed_decode_plain limit bytes)

theorem consumed_decode_plain (limit : PixelLimit) (bytes : Bytes) :
    (decode limit (.ofSource (.ofBytes bytes .plain))).2.consumed =
      (scanFile limit bytes).fields.sum :=
  congrArg (fun seen => seen.2.1) (observed_decode_plain limit bytes)

/-- Decoding meets the end of the bytes exactly if a field that it asks for is not there. -/
theorem isWhole_scanFile_iff :
    (scanFile limit bytes).IsWhole ↔
      ∀ offset, (decode limit (.ofSource (.ofBytes bytes .plain))).1 ≠
        .error (.endOfInput offset) := by
  rw [result_decode_plain]
  constructor
  · intro hscan offset hend
    cases hending : (scanFile limit bytes).ending with
    | value picture => simp [Scan.result, hending] at hend
    | failure cause =>
        obtain rfl : cause = .endOfInput offset := by simpa [Scan.result, hending] using hend
        exact liesInFile_of_scanFile hending
    | short count => exact hscan count hending
  · intro hended count hshort
    refine hended (0 + (scanFile limit bytes).fields.sum) ?_
    rw [Scan.result, hshort]
    rfl

/-- Decoding that does not meet the end of the bytes has consumed the fields that it asked
for, and no byte behind them is delivered. -/
theorem consumed_of_ended
    (hended : ∀ offset, (decode limit (.ofSource (.ofBytes bytes .plain))).1 ≠
      .error (.endOfInput offset)) :
    let whole := decode limit (.ofSource (.ofBytes bytes .plain))
    whole.2.source.delivered = whole.2.consumed ∧
      whole.2.consumed = (fieldLengths limit bytes).sum ∧
      whole.2.consumed ≤ bytes.length := by
  intro whole
  have hscan := isWhole_scanFile_iff.mpr hended
  have hobserved := observed_decode_plain limit bytes
  have hconsumed : whole.2.consumed = (scanFile limit bytes).fields.sum :=
    consumed_decode_plain limit bytes
  have hdelivered : whole.2.source.delivered = (scanFile limit bytes).delivered bytes.length :=
    congrArg (fun seen => seen.2.2.1) hobserved
  rw [hdelivered, hconsumed, hscan.delivered_eq, fieldLengths, hscan.asked_eq]
  exact ⟨rfl, rfl, sum_fields_le _ _ _⟩

/-- All that decoding asks for lies in front of a cut exactly if it does not meet the end of
the bytes, and gets no byte from behind the cut. -/
theorem sum_fieldLengths_le_iff
    {cut : Nat}
    (hcut : cut ≤ bytes.length) :
    let whole := decode limit (.ofSource (.ofBytes bytes .plain))
    (fieldLengths limit bytes).sum ≤ cut ↔
      (∀ offset, whole.1 ≠ .error (.endOfInput offset)) ∧ whole.2.source.delivered ≤ cut := by
  intro whole
  constructor
  · intro h
    have hended := isWhole_scanFile_iff.mp (isWhole_of_sum_asked_le (Nat.le_trans h hcut))
    obtain ⟨hdelivered, hconsumed, -⟩ := consumed_of_ended hended
    exact ⟨hended, hdelivered.trans hconsumed ▸ h⟩
  · rintro ⟨hended, h⟩
    obtain ⟨hdelivered, hconsumed, -⟩ := consumed_of_ended hended
    exact hdelivered.trans hconsumed ▸ h

/-- With all that decoding asks for in front of a cut, nothing behind the cut matters. -/
theorem observed_decode_of_le
    {cut : Nat}
    (hcut : cut ≤ bytes.length)
    (h : (fieldLengths limit bytes).sum ≤ cut) :
    let whole := decode limit (.ofSource (.ofBytes bytes .plain))
    (∀ tail manner,
      manner.chunk ≠ some 0 →
        manner.fault = none →
          observed (decode limit (.ofSource (.ofBytes (bytes.take cut ++ tail) manner))) =
            observed whole) ∧
      ∀ failure manner,
        manner.chunk ≠ some 0 →
          manner.fault = some (cut, failure) →
            observed (decode limit (.ofSource (.ofBytes bytes manner))) = observed whole := by
  intro whole
  have hwhole : observed whole = _ := observed_decode_plain limit bytes
  have hscan : (scanFile limit bytes).IsWhole := isWhole_of_sum_asked_le (Nat.le_trans h hcut)
  have happend := scanFile_take_append hcut h
  constructor
  · intro tail manner hchunk hfault
    have hrun := observed_decode_of_none limit (bytes.take cut ++ tail) hchunk hfault
    rw [hrun, hwhole, happend tail]
    simp only [hscan.delivered_eq]
  · intro failure manner hchunk hfault
    have hfront : scanFile limit (bytes.take cut) = scanFile limit bytes := by
      have hnil := happend []
      rwa [List.append_nil] at hnil
    have hrun := observed_decode_of_some limit hchunk hfault hcut
    rw [hrun, hwhole, hfront, hscan.result_eq 0 failure .endOfSource]
    simp only [hscan.delivered_eq]

/-- A cut inside the fields that decoding asks for shows in the field that it cuts: there the
bytes end, or the source fails, and all bytes in front of the cut are gone. -/
theorem observed_decode_of_lt
    {cut : Nat}
    (hcut : cut ≤ bytes.length)
    (h : cut < (fieldLengths limit bytes).sum) :
    ∃ front count back events,
      fieldLengths limit bytes = front ++ count :: back ∧
        front.sum ≤ cut ∧
        cut < front.sum + count ∧
        (∀ manner,
          manner.chunk ≠ some 0 →
            manner.fault = none →
              observed (decode limit (.ofSource (.ofBytes (bytes.take cut) manner))) =
                (.error (.endOfInput front.sum), front.sum, cut, events)) ∧
        ∀ failure manner,
          manner.chunk ≠ some 0 →
            manner.fault = some (cut, failure) →
              observed (decode limit (.ofSource (.ofBytes bytes manner))) =
                (.error (.ofSource front.sum failure), front.sum, cut, events) := by
  obtain ⟨front, count, back, events, hlengths, hfront, hcount, hscan⟩ :=
    scanFile_take_of_lt hcut h
  refine ⟨front, count, back, events.toArray, hlengths, hfront, hcount, ?_, ?_⟩
  · intro manner hchunk hfault
    have hrun := observed_decode_of_none limit (bytes.take cut) hchunk hfault
    rw [hrun, hscan, List.length_take, Nat.min_eq_left hcut]
    simp only [Scan.result, Scan.delivered, Nat.zero_add]
    rfl
  · intro failure manner hchunk hfault
    have hrun := observed_decode_of_some limit hchunk hfault hcut
    rw [hrun, hscan]
    simp only [Scan.result, Scan.delivered, Nat.zero_add]

theorem ofSource_eq (offset : Nat) (failure : StreamError) :
    Error.ofSource offset failure =
      if failure.kind = .unexpectedEnd then .endOfInput offset else .stream failure := by
  unfold Error.ofSource
  cases failure.kind <;> rfl

/-- Decoding that ended in front of a cut, and not because the bytes ended, is the same with
any bytes behind the cut and with a source that fails there.  In all other cases the cut
lies in a field that decoding asks for.  The bytes in front of it end short in that field,
and a source that fails at the cut shows its failure; all bytes in front of the cut are
delivered, and the fields in front of that field are consumed.

So no byte behind the last field is delivered, and no shorter front of a picture that was
read is a picture. -/
theorem decode_cut
    (limit : PixelLimit)
    (bytes : Bytes)
    {cut : Nat}
    (hcut : cut ≤ bytes.length) :
    let whole := decode limit (.ofSource (.ofBytes bytes .plain))
    let ended := ∀ offset, whole.1 ≠ .error (.endOfInput offset)
    (ended ∧ whole.2.source.delivered ≤ cut →
      (∀ tail manner,
        manner.chunk ≠ some 0 →
          manner.fault = none →
            observed (decode limit (.ofSource (.ofBytes (bytes.take cut ++ tail) manner))) =
              observed whole) ∧
        ∀ failure manner,
          manner.chunk ≠ some 0 →
            manner.fault = some (cut, failure) →
              observed (decode limit (.ofSource (.ofBytes bytes manner))) =
                observed whole) ∧
      (¬(ended ∧ whole.2.source.delivered ≤ cut) →
        ∃ front count back events,
          fieldLengths limit bytes = front ++ count :: back ∧
            front.sum ≤ cut ∧
            cut < front.sum + count ∧
            (∀ manner,
              manner.chunk ≠ some 0 →
                manner.fault = none →
                  observed (decode limit (.ofSource (.ofBytes (bytes.take cut) manner))) =
                    (.error (.endOfInput front.sum), front.sum, cut, events)) ∧
            ∀ failure manner,
              manner.chunk ≠ some 0 →
                manner.fault = some (cut, failure) →
                  observed (decode limit (.ofSource (.ofBytes bytes manner))) =
                    (.error (if failure.kind = .unexpectedEnd then .endOfInput front.sum
                      else .stream failure), front.sum, cut, events)) ∧
      (ended →
        whole.2.source.delivered = whole.2.consumed ∧
          whole.2.consumed = (fieldLengths limit bytes).sum) ∧
      ∀ picture,
        whole.1 = .ok picture →
          ∀ shorter,
            shorter < whole.2.consumed →
              ∃ offset,
                offset ≤ shorter ∧
                  (decode limit (.ofSource (.ofBytes (bytes.take shorter) .plain))).1 =
                    .error (.endOfInput offset) := by
  intro whole ended
  have hends := @sum_fieldLengths_le_iff limit bytes
  refine ⟨fun h => observed_decode_of_le hcut ((hends hcut).mpr h), ?_, ?_, ?_⟩
  · intro h
    have hlt := Nat.lt_of_not_le fun hle => h ((hends hcut).mp hle)
    obtain ⟨front, count, back, events, hlengths, hfront, hcount, hshort, hfails⟩ :=
      observed_decode_of_lt hcut hlt
    refine ⟨front, count, back, events, hlengths, hfront, hcount, hshort, ?_⟩
    intro failure manner hchunk hfault
    rw [hfails failure manner hchunk hfault, ofSource_eq]
  · intro hended
    obtain ⟨hdelivered, hconsumed, -⟩ := consumed_of_ended hended
    exact ⟨hdelivered, hconsumed⟩
  · intro picture hok shorter hshorter
    have hended : ended := by
      intro offset
      rw [hok]
      exact nofun
    obtain ⟨-, hconsumed, hlength⟩ := consumed_of_ended hended
    obtain ⟨front, count, back, events, -, hfront, -, hshort, -⟩ :=
      observed_decode_of_lt (Nat.le_of_lt (Nat.lt_of_lt_of_le hshorter hlength))
        (hconsumed ▸ hshorter)
    refine ⟨front.sum, hfront, ?_⟩
    exact congrArg Prod.fst (hshort .plain (by simp [Source.Manner.plain]) rfl)

def singlePixelFile : Bytes :=
  [0x47, 0x49, 0x46, 0x38, 0x39, 0x61, 1, 0, 1, 0, 0, 0, 0,
    0x2C, 0, 0, 0, 0, 1, 0, 1, 0, 0, 2, 2, 0x4C, 1, 0, 0x3B]

/-- A cut in the middle of a block of image data, shown by a source that delivers single bytes,
interrupts every other request and fails at the cut. -/
theorem decode_cut_of_data_block :
    let failed := decode (some 1) (.ofSource (.ofBytes singlePixelFile
      ⟨some 1, true, some (26, ⟨.brokenPipe, "broken pipe"⟩)⟩))
    fieldLengths (some 1) singlePixelFile =
        [3, 3, 2, 2, 1, 1, 1, 1, 2, 2, 2, 2, 1, 1, 1, 2, 1] ∧
      (decode (some 1) (.ofSource (.ofBytes (singlePixelFile.take 26) .plain))).1 =
        .error (.endOfInput 25) ∧
      failed.1 = .error (.stream ⟨.brokenPipe, "broken pipe"⟩) ∧
      failed.2.consumed = 25 ∧
      failed.2.source.delivered = 26 := by
  intro failed
  have hlengths : fieldLengths (some 1) singlePixelFile =
      [3, 3, 2, 2, 1, 1, 1, 1, 2, 2, 2, 2, 1, 1, 1, 2, 1] := by
    cbv
  have hresult : (scanFile (some 1) (singlePixelFile.take 26)).result 0 .endOfSource =
      .error (.endOfInput 25) := by
    cbv
  have hoffset := (congrArg Prod.fst
    (observed_decode_plain (some 1) (singlePixelFile.take 26))).trans hresult
  have hcut : 26 ≤ singlePixelFile.length := by decide
  obtain ⟨-, hinside, -, -⟩ := decode_cut (some 1) singlePixelFile hcut
  obtain ⟨front, count, back, events, -, -, -, hshort, hfails⟩ :=
    hinside fun h => absurd ((sum_fieldLengths_le_iff hcut).mpr h) (by rw [hlengths]; decide)
  have hplain := congrArg Prod.fst (hshort .plain (by simp [Source.Manner.plain]) rfl)
  have hsum : front.sum = 25 := by
    have hsame := hplain.symm.trans hoffset
    simpa using hsame
  have hfailed : observed failed = _ :=
    hfails ⟨.brokenPipe, "broken pipe"⟩ ⟨some 1, true, some (26, _)⟩ (by simp) rfl
  rw [hsum] at hfailed
  exact ⟨hlengths, hoffset, congrArg Prod.fst hfailed,
    congrArg (fun seen => seen.2.1) hfailed, congrArg (fun seen => seen.2.2.1) hfailed⟩

end Gif
end GifBitmap

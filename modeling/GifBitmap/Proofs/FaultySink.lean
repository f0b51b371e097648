import GifBitmap.Proofs.ConversionOrder

/-!
# What a faulty sink holds

A sink may take bytes in small pieces, refuse after a number of them, and fail at the end.
Whatever it does, it holds a front of the file, as long as its limit allows, when the encoder
returns and when it was given up; and the encoder says whether that is the whole file
(`WritesUpToLimit`).  It makes no difference in which part of the file the limit lies, whether
bytes were waiting in the buffer then, or whether a row went around the buffer.

Main facts:
* `Sink.Delivers.writesUpToLimit`: any delivery to a new sink;
* `encode_up_to_limit`: a new encoder, and a conversion.
-/

namespace GifBitmap

/-- The number of bytes that a new sink accepts of a file of the given length. -/
def Sink.Manner.reach (manner : Manner) (length : Nat) : Nat :=
  match manner.limit with
  | some limit => min limit length
  | none => length

theorem Sink.Manner.reach_of_none
    {manner : Manner}
    (h : manner.limit = none)
    (length : Nat) :
    manner.reach length = length := by
  rw [reach, h]

theorem Sink.room_empty (manner : Manner) (length : Nat) :
    (empty manner).room length = manner.reach length := by
  obtain ⟨chunk, limit, refusal, flushFailure⟩ := manner
  cases limit with
  | some limit => exact Nat.min_comm _ _
  | none => rfl

/-- Whether a new sink holds a file as far as its limit reaches, and the result says so: success
exactly if that is the whole file and its end was confirmed, else the failure of the sink. -/
structure WritesUpToLimit
    {α : Type}
    (manner : Sink.Manner)
    (file : Bytes)
    (success : α)
    (result : Except Error α)
    (held : Sink) : Prop where
  accepted_eq : held.accepted.toList = file.take (manner.reach file.length)
  ok_iff :
    result = .ok success ↔
      file.length ≤ manner.reach file.length ∧ manner.flushFailure = none
  refused :
    manner.reach file.length < file.length →
      ∃ failure, manner.Refuses failure ∧ result = .error (.stream failure)
  unconfirmed :
    file.length ≤ manner.reach file.length →
      ∀ failure, manner.flushFailure = some failure → result = .error (.stream failure)

namespace WritesUpToLimit

variable
  {α β : Type}
  {manner : Sink.Manner}
  {file : Bytes}
  {success : α}
  {result : Except Error α}
  {held : Sink}

/-- There is no other success. -/
theorem whole_of_ok
    (h : WritesUpToLimit manner file success result held)
    {value : α}
    (hok : result = .ok value) :
    file.length ≤ manner.reach file.length ∧ manner.flushFailure = none := by
  rcases Nat.lt_or_ge (manner.reach file.length) file.length with hlt | hle
  · obtain ⟨failure, -, hresult⟩ := h.refused hlt
    rw [hresult] at hok
    exact absurd hok nofun
  · refine ⟨hle, ?_⟩
    cases hflush : manner.flushFailure with
    | none => rfl
    | some failure =>
        rw [h.unconfirmed hle failure hflush] at hok
        exact absurd hok nofun

/-- A result that is made from that of a writing says the same of it. -/
theorem map
    (h : WritesUpToLimit manner file success result held)
    (f : α → β) :
    WritesUpToLimit manner file (f success) (result.map f) held := by
  refine ⟨h.accepted_eq, ⟨?_, ?_⟩, ?_, ?_⟩
  · intro hok
    cases hresult : result with
    | error cause =>
        rw [hresult] at hok
        exact absurd hok nofun
    | ok value => exact h.whole_of_ok hresult
  · intro hwhole
    rw [h.ok_iff.mpr hwhole]
    rfl
  · intro hlt
    obtain ⟨failure, hfailure, hresult⟩ := h.refused hlt
    rw [hresult]
    exact ⟨failure, hfailure, rfl⟩
  · intro hle failure hflush
    rw [h.unconfirmed hle failure hflush]
    rfl

end WritesUpToLimit

/-- A file that is delivered to a new sink is written up to the limit. -/
theorem Sink.Delivers.writesUpToLimit
    {α : Type}
    {manner : Manner}
    {file : Bytes}
    {success : α}
    {result : Except Error α}
    {held : Sink}
    (h : (empty manner).Delivers file success result held) :
    WritesUpToLimit manner file success result held := by
  obtain ⟨hheld, hrefused, hconfirmed⟩ := h
  rw [room_empty] at hrefused hconfirmed
  have hfailed : ∀ failure,
      manner.flushFailure = some failure →
        (empty manner).confirm success = .error (.stream failure) := by
    intro failure hfailure
    simp [confirm, flush, empty, hfailure]
  refine ⟨?_, ?_, hrefused, ?_⟩
  · rw [hheld, fill, room_empty, toList_accept_empty]
  · rcases Nat.lt_or_ge (manner.reach file.length) file.length with hlt | hle
    · obtain ⟨failure, -, hresult⟩ := hrefused hlt
      rw [hresult]
      exact ⟨fun h => absurd h (by simp), fun h => absurd h.1 (Nat.not_le_of_lt hlt)⟩
    · rw [hconfirmed hle]
      cases hflush : manner.flushFailure with
      | some failure =>
          rw [hfailed failure hflush]
          simp
      | none =>
          have hconfirm : (empty manner).confirm success = .ok success := by
            simp [confirm, flush, empty, hflush]
          rw [hconfirm]
          simpa using hle
  · intro hle failure hfailure
    rw [hconfirmed hle, hfailed failure hfailure]

namespace Conversion

/-- A new encoder that is given a bitmap whose file can be made, and a conversion of a picture
that can be decoded, write the file of the bitmap up to the limit of the sink.  Giving up the
encoder changes nothing of what the sink holds. -/
theorem encode_up_to_limit
    {manner : Sink.Manner}
    (hchunk : manner.chunk ≠ some 0) :
    (∀ bitmap encoding,
      Bmp.Bitmap.encode bitmap = .ok encoding →
        let run := (Bmp.Encoder.ofSink (.empty manner)).encode bitmap
        WritesUpToLimit manner bitmap.file ⟨encoding.layout, bitmap.file.length⟩ run.1
            run.2.target.sink ∧
          WritesUpToLimit manner bitmap.file ⟨encoding.layout, bitmap.file.length⟩ run.1
            run.2.close) ∧
      ∀ limit source picture rest table,
        Gif.decode limit (.ofSource source) = (.ok picture, rest) →
          picture.colorTable? = some table →
            let bitmap := bitmapOf picture table
            let outcome := convert limit source (.empty manner)
            outcome.sink = ((Bmp.Encoder.ofSink (.empty manner)).encode bitmap).2.close ∧
              WritesUpToLimit manner bitmap.file ⟨rest.consumed, bitmap.file.length⟩
                outcome.result outcome.sink := by
  constructor
  · intro bitmap encoding hencode run
    obtain ⟨hpasses, rfl⟩ := Bmp.Bitmap.encode_eq_ok_iff.mp hencode
    obtain ⟨hreturned, hclosed⟩ := Bmp.Encoder.encode_delivers (.empty manner) hpasses hchunk
    exact ⟨hreturned.writesUpToLimit, hclosed.writesUpToLimit⟩
  · intro limit source picture rest table hdecode htable bitmap outcome
    have hfits : bitmap.Fits := fits_bitmapOf picture (length_le_of_decode hdecode htable)
    obtain ⟨-, hclosed⟩ := Bmp.Encoder.encode_delivers (.empty manner) hfits.toPasses hchunk
    obtain ⟨hresult, -, hsink⟩ :=
      @convert_of_table limit source (.empty manner) _ _ _ hdecode htable
    refine ⟨hsink, ?_⟩
    rw [hresult, hsink]
    exact hclosed.writesUpToLimit.map
      fun written => (⟨rest.consumed, written.size⟩ : Statistics)

/-- A bitmap with two rows that are longer than the buffer of an encoder. -/
def longRows : Bmp.Bitmap :=
  ⟨9000, 2, Array.replicate 18000 7, ⟨[⟨10, 20, 30⟩]⟩⟩

theorem passes_longRows : longRows.Passes := by
  have hwidth : longRows.width.toNat = 9000 := by decide
  have hheight : longRows.height.toNat = 2 := by decide
  refine ⟨?_, by decide, by decide, by decide, by decide, by decide⟩
  rw [Bmp.Bitmap.pixels, hwidth, hheight]
  exact Array.size_replicate

theorem length_file_longRows : longRows.file.length = 18058 := by
  have hstride : longRows.stride = 9000 := by decide
  have hheight : longRows.height.toNat = 2 := by decide
  rw [Bmp.Bitmap.length_file passes_longRows, Bmp.Bitmap.fileSize, hstride, hheight]
  rfl

/-- A sink that takes little at a time and refuses in the first of two long rows. -/
def narrowSink : Sink.Manner :=
  ⟨some 7, some 8500, some ⟨.brokenPipe, "broken pipe"⟩, none⟩

/-- A sink that takes everything and fails at the end. -/
def unconfirmingSink : Sink.Manner :=
  ⟨some 5, none, none, some ⟨.timedOut, "timed out"⟩⟩

theorem reach_narrowSink : narrowSink.reach longRows.file.length = 8500 := by
  rw [length_file_longRows]
  rfl

/-- A sink that refuses in the first of two long rows, and one that fails when all of the largest
bitmap was written. -/
theorem encode_up_to_limit_of_long_rows :
    ((Bmp.Encoder.ofSink (.empty narrowSink)).encode longRows).1 =
        .error (.stream ⟨.brokenPipe, "broken pipe"⟩) ∧
      ((Bmp.Encoder.ofSink (.empty narrowSink)).encode longRows).2.target.sink.accepted.toList =
        longRows.file.take 8500 ∧
      ((Bmp.Encoder.ofSink (.empty narrowSink)).encode longRows).2.close.accepted.toList =
        longRows.file.take 8500 ∧
      (convert none (.ofBytes widestFile.toBytes .plain) (.empty unconfirmingSink)).result =
        .error (.stream ⟨.timedOut, "timed out"⟩) ∧
      (convert none (.ofBytes widestFile.toBytes .plain)
        (.empty unconfirmingSink)).sink.accepted.size = 4294902838 := by
  obtain ⟨hencoder, -⟩ := @encode_up_to_limit narrowSink (by simp [narrowSink])
  obtain ⟨hreturned, hclosed⟩ :=
    hencoder longRows _ (Bmp.Bitmap.encode_eq_ok_iff.mpr ⟨passes_longRows, rfl⟩)
  have hshort : narrowSink.reach longRows.file.length < longRows.file.length := by
    rw [reach_narrowSink, length_file_longRows]
    decide
  obtain ⟨rest, hdecode, -⟩ :=
    decode_widestFile (Source.steady_plain widestFile.toBytes) (List.append_nil _).symm
  obtain ⟨-, hconvert⟩ := @encode_up_to_limit unconfirmingSink (by simp [unconfirmingSink])
  obtain ⟨-, hwritten⟩ := hconvert none _ _ rest longestTable hdecode rfl
  have hreach : ∀ length, unconfirmingSink.reach length = length :=
    Sink.Manner.reach_of_none rfl
  have hlength : (bitmapOf (widestFile.picture #[1]) longestTable).file.length = 4294902838 := by
    rw [Bmp.Bitmap.length_file (fits_bitmapOf _ (Nat.le_of_eq length_longestTable)).toPasses,
      fileSize_bitmapOf, length_longestTable]
    rfl
  rw [← reach_narrowSink]
  obtain ⟨failure, hfailure, hrefused⟩ := hreturned.refused hshort
  obtain rfl : failure = ⟨.brokenPipe, "broken pipe"⟩ := hfailure
  refine ⟨hrefused, hreturned.accepted_eq, hclosed.accepted_eq, ?_, ?_⟩
  · exact hwritten.unconfirmed (Nat.le_of_eq (hreach _).symm) _ rfl
  · have hsize := congrArg List.length hwritten.accepted_eq
    rw [Array.length_toList, hreach, List.take_length, hlength] at hsize
    exact hsize

end Conversion
end GifBitmap

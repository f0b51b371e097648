import GifBitmap.Proofs.Bmp.Delivery

/-!
# Many files through one encoder

An encoder checks a bitmap before it writes the first byte, so a bitmap that is refused leaves
no trace.  Behind a file that was written nothing waits in the buffer.  So, whatever bitmaps it
was given, an encoder is the one it was at the start, except that its sink has accepted the
files of those that were not refused (`Encoder.behind`).

Main facts, for a sink that accepts all that it is offered:
* `Bitmap.cause_of_encode`: the failures of the checks;
* `Encoder.encode_of_idle`, `Encoder.encodeAll_of_idle`: one bitmap, and any number of them;
* `Encoder.encodeAll_reused`: the results and the output of a run, by those of new encoders.
-/

namespace GifBitmap

/-- A composed computation fails where its first part does, or else where the second does. -/
theorem cause_of_bind
    {ε α β : Type}
    {first : Except ε α}
    {next : α → Except ε β}
    {cause : ε}
    (h : first >>= next = .error cause) :
    first = .error cause ∨ ∃ found, first = .ok found ∧ next found = .error cause := by
  cases first with
  | error other => exact .inl (congrArg Except.error (Except.error.inj h))
  | ok found => exact .inr ⟨found, rfl, h⟩

namespace Bmp

theorem Layout.cause_of_field
    {failure cause : Error}
    {value : Nat}
    (h : field failure value = .error cause) :
    cause = failure := by
  rw [field] at h
  split at h
  · exact absurd h (by simp)
  · exact (Except.error.inj h).symm

theorem Layout.cause_of_ofSizes
    {width height : UInt32}
    {colors : Nat}
    {cause : Error}
    (h : ofSizes width height colors = .error cause) :
    cause = .numberOutOfRange := by
  rcases cause_of_bind h with hfield | ⟨stored, -, hlayout⟩
  · exact cause_of_field hfield
  · exact absurd hlayout nofun

theorem Layout.cause_of_pixelOffset
    {layout : Layout}
    {cause : Error}
    (h : layout.pixelOffset = .error cause) :
    cause = .tooLarge := by
  rw [pixelOffset_eq] at h
  split at h
  · exact absurd h nofun
  · exact (Except.error.inj h).symm

theorem Layout.cause_of_fileSize
    {layout : Layout}
    {cause : Error}
    (h : layout.fileSize = .error cause) :
    cause = .numberOutOfRange ∨ cause = .tooLarge := by
  rcases cause_of_bind h with hoffset | ⟨offset, -, h⟩
  · exact .inr (cause_of_pixelOffset hoffset)
  · rcases cause_of_bind h with hrows | ⟨rows, -, hsize⟩
    · rw [pixelArraySize_eq] at hrows
      split at hrows
      · exact .inr (cause_of_field hrows)
      · exact .inl (Except.error.inj hrows).symm
    · rw [sum_eq] at hsize
      exact .inr (cause_of_field hsize)

theorem cause_of_signedField
    {value : UInt32}
    {cause : Error}
    (h : signedField value = .error cause) :
    cause = .numberOutOfRange := by
  rw [signedField] at h
  split at h
  · exact absurd h (by simp)
  · exact (Except.error.inj h).symm

namespace Bitmap

variable {bitmap : Bitmap}

/-- Whether a failure is one of the checks before the writing. -/
def IsRefusal (cause : Error) : Prop :=
  cause = .stream .indexCountMismatch ∨ cause = .numberOutOfRange ∨ cause = .tooLarge

/-- A bitmap is refused for the number of its indices or for a size. -/
theorem cause_of_encode
    {cause : Error}
    (h : bitmap.encode = .error cause) :
    IsRefusal cause := by
  rcases cause_of_bind h with hlayout | ⟨layout, -, h⟩
  · exact .inr (.inl (Layout.cause_of_ofSizes hlayout))
  · split at h
    · rcases cause_of_bind h with hsize | ⟨size, -, h⟩
      · exact .inr (Layout.cause_of_fileSize hsize)
      rcases cause_of_bind h with hoffset | ⟨offset, -, h⟩
      · exact .inr (.inr (Layout.cause_of_pixelOffset hoffset))
      rcases cause_of_bind h with hwidth | ⟨width, -, h⟩
      · exact .inr (.inl (cause_of_signedField hwidth))
      rcases cause_of_bind h with hheight | ⟨height, -, h⟩
      · exact .inr (.inl (cause_of_signedField hheight))
      · exact absurd h nofun
    · exact .inl (Except.error.inj h).symm

/-- What an encoder answers, when its sink accepts all. -/
def answer (bitmap : Bitmap) : Except Error Written :=
  bitmap.encode.map fun encoding => ⟨encoding.layout, encoding.bytes.length⟩

/-- What an encoder adds to a sink that accepts all: nothing, if the bitmap is refused. -/
def output (bitmap : Bitmap) : Bytes :=
  match bitmap.encode with
  | .error _ => []
  | .ok encoding => encoding.bytes

theorem answer_of_error
    {cause : Error}
    (h : bitmap.encode = .error cause) :
    bitmap.answer = .error cause := by
  rw [answer, h]
  rfl

theorem output_of_error
    {cause : Error}
    (h : bitmap.encode = .error cause) :
    bitmap.output = [] := by
  rw [output, h]

theorem answer_of_passes (hpasses : bitmap.Passes) :
    bitmap.answer = .ok ⟨bitmap.layout, bitmap.file.length⟩ := by
  rw [answer, encode_eq_ok_iff.mpr ⟨hpasses, rfl⟩, ← bytes_encoding_eq_file hpasses]
  rfl

theorem output_of_passes (hpasses : bitmap.Passes) : bitmap.output = bitmap.file := by
  rw [output, encode_eq_ok_iff.mpr ⟨hpasses, rfl⟩]
  exact bytes_encoding_eq_file hpasses

/-- The number that is given back is that of the bytes added. -/
theorem size_of_answer
    {written : Written}
    (h : bitmap.answer = .ok written) :
    written.size = bitmap.output.length := by
  cases hencode : bitmap.encode with
  | error cause =>
      rw [answer_of_error hencode] at h
      exact absurd h nofun
  | ok encoding =>
      rw [answer, hencode] at h
      obtain rfl := Except.ok.inj h
      rw [output, hencode]

theorem encode_of_answer
    {cause : Error}
    (h : bitmap.answer = .error cause) :
    bitmap.encode = .error cause := by
  cases hencode : bitmap.encode with
  | error found =>
      rw [answer_of_error hencode] at h
      rw [Except.error.inj h]
  | ok encoding =>
      rw [answer, hencode] at h
      exact absurd h nofun

end Bitmap

namespace Encoder

variable {encoder : Encoder} {bitmap : Bitmap}

/-- Whether nothing waits in an encoder, and its sink accepts all that it is offered. -/
structure Idle (encoder : Encoder) : Prop where
  waiting_eq : encoder.target.waiting = []
  acceptsAll : encoder.target.sink.manner.AcceptsAll

/-- The encoder after its sink has accepted some bytes and nothing waits. -/
def behind (encoder : Encoder) (bytes : Bytes) : Encoder :=
  ⟨encoder.target.passing bytes []⟩

theorem idle_ofSink
    {manner : Sink.Manner}
    (haccepts : manner.AcceptsAll) :
    (ofSink (.empty manner)).Idle :=
  ⟨rfl, haccepts⟩

theorem Idle.behind (hidle : encoder.Idle) (bytes : Bytes) : (encoder.behind bytes).Idle :=
  ⟨rfl, hidle.acceptsAll⟩

theorem behind_nil (hidle : encoder.Idle) : encoder.behind [] = encoder := by
  obtain ⟨⟨sink, count, waiting, capacity⟩⟩ := encoder
  obtain rfl : waiting = [] := hidle.waiting_eq
  rfl

theorem behind_behind (encoder : Encoder) (first second : Bytes) :
    (encoder.behind first).behind second = encoder.behind (first ++ second) := by
  simp only [behind, BufferedSink.passing, Sink.accept_accept, List.length_append, Nat.add_assoc]

theorem close_behind (encoder : Encoder) (bytes : Bytes) :
    (encoder.behind bytes).close = encoder.target.sink.accept bytes :=
  BufferedSink.close_of_empty rfl

/-- One bitmap leaves an idle encoder as it was, behind the bytes of its file. -/
theorem encode_of_idle (hidle : encoder.Idle) (bitmap : Bitmap) :
    encoder.encode bitmap = (bitmap.answer, encoder.behind bitmap.output) := by
  cases hencode : bitmap.encode with
  | error cause =>
      rw [Bitmap.answer_of_error hencode, Bitmap.output_of_error hencode, behind_nil hidle,
        encode, hencode]
  | ok encoding =>
      obtain ⟨hpasses, rfl⟩ := Bitmap.encode_eq_ok_iff.mp hencode
      rw [Bitmap.answer_of_passes hpasses, Bitmap.output_of_passes hpasses]
      exact encode_of_acceptsAll hidle.waiting_eq hidle.acceptsAll hpasses

/-- Any number of bitmaps leave an idle encoder as it was, behind the bytes of their files. -/
theorem encodeAll_of_idle (hidle : encoder.Idle) (bitmaps : List Bitmap) :
    encoder.encodeAll bitmaps =
      (bitmaps.map Bitmap.answer, encoder.behind (bitmaps.flatMap Bitmap.output)) := by
  induction bitmaps generalizing encoder with
  | nil => rw [encodeAll, List.flatMap_nil, behind_nil hidle, List.map_nil]
  | cons bitmap bitmaps ih =>
      rw [encodeAll, encode_of_idle hidle]
      dsimp only
      rw [ih (hidle.behind bitmap.output), behind_behind, List.map_cons, List.flatMap_cons]

/-- The numbers that a run gives back add up to the number of bytes added. -/
theorem sum_sizes (bitmaps : List Bitmap) :
    (((bitmaps.map Bitmap.answer).filterMap Except.toOption).map Written.size).sum =
      (bitmaps.flatMap Bitmap.output).length := by
  induction bitmaps with
  | nil => rfl
  | cons bitmap bitmaps ih =>
      rw [List.map_cons, List.flatMap_cons, List.length_append, ← ih]
      cases hanswer : bitmap.answer with
      | error cause =>
          rw [Bitmap.output_of_error (Bitmap.encode_of_answer hanswer), List.length_nil,
            Nat.zero_add]
          rfl
      | ok written =>
          rw [← Bitmap.size_of_answer hanswer]
          rfl

/-- Bitmaps that are refused add nothing, so they can be left out. -/
theorem flatMap_output_filter (bitmaps : List Bitmap) :
    (bitmaps.filter fun bitmap => bitmap.answer.isOk).flatMap Bitmap.output =
      bitmaps.flatMap Bitmap.output := by
  induction bitmaps with
  | nil => rfl
  | cons bitmap bitmaps ih =>
      rw [List.filter_cons, List.flatMap_cons]
      cases hanswer : bitmap.answer with
      | error cause =>
          rw [Bitmap.output_of_error (Bitmap.encode_of_answer hanswer), List.nil_append]
          exact ih
      | ok written =>
          have hok : (Except.ok written : Except Error Written).isOk = true := rfl
          rw [if_pos hok, List.flatMap_cons, ih]

/-- An encoder whose sink accepts all is as good as new for every bitmap, whatever it was given
before.

A bitmap that passes the checks is written as its file, and any other one is refused by a check.
Those for which the headers overflow pass, and are written like all others.  Each result of a run
is that of a new encoder.  The output is made up of the outputs of new encoders for the
bitmaps that were not refused, and the numbers that were given back add up to its length.  A
bitmap that is refused leaves the encoder as it was, and makes no difference to those behind
it. -/
theorem encodeAll_reused
    {manner : Sink.Manner}
    (haccepts : manner.AcceptsAll) :
    let new := ofSink (.empty manner)
    let single : Bitmap → Except Error Written × Encoder := new.encode
    (∀ bitmap,
      (bitmap.Passes →
        (single bitmap).1 = .ok ⟨bitmap.layout, bitmap.file.length⟩ ∧
          (single bitmap).2.target.sink.accepted.toList = bitmap.file) ∧
        (¬bitmap.Passes → ∃ cause, Bitmap.IsRefusal cause ∧ single bitmap = (.error cause, new))) ∧
      (∀ bitmaps,
        let run := new.encodeAll bitmaps
        let written := bitmaps.filter fun bitmap => (single bitmap).1.isOk
        run.1 = bitmaps.map (fun bitmap => (single bitmap).1) ∧
          run.2.target.sink.accepted.toList =
            written.flatMap (fun bitmap => (single bitmap).2.target.sink.accepted.toList) ∧
          run.2.close = run.2.target.sink ∧
          ((run.1.filterMap Except.toOption).map Written.size).sum =
            run.2.target.sink.accepted.size) ∧
      ∀ before bitmap after cause,
        let used := (new.encodeAll before).2
        (used.encode bitmap).1 = .error cause →
          Bitmap.IsRefusal cause ∧
            (used.encode bitmap).2 = used ∧
            used.encodeAll (bitmap :: after) =
              (.error cause :: (used.encodeAll after).1, (used.encodeAll after).2) := by
  intro new single
  have hidle : new.Idle := idle_ofSink haccepts
  have hsingle : ∀ bitmap, single bitmap = (bitmap.answer, new.behind bitmap.output) :=
    encode_of_idle hidle
  have haccepted : ∀ bytes, (new.behind bytes).target.sink.accepted.toList = bytes :=
    Sink.toList_accept_empty manner
  refine ⟨?_, ?_, ?_⟩
  · intro bitmap
    rw [hsingle]
    constructor
    · intro hpasses
      exact ⟨Bitmap.answer_of_passes hpasses,
        (haccepted bitmap.output).trans (Bitmap.output_of_passes hpasses)⟩
    · intro hfails
      cases hencode : bitmap.encode with
      | ok encoding => exact absurd (Bitmap.encode_eq_ok_iff.mp hencode).1 hfails
      | error cause =>
          rw [Bitmap.answer_of_error hencode, Bitmap.output_of_error hencode, behind_nil hidle]
          exact ⟨cause, Bitmap.cause_of_encode hencode, rfl⟩
  · intro bitmaps run written
    have hrun : run = (bitmaps.map Bitmap.answer, new.behind (bitmaps.flatMap Bitmap.output)) :=
      encodeAll_of_idle hidle bitmaps
    have hwritten : written = bitmaps.filter fun bitmap => bitmap.answer.isOk := by
      simp only [written, hsingle]
    rw [hrun, hwritten]
    refine ⟨?_, ?_, new.close_behind _, ?_⟩
    · simp only [hsingle]
    · simp only [hsingle, haccepted]
      exact (flatMap_output_filter bitmaps).symm
    · rw [sum_sizes, ← Array.length_toList, haccepted]
  · intro before bitmap after cause used herror
    have hused : used = new.behind (before.flatMap Bitmap.output) :=
      congrArg Prod.snd (encodeAll_of_idle hidle before)
    have hidle' : used.Idle := hused ▸ hidle.behind _
    rw [encode_of_idle hidle'] at herror
    have hencode := Bitmap.encode_of_answer herror
    have hbehind : (used.encode bitmap).2 = used := by
      rw [encode_of_idle hidle', Bitmap.output_of_error hencode, behind_nil hidle']
    refine ⟨Bitmap.cause_of_encode hencode, hbehind, ?_⟩
    have hresult : (used.encode bitmap).1 = .error cause := by
      rw [encode_of_idle hidle']
      exact herror
    rw [encodeAll, hbehind, hresult]

/-- Four bitmaps to a sink that takes three bytes at once: the second lacks an index, and the third
is too wide for a signed field. -/
theorem encodeAll_reused_behind_refusals :
    let pixel : Bitmap := ⟨1, 1, #[0], ⟨[⟨1, 2, 3⟩]⟩⟩
    let run := (ofSink (.empty ⟨some 3, none, none, none⟩)).encodeAll
      [pixel, ⟨2, 1, #[0], ⟨[]⟩⟩, ⟨0x80000000, 0, #[], ⟨[]⟩⟩, pixel]
    run.1 =
        [.ok ⟨pixel.layout, 62⟩, .error (.stream .indexCountMismatch), .error .numberOutOfRange,
          .ok ⟨pixel.layout, 62⟩] ∧
      run.2.close.accepted.toList = pixel.file ++ pixel.file := by
  intro pixel run
  have hpasses : pixel.Passes := ⟨rfl, by decide, by decide, by decide, by decide, by decide⟩
  have hshort : Bitmap.encode ⟨2, 1, #[0], ⟨[]⟩⟩ = .error (.stream .indexCountMismatch) := rfl
  have hwide : Bitmap.encode ⟨0x80000000, 0, #[], ⟨[]⟩⟩ = .error .numberOutOfRange := rfl
  obtain ⟨hsingle, hrun, -⟩ :=
    @encodeAll_reused ⟨some 3, none, none, none⟩ ⟨by decide, rfl, rfl⟩
  obtain ⟨hresult, haccepted⟩ := (hsingle pixel).1 hpasses
  obtain ⟨hresults, houtput, hclose, -⟩ :=
    hrun [pixel, ⟨2, 1, #[0], ⟨[]⟩⟩, ⟨0x80000000, 0, #[], ⟨[]⟩⟩, pixel]
  have hlength : pixel.file.length = 62 := (Bitmap.length_file hpasses).trans (by decide)
  rw [hlength] at hresult
  have hrefused : ∀ {bitmap cause},
      Bitmap.encode bitmap = .error cause →
        ((ofSink (.empty ⟨some 3, none, none, none⟩)).encode bitmap).1 = .error cause := by
    intro bitmap cause h
    rw [encode, h]
  constructor
  · rw [hresults]
    simp only [List.map_cons, List.map_nil, hresult, hrefused hshort, hrefused hwide]
  · rw [hclose, houtput]
    simp only [List.filter_cons, List.filter_nil, hresult, hrefused hshort, hrefused hwide,
      Except.isOk, Except.toBool, Bool.false_eq_true, if_true, if_false, List.flatMap_cons,
      List.flatMap_nil, haccepted, List.append_nil]

end Encoder
end Bmp
end GifBitmap

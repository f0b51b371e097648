import Mathlib.Algebra.Ring.Nat
import GifBitmap.Bmp.Encoder
import GifBitmap.Proofs.Bmp.Format
import GifBitmap.Proofs.Buffering

/-!
# Handing a file to a sink

A file goes through the buffer of an encoder part by part.  Whatever the sink is like, it holds
the whole file when the encoder succeeds.  If its chunk is not zero, how the delivery ends and
which bytes of the file the sink holds afterwards follows from the room that it has
(`Sink.Delivers`): when the encoder returns, and when it was given up.

Main facts:
* `Bitmap.flatten_parts`: the parts of a file make up the file;
* `Encoder.accepted_of_encode`, `Encoder.failure_of_encode`: a bitmap that is written to any sink;
* `Encoder.encode_of_acceptsAll`: one that is written to a sink that accepts all;
* `Encoder.deliver_of_le`, `Encoder.delivers`: the delivery through an empty buffer, to a sink
  whose chunk is not zero.
-/

namespace GifBitmap

/-- The result when a sink has all of a file: success, unless it fails at the end. -/
def Sink.confirm {α : Type} (sink : Sink) (success : α) : Except Error α :=
  match sink.flush with
  | .error failure => .error (.stream failure)
  | .ok () => .ok success

/-- Whether a sink accepts all that it is offered, in pieces of any lengths. -/
structure Sink.Manner.AcceptsAll (manner : Manner) : Prop where
  chunk_ne : manner.chunk ≠ some 0
  limit_eq : manner.limit = none
  flushFailure_eq : manner.flushFailure = none

theorem Sink.room_of_acceptsAll
    {sink : Sink}
    (haccepts : sink.manner.AcceptsAll)
    (most : Nat) :
    sink.room most = most := by
  rw [room, haccepts.limit_eq]

theorem Sink.confirm_of_acceptsAll
    {α : Type}
    {sink : Sink}
    (haccepts : sink.manner.AcceptsAll)
    (success : α) :
    sink.confirm success = .ok success := by
  rw [confirm, flush, haccepts.flushFailure_eq]

/-- Whether a sink was given a file and holds as much of it as it has room for, and the result
says so. -/
structure Sink.Delivers
    {α : Type}
    (sink : Sink)
    (file : Bytes)
    (success : α)
    (result : Except Error α)
    (held : Sink) : Prop where
  held_eq : held = sink.fill file
  refused :
    sink.room file.length < file.length →
      ∃ failure, sink.manner.Refuses failure ∧ result = .error (.stream failure)
  confirmed :
    file.length ≤ sink.room file.length → result = sink.confirm success

namespace Bmp

theorem flatten_cutInto (lengths : List Nat) (bytes : Bytes) :
    (cutInto lengths bytes).flatten = bytes.take lengths.sum := by
  induction lengths generalizing bytes with
  | nil => rfl
  | cons length lengths ih =>
      rw [cutInto, List.flatten_cons, ih, List.sum_cons, List.take_add]

/-- A file is made up of its parts. -/
theorem Encoding.flatten_parts
    (encoding : Encoding)
    (h : encoding.layout.partLengths.sum = encoding.bytes.length) :
    encoding.parts.flatten = encoding.bytes := by
  rw [parts, flatten_cutInto, h, List.take_length]

/-- A row takes up its stride together with its filling. -/
theorem Layout.width_add_rowPadding (layout : Layout) :
    layout.width.toNat + layout.rowPadding = layout.rowStride :=
  Nat.add_sub_cancel' layout.width_le_rowStride

/-- Also where rows are left out because they are empty, all of them are counted. -/
theorem Layout.sum_rowLengths (layout : Layout) :
    layout.rowLengths.sum = layout.height.toNat * layout.rowStride := by
  rw [rowLengths]
  split
  · rename_i hnone
    rcases Nat.mul_eq_zero.mp hnone with hwidth | hheight
    · rw [rowStride_eq, hwidth]
      rfl
    · rw [hheight, Nat.zero_mul]
      rfl
  · rw [List.sum_flatten, List.map_replicate, List.sum_replicate_nat, List.sum_cons,
      List.sum_singleton, width_add_rowPadding]

/-- The parts of a bitmap's file make up the file. -/
theorem Bitmap.flatten_parts {bitmap : Bitmap} (hpasses : bitmap.Passes) :
    bitmap.encoding.parts.flatten = bitmap.encoding.bytes := by
  have hrows : bitmap.layout.rowLengths.sum = bitmap.height.toNat * bitmap.stride := by
    rw [Layout.sum_rowLengths, Bitmap.rowStride_eq]
    rfl
  have hlength : bitmap.encoding.bytes.length =
      54 + 4 * bitmap.table.length + bitmap.height.toNat * bitmap.stride := by
    rw [bytes_encoding_eq_file hpasses, length_file hpasses]
    rfl
  apply Encoding.flatten_parts
  change bitmap.layout.partLengths.sum = _
  rw [Layout.partLengths, List.sum_cons, List.sum_cons, List.sum_cons, hrows, hlength,
    hpasses.toNat_colors, fileHeaderSize, infoHeaderSize, colorEntrySize]
  omega

namespace Encoder

variable {encoder : Encoder}

/-- A file that goes through an empty buffer, to whatever sink: the sink fails, or it holds the
whole file. -/
theorem deliver_cases
    {encoding : Encoding}
    (hempty : encoder.target.waiting = [])
    (hparts : encoding.parts.flatten = encoding.bytes) :
    (∃ failure last,
      encoder.deliver encoding = (.error (.stream failure), last) ∧
        encoder.target.sink.Raises failure) ∨
      ∃ last,
        encoder.deliver encoding = (.ok ⟨encoding.layout, encoding.bytes.length⟩, last) ∧
          last.target.waiting = [] ∧
          last.target.sink.accepted.toList =
            encoder.target.sink.accepted.toList ++ encoding.bytes := by
  have hput := encoder.target.ends_putAll encoding.parts
  rw [hparts] at hput
  obtain ⟨⟨result, next⟩, hnext⟩ : ∃ outcome, encoder.target.putAll encoding.parts = outcome :=
    ⟨_, rfl⟩
  rw [hnext] at hput
  rw [deliver, hnext]
  cases result with
  | error failure => exact .inl ⟨failure, _, rfl, hput⟩
  | ok =>
      have hgains : encoder.target.Gains encoding.bytes next := hput
      dsimp only
      rcases next.flush_cases with ⟨failure, last, hlast, hraises⟩ | ⟨last, hlast, hflush, hnone⟩
      · rw [Sink.Raises, hgains.manner_eq] at hraises
        rw [hlast]
        exact .inl ⟨failure, _, rfl, hraises⟩
      · have hwhole := hgains.trans hflush
        have haccepted := hwhole.contents_eq
        rw [BufferedSink.contents, BufferedSink.contents, hempty, hnone, List.append_nil,
          List.append_nil, List.append_nil] at haccepted
        have hcount := hwhole.count_eq
        have hsize := congrArg List.length haccepted
        rw [List.length_append, Array.length_toList, Array.length_toList] at hsize
        have hwritten : last.count - encoder.target.count = encoding.bytes.length := by omega
        rw [hlast]
        dsimp only
        rw [hwritten]
        exact .inr ⟨⟨last⟩, rfl, hnone, haccepted⟩

/-- A file for which the sink has room goes through an empty buffer as a whole, and the buffer is
empty behind it. -/
theorem deliver_of_le
    {encoding : Encoding}
    (hempty : encoder.target.waiting = [])
    (hchunk : encoder.target.sink.manner.chunk ≠ some 0)
    (hparts : encoding.parts.flatten = encoding.bytes)
    (hroom : encoding.bytes.length ≤ encoder.target.sink.room encoding.bytes.length) :
    encoder.deliver encoding =
      (encoder.target.sink.confirm ⟨encoding.layout, encoding.bytes.length⟩,
        ⟨encoder.target.passing encoding.bytes []⟩) := by
  obtain ⟨start, hstart⟩ : ∃ start, start = encoder.target := ⟨_, rfl⟩
  rw [← hstart] at hempty hchunk hroom ⊢
  have hput := BufferedSink.putAll_cases hchunk (BufferedSink.follows_self hempty) encoding.parts
  rw [List.nil_append, hparts] at hput
  rcases hput with ⟨failure, next, -, -, hstopped⟩ | ⟨next, hnext, hfollows⟩
  · exact absurd hroom (Nat.not_le_of_lt hstopped.1)
  · obtain ⟨-, haccepted⟩ := BufferedSink.flush_of_follows hchunk hfollows
    have hcount : (start.passing encoding.bytes []).count - start.count =
        encoding.bytes.length :=
      Nat.add_sub_cancel_left _ _
    rw [deliver, ← hstart, hnext]
    dsimp only
    rw [haccepted hroom, Sink.confirm]
    cases start.sink.flush with
    | error failure => rfl
    | ok =>
        dsimp only
        rw [hcount]

/-- A file that goes through an empty buffer: when the encoder returns, and when it was given
up. -/
theorem delivers
    {encoding : Encoding}
    (hempty : encoder.target.waiting = [])
    (hchunk : encoder.target.sink.manner.chunk ≠ some 0)
    (hparts : encoding.parts.flatten = encoding.bytes) :
    let run := encoder.deliver encoding
    let success : Written := ⟨encoding.layout, encoding.bytes.length⟩
    encoder.target.sink.Delivers encoding.bytes success run.1 run.2.target.sink ∧
      encoder.target.sink.Delivers encoding.bytes success run.1 run.2.close := by
  intro run success
  have hrun : run = encoder.deliver encoding := rfl
  rcases Nat.lt_or_ge (encoder.target.sink.room encoding.bytes.length) encoding.bytes.length with
    hlt | hle
  · have hshort : ¬encoding.bytes.length ≤ encoder.target.sink.room encoding.bytes.length :=
      Nat.not_le_of_lt hlt
    have hput :=
      BufferedSink.putAll_cases hchunk (BufferedSink.follows_self hempty) encoding.parts
    rw [List.nil_append, hparts] at hput
    -- The sink refuses in some part or at the end, and is full then.
    obtain ⟨failure, last, hlast, hfailure, hstopped⟩ : ∃ failure last,
        run = (.error (.stream failure), last) ∧
          encoder.target.sink.manner.Refuses failure ∧
          BufferedSink.Stopped encoder.target encoding.bytes last.target := by
      rw [hrun, deliver]
      rcases hput with ⟨failure, next, hnext, hfailure, hstopped⟩ | ⟨next, hnext, hfollows⟩
      · rw [hnext]
        exact ⟨failure, ⟨next⟩, rfl, hfailure, hstopped⟩
      · obtain ⟨hrefused, -⟩ := BufferedSink.flush_of_follows hchunk hfollows
        obtain ⟨failure, last, hlast, hfailure, hstopped⟩ := hrefused hlt
        rw [hnext]
        dsimp only
        rw [hlast]
        exact ⟨failure, ⟨last⟩, rfl, hfailure, hstopped⟩
    rw [hlast]
    exact ⟨⟨hstopped.2, fun _ => ⟨failure, hfailure, rfl⟩, fun hle => absurd hle hshort⟩,
      BufferedSink.close_of_stopped hchunk hstopped, fun _ => ⟨failure, hfailure, rfl⟩,
      fun hle => absurd hle hshort⟩
  · have hlong : ¬encoder.target.sink.room encoding.bytes.length < encoding.bytes.length :=
      Nat.not_lt_of_le hle
    have hfill : encoder.target.sink.accept encoding.bytes =
        encoder.target.sink.fill encoding.bytes :=
      (Sink.fill_of_le hle).symm
    have hclose : (encoder.target.passing encoding.bytes []).close =
        encoder.target.sink.fill encoding.bytes :=
      (BufferedSink.close_of_empty rfl).trans hfill
    rw [hrun, deliver_of_le hempty hchunk hparts hle]
    exact ⟨⟨hfill, fun hlt => absurd hlt hlong, fun _ => rfl⟩,
      hclose, fun hlt => absurd hlt hlong, fun _ => rfl⟩

variable {bitmap : Bitmap} {sink : Sink} {last : Encoder}

theorem encode_eq_deliver
    (hpasses : bitmap.Passes)
    (encoder : Encoder) :
    encoder.encode bitmap = encoder.deliver bitmap.encoding := by
  rw [encode, Bitmap.encode_eq_ok_iff.mpr ⟨hpasses, rfl⟩]

/-- A bitmap that passes the checks goes through an empty buffer as a whole, if the sink accepts
all. -/
theorem encode_of_acceptsAll
    (hempty : encoder.target.waiting = [])
    (haccepts : encoder.target.sink.manner.AcceptsAll)
    (hpasses : bitmap.Passes) :
    encoder.encode bitmap =
      (.ok ⟨bitmap.layout, bitmap.file.length⟩, ⟨encoder.target.passing bitmap.file []⟩) := by
  have hroom := Sink.room_of_acceptsAll haccepts bitmap.encoding.bytes.length
  rw [encode_eq_deliver hpasses, deliver_of_le hempty haccepts.chunk_ne
    (Bitmap.flatten_parts hpasses) (Nat.le_of_eq hroom.symm), Sink.confirm_of_acceptsAll haccepts,
    Bitmap.bytes_encoding_eq_file hpasses]
  rfl

/-- When a new encoder succeeds, the bitmap has passed the checks, and the sink holds its file. -/
theorem accepted_of_encode
    {written : Written}
    (h : (ofSink sink).encode bitmap = (.ok written, last)) :
    bitmap.Passes ∧
      written = ⟨bitmap.layout, bitmap.file.length⟩ ∧
      last.target.sink.accepted.toList = sink.accepted.toList ++ bitmap.file ∧
      last.close = last.target.sink := by
  have hpasses : bitmap.Passes := by
    cases hencode : bitmap.encode with
    | ok encoding => exact (Bitmap.encode_eq_ok_iff.mp hencode).1
    | error cause =>
        rw [encode, hencode] at h
        exact absurd (congrArg Prod.fst h) nofun
  have hcases := @deliver_cases (ofSink sink) _ rfl (Bitmap.flatten_parts hpasses)
  rw [encode_eq_deliver hpasses] at h
  rw [h, Bitmap.bytes_encoding_eq_file hpasses] at hcases
  rcases hcases with ⟨failure, next, hnext, -⟩ | ⟨next, hnext, hnone, haccepted⟩
  · exact absurd (congrArg Prod.fst hnext) nofun
  · obtain ⟨hwritten, rfl⟩ := Prod.mk.inj hnext
    exact ⟨hpasses, Except.ok.inj hwritten, haccepted, BufferedSink.close_of_empty hnone⟩

/-- A new encoder that is given a bitmap which passes the checks fails only where the sink does. -/
theorem failure_of_encode
    {cause : Error}
    (hpasses : bitmap.Passes)
    (h : (ofSink sink).encode bitmap = (.error cause, last)) :
    ∃ failure, cause = .stream failure ∧ sink.Raises failure := by
  have hcases := @deliver_cases (ofSink sink) _ rfl (Bitmap.flatten_parts hpasses)
  rw [encode_eq_deliver hpasses] at h
  rw [h] at hcases
  rcases hcases with ⟨failure, next, hnext, hraises⟩ | ⟨next, hnext, -⟩
  · exact ⟨failure, Except.error.inj (congrArg Prod.fst hnext), hraises⟩
  · exact absurd (congrArg Prod.fst hnext) nofun

/-- A bitmap whose file can be made goes through a new encoder as a whole. -/
theorem encode_delivers
    (sink : Sink)
    (hpasses : bitmap.Passes)
    (hchunk : sink.manner.chunk ≠ some 0) :
    let run := (ofSink sink).encode bitmap
    let success : Written := ⟨bitmap.layout, bitmap.file.length⟩
    sink.Delivers bitmap.file success run.1 run.2.target.sink ∧
      sink.Delivers bitmap.file success run.1 run.2.close := by
  have hdelivers :=
    @delivers (ofSink sink) bitmap.encoding rfl hchunk (Bitmap.flatten_parts hpasses)
  rw [Bitmap.bytes_encoding_eq_file hpasses] at hdelivers
  rw [encode_eq_deliver hpasses]
  exact hdelivers

end Encoder
end Bmp
end GifBitmap

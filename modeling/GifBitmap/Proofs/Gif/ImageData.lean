import GifBitmap.Proofs.Gif.File
import GifBitmap.Proofs.Lzw.History
import GifBitmap.Proofs.Lzw.RoundTrip

/-!
# Image data in blocks

The blocks of image data are decompressed one after the other, and those behind the end
code not at all.  When all of them together are decompressed without a failure, none of this
can be seen: the indices are those of the whole, up to the number of pixels.
-/

namespace GifBitmap

namespace Lzw
namespace Decompressor

/-- Indices that are in the buffer stay in front. -/
theorem take_decompress
    {count : Nat}
    {buffer : Array UInt8}
    (h : count ≤ buffer.size)
    (decompressor : Decompressor)
    (bytes : Bytes) :
    (decompressor.decompress bytes buffer).buffer.take count = buffer.take count := by
  obtain ⟨indices, hindices⟩ := decompressor.exists_buffer_eq bytes buffer
  rw [hindices]
  apply Array.ext'
  simp only [Array.take_eq_extract, Array.toList_extract, List.extract_eq_take_drop,
    Nat.sub_zero, Array.toList_appendList, List.drop_zero]
  exact List.take_append_of_le_length h

/-- Whether all codes were taken from the bytes given so far. -/
def IsDrained (decompressor : Decompressor) (buffer : Array UInt8) : Prop :=
  decompressor.decompress [] buffer = ⟨none, decompressor, buffer⟩

theorem isDrained_initial (size : CodeSize) (buffer : Array UInt8) :
    (initial size).IsDrained buffer := by
  have hwidth := (initial size).expander.width.pos
  have hunpack : (initial size).pending.unpack (initial size).expander.width [] =
      (none, (initial size).pending, []) :=
    if_neg (Nat.not_le_of_lt hwidth)
  have hopen : ¬(initial size).isDone = true := Bool.false_ne_true
  rw [IsDrained, decompress, if_neg hopen, hunpack]

/-- Every piece of input that is decompressed without a failure is used up. -/
theorem isDrained_of_decompress
    {decompressor following : Decompressor}
    {bytes : Bytes}
    {buffer longer : Array UInt8}
    (h : decompressor.decompress bytes buffer = ⟨none, following, longer⟩) :
    following.IsDrained longer := by
  have hnothing := decompress_append decompressor bytes [] buffer
  rw [List.append_nil, h] at hnothing
  exact hnothing.symm

end Decompressor
end Lzw

namespace Gif

/-- Blocks that are decompressed at once without a failure lead to the same indices one by
one, up to the number of pixels. -/
theorem decodeBlocks_of_decompress
    {pixels : Nat}
    {decompressor last : Lzw.Decompressor}
    {buffer indices : Array UInt8}
    {blocks : List Bytes}
    (hdrained : decompressor.IsDrained buffer)
    (hwhole : decompressor.decompress blocks.flatten buffer = ⟨none, last, indices⟩) :
    decodeBlocks pixels decompressor buffer blocks = .ok (indices.take pixels) := by
  induction blocks generalizing decompressor buffer with
  | nil =>
      have hsame : buffer = indices := congrArg (·.buffer) (hdrained.symm.trans hwhole)
      rw [decodeBlocks, hsame]
  | cons block blocks ih =>
      rw [decodeBlocks]
      by_cases hstop : decompressor.isDone = true ∨ pixels < buffer.size
      · rw [if_pos hstop]
        rcases hstop with hdone | hlt
        · rw [Lzw.Decompressor.decompress_of_isDone hdone] at hwhole
          have hsame : buffer = indices := congrArg (·.buffer) hwhole
          rw [hsame]
        · have htake := Lzw.Decompressor.take_decompress (Nat.le_of_lt hlt) decompressor
            (block :: blocks).flatten
          rw [hwhole] at htake
          rw [htake]
      · -- The first block fails only if all of them do, and leaves no code behind.
        rw [if_neg hstop]
        rw [List.flatten_cons, Lzw.Decompressor.decompress_append] at hwhole
        cases hfirst : decompressor.decompress block buffer with
        | mk failure following longer =>
            rw [hfirst] at hwhole
            cases failure with
            | some cause => exact absurd (congrArg (·.failure) hwhole) (by simp)
            | none => exact ih (Lzw.Decompressor.isDrained_of_decompress hfirst) hwhole

/-- The image data of a body that hold an encoding of some indices lead to those. -/
theorem Body.indices_of_encodes
    {body : Body}
    (hbits : body.codeSize.bits ≤ 11)
    {stored : List UInt8}
    {written padding : Lzw.BitString}
    (hencodes : Lzw.EncodesIndices body.codeSize.bits (stored.map UInt8.toNat) written)
    (hblocks : Lzw.bitsOf (body.blocks.flatMap SubBlock.payload) = written ++ padding)
    (hlength : stored.length = body.image.width.toNat * body.image.height.toNat) :
    body.indices = .ok stored.toArray := by
  obtain ⟨hfailure, -, hbuffer⟩ :=
    Lzw.Decompressor.decompress_of_encodes hbits hencodes hblocks #[]
  have hindices : (#[] : Array UInt8) ++ stored = stored.toArray := by
    apply Array.toList_inj.mp
    rw [Array.toList_appendList, List.toList_toArray]
    rfl
  cases hwhole : (Lzw.Decompressor.initial body.codeSize).decompress
      (body.blocks.flatMap SubBlock.payload) #[] with
  | mk failure last buffer =>
      rw [hwhole] at hfailure hbuffer
      obtain rfl := hfailure
      obtain rfl := hbuffer.trans hindices
      rw [List.flatMap_def] at hwhole
      have hdecoded : body.indices = .ok (stored.toArray.take _) :=
        decodeBlocks_of_decompress (Lzw.Decompressor.isDrained_initial _ _) hwhole
      exact hdecoded.trans (congrArg _ (Array.extract_eq_self_of_le (Nat.le_of_eq hlength)))

end Gif
end GifBitmap

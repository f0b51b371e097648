import GifBitmap.Lzw.BitBuffer
import GifBitmap.Lzw.Expander

/-!
# Decompression of bytes

A decompressor takes the bytes of the image data in pieces of any length and adds
the indices they stand for to a buffer.  It stops at the end code, and at a code
that it cannot decode: the bits of that code are gone, the bytes behind it in the
same piece are not looked at, and all else stays as the codes before it left it.

Main fact:
* `decompress_append`: a piece of input has the effect of its two parts, one after the
  other.
-/

namespace GifBitmap
namespace Lzw

/-- The state between two pieces of input. -/
structure Decompressor where
  expander : Expander
  /-- Bits of the input that did not yet make up a code. -/
  pending : BitBuffer
  deriving Repr, DecidableEq

namespace Decompressor

/-- A decompressor that was given nothing yet. -/
def initial (size : CodeSize) : Decompressor :=
  ⟨.initial size, .empty⟩

def ofByte (byte : UInt8) : Except Error Decompressor :=
  (CodeSize.ofByte byte).map initial

def isDone (decompressor : Decompressor) : Bool :=
  decompressor.expander.finished

/-- What a piece of input leads to: the first failure, if any, the state afterwards,
and the buffer with the indices of all codes before the failure. -/
structure Outcome where
  failure : Option Error
  decompressor : Decompressor
  buffer : Array UInt8
  deriving Repr, DecidableEq

/-- Decompresses a piece of input, adding indices to a buffer. -/
def decompress
    (decompressor : Decompressor)
    (bytes : Bytes)
    (buffer : Array UInt8) :
    Outcome :=
  if decompressor.isDone then
    ⟨none, decompressor, buffer⟩
  else
    match _hcode : decompressor.pending.unpack decompressor.expander.width bytes with
    | (none, pending, _) => ⟨none, { decompressor with pending }, buffer⟩
    | (some code, pending, rest) =>
        match decompressor.expander.step code with
        | .error failure => ⟨some failure, { decompressor with pending }, buffer⟩
        | .ok (expander, indices) =>
            decompress ⟨expander, pending⟩ rest (buffer ++ indices)
termination_by decompressor.pending.size + 8 * bytes.length
decreasing_by
  obtain ⟨hsize, -⟩ := BitBuffer.unpack_some_size _hcode
  have hwidth := decompressor.expander.width.pos
  omega

/-- After the end code no input has an effect. -/
theorem decompress_of_isDone
    {decompressor : Decompressor}
    (h : decompressor.isDone = true)
    (bytes : Bytes)
    (buffer : Array UInt8) :
    decompressor.decompress bytes buffer = ⟨none, decompressor, buffer⟩ := by
  rw [decompress, if_pos h]

/-- A piece of input has the effect of its first part, followed, if that did not fail, by the
effect of its second part. -/
theorem decompress_append
    (decompressor : Decompressor)
    (first second : Bytes)
    (buffer : Array UInt8) :
    decompressor.decompress (first ++ second) buffer =
      let outcome := decompressor.decompress first buffer
      match outcome.failure with
      | some _ => outcome
      | none => outcome.decompressor.decompress second outcome.buffer := by
  fun_induction decompress decompressor first buffer with
  | case1 decompressor first buffer hdone =>
      simp only [decompress_of_isDone hdone]
  | case2 decompressor first buffer hdone pending left hcode =>
      have hsecond : decompressor.decompress (first ++ second) buffer =
          ({ decompressor with pending } : Decompressor).decompress second buffer := by
        have hopen : ¬({ decompressor with pending } : Decompressor).isDone = true := hdone
        rw [decompress, if_neg hdone, BitBuffer.unpack_append_of_none hcode,
          decompress, if_neg hopen]
      exact hsecond
  | case3 decompressor first buffer hdone code pending rest hcode failure hstep =>
      rw [decompress, if_neg hdone, BitBuffer.unpack_append_of_some hcode]
      simp only [hstep]
  | case4 decompressor first buffer hdone code pending rest hcode expander indices hstep ih =>
      rw [decompress, if_neg hdone, BitBuffer.unpack_append_of_some hcode]
      simp only [hstep]
      exact ih

end Decompressor
end Lzw
end GifBitmap

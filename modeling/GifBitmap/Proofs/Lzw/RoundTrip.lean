import GifBitmap.Proofs.Lzw.PhraseEncoding
import GifBitmap.Proofs.Lzw.Refinement

/-!
# Decompression undoes every encoding

An encoder is free in its choice of phrases and clear codes, in the bits with which it
fills up the last byte, and in what it puts behind.  Whatever it does, decompression
gives the indices that were encoded and meets the end code.

A clear code has to fit the twelve bits of a code, so the minimum code size is at most
eleven here.
-/

namespace GifBitmap
namespace Lzw

namespace Decompressor

/-- A new decompressor takes bytes that begin with an encoding of some indices to those
indices. -/
theorem decompress_of_encodes
    {size : CodeSize}
    (hsize : size.bits ≤ 11)
    {indices : List UInt8}
    {written tail : BitString}
    {bytes : Bytes}
    (hencodes : EncodesIndices size.bits (indices.map UInt8.toNat) written)
    (hbits : bitsOf bytes = written ++ tail)
    (buffer : Array UInt8) :
    let outcome := (initial size).decompress bytes buffer
    outcome.failure = none ∧
      outcome.decompressor.isDone = true ∧
      outcome.buffer = buffer ++ indices := by
  have hbytes : ∀ index ∈ indices.map UInt8.toNat, index < 256 := by
    intro index hindex
    obtain ⟨byte, -, rfl⟩ := List.mem_map.mp hindex
    exact byte.toNat_lt
  have hrun :
      (PhraseDecoder.initial size.bits).run size.bits (bitsOf bytes) =
        ⟨indices.map UInt8.toNat, true, none⟩ := by
    rw [hbits]
    exact run_of_encodes size.two_le hsize hencodes hbytes (.initial size.two_le hsize _) tail
  have hsimulates : Simulates (initial size).expander (.initial size.bits) := .initial size
  obtain ⟨hfailure, hdone, appended, hbuffer, hmap⟩ :=
    decompress_of_simulates hsimulates BitBuffer.clean_empty rfl bytes buffer
  have hstart :
      (initial size).pending.bits ++ bitsOf bytes = bitsOf bytes :=
    rfl
  have hbits' : (initial size).expander.size.bits = size.bits := rfl
  rw [hstart, hbits', hrun] at hfailure hdone hmap
  have happended : appended = indices :=
    (List.map_inj_right (fun _ _ h => UInt8.toNat_inj.mp h)).mp hmap
  subst happended
  exact ⟨hfailure, hdone, hbuffer⟩

end Decompressor

/-- Indices below the clear code have encodings, and a new decompressor gives the indices
back from the bytes of each, whatever bits stand behind the end code. -/
theorem decompress_encoding
    (byte : UInt8)
    (hlow : 2 ≤ byte.toNat)
    (hhigh : byte.toNat ≤ 11)
    (indices : List UInt8)
    (hindices : ∀ index ∈ indices, index.toNat < 2 ^ byte.toNat) :
    (∃ written tail bytes,
      EncodesIndices byte.toNat (indices.map UInt8.toNat) written ∧
        bitsOf bytes = written ++ tail) ∧
      ∀ written tail bytes,
        EncodesIndices byte.toNat (indices.map UInt8.toNat) written →
        bitsOf bytes = written ++ tail →
        ∀ buffer : Array UInt8,
          ∃ decompressor,
            Decompressor.ofByte byte = .ok decompressor ∧
              let outcome := decompressor.decompress bytes buffer
              outcome.failure = none ∧
                outcome.decompressor.isDone = true ∧
                outcome.buffer = buffer ++ indices := by
  constructor
  · have hcodes : ∀ index ∈ indices.map UInt8.toNat, index < 2 ^ byte.toNat := by
      intro index hindex
      obtain ⟨found, hfound, rfl⟩ := List.mem_map.mp hindex
      exact hindices found hfound
    obtain ⟨written, hwritten⟩ := exists_encodes (List.prefix_refl _) 0 hcodes
    obtain ⟨bytes, padding, hbytes, -⟩ := exists_bitsOf written
    exact ⟨written, padding, bytes, hwritten, hbytes⟩
  · intro written tail bytes hencodes hbits buffer
    exact ⟨_, Decompressor.ofByte_of_le hlow (Nat.le_succ_of_le hhigh),
      Decompressor.decompress_of_encodes hhigh hencodes hbits buffer⟩

/-- Six equal indices in three phrases, the last two of which the decoder does not know
yet when it meets their codes; the width grows before the end code. -/
theorem decompress_encoding_of_unknown_phrases :
    2 ≤ (2 : UInt8).toNat ∧ (2 : UInt8).toNat ≤ 11 ∧
      (∀ index ∈ ([0, 0, 0, 0, 0, 0] : List UInt8), index.toNat < 2 ^ (2 : UInt8).toNat) ∧
      ∃ decompressor,
        Decompressor.ofByte 2 = .ok decompressor ∧
          let outcome := decompressor.decompress [0x84, 0x5F, 0xFF] #[]
          outcome.failure = none ∧
            outcome.decompressor.isDone = true ∧
            outcome.buffer = #[0, 0, 0, 0, 0, 0] := by
  have hindices :
      ∀ index ∈ ([0, 0, 0, 0, 0, 0] : List UInt8), index.toNat < 2 ^ (2 : UInt8).toNat := by
    intro index hindex
    have hzero : index = 0 := by simpa using hindex
    rw [hzero]
    decide
  have hencodes :
      EncodesIndices 2 [0, 0, 0, 0, 0, 0]
        (lowBits 3 4 ++ (lowBits 3 0 ++ (lowBits 3 6 ++ (lowBits 3 7 ++ lowBits 4 5)))) := by
    refine .clear ?_
    refine @Encodes.phrase 2 _ _ _ [0] [0, 0, 0, 0, 0] _ rfl (by decide) ?_
    refine @Encodes.phrase 2 _ _ _ [0, 0] [0, 0, 0] _ rfl (by decide) ?_
    exact @Encodes.phrase 2 _ _ _ [0, 0, 0] [] _ rfl (by decide) .finish
  obtain ⟨-, hall⟩ := decompress_encoding 2 (by decide) (by decide) _ hindices
  obtain ⟨decompressor, hnew, houtcome⟩ :=
    hall _ (lowBits 8 0xFF) [0x84, 0x5F, 0xFF] hencodes (by decide) #[]
  exact ⟨by decide, by decide, hindices, decompressor, hnew, houtcome⟩

end Lzw
end GifBitmap

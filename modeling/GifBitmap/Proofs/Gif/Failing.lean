import GifBitmap.Proofs.FieldFailure
import GifBitmap.Proofs.Gif.Reading
import GifBitmap.Proofs.Gif.Translation

/-!
# Where each part of a GIF fails

For every description of a part of a GIF: the bytes behind which it fails by itself, and the
cause.  What stands in front of the byte that is at fault has its stored form, and nothing
behind that byte was read.  Most descriptions of fixed length do not fail at all.
-/

namespace GifBitmap
namespace Gif

open FieldReader

variable {position : Nat} {taken : Bytes} {cause : Error}

theorem readHeader_of_fails (h : readHeader.Fails position taken cause) :
    (taken.length = 3 ∧ taken ≠ signature ∧ cause = .badSignature taken) ∨
      ∃ version,
        taken = signature ++ version ∧
          version.length = 3 ∧
          version ≠ supportedVersion ∧
          cause = .unsupportedVersion version := by
  rw [readHeader, fails_bytes_bind_iff] at h
  obtain ⟨front, rest, rfl, hfront, h⟩ := h
  split at h
  · rename_i hsignature
    rw [fails_bytes_bind_iff] at h
    obtain ⟨version, left, rfl, hversion, h⟩ := h
    split at h
    · rw [fails_record_bind_iff] at h
      exact absurd h not_fails_done
    · rename_i hother
      obtain ⟨rfl, rfl⟩ := fails_fail_iff.mp h
      rw [List.append_nil]
      exact .inr ⟨version, by rw [hsignature], hversion, hother, rfl⟩
  · rename_i hother
    obtain ⟨rfl, rfl⟩ := fails_fail_iff.mp h
    rw [List.append_nil]
    exact .inl ⟨hfront, hother, rfl⟩

theorem not_fails_readScreen : ¬readScreen.Fails position taken cause := by
  simp [readScreen, fails_word_bind_iff, fails_byte_bind_iff]

theorem fails_checkPixels_iff {limit : PixelLimit} {pixels : Nat} :
    (checkPixels limit pixels).Fails position taken cause ↔
      ¬limit.allows pixels ∧ taken = [] ∧ cause = .tooLarge := by
  rw [checkPixels]
  split
  · rename_i hallows
    simp [hallows]
  · rename_i hallows
    simp [hallows]

theorem not_fails_readColorTable {shape : TableShape} :
    ¬(readColorTable shape).Fails position taken cause := by
  rw [readColorTable]
  split
  · simp [fails_bytes_bind_iff]
  · exact not_fails_done

theorem readPreamble_of_fails
    {limit : PixelLimit}
    (h : (readPreamble limit).Fails position taken cause) :
    readHeader.Fails position taken cause ∨
      ∃ screen : Screen,
        ¬limit.allows screen.pixels ∧
          taken = signature ++ (supportedVersion ++ screen.toBytes) ∧
          cause = .tooLarge := by
  simp only [readPreamble, fails_bind_iff, not_fails_readScreen, not_fails_readColorTable,
    pure_eq_done, not_fails_done, fails_checkPixels_iff, reads_readHeader_iff, reads_readScreen_iff,
    false_or, and_false, exists_false, or_false] at h
  rcases h with h | ⟨_, _, _, rfl, ⟨rfl, rfl⟩, _, _, screen, rfl, rfl, hallows, rfl, rfl⟩
  · exact .inl h
  · exact .inr ⟨screen, hallows, by rw [List.append_nil, List.append_assoc], rfl⟩

theorem fails_expectByte_bind_iff
    {β : Type}
    {expected : UInt8}
    {next : Unit → FieldReader β} :
    (expectByte expected >>= next).Fails position taken cause ↔
      (∃ found,
        found ≠ expected ∧
          taken = [found] ∧
          cause = .unexpectedByte position expected found) ∨
      ∃ rest, taken = expected :: rest ∧ (next ()).Fails (position + 1) rest cause := by
  rw [expectByte, bind_assoc, fails_position_bind_iff, bind_assoc, fails_byte_bind_iff]
  constructor
  · rintro ⟨found, rest, rfl, h⟩
    split at h
    · rename_i hfound
      rw [hfound]
      exact .inr ⟨rest, rfl, h⟩
    · rename_i hother
      rw [fail_bind, fails_fail_iff] at h
      obtain ⟨rfl, rfl⟩ := h
      exact .inl ⟨found, hother, rfl, rfl⟩
  · rintro (⟨found, hother, rfl, rfl⟩ | ⟨rest, rfl, h⟩)
    · refine ⟨found, [], rfl, ?_⟩
      rw [if_neg hother, fail_bind, fails_fail_iff]
      exact ⟨rfl, rfl⟩
    · refine ⟨expected, rest, rfl, ?_⟩
      rw [if_pos rfl]
      exact h

theorem readGraphicControl_of_fails (h : readGraphicControl.Fails position taken cause) :
    (∃ size, size ≠ 4 ∧ taken = [size] ∧ cause = .graphicControlSize size) ∨
      ∃ flags delay index found,
        found ≠ 0 ∧
          taken = 4 :: flags :: (littleEndian 2 (UInt16.toNat delay) ++ [index, found]) ∧
          cause = .unexpectedByte (position + 5) 0 found := by
  rw [readGraphicControl, fails_byte_bind_iff] at h
  obtain ⟨size, rest, rfl, h⟩ := h
  split at h
  · rename_i hsize
    simp only [fails_word_bind_iff, fails_byte_bind_iff, fails_expectByte_bind_iff,
      fails_record_bind_iff, pure_eq_done, not_fails_done, and_false, exists_false, or_false] at h
    obtain ⟨flags, _, rfl, delay, _, rfl, index, _, rfl, found, hfound, rfl, rfl⟩ := h
    exact .inr ⟨flags, delay, index, found, hfound, by rw [hsize]; rfl, rfl⟩
  · rename_i hsize
    obtain ⟨rfl, rfl⟩ := fails_fail_iff.mp h
    exact .inl ⟨size, hsize, rfl, rfl⟩

theorem not_fails_readImageDescriptor :
    ¬readImageDescriptor.Fails position taken cause := by
  simp [readImageDescriptor, fails_word_bind_iff, fails_byte_bind_iff]

theorem ofByte_eq_error_iff {stored : UInt8} :
    Lzw.Decompressor.ofByte stored = .error cause ↔
      ¬(2 ≤ stored.toNat ∧ stored.toNat ≤ 12) ∧ cause = .codeSizeOutOfRange stored := by
  rw [Lzw.Decompressor.ofByte, Lzw.CodeSize.ofByte]
  unfold Lzw.maxWidth
  split
  · rename_i hbits
    simp [Except.map, hbits]
  · rename_i hbits
    simp [Except.map, hbits, eq_comm]

/-- The stored form of all between the extensions and the blocks of image data. -/
def imageFront
    (image : ImageDescriptor)
    (table : Option ColorTable)
    (minCodeSize : UInt8) :
    Bytes :=
  0x2C :: (image.toBytes ++ (tableToBytes table ++ [minCodeSize]))

theorem readImage_of_fails
    {limit : PixelLimit}
    {preamble : Preamble}
    {control : Option GraphicControl}
    (h : (readImage limit preamble control).Fails position taken cause) :
    (∃ image : ImageDescriptor,
      ¬limit.allows image.pixels ∧ taken = image.toBytes ∧ cause = .tooLarge) ∨
      ∃ (image : ImageDescriptor) (table : Option ColorTable) (stored : UInt8),
        TableFits image.flags table ∧
          ¬(2 ≤ stored.toNat ∧ stored.toNat ≤ 12) ∧
          taken = image.toBytes ++ (tableToBytes table ++ [stored]) ∧
          cause = .codeSizeOutOfRange stored := by
  rw [readImage, fails_bind_iff] at h
  rcases h with h | ⟨_, _, image, rfl, himage, h⟩
  · exact absurd h not_fails_readImageDescriptor
  rw [reads_readImageDescriptor_iff] at himage
  rw [fails_bind_iff, fails_checkPixels_iff] at h
  rcases h with ⟨hallows, rfl, rfl⟩ | ⟨_, _, _, rfl, hchecked, h⟩
  · exact .inl ⟨image, hallows, by rw [himage, List.append_nil], rfl⟩
  obtain ⟨-, rfl⟩ := reads_checkPixels_iff.mp hchecked
  rw [fails_bind_iff] at h
  rcases h with h | ⟨_, _, table, rfl, htable, h⟩
  · exact absurd h not_fails_readColorTable
  obtain ⟨rfl, hfits⟩ := (reads_readColorTable_iff rfl rfl).mp htable
  rw [fails_byte_bind_iff] at h
  obtain ⟨stored, rest, rfl, h⟩ := h
  split at h
  · rename_i found hstored
    obtain ⟨hrange, rfl⟩ := ofByte_eq_error_iff.mp hstored
    obtain ⟨rfl, rfl⟩ := fails_fail_iff.mp h
    exact .inr ⟨image, table, stored, hfits, hrange, by rw [himage, List.nil_append], rfl⟩
  · exact absurd h not_fails_done

theorem readExtension_of_fails
    {preamble : Preamble}
    {control : Option GraphicControl}
    {start : Nat}
    (h : (readExtension preamble control start).Fails position taken cause) :
    (∃ rest,
      taken = 0xF9 :: rest ∧ readGraphicControl.Fails (position + 1) rest cause) ∨
      ∃ found : GraphicControl,
        control ≠ none ∧
          taken = 0xF9 :: found.toBytes ∧
          cause = .repeatedGraphicControl start := by
  rw [readExtension, fails_byte_bind_iff] at h
  obtain ⟨label, rest, rfl, h⟩ := h
  split at h
  · rename_i hlabel
    rw [hlabel]
    rw [fails_bind_iff] at h
    rcases h with h | ⟨_, _, found, rfl, hfound, h⟩
    · exact .inl ⟨rest, rfl, h⟩
    · rw [reads_readGraphicControl_iff] at hfound
      cases control with
      | none => exact absurd h not_fails_done
      | some earlier =>
          obtain ⟨rfl, rfl⟩ := fails_fail_iff.mp h
          exact .inr ⟨found, Option.some_ne_none _, by rw [hfound, List.append_nil]; rfl, rfl⟩
  · exact absurd h not_fails_done

theorem readBlock_of_fails
    {limit : PixelLimit}
    {preamble : Preamble}
    {control : Option GraphicControl}
    (h : (readBlock limit preamble control).Fails position taken cause) :
    (∃ found,
      found ≠ 0x2C ∧
        found ≠ 0x21 ∧
        taken = [found] ∧
        cause = .unexpectedByte position 0x2C found) ∨
      (∃ rest,
        taken = 0x2C :: rest ∧
          (readImage limit preamble control).Fails (position + 1) rest cause) ∨
      ∃ rest,
        taken = 0x21 :: rest ∧
          (readExtension preamble control position).Fails (position + 1) rest cause := by
  rw [readBlock, fails_position_bind_iff, fails_byte_bind_iff] at h
  obtain ⟨found, rest, rfl, h⟩ := h
  split at h
  · rename_i himage
    rw [himage]
    exact .inr (.inl ⟨rest, rfl, h⟩)
  · rename_i himage
    split at h
    · rename_i hextension
      rw [hextension]
      exact .inr (.inr ⟨rest, rfl, h⟩)
    · rename_i hextension
      obtain ⟨rfl, rfl⟩ := fails_fail_iff.mp h
      exact .inl ⟨found, himage, hextension, rfl, rfl⟩

theorem fails_subBlock_iff
    {β : Type}
    {next : UInt8 → Bytes → FieldReader β}
    {last : FieldReader β} :
    (byte >>= fun size =>
      if positive : 0 < size.toNat then
        bytes size.toNat positive >>= next size
      else
        last).Fails position taken cause ↔
      (∃ (block : SubBlock) (rest : Bytes),
        taken = block.toBytes ++ rest ∧
          (next (UInt8.ofNat block.payload.length) block.payload).Fails
            (position + block.toBytes.length) rest cause) ∨
      ∃ rest, taken = 0 :: rest ∧ last.Fails (position + 1) rest cause := by
  have hattempt :
      (byte >>= fun size =>
        if positive : 0 < size.toNat then
          bytes size.toNat positive >>= next size
        else
          last).attempt =
        byte >>= fun size =>
          if positive : 0 < size.toNat then
            bytes size.toNat positive >>= fun block => (next size block).attempt
          else
            last.attempt :=
    congrArg (FieldReader.field 1 Nat.one_pos) (funext fun _ => apply_dite attempt _ _ _)
  rw [Fails, hattempt, reads_subBlock_iff]
  rfl

theorem not_fails_skipSubBlock
    {preamble : Preamble}
    {control : Option GraphicControl}
    {kind : Extension}
    {skipped : Nat} :
    ¬(skipSubBlock preamble control kind skipped).Fails position taken cause := by
  rw [skipSubBlock, fails_subBlock_iff]
  simp

theorem fails_feed_iff
    {stream : IndexStream}
    {pixels : Nat}
    {block : Bytes}
    (hopen : stream.isClosed = false) :
    (stream.feed pixels block).Fails position taken cause ↔
      taken = [] ∧ stream.absorb pixels block = .error cause := by
  simp only [IndexStream.feed, IndexStream.absorb, hopen, Bool.false_eq_true, if_false]
  obtain ⟨failure, decompressor, buffer⟩ := stream.decompressor.decompress block stream.indices
  cases failure with
  | some found => simp [eq_comm]
  | none =>
      dsimp only
      split
      · simp
      · simp

/-- A block of image data fails if its bytes cannot be decompressed. -/
theorem fails_readDataBlock_iff {outline : Outline} {stream : IndexStream} :
    (readDataBlock outline stream).Fails position taken cause ↔
      ∃ block : SubBlock,
        taken = block.toBytes ∧
          stream.absorb outline.image.pixels block.payload = .error cause := by
  rw [readDataBlock, fails_subBlock_iff]
  cases hclosed : stream.isClosed with
  | true => simp [IndexStream.absorb, hclosed]
  | false =>
      simp only [Bool.false_eq_true, if_false, fails_record_bind_iff, pure_eq_done, not_fails_done,
        and_false, exists_false, or_false, @fails_bind_iff _ _ _ _ _ (IndexStream.feed _ _ _),
        fails_feed_iff hclosed]
      constructor
      · rintro ⟨block, _, rfl, rfl, hfails⟩
        exact ⟨block, List.append_nil _, hfails⟩
      · rintro ⟨block, rfl, hfails⟩
        exact ⟨block, [], (List.append_nil _).symm, rfl, hfails⟩

/-- Image data fail for a cause that is about a code. -/
theorem IndexStream.concernsCode_of_absorb
    {stream : IndexStream}
    {pixels : Nat}
    {block : Bytes}
    (h : stream.absorb pixels block = .error cause) :
    cause.ConcernsCode := by
  unfold absorb at h
  split at h
  · simp at h
  · dsimp only at h
    split at h
    · rename_i found hfailure
      obtain rfl := Except.error.inj h
      exact Lzw.Decompressor.concernsCode_of_decompress hfailure
    · split at h <;> simp at h

end Gif
end GifBitmap

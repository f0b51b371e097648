import GifBitmap.Gif.Decoder
import GifBitmap.Proofs.FieldReading
import GifBitmap.Proofs.Gif.File

/-!
# What each part of a GIF is read from

For every description of a part of a GIF: the bytes it reads are the stored form of the
part it gives, and the other way round.  The descriptions of one step come last; each of
them reads one of the parts of a `File`.

The steps on image data are described by `IndexStream.absorb`, which does not read.
-/

namespace GifBitmap
namespace Gif

open FieldReader

variable {position : Nat} {taken : Bytes}

theorem reads_readHeader_iff {version : Bytes} :
    readHeader.Reads position taken version ↔
      taken = signature ++ supportedVersion ∧ version = supportedVersion := by
  rw [readHeader, reads_bytes_bind_iff]
  constructor
  · rintro ⟨front, rest, rfl, -, h⟩
    split at h
    · rename_i hfront
      rw [reads_bytes_bind_iff] at h
      obtain ⟨found, left, rfl, -, h⟩ := h
      split at h
      · rename_i hfound
        simp only [reads_record_bind_iff, reads_pure_iff] at h
        obtain ⟨rfl, rfl⟩ := h
        exact ⟨by rw [hfront, hfound, List.append_nil], hfound⟩
      · exact absurd h not_reads_fail
    · exact absurd h not_reads_fail
  · rintro ⟨rfl, rfl⟩
    refine ⟨signature, supportedVersion, rfl, rfl, ?_⟩
    rw [if_pos rfl, reads_bytes_bind_iff]
    refine ⟨supportedVersion, [], rfl, rfl, ?_⟩
    rw [if_pos rfl]
    exact ⟨rfl, rfl⟩

theorem reads_readScreen_iff {screen : Screen} :
    readScreen.Reads position taken screen ↔ taken = screen.toBytes := by
  simp only [readScreen, reads_word_bind_iff, reads_byte_bind_iff, reads_record_bind_iff,
    reads_pure_iff]
  constructor
  · rintro ⟨width, _, rfl, height, _, rfl, flags, _, rfl, background, _, rfl, aspect, _, rfl,
      rfl, rfl⟩
    rfl
  · rintro rfl
    exact ⟨_, _, rfl, _, _, rfl, _, _, rfl, _, _, rfl, _, _, rfl, rfl, rfl⟩

theorem reads_checkPixels_iff
    {limit : PixelLimit}
    {pixels : Nat}
    {value : Unit} :
    (checkPixels limit pixels).Reads position taken value ↔
      limit.allows pixels ∧ taken = [] := by
  rw [checkPixels]
  split
  · rename_i hallows
    rw [reads_pure_iff]
    constructor
    · rintro ⟨rfl, -⟩
      exact ⟨hallows, rfl⟩
    · rintro ⟨-, rfl⟩
      exact ⟨rfl, rfl⟩
  · rename_i hallows
    constructor
    · intro h
      exact absurd h not_reads_fail
    · rintro ⟨h, -⟩
      exact absurd h hallows

/-- A string of whole triples is the stored form of the table it is read as. -/
theorem toBytes_ofBytes
    {stored : Bytes}
    {count : Nat}
    (h : stored.length = 3 * count) :
    (ColorTable.ofBytes stored).toBytes = stored ∧
      (ColorTable.ofBytes stored).length = count := by
  induction count generalizing stored with
  | zero =>
      obtain rfl := List.length_eq_zero_iff.mp h
      exact ⟨rfl, rfl⟩
  | succ count ih =>
      match stored, h with
      | red :: green :: blue :: rest, h =>
          have hrest : rest.length = 3 * count := by
            simp only [List.length_cons] at h
            omega
          obtain ⟨hbytes, hlength⟩ := ih hrest
          constructor
          · exact congrArg (red :: green :: blue :: ·) hbytes
          · exact congrArg (· + 1) hlength

theorem byteCount_of_present
    {shape : TableShape}
    (h : shape.present = true) :
    shape.byteCount = 3 * 2 ^ (shape.exponent.val + 1) := by
  rw [TableShape.byteCount, TableShape.length, if_pos h]

theorem byteCount_of_absent
    {shape : TableShape}
    (h : shape.present = false) :
    shape.byteCount = 0 := by
  rw [TableShape.byteCount, TableShape.length, h]
  rfl

theorem reads_readColorTable_iff
    {shape : TableShape}
    {flags : UInt8}
    {table : Option ColorTable}
    (hpresent : shape.present = flags.toNat.testBit 7)
    (hexponent : shape.exponent.val = flags.toNat % 8) :
    (readColorTable shape).Reads position taken table ↔
      taken = tableToBytes table ∧ TableFits flags table := by
  rw [readColorTable, TableFits, ← hpresent, ← hexponent]
  cases hshape : shape.present with
  | true =>
      have hcount := byteCount_of_present hshape
      have hpositive : 0 < shape.byteCount := by
        rw [hcount]
        exact Nat.mul_pos (by decide) (Nat.two_pow_pos _)
      rw [dif_pos hpositive, if_pos rfl, reads_bytes_bind_iff]
      simp only [reads_record_bind_iff, reads_pure_iff]
      constructor
      · rintro ⟨stored, _, rfl, hlength, rfl, rfl⟩
        obtain ⟨hbytes, hcolors⟩ := toBytes_ofBytes (hlength.trans hcount)
        rw [tableToBytes, hbytes, List.append_nil]
        exact ⟨rfl, congrArg some hcolors⟩
      · rintro ⟨rfl, hfits⟩
        cases table with
        | none => simp at hfits
        | some table =>
            rw [Option.map_some, Option.some.injEq] at hfits
            refine ⟨table.toBytes, [], (List.append_nil _).symm, ?_, rfl, ?_⟩
            · rw [hcount, ← hfits]
              exact length_tableToBytes table
            · rw [ColorTable.ofBytes_toBytes]
  | false =>
      have hnone : ¬0 < shape.byteCount := by
        rw [byteCount_of_absent hshape]
        exact Nat.lt_irrefl 0
      rw [dif_neg hnone, if_neg Bool.false_ne_true, reads_pure_iff]
      constructor
      · rintro ⟨rfl, rfl⟩
        exact ⟨rfl, rfl⟩
      · rintro ⟨rfl, hfits⟩
        obtain rfl := Option.map_eq_none_iff.mp hfits
        exact ⟨rfl, rfl⟩

theorem reads_readPreamble_iff
    {limit : PixelLimit}
    {preamble : Preamble} :
    (readPreamble limit).Reads position taken preamble ↔
      ∃ screen table,
        TableFits screen.flags table ∧
          limit.allows screen.pixels ∧
          taken = signature ++ (supportedVersion ++ (screen.toBytes ++ tableToBytes table)) ∧
          preamble = ⟨supportedVersion, screen, table⟩ := by
  simp only [readPreamble, reads_bind_iff, reads_readHeader_iff, reads_readScreen_iff,
    reads_checkPixels_iff, reads_pure_iff]
  constructor
  · rintro ⟨_, _, _, rfl, ⟨rfl, rfl⟩, _, _, screen, rfl, rfl, _, _, _, rfl, ⟨hallows, rfl⟩,
      _, _, table, rfl, htable, rfl, rfl⟩
    rw [reads_readColorTable_iff rfl rfl] at htable
    obtain ⟨rfl, hfits⟩ := htable
    refine ⟨screen, table, hfits, hallows, ?_, rfl⟩
    simp only [List.append_assoc, List.nil_append, List.append_nil]
  · rintro ⟨screen, table, hfits, hallows, rfl, rfl⟩
    refine ⟨_, _, _, (List.append_assoc _ _ _).symm, ⟨rfl, rfl⟩, _, _, screen, rfl, rfl,
      [], _, (), rfl, ⟨hallows, rfl⟩, _, [], table, (List.append_nil _).symm, ?_, rfl, rfl⟩
    exact (reads_readColorTable_iff rfl rfl).mpr ⟨rfl, hfits⟩

theorem reads_expectByte_bind_iff
    {β : Type}
    {expected : UInt8}
    {next : Unit → FieldReader β}
    {value : β} :
    (expectByte expected >>= next).Reads position taken value ↔
      ∃ rest, taken = expected :: rest ∧ (next ()).Reads (position + 1) rest value := by
  rw [expectByte, bind_assoc, reads_position_bind_iff, bind_assoc, reads_byte_bind_iff]
  constructor
  · rintro ⟨found, rest, rfl, h⟩
    split at h
    · rename_i hfound
      subst hfound
      exact ⟨rest, rfl, h⟩
    · exact absurd h not_reads_fail
  · rintro ⟨rest, rfl, h⟩
    refine ⟨expected, rest, rfl, ?_⟩
    rw [if_pos rfl]
    exact h

theorem reads_readGraphicControl_iff {control : GraphicControl} :
    readGraphicControl.Reads position taken control ↔ taken = control.toBytes := by
  rw [readGraphicControl, reads_byte_bind_iff]
  constructor
  · rintro ⟨size, _, rfl, h⟩
    split at h
    · rename_i hsize
      simp only [reads_word_bind_iff, reads_byte_bind_iff, reads_expectByte_bind_iff,
        reads_record_bind_iff, reads_pure_iff] at h
      obtain ⟨flags, _, rfl, delay, _, rfl, index, _, rfl, _, rfl, rfl, rfl⟩ := h
      rw [hsize]
      rfl
    · exact absurd h not_reads_fail
  · rintro rfl
    refine ⟨graphicControlBodySize, _, rfl, ?_⟩
    rw [if_pos rfl]
    simp only [reads_word_bind_iff, reads_byte_bind_iff, reads_expectByte_bind_iff,
      reads_record_bind_iff, reads_pure_iff]
    exact ⟨_, _, rfl, _, _, rfl, _, _, rfl, _, rfl, rfl, rfl⟩

theorem reads_readImageDescriptor_iff {image : ImageDescriptor} :
    readImageDescriptor.Reads position taken image ↔ taken = image.toBytes := by
  simp only [readImageDescriptor, reads_word_bind_iff, reads_byte_bind_iff,
    reads_record_bind_iff, reads_pure_iff]
  constructor
  · rintro ⟨left, _, rfl, top, _, rfl, width, _, rfl, height, _, rfl, flags, _, rfl, rfl, rfl⟩
    rfl
  · rintro rfl
    exact ⟨_, _, rfl, _, _, rfl, _, _, rfl, _, _, rfl, _, _, rfl, rfl, rfl⟩

/-- A byte is a minimum code size exactly if it is the stored form of one. -/
theorem ofByte_eq_ok_iff
    {stored : UInt8}
    {decompressor : Lzw.Decompressor} :
    Lzw.Decompressor.ofByte stored = .ok decompressor ↔
      ∃ size : Lzw.CodeSize,
        stored = UInt8.ofNat size.bits ∧ decompressor = .initial size := by
  rw [Lzw.Decompressor.ofByte, Lzw.CodeSize.ofByte]
  constructor
  · intro h
    split at h
    · rename_i hbits
      refine ⟨⟨stored.toNat, hbits.1, hbits.2⟩, UInt8.ofNat_toNat.symm, ?_⟩
      exact (Except.ok.inj h).symm
    · simp [Except.map] at h
  · rintro ⟨⟨bits, htwo, hmax⟩, rfl, rfl⟩
    have hbits : (UInt8.ofNat bits).toNat = bits := toNat_codeSize ⟨bits, htwo, hmax⟩
    simp only [hbits, dif_pos (And.intro htwo hmax)]
    rfl

theorem reads_readImage_iff
    {limit : PixelLimit}
    {preamble : Preamble}
    {control : Option GraphicControl}
    {progress : Progress} :
    (readImage limit preamble control).Reads position taken progress ↔
      ∃ image table size,
        TableFits image.flags table ∧
          limit.allows image.pixels ∧
          taken = image.toBytes ++
            (tableToBytes table ++ [UInt8.ofNat (Lzw.CodeSize.bits size)]) ∧
          progress = .inl (.imageData
            ⟨preamble, control, image, table, UInt8.ofNat size.bits⟩
            (.initial (.initial size))) := by
  rw [readImage]
  simp only [@reads_bind_iff _ _ _ _ readImageDescriptor, reads_readImageDescriptor_iff,
    @reads_bind_iff _ _ _ _ (checkPixels _ _), reads_checkPixels_iff,
    @reads_bind_iff _ _ _ _ (readColorTable _), reads_byte_bind_iff]
  constructor
  · rintro ⟨_, _, image, rfl, rfl, _, _, _, rfl, ⟨hallows, rfl⟩, _, _, table, rfl, htable,
      stored, _, rfl, h⟩
    rw [reads_readColorTable_iff rfl rfl] at htable
    obtain ⟨rfl, hfits⟩ := htable
    split at h
    · exact absurd h not_reads_fail
    · rename_i decompressor hdecompressor
      obtain ⟨size, rfl, rfl⟩ := ofByte_eq_ok_iff.mp hdecompressor
      obtain ⟨rfl, rfl⟩ := h
      exact ⟨image, table, size, hfits, hallows, rfl, rfl⟩
  · rintro ⟨image, table, size, hfits, hallows, rfl, rfl⟩
    refine ⟨_, _, image, rfl, rfl, [], _, (), rfl, ⟨hallows, rfl⟩, _, _, table, rfl,
      (reads_readColorTable_iff rfl rfl).mpr ⟨rfl, hfits⟩, _, [], rfl, ?_⟩
    rw [ofByte_eq_ok_iff.mpr ⟨size, rfl, rfl⟩]
    exact ⟨rfl, rfl⟩

theorem reads_readExtension_iff
    {preamble : Preamble}
    {control : Option GraphicControl}
    {start : Nat}
    {progress : Progress} :
    (readExtension preamble control start).Reads position taken progress ↔
      (∃ found : GraphicControl,
        control = none ∧
          taken = 0xF9 :: found.toBytes ∧
          progress = .inl (.blocks preamble (some found))) ∨
      ∃ label,
        label ≠ 0xF9 ∧
          taken = [label] ∧
          progress = .inl (.extension preamble control (.ofLabel label) 0) := by
  rw [readExtension, reads_byte_bind_iff]
  constructor
  · rintro ⟨label, rest, rfl, h⟩
    split at h
    · rename_i hlabel
      subst hlabel
      rw [reads_bind_iff] at h
      obtain ⟨_, _, found, rfl, hfound, h⟩ := h
      rw [reads_readGraphicControl_iff] at hfound
      subst hfound
      cases control with
      | none =>
          obtain ⟨rfl, rfl⟩ := h
          rw [List.append_nil]
          exact .inl ⟨found, rfl, rfl, rfl⟩
      | some earlier => exact absurd h not_reads_fail
    · rename_i hlabel
      obtain ⟨rfl, rfl⟩ := h
      exact .inr ⟨label, hlabel, rfl, rfl⟩
  · intro h
    rcases h with ⟨found, rfl, rfl, rfl⟩ | ⟨label, hlabel, rfl, rfl⟩
    · refine ⟨graphicControlLabel, _, rfl, ?_⟩
      rw [if_pos rfl, reads_bind_iff]
      exact ⟨_, [], found, (List.append_nil _).symm, reads_readGraphicControl_iff.mpr rfl,
        rfl, rfl⟩
    · have hother : label ≠ graphicControlLabel := hlabel
      refine ⟨label, [], rfl, ?_⟩
      rw [if_neg hother]
      exact ⟨rfl, rfl⟩

/-- Before the image data a block is the image itself, the graphic control extension, or
the front of an extension that is passed over. -/
theorem reads_readBlock_iff
    {limit : PixelLimit}
    {preamble : Preamble}
    {control : Option GraphicControl}
    {progress : Progress} :
    (readBlock limit preamble control).Reads position taken progress ↔
      (∃ image table size,
        TableFits image.flags table ∧
          limit.allows image.pixels ∧
          taken = 0x2C :: (image.toBytes ++
            (tableToBytes table ++ [UInt8.ofNat (Lzw.CodeSize.bits size)])) ∧
          progress = .inl (.imageData
            ⟨preamble, control, image, table, UInt8.ofNat size.bits⟩
            (.initial (.initial size)))) ∨
      (∃ found : GraphicControl,
        control = none ∧
          taken = 0x21 :: 0xF9 :: found.toBytes ∧
          progress = .inl (.blocks preamble (some found))) ∨
      ∃ label,
        label ≠ 0xF9 ∧
          taken = [0x21, label] ∧
          progress = .inl (.extension preamble control (.ofLabel label) 0) := by
  rw [readBlock, reads_position_bind_iff, reads_byte_bind_iff]
  constructor
  · rintro ⟨introducer, rest, rfl, h⟩
    split at h
    · rename_i himage
      subst himage
      obtain ⟨image, table, size, hfits, hallows, rfl, rfl⟩ := reads_readImage_iff.mp h
      exact .inl ⟨image, table, size, hfits, hallows, rfl, rfl⟩
    · split at h
      · rename_i hextension
        subst hextension
        rcases reads_readExtension_iff.mp h with
          ⟨found, rfl, rfl, rfl⟩ | ⟨label, hlabel, rfl, rfl⟩
        · exact .inr (.inl ⟨found, rfl, rfl, rfl⟩)
        · exact .inr (.inr ⟨label, hlabel, rfl, rfl⟩)
      · exact absurd h not_reads_fail
  · intro h
    rcases h with ⟨image, table, size, hfits, hallows, rfl, rfl⟩ | hextension
    · refine ⟨imageSeparator, _, rfl, ?_⟩
      rw [if_pos rfl]
      exact reads_readImage_iff.mpr ⟨image, table, size, hfits, hallows, rfl, rfl⟩
    · rcases hextension with ⟨found, rfl, rfl, rfl⟩ | ⟨label, hlabel, rfl, rfl⟩
      · refine ⟨extensionIntroducer, _, rfl, ?_⟩
        rw [if_neg (by decide), if_pos rfl, reads_readExtension_iff]
        exact .inl ⟨found, rfl, rfl, rfl⟩
      · refine ⟨extensionIntroducer, _, rfl, ?_⟩
        rw [if_neg (by decide), if_pos rfl, reads_readExtension_iff]
        exact .inr ⟨label, hlabel, rfl, rfl⟩

/-- A count and as many bytes make up a sub-block, or the zero byte behind the last one. -/
theorem reads_subBlock_iff
    {β : Type}
    {next : UInt8 → Bytes → FieldReader β}
    {last : FieldReader β}
    {value : β} :
    (byte >>= fun size =>
      if positive : 0 < size.toNat then
        bytes size.toNat positive >>= next size
      else
        last).Reads position taken value ↔
      (∃ (block : SubBlock) (rest : Bytes),
        taken = block.toBytes ++ rest ∧
          (next (UInt8.ofNat block.payload.length) block.payload).Reads
            (position + block.toBytes.length) rest value) ∨
      ∃ rest, taken = 0 :: rest ∧ last.Reads (position + 1) rest value := by
  rw [reads_byte_bind_iff]
  constructor
  · rintro ⟨size, rest, rfl, h⟩
    split at h
    · rename_i hpositive
      rw [reads_bytes_bind_iff] at h
      obtain ⟨payload, rest, rfl, hlength, h⟩ := h
      have hsize : UInt8.ofNat payload.length = size := by
        rw [hlength]
        exact UInt8.ofNat_toNat
      have hmax : payload.length ≤ 255 := by
        have := size.toNat_lt
        omega
      refine .inl ⟨⟨payload, hlength ▸ hpositive, hmax⟩, rest, ?_, ?_⟩
      · rw [SubBlock.toBytes, hsize, List.cons_append]
      · rw [Nat.add_assoc, Nat.add_comm 1, ← hlength] at h
        dsimp only
        rw [SubBlock.toBytes, hsize, List.length_cons]
        exact h
    · rename_i hzero
      have hsize : size = 0 := UInt8.toNat_inj.mp (by rw [UInt8.toNat_zero]; omega)
      exact .inr ⟨rest, by rw [hsize], h⟩
  · rintro (⟨⟨payload, hpos, hmax⟩, rest, rfl, h⟩ | ⟨rest, rfl, h⟩)
    · have hsize : (UInt8.ofNat payload.length).toNat = payload.length := by
        rw [UInt8.toNat_ofNat']
        omega
      refine ⟨UInt8.ofNat payload.length, payload ++ rest, rfl, ?_⟩
      rw [dif_pos (by omega), reads_bytes_bind_iff]
      refine ⟨payload, rest, rfl, hsize.symm, ?_⟩
      rw [SubBlock.toBytes, List.length_cons] at h
      rw [hsize, Nat.add_assoc, Nat.add_comm 1]
      exact h
    · refine ⟨0, rest, rfl, ?_⟩
      rw [dif_neg (by decide)]
      exact h

theorem reads_skipSubBlock_iff
    {preamble : Preamble}
    {control : Option GraphicControl}
    {kind : Extension}
    {skipped : Nat}
    {progress : Progress} :
    (skipSubBlock preamble control kind skipped).Reads position taken progress ↔
      (∃ (block : SubBlock) (following : Nat),
        taken = block.toBytes ∧
          following = skipped + block.payload.length ∧
          progress = .inl (.extension preamble control kind following)) ∨
      taken = [0] ∧ progress = .inl (.blocks preamble control) := by
  rw [skipSubBlock, reads_subBlock_iff]
  constructor
  · rintro (⟨block, _, rfl, rfl, rfl⟩ | ⟨_, rfl, rfl, rfl⟩)
    · exact .inl ⟨block, _, List.append_nil _, by rw [block.toNat_length], rfl⟩
    · exact .inr ⟨rfl, rfl⟩
  · rintro (⟨block, _, rfl, rfl, rfl⟩ | ⟨rfl, rfl⟩)
    · refine .inl ⟨block, [], (List.append_nil _).symm, rfl, ?_⟩
      rw [block.toNat_length]
    · exact .inr ⟨[], rfl, rfl, rfl⟩

/-- The stream after one more block, which is passed over if the stream is closed. -/
def IndexStream.absorb
    (stream : IndexStream)
    (pixels : Nat)
    (block : Bytes) :
    Except Error IndexStream :=
  if stream.isClosed then
    .ok stream
  else
    let outcome := stream.decompressor.decompress block stream.indices
    match outcome.failure with
    | some cause => .error cause
    | none =>
        if pixels < outcome.buffer.size then
          .ok ⟨outcome.decompressor, outcome.buffer.take pixels, true⟩
        else
          .ok ⟨outcome.decompressor, outcome.buffer, stream.truncated⟩

theorem reads_feed_iff
    {stream fed : IndexStream}
    {pixels : Nat}
    {block : Bytes}
    (hopen : stream.isClosed = false) :
    (stream.feed pixels block).Reads position taken fed ↔
      taken = [] ∧ stream.absorb pixels block = .ok fed := by
  simp only [IndexStream.feed, IndexStream.absorb, hopen, Bool.false_eq_true, if_false]
  obtain ⟨failure, decompressor, buffer⟩ := stream.decompressor.decompress block stream.indices
  cases failure with
  | some cause => simp
  | none =>
      dsimp only
      split
      · rw [reads_record_bind_iff, reads_pure_iff, Except.ok.injEq, @eq_comm _ fed]
      · rw [reads_pure_iff, Except.ok.injEq, @eq_comm _ fed]

theorem reads_readDataBlock_iff
    {outline : Outline}
    {stream : IndexStream}
    {progress : Progress} :
    (readDataBlock outline stream).Reads position taken progress ↔
      (∃ (block : SubBlock) (fed : IndexStream),
        taken = block.toBytes ∧
          stream.absorb outline.image.pixels block.payload = .ok fed ∧
          progress = .inl (.imageData outline fed)) ∨
      taken = [0] ∧ progress = .inr (outline.complete stream.indices) := by
  rw [readDataBlock, reads_subBlock_iff]
  cases hclosed : stream.isClosed with
  | true =>
      simp only [if_true, reads_record_bind_iff, reads_pure_iff, IndexStream.absorb, hclosed,
        Except.ok.injEq]
      constructor
      · rintro (⟨block, _, rfl, rfl, rfl⟩ | ⟨_, rfl, rfl, rfl⟩)
        · exact .inl ⟨block, stream, List.append_nil _, rfl, rfl⟩
        · exact .inr ⟨rfl, rfl⟩
      · rintro (⟨block, _, rfl, rfl, rfl⟩ | ⟨rfl, rfl⟩)
        · exact .inl ⟨block, [], (List.append_nil _).symm, rfl, rfl⟩
        · exact .inr ⟨[], rfl, rfl, rfl⟩
  | false =>
      simp only [Bool.false_eq_true, if_false, reads_record_bind_iff,
        @reads_bind_iff _ _ _ _ (IndexStream.feed _ _ _), reads_feed_iff hclosed,
        reads_pure_iff]
      constructor
      · rintro (⟨block, _, rfl, _, _, fed, rfl, ⟨rfl, hfed⟩, rfl, rfl⟩ | ⟨_, rfl, rfl, rfl⟩)
        · exact .inl ⟨block, fed, List.append_nil _, hfed, rfl⟩
        · exact .inr ⟨rfl, rfl⟩
      · rintro (⟨block, fed, rfl, hfed, rfl⟩ | ⟨rfl, rfl⟩)
        · exact .inl ⟨block, [], (List.append_nil _).symm, [], [], fed, rfl, ⟨rfl, hfed⟩,
            rfl, rfl⟩
        · exact .inr ⟨[], rfl, rfl, rfl⟩

end Gif
end GifBitmap

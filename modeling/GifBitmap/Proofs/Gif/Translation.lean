import GifBitmap.Gif.Phase
import GifBitmap.Proofs.FieldTranslation

/-!
# Parts of a GIF that begin further back

The offset of a block is asked for in two places: in front of a byte that can only have one
value, and in front of a block before the image.  Both are named in failures and nowhere else,
so no part of a GIF depends on where the file begins.

The failures of decompression name no offset, and lie in the file like all others of a part.

Main facts:
* `Lzw.Decompressor.concernsCode_of_decompress`: the failures of decompression;
* `translated_step`: every part.
-/

namespace GifBitmap

/-- Whether a cause is about a code of compressed data. -/
def Error.ConcernsCode : Error → Prop
  | .undefinedCode .. | .indexOutOfRange _ => True
  | _ => False

namespace Error.ConcernsCode

variable {cause : Error}

theorem liesInFile (h : cause.ConcernsCode) : cause.LiesInFile := by
  cases cause with
  | undefinedCode | indexOutOfRange => trivial
  | _ => exact h.elim

theorem translate_eq (h : cause.ConcernsCode) (distance : Nat) :
    cause.translate distance = cause := by
  cases cause with
  | undefinedCode | indexOutOfRange => rfl
  | _ => exact h.elim

end Error.ConcernsCode

/-- A code fails for a cause that is about it. -/
theorem Lzw.Expander.concernsCode_of_step
    {expander : Expander}
    {code : Nat}
    {cause : Error}
    (h : expander.step code = .error cause) :
    cause.ConcernsCode := by
  unfold step at h
  split at h
  · simp at h
  · split at h
    · simp at h
    · split at h
      · obtain rfl := Except.error.inj h
        trivial
      · unfold expand at h
        split at h <;> split at h
        · simp at h
        · obtain rfl := Except.error.inj h
          trivial
        · simp at h
        · obtain rfl := Except.error.inj h
          trivial

theorem Lzw.Decompressor.concernsCode_of_decompress
    {decompressor : Decompressor}
    {bytes : Bytes}
    {buffer : Array UInt8}
    {cause : Error}
    (h : (decompressor.decompress bytes buffer).failure = some cause) :
    cause.ConcernsCode := by
  fun_induction decompress decompressor bytes buffer with
  | case1 => simp at h
  | case2 => simp at h
  | case3 decompressor bytes buffer hdone code pending left hcode failure hstep =>
      obtain rfl := Option.some.inj h
      exact Expander.concernsCode_of_step hstep
  | case4 decompressor bytes buffer hdone code pending left hcode expander indices hstep ih =>
      exact ih h

namespace Gif

open FieldReader

variable (distance : Nat)

theorem translated_bytes (count : Nat) (positive : 0 < count) :
    Translated distance (bytes count positive) (bytes count positive) :=
  .field fun found => .done found

theorem translated_byte : Translated distance byte byte :=
  .field fun _ => .done _

theorem translated_checkPixels (limit : PixelLimit) (pixels : Nat) :
    Translated distance (checkPixels limit pixels) (checkPixels limit pixels) := by
  unfold checkPixels
  split
  · exact .done ()
  · exact .fail trivial

theorem translated_readHeader : Translated distance readHeader readHeader := by
  unfold readHeader
  refine (translated_bytes distance 3 _).bind fun found => ?_
  split
  · refine (translated_bytes distance 3 _).bind fun version => ?_
    split
    · exact .note (.done version)
    · exact .fail trivial
  · exact .fail trivial

theorem translated_readScreen : Translated distance readScreen readScreen :=
  .field fun _ => .field fun _ => .field fun _ => .field fun _ => .field fun _ => .note (.done _)

theorem translated_readColorTable (shape : TableShape) :
    Translated distance (readColorTable shape) (readColorTable shape) := by
  unfold readColorTable
  split
  · exact (translated_bytes distance _ _).bind fun stored => .note (.done _)
  · exact .done none

theorem translated_readPreamble (limit : PixelLimit) :
    Translated distance (readPreamble limit) (readPreamble limit) := by
  unfold readPreamble
  refine (translated_readHeader distance).bind fun version => ?_
  refine (translated_readScreen distance).bind fun screen => ?_
  refine (translated_checkPixels distance limit screen.pixels).bind fun _ => ?_
  exact (translated_readColorTable distance screen.tableShape).bind fun _ => .done _

theorem translated_expectByte (expected : UInt8) :
    Translated distance (expectByte expected) (expectByte expected) := by
  unfold expectByte
  refine .offset fun start => ?_
  refine (translated_byte distance).bind fun found => ?_
  split
  · exact .done ()
  · exact @Translated.fail _ _ (.unexpectedByte start expected found) trivial

theorem translated_readGraphicControl :
    Translated distance readGraphicControl readGraphicControl := by
  unfold readGraphicControl
  refine (translated_byte distance).bind fun size => ?_
  split
  · refine (translated_byte distance).bind fun flags => ?_
    refine .field fun delay => ?_
    refine (translated_byte distance).bind fun transparentIndex => ?_
    exact (translated_expectByte distance 0).bind fun _ => .note (.done _)
  · exact .fail trivial

theorem translated_readImageDescriptor :
    Translated distance readImageDescriptor readImageDescriptor :=
  .field fun _ => .field fun _ => .field fun _ => .field fun _ => .field fun _ => .note (.done _)

theorem translated_readImage
    (limit : PixelLimit)
    (preamble : Preamble)
    (control : Option GraphicControl) :
    Translated distance (readImage limit preamble control)
      (readImage limit preamble control) := by
  unfold readImage
  refine (translated_readImageDescriptor distance).bind fun image => ?_
  refine (translated_checkPixels distance limit image.pixels).bind fun _ => ?_
  refine (translated_readColorTable distance image.tableShape).bind fun localTable => ?_
  refine (translated_byte distance).bind fun minCodeSize => ?_
  unfold Lzw.Decompressor.ofByte Lzw.CodeSize.ofByte
  split
  · rename_i cause hsize
    split at hsize
    · simp [Except.map] at hsize
    · obtain rfl := Except.error.inj hsize
      exact .fail trivial
  · exact .done _

/-- The offset of an extension is named if it is a second graphic control extension. -/
theorem translated_readExtension
    (preamble : Preamble)
    (control : Option GraphicControl)
    (start : Nat) :
    Translated distance (readExtension preamble control start)
      (readExtension preamble control (start + distance)) := by
  unfold readExtension
  refine (translated_byte distance).bind fun label => ?_
  split
  · refine (translated_readGraphicControl distance).bind fun found => ?_
    cases control with
    | none => exact .done _
    | some _ => exact @Translated.fail _ _ (.repeatedGraphicControl start) trivial
  · exact .done _

/-- The offset of a block is named if it is neither an image nor an extension. -/
theorem translated_readBlock
    (limit : PixelLimit)
    (preamble : Preamble)
    (control : Option GraphicControl) :
    Translated distance (readBlock limit preamble control)
      (readBlock limit preamble control) := by
  unfold readBlock
  refine .offset fun start => ?_
  refine (translated_byte distance).bind fun found => ?_
  split
  · exact translated_readImage distance limit preamble control
  · split
    · exact translated_readExtension distance preamble control start
    · exact @Translated.fail _ _ (.unexpectedByte start imageSeparator found) trivial

theorem translated_skipSubBlock
    (preamble : Preamble)
    (control : Option GraphicControl)
    (kind : Extension)
    (skipped : Nat) :
    Translated distance (skipSubBlock preamble control kind skipped)
      (skipSubBlock preamble control kind skipped) := by
  unfold skipSubBlock
  refine (translated_byte distance).bind fun size => ?_
  split
  · exact (translated_bytes distance _ _).bind fun _ => .done _
  · exact .note (.done _)

theorem translated_feed (stream : IndexStream) (pixels : Nat) (block : Bytes) :
    Translated distance (stream.feed pixels block) (stream.feed pixels block) := by
  unfold IndexStream.feed
  dsimp only
  split
  · rename_i cause hfailure
    have hcode := Lzw.Decompressor.concernsCode_of_decompress hfailure
    have hfail := @Translated.fail IndexStream distance cause hcode.liesInFile
    rwa [hcode.translate_eq] at hfail
  · split
    · exact .note (.done _)
    · exact .done _

theorem translated_readDataBlock (outline : Outline) (stream : IndexStream) :
    Translated distance (readDataBlock outline stream) (readDataBlock outline stream) := by
  unfold readDataBlock
  refine (translated_byte distance).bind fun size => ?_
  split
  · refine (translated_bytes distance _ _).bind fun block => ?_
    split
    · exact .note (.done _)
    · exact .note ((translated_feed distance stream _ block).bind fun _ => .done _)
  · split
    · exact .done _
    · exact .note (.done _)

/-- No part of a GIF depends on where the file begins. -/
theorem translated_step (limit : PixelLimit) (phase : Phase) :
    Translated distance (phase.step limit) (phase.step limit) := by
  cases phase with
  | start => exact (translated_readPreamble distance limit).bind fun _ => .done _
  | blocks preamble control => exact translated_readBlock distance limit preamble control
  | extension preamble control kind skipped =>
      exact translated_skipSubBlock distance preamble control kind skipped
  | imageData outline stream => exact translated_readDataBlock distance outline stream

end Gif
end GifBitmap

import GifBitmap.FieldReader
import GifBitmap.Gif.Picture
import GifBitmap.Lzw.Decompressor

/-!
# The parts of a GIF

A GIF up to the end of its first image is read in phases: the preamble, then blocks
until the image descriptor is met, then the blocks of image data.  `Phase.step` reads
one part and says which phase comes next; a sub-block counts as one part, so every
step reads a few fields only and all repetition lies between the steps.

Neither the canvas nor an image may have more pixels than the limit in force.
-/

namespace GifBitmap
namespace Gif

/-- The signature with which every GIF begins. -/
def signature : Bytes := [0x47, 0x49, 0x46]

/-- The version that is supported. -/
def supportedVersion : Bytes := [0x38, 0x39, 0x61]

/-- The greatest number of pixels allowed, if there is one. -/
abbrev PixelLimit := Option Nat

namespace PixelLimit

/-- The limit in force when none is chosen. -/
def standard : PixelLimit :=
  some 0x2000000

/-- Whether a number of pixels is within the limit. -/
def allows (limit : PixelLimit) (pixels : Nat) : Bool :=
  match limit with
  | some most => pixels ≤ most
  | none => true

end PixelLimit

open FieldReader

/-- Fails if there are too many pixels. -/
def checkPixels (limit : PixelLimit) (pixels : Nat) : FieldReader Unit :=
  if limit.allows pixels then pure () else fail .tooLarge

/-- Reads the header, and gives the version. -/
def readHeader : FieldReader Bytes := do
  let found ← bytes 3 (by decide)
  if found = signature then
    let version ← bytes 3 (by decide)
    if version = supportedVersion then
      record (.header version)
      return version
    else
      fail (.unsupportedVersion version)
  else
    fail (.badSignature found)

/-- Reads a logical screen descriptor. -/
def readScreen : FieldReader Screen := do
  let width ← word
  let height ← word
  let flags ← byte
  let background ← byte
  let aspect ← byte
  let screen : Screen := { width, height, flags, background, aspect }
  record (.screen screen)
  return screen

/-- Reads a color table, if its shape says that it is present. -/
def readColorTable (shape : TableShape) : FieldReader (Option ColorTable) :=
  if positive : 0 < shape.byteCount then do
    let stored ← bytes shape.byteCount positive
    record (.colorTable shape.length)
    return some (.ofBytes stored)
  else
    return none

/-- Reads all that stands before the first frame. -/
def readPreamble (limit : PixelLimit) : FieldReader Preamble := do
  let version ← readHeader
  let screen ← readScreen
  checkPixels limit screen.pixels
  let globalTable ← readColorTable screen.tableShape
  return { version, screen, globalTable }

/-- Reads a byte that can only have one value. -/
def expectByte (expected : UInt8) : FieldReader Unit := do
  let offset ← position
  let found ← byte
  if found = expected then
    return ()
  else
    fail (.unexpectedByte offset expected found)

/-- Reads a graphic control extension after its label. -/
def readGraphicControl : FieldReader GraphicControl := do
  let size ← byte
  if size = graphicControlBodySize then
    let flags ← byte
    let delay ← word
    let transparentIndex ← byte
    expectByte 0
    let control : GraphicControl := { flags, delay, transparentIndex }
    record (.graphicControl control)
    return control
  else
    fail (.graphicControlSize size)

/-- Reads an image descriptor after its separator. -/
def readImageDescriptor : FieldReader ImageDescriptor := do
  let left ← word
  let top ← word
  let width ← word
  let height ← word
  let flags ← byte
  let image : ImageDescriptor := { left, top, width, height, flags }
  record (.image image)
  return image

/-- A picture of which only the indices are missing. -/
structure Outline where
  preamble : Preamble
  control : Option GraphicControl
  image : ImageDescriptor
  localTable : Option ColorTable
  minCodeSize : UInt8
  deriving Repr, DecidableEq

namespace Outline

/-- The picture with the given indices. -/
def complete (outline : Outline) (indices : Array UInt8) : Picture where
  preamble := outline.preamble
  frame := {
    control := outline.control
    image := outline.image
    localTable := outline.localTable
    data := { minCodeSize := outline.minCodeSize, indices } }

end Outline

/-- What was made of the image data so far. -/
structure IndexStream where
  decompressor : Lzw.Decompressor
  indices : Array UInt8
  /-- Whether indices beyond the last pixel were cut off. -/
  truncated : Bool
  deriving Repr, DecidableEq

namespace IndexStream

/-- The stream before the first block of image data. -/
def initial (decompressor : Lzw.Decompressor) : IndexStream :=
  ⟨decompressor, #[], false⟩

/-- Whether further blocks are passed over: the end code was met, or every pixel has its
index and there were more. -/
def isClosed (stream : IndexStream) : Bool :=
  stream.decompressor.isDone || stream.truncated

/-- Decompresses one more block for an image of `pixels` pixels. -/
def feed
    (stream : IndexStream)
    (pixels : Nat)
    (block : Bytes) :
    FieldReader IndexStream :=
  let outcome := stream.decompressor.decompress block stream.indices
  match outcome.failure with
  | some cause => fail cause
  | none =>
      if pixels < outcome.buffer.size then do
        record (.indicesTruncated pixels)
        return ⟨outcome.decompressor, outcome.buffer.take pixels, true⟩
      else
        return ⟨outcome.decompressor, outcome.buffer, stream.truncated⟩

end IndexStream

/-- The part of a file that is read next. -/
inductive Phase
  /-- The preamble. -/
  | start
  /-- A block before the image, after the graphic control extension given. -/
  | blocks (preamble : Preamble) (control : Option GraphicControl)
  /-- A sub-block of an extension that is passed over, `skipped` bytes of it already. -/
  | extension
      (preamble : Preamble)
      (control : Option GraphicControl)
      (kind : Extension)
      (skipped : Nat)
  /-- A block of image data. -/
  | imageData (outline : Outline) (stream : IndexStream)

/-- What a step leads to: another phase, or the picture. -/
abbrev Progress := Phase ⊕ Picture

/-- Reads all between the image separator and the first block of image data. -/
def readImage
    (limit : PixelLimit)
    (preamble : Preamble)
    (control : Option GraphicControl) :
    FieldReader Progress := do
  let image ← readImageDescriptor
  checkPixels limit image.pixels
  let localTable ← readColorTable image.tableShape
  let minCodeSize ← byte
  match Lzw.Decompressor.ofByte minCodeSize with
  | .error cause => fail cause
  | .ok decompressor =>
      let outline : Outline := { preamble, control, image, localTable, minCodeSize }
      return .inl (.imageData outline (.initial decompressor))

/-- Reads an extension from its label on, up to the sub-blocks if it is passed over.
`start` is the offset of its introducer. -/
def readExtension
    (preamble : Preamble)
    (control : Option GraphicControl)
    (start : Nat) :
    FieldReader Progress := do
  let label ← byte
  if label = graphicControlLabel then
    let found ← readGraphicControl
    match control with
    | none => return .inl (.blocks preamble (some found))
    | some _ => fail (.repeatedGraphicControl start)
  else
    return .inl (.extension preamble control (.ofLabel label) 0)

/-- Reads a block before the image. -/
def readBlock
    (limit : PixelLimit)
    (preamble : Preamble)
    (control : Option GraphicControl) :
    FieldReader Progress := do
  let start ← position
  let found ← byte
  if found = imageSeparator then
    readImage limit preamble control
  else if found = extensionIntroducer then
    readExtension preamble control start
  else
    fail (.unexpectedByte start imageSeparator found)

/-- Passes over one sub-block, or ends at the empty one. -/
def skipSubBlock
    (preamble : Preamble)
    (control : Option GraphicControl)
    (kind : Extension)
    (skipped : Nat) :
    FieldReader Progress := do
  let size ← byte
  if positive : 0 < size.toNat then
    let _ ← bytes size.toNat positive
    return .inl (.extension preamble control kind (skipped + size.toNat))
  else
    record (.extensionSkipped kind skipped)
    return .inl (.blocks preamble control)

/-- Reads one block of image data, or ends at the empty one. -/
def readDataBlock (outline : Outline) (stream : IndexStream) : FieldReader Progress := do
  let size ← byte
  if positive : 0 < size.toNat then
    let block ← bytes size.toNat positive
    if stream.isClosed then
      record (.imageDataSkipped size.toNat)
      return .inl (.imageData outline stream)
    else
      record (.imageData size.toNat)
      let fed ← stream.feed outline.image.pixels block
      return .inl (.imageData outline fed)
  else if stream.isClosed then
    return .inr (outline.complete stream.indices)
  else
    record .endCodeMissing
    return .inr (outline.complete stream.indices)

namespace Phase

/-- Reads one part. -/
def step (limit : PixelLimit) : Phase → FieldReader Progress
  | start => do
      let preamble ← readPreamble limit
      return .inl (.blocks preamble none)
  | blocks preamble control => readBlock limit preamble control
  | extension preamble control kind skipped => skipSubBlock preamble control kind skipped
  | imageData outline stream => readDataBlock outline stream

/-- Every step reads a field. -/
theorem step_progresses (limit : PixelLimit) (phase : Phase) :
    (phase.step limit).Progresses := by
  cases phase with
  | start => trivial
  | blocks => exact fun _ => trivial
  | extension => trivial
  | imageData => trivial

end Phase
end Gif
end GifBitmap

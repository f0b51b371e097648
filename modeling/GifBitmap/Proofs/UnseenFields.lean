import GifBitmap.Proofs.ConversionOrder

/-!
# What a conversion does not look at

Some fields of a GIF have no part in its first picture: the shape of its pixels, the color
resolution, the marks that a color table is sorted, the length of a table that is absent, the
colors of a global table where there is a local one, and all that a graphic control extension
says.  Files that differ in nothing else are alike, and they cannot be told apart by what they
are converted to.

Main facts, for files that are alike:
* `File.Alike.length_toBytes`: they take up the same number of bytes;
* `File.Alike.compose_picture`: they show the same indices;
* `Conversion.convert_of_alike`: they are converted to the same bytes with the same counts,
  whatever stands behind them.
-/

namespace GifBitmap
namespace Gif

/-- Whether two packed bytes agree on whether there is a color table and, if there is one, on its
length. -/
def SameTable (flags other : UInt8) : Prop :=
  flags.toNat.testBit 7 = other.toNat.testBit 7 ∧
    (flags.toNat.testBit 7 = true → flags.toNat % 8 = other.toNat % 8)

/-- Whether two screens differ at most in the shape of the pixels, in the color resolution, in the
mark of a sorted table and in the length of a table that is absent. -/
structure Screen.Alike (screen other : Screen) : Prop where
  width_eq : screen.width = other.width
  height_eq : screen.height = other.height
  background_eq : screen.background = other.background
  table : SameTable screen.flags other.flags

/-- Whether two image descriptors differ at most in the mark of a sorted table, in the bits
without a meaning and in the length of a table that is absent. -/
structure ImageDescriptor.Alike (image other : ImageDescriptor) : Prop where
  left_eq : image.left = other.left
  top_eq : image.top = other.top
  width_eq : image.width = other.width
  height_eq : image.height = other.height
  interlaced_eq : image.interlaced = other.interlaced
  table : SameTable image.flags other.flags

/-- Whether two extensions are the same, or both are graphic control extensions. -/
inductive ExtensionBlock.Alike : ExtensionBlock → ExtensionBlock → Prop
  | control (found other : GraphicControl) : Alike (.control found) (.control other)
  | same (block : ExtensionBlock) : Alike block block

/-- Whether two files differ at most in fields that have no part in the picture. -/
structure File.Alike (file other : File) : Prop where
  screen : file.screen.Alike other.screen
  /-- The global table counts only where there is no local one. -/
  globalTable_eq : file.body.localTable = none → file.globalTable = other.globalTable
  extensions :
    List.Forall₂ ExtensionBlock.Alike file.body.extensions other.body.extensions
  image : file.body.image.Alike other.body.image
  localTable_eq : file.body.localTable = other.body.localTable
  codeSize_eq : file.body.codeSize = other.body.codeSize
  blocks_eq : file.body.blocks = other.body.blocks

theorem SameTable.length_tableToBytes
    {flags otherFlags : UInt8}
    {table other : Option ColorTable}
    (hsame : SameTable flags otherFlags)
    (hfits : TableFits flags table)
    (hother : TableFits otherFlags other) :
    (tableToBytes table).length = (tableToBytes other).length := by
  obtain ⟨hpresent, hexponent⟩ := hsame
  have hlengths : table.map ColorTable.length = other.map ColorTable.length := by
    rw [hfits, hother, ← hpresent]
    split
    · rename_i htable
      rw [hexponent htable]
    · rfl
  cases table with
  | none =>
      cases other with
      | none => rfl
      | some found => exact absurd hlengths nofun
  | some found =>
      cases other with
      | none => exact absurd hlengths nofun
      | some otherFound =>
          rw [Gif.length_tableToBytes, Gif.length_tableToBytes, Option.some.inj hlengths]

theorem Screen.length_toBytes (screen : Screen) : screen.toBytes.length = 7 := by
  simp [toBytes, length_littleEndian]

theorem ImageDescriptor.length_toBytes (image : ImageDescriptor) : image.toBytes.length = 9 := by
  simp [toBytes, length_littleEndian]

theorem GraphicControl.length_toBytes (control : GraphicControl) :
    control.toBytes.length = 6 := by
  simp [toBytes, length_littleEndian]

theorem ExtensionBlock.Alike.length_toBytes
    {block other : ExtensionBlock}
    (halike : block.Alike other) :
    block.toBytes.length = other.toBytes.length := by
  cases halike with
  | control found other =>
      simp only [toBytes, List.length_cons, GraphicControl.length_toBytes]
  | same block => rfl

theorem length_extensions_of_alike
    {extensions others : List ExtensionBlock}
    (halike : List.Forall₂ ExtensionBlock.Alike extensions others) :
    (extensions.flatMap ExtensionBlock.toBytes).length =
      (others.flatMap ExtensionBlock.toBytes).length := by
  induction halike with
  | nil => rfl
  | cons hfirst hrest ih =>
      rw [List.flatMap_cons, List.flatMap_cons, List.length_append, List.length_append,
        hfirst.length_toBytes, ih]

namespace File.Alike

variable
  {file other : File}
  (halike : file.Alike other)

include halike

theorem length_toBytes : file.toBytes.length = other.toBytes.length := by
  have hglobal :=
    halike.screen.table.length_tableToBytes file.globalTable_fits other.globalTable_fits
  have hlocal :=
    halike.image.table.length_tableToBytes file.body.localTable_fits other.body.localTable_fits
  have hextensions := length_extensions_of_alike halike.extensions
  simp only [File.toBytes, Body.toBytes, Body.imageToBytes, List.length_append, List.length_cons,
    Screen.length_toBytes, ImageDescriptor.length_toBytes, hglobal, hlocal, hextensions,
    halike.blocks_eq]

theorem withinLimit {limit : PixelLimit} (hwithin : file.WithinLimit limit) :
    other.WithinLimit limit := by
  intro most hmost
  obtain ⟨hscreen, himage⟩ := hwithin most hmost
  rw [← halike.screen.width_eq, ← halike.screen.height_eq, ← halike.image.width_eq,
    ← halike.image.height_eq]
  exact ⟨hscreen, himage⟩

theorem indices_body : file.body.indices = other.body.indices := by
  rw [Body.indices, Body.indices, halike.image.width_eq, halike.image.height_eq,
    halike.codeSize_eq, halike.blocks_eq]

/-- The table that counts is the same: a local one, or else the global one. -/
theorem table_eq :
    file.body.localTable.or file.globalTable = other.body.localTable.or other.globalTable := by
  rw [← halike.localTable_eq]
  cases hlocal : file.body.localTable with
  | some table => rfl
  | none => exact halike.globalTable_eq hlocal

/-- No extension has a part in what is seen. -/
theorem compose_picture (indices : Array UInt8) :
    Canvas.compose (file.picture indices) = Canvas.compose (other.picture indices) := by
  have hrows : RowOrder.ofImage file.body.image = RowOrder.ofImage other.body.image := by
    rw [RowOrder.ofImage, RowOrder.ofImage, halike.image.interlaced_eq, halike.image.height_eq]
  have hstored : ∀ place,
      Canvas.storedRow (file.picture indices).frame place =
        Canvas.storedRow (other.picture indices).frame place := by
    intro place
    rw [Canvas.storedRow, Canvas.storedRow]
    dsimp only [picture, Body.picture]
    rw [halike.image.width_eq]
  rw [Canvas.compose, Canvas.compose, Canvas.paintFrame, Canvas.paintFrame]
  simp only [hstored]
  dsimp only [picture, Body.picture, preamble]
  rw [hrows, halike.screen.width_eq, halike.screen.height_eq, halike.screen.background_eq,
    halike.image.left_eq, halike.image.top_eq]

end File.Alike
end Gif

namespace Conversion

open Gif

theorem bitmapOf_of_alike
    {file other : File}
    (halike : file.Alike other)
    (indices : Array UInt8)
    (table : ColorTable) :
    bitmapOf (file.picture indices) table = bitmapOf (other.picture indices) table := by
  rw [bitmapOf, bitmapOf, halike.compose_picture]
  dsimp only [File.picture, Body.picture, File.preamble]
  rw [halike.screen.width_eq, halike.screen.height_eq]

/-- A conversion that succeeds has a file in front of it, with a picture and a color table. -/
theorem exists_file_of_convert
    {limit : PixelLimit}
    {source : Source}
    {sink : Sink}
    {statistics : Statistics}
    (hok : (convert limit source sink).result = .ok statistics) :
    ∃ file indices rest table,
      (Input.ofSource source).Advances (File.toBytes file) rest ∧
        file.WithinLimit limit ∧
        file.body.indices = .ok indices ∧
        decode limit (.ofSource source) = (.ok (file.picture indices), rest) ∧
        file.body.localTable.or file.globalTable = some table := by
  cases hdecode : decode limit (.ofSource source) with
  | mk result rest =>
      cases result with
      | error cause =>
          rw [convert_of_error hdecode] at hok
          exact absurd hok nofun
      | ok picture =>
          obtain ⟨file, indices, hadvances, hwithin, hindices, rfl⟩ := advances_of_decode hdecode
          cases htable : (file.picture indices).colorTable? with
          | none =>
              rw [convert_of_no_table hdecode htable] at hok
              exact absurd hok nofun
          | some table =>
              exact ⟨file, indices, rest, table, hadvances, hwithin, hindices, rfl, htable⟩

/-- When a conversion succeeds, a file stands in front of its source.  With any file that is alike
in its place, whatever stands behind it and however it is delivered, the same bytes are written to
the sink and the same counts come out. -/
theorem convert_of_alike
    {limit : PixelLimit}
    {source : Source}
    {sink : Sink}
    {statistics : Statistics}
    (hok : (convert limit source sink).result = .ok statistics) :
    (∃ file tail, source.pending = File.toBytes file ++ tail) ∧
      ∀ (file other : File) (tail otherTail : Bytes) (otherSource : Source),
        source.pending = file.toBytes ++ tail →
          file.Alike other →
            otherSource.Steady →
              otherSource.pending = other.toBytes ++ otherTail →
                let outcome := convert limit otherSource sink
                outcome.result = .ok statistics ∧
                  outcome.sink = (convert limit source sink).sink := by
  obtain ⟨found, indices, rest, table, hadvances, hwithin, hindices, hdecode, htable⟩ :=
    exists_file_of_convert hok
  refine ⟨⟨found, rest.source.pending, hadvances.pending_eq⟩, ?_⟩
  intro file other tail otherTail otherSource hpending halike hsteady hother outcome
  obtain ⟨rfl, -⟩ := File.toBytes_append_inj (hadvances.pending_eq.symm.trans hpending)
  rw [halike.indices_body] at hindices
  obtain ⟨otherRest, hotherDecode, hotherAdvances⟩ :
      ∃ otherRest,
        decode limit (.ofSource otherSource) = (.ok (other.picture indices), otherRest) ∧
          (Input.ofSource otherSource).Advances other.toBytes otherRest :=
    decode_of_file hsteady hother (halike.withinLimit hwithin) hindices
  have hotherTable : (other.picture indices).colorTable? = some table :=
    halike.table_eq.symm.trans htable
  have hcounts : otherRest.consumed = rest.consumed := by
    rw [hotherAdvances.consumed_eq, hadvances.consumed_eq, halike.length_toBytes]
    rfl
  obtain ⟨hresult, -, hsink⟩ := @convert_of_table limit source sink _ _ _ hdecode htable
  obtain ⟨hotherResult, -, hotherSink⟩ :=
    @convert_of_table limit otherSource sink _ _ _ hotherDecode hotherTable
  rw [← bitmapOf_of_alike halike] at hotherResult hotherSink
  constructor
  · rw [← hok, hresult, hotherResult, hcounts]
  · rw [hsink, hotherSink]

/-- A file with a global and a local color table and a graphic control extension. -/
def twoTableFile : File where
  screen := ⟨2, 1, 0x80, 1, 0⟩
  globalTable := some ⟨[⟨1, 2, 3⟩, ⟨4, 5, 6⟩]⟩
  body := {
    pixelBody with
    extensions := [.control ⟨1, 10, 1⟩]
    image := ⟨0, 0, 1, 1, 0x80⟩
    localTable := some ⟨[⟨0, 0, 0⟩, ⟨255, 255, 255⟩]⟩
    localTable_fits := rfl }
  globalTable_fits := rfl
  controls_le_one := by decide

/-- Another file with the same picture; all that has no part in it is different. -/
def otherTwoTableFile : File where
  screen := ⟨2, 1, 0xF8, 1, 49⟩
  globalTable := some ⟨[⟨90, 91, 92⟩, ⟨93, 94, 95⟩]⟩
  body := {
    pixelBody with
    extensions := [.control ⟨0xEE, 500, 0⟩]
    image := ⟨0, 0, 1, 1, 0xB8⟩
    localTable := some ⟨[⟨0, 0, 0⟩, ⟨255, 255, 255⟩]⟩
    localTable_fits := rfl }
  globalTable_fits := rfl
  controls_le_one := by decide

theorem alike_otherTwoTableFile : twoTableFile.Alike otherTwoTableFile where
  screen := ⟨rfl, rfl, rfl, by decide, by decide⟩
  globalTable_eq := nofun
  extensions := .cons (.control _ _) .nil
  image := ⟨rfl, rfl, rfl, rfl, by decide, by decide, by decide⟩
  localTable_eq := rfl
  codeSize_eq := rfl
  blocks_eq := rfl

/-- The second file is followed by other bytes and delivered one byte at a time. -/
theorem convert_of_alike_with_two_tables :
    let outcome :=
      convert (some 2)
        (.ofBytes
          [0x47, 0x49, 0x46, 0x38, 0x39, 0x61, 2, 0, 1, 0, 0x80, 1, 0, 1, 2, 3, 4, 5, 6,
            0x21, 0xF9, 4, 1, 10, 0, 1, 0, 0x2C, 0, 0, 0, 0, 1, 0, 1, 0, 0x80,
            0, 0, 0, 255, 255, 255, 2, 2, 0x4C, 1, 0, 0x3B]
          .plain)
        (.empty .plain)
    let otherOutcome :=
      convert (some 2)
        (.ofBytes
          [0x47, 0x49, 0x46, 0x38, 0x39, 0x61, 2, 0, 1, 0, 0xF8, 1, 49, 90, 91, 92, 93, 94, 95,
            0x21, 0xF9, 4, 0xEE, 244, 1, 0, 0, 0x2C, 0, 0, 0, 0, 1, 0, 1, 0, 0xB8,
            0, 0, 0, 255, 255, 255, 2, 2, 0x4C, 1, 0, 7, 7, 7]
          ⟨some 1, true, none⟩)
        (.empty .plain)
    outcome.result = .ok ⟨48, 66⟩ ∧
      otherOutcome.result = .ok ⟨48, 66⟩ ∧ otherOutcome.sink = outcome.sink := by
  have hindices : twoTableFile.body.indices = .ok #[1] := by cbv
  have hwithin : twoTableFile.WithinLimit (some 2) := by
    rintro most ⟨⟩
    decide
  obtain ⟨source, hsource⟩ : ∃ source, source =
      Source.ofBytes (twoTableFile.toBytes ++ [0x3B]) .plain := ⟨_, rfl⟩
  have hsteady : source.Steady := hsource ▸ Source.steady_plain _
  have hpending : source.pending = twoTableFile.toBytes ++ [0x3B] := hsource ▸ rfl
  obtain ⟨rest, hdecode, hadvances⟩ :
      ∃ rest,
        decode (some 2) (.ofSource source) = (.ok (twoTableFile.picture #[1]), rest) ∧
          (Input.ofSource source).Advances twoTableFile.toBytes rest :=
    decode_of_file hsteady hpending hwithin hindices
  obtain ⟨statistics, hok⟩ :=
    @exists_statistics _ source (.empty .plain) _ _ _ hdecode rfl (by decide) rfl rfl
  obtain ⟨hcounts, -⟩ := counts_of_convert hdecode rfl hok
  have hconsumed : rest.consumed = 48 := hadvances.consumed_eq
  rw [hconsumed] at hcounts
  obtain rfl : statistics = ⟨48, 66⟩ := hcounts
  obtain ⟨-, hother⟩ := convert_of_alike hok
  have hsame := hother twoTableFile otherTwoTableFile [0x3B] [7, 7, 7]
    (.ofBytes (otherTwoTableFile.toBytes ++ [7, 7, 7]) ⟨some 1, true, none⟩) hpending
    alike_otherTwoTableFile ⟨by simp [Source.ofBytes], rfl⟩ rfl
  rw [hsource] at hok hsame
  exact ⟨hok, hsame⟩

end Conversion
end GifBitmap

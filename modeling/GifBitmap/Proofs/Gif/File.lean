import GifBitmap.Gif.Phase

/-!
# The form of a GIF

A `File` is all that a GIF holds up to the end of its first image, part by part, and
`File.toBytes` is its stored form.  Nothing here reads: sizes and values are given, and
the fields of proofs say which of them belong together.

The stored form is self-delimiting (`toBytes_append_inj`): in a string of bytes at most
one file stands in front.
-/

namespace GifBitmap
namespace Gif

/-- Up to 255 bytes behind a byte that counts them. -/
structure SubBlock where
  payload : Bytes
  pos : 0 < payload.length
  le_max : payload.length ≤ 255
  deriving DecidableEq

namespace SubBlock

/-- The stored form of a sub-block. -/
def toBytes (block : SubBlock) : Bytes :=
  UInt8.ofNat block.payload.length :: block.payload

/-- The stored form of some sub-blocks, closed by a zero byte. -/
def listToBytes (blocks : List SubBlock) : Bytes :=
  blocks.flatMap toBytes ++ [0]

end SubBlock

def Screen.toBytes (screen : Screen) : Bytes :=
  littleEndian 2 screen.width.toNat ++
    (littleEndian 2 screen.height.toNat ++ [screen.flags, screen.background, screen.aspect])

def ImageDescriptor.toBytes (image : ImageDescriptor) : Bytes :=
  littleEndian 2 image.left.toNat ++
    (littleEndian 2 image.top.toNat ++
      (littleEndian 2 image.width.toNat ++
        (littleEndian 2 image.height.toNat ++ [image.flags])))

/-- The stored form of a graphic control extension from the size of its body on. -/
def GraphicControl.toBytes (control : GraphicControl) : Bytes :=
  4 :: control.flags ::
    (littleEndian 2 control.delay.toNat ++ [control.transparentIndex, 0])

/-- The stored form of a color table, if there is one. -/
def tableToBytes : Option ColorTable → Bytes
  | some table => table.toBytes
  | none => []

/-- Whether there is a color table exactly when the highest bit of a packed byte says so,
with as many colors as the lowest three bits say. -/
def TableFits (flags : UInt8) (table : Option ColorTable) : Prop :=
  table.map ColorTable.length =
    if flags.toNat.testBit 7 then some (2 ^ (flags.toNat % 8 + 1)) else none

theorem TableFits.length_le
    {flags : UInt8}
    {table : ColorTable}
    (h : TableFits flags (some table)) :
    table.length ≤ 256 := by
  rw [TableFits, Option.map_some] at h
  split at h
  · rw [Option.some.inj h]
    have hexponent : flags.toNat % 8 + 1 ≤ 8 := by omega
    exact Nat.pow_le_pow_right (by decide) hexponent
  · exact absurd h (by simp)

/-- An extension before the image. -/
inductive ExtensionBlock
  | control (found : GraphicControl)
  /-- An extension that means nothing to the picture. -/
  | other (label : UInt8) (ne_control : label ≠ 0xF9) (blocks : List SubBlock)
  deriving DecidableEq

namespace ExtensionBlock

/-- The stored form of an extension. -/
def toBytes : ExtensionBlock → Bytes
  | control found => 0x21 :: 0xF9 :: found.toBytes
  | other label _ blocks => 0x21 :: label :: SubBlock.listToBytes blocks

/-- The graphic control extension, if it is one. -/
def control? : ExtensionBlock → Option GraphicControl
  | control found => some found
  | other .. => none

end ExtensionBlock

/-- All behind the preamble, up to the end of the first image. -/
structure Body where
  extensions : List ExtensionBlock
  image : ImageDescriptor
  localTable : Option ColorTable
  codeSize : Lzw.CodeSize
  blocks : List SubBlock
  localTable_fits : TableFits image.flags localTable
  deriving DecidableEq

namespace Body

def controls (body : Body) : List GraphicControl :=
  body.extensions.filterMap ExtensionBlock.control?

/-- The stored form from the image separator on. -/
def imageToBytes (body : Body) : Bytes :=
  0x2C ::
    (body.image.toBytes ++
      (tableToBytes body.localTable ++
        (UInt8.ofNat body.codeSize.bits :: SubBlock.listToBytes body.blocks)))

/-- The stored form. -/
def toBytes (body : Body) : Bytes :=
  body.extensions.flatMap ExtensionBlock.toBytes ++ body.imageToBytes

end Body

/-- A GIF up to the end of its first image. -/
structure File where
  screen : Screen
  globalTable : Option ColorTable
  body : Body
  globalTable_fits : TableFits screen.flags globalTable
  controls_le_one : body.controls.length ≤ 1
  deriving DecidableEq

namespace File

/-- The stored form. -/
def toBytes (file : File) : Bytes :=
  [0x47, 0x49, 0x46] ++
    ([0x38, 0x39, 0x61] ++
      (file.screen.toBytes ++ (tableToBytes file.globalTable ++ file.body.toBytes)))

/-- Whether neither the screen nor the image has more pixels than allowed. -/
def WithinLimit (file : File) (limit : PixelLimit) : Prop :=
  ∀ most, limit = some most →
    file.screen.width.toNat * file.screen.height.toNat ≤ most ∧
      file.body.image.width.toNat * file.body.image.height.toNat ≤ most

end File

/-- The color table of the image has at most 256 colors, whichever it is. -/
theorem File.length_le_of_table
    (file : File)
    {table : ColorTable}
    (h : file.body.localTable.or file.globalTable = some table) :
    table.length ≤ 256 := by
  cases hlocal : file.body.localTable with
  | some found =>
      rw [hlocal, Option.some_or] at h
      exact (Option.some.inj h ▸ hlocal ▸ file.body.localTable_fits).length_le
  | none =>
      rw [hlocal, Option.none_or] at h
      exact (h ▸ file.globalTable_fits).length_le

/-- The indices of an image of `pixels` pixels: blocks are decompressed one after the
other until the end code is met or there are more indices than pixels, and the blocks
behind have no effect. -/
def decodeBlocks (pixels : Nat) :
    (decompressor : Lzw.Decompressor) →
    (indices : Array UInt8) →
    List Bytes →
    Except Error (Array UInt8)
  | _, indices, [] => .ok (indices.take pixels)
  | decompressor, indices, block :: blocks =>
      if decompressor.isDone ∨ pixels < indices.size then
        .ok (indices.take pixels)
      else
        let outcome := decompressor.decompress block indices
        match outcome.failure with
        | some cause => .error cause
        | none => decodeBlocks pixels outcome.decompressor outcome.buffer blocks

namespace Body

/-- The indices of the image, or the failure of the first code that has no meaning. -/
def indices (body : Body) : Except Error (Array UInt8) :=
  decodeBlocks (body.image.width.toNat * body.image.height.toNat)
    (.initial body.codeSize) #[] (body.blocks.map SubBlock.payload)

/-- The picture behind a preamble, with the given graphic control extension and indices. -/
def picture
    (body : Body)
    (preamble : Preamble)
    (control : Option GraphicControl)
    (indices : Array UInt8) :
    Picture where
  preamble := preamble
  frame := {
    control := control
    image := body.image
    localTable := body.localTable
    data := { minCodeSize := UInt8.ofNat body.codeSize.bits, indices } }

end Body

namespace File

def preamble (file : File) : Preamble where
  version := [0x38, 0x39, 0x61]
  screen := file.screen
  globalTable := file.globalTable

/-- The picture that a file shows, with the given indices. -/
def picture (file : File) (indices : Array UInt8) : Picture :=
  file.body.picture file.preamble file.body.controls.head? indices

end File

theorem word_append_inj
    {first second : UInt16}
    {left right : Bytes}
    (h : littleEndian 2 first.toNat ++ left = littleEndian 2 second.toNat ++ right) :
    first = second ∧ left = right := by
  obtain ⟨hbytes, hrest⟩ :=
    List.append_inj h (by rw [length_littleEndian, length_littleEndian])
  refine ⟨?_, hrest⟩
  have hfirst : first.toNat < 256 ^ 2 := first.toNat_lt
  have hsecond : second.toNat < 256 ^ 2 := second.toNat_lt
  have hvalue := congrArg ofLittleEndian hbytes
  rw [ofLittleEndian_littleEndian, ofLittleEndian_littleEndian, Nat.mod_eq_of_lt hfirst,
    Nat.mod_eq_of_lt hsecond] at hvalue
  exact UInt16.toNat_inj.mp hvalue

theorem SubBlock.toNat_length (block : SubBlock) :
    (UInt8.ofNat block.payload.length).toNat = block.payload.length := by
  have hmax := block.le_max
  rw [UInt8.toNat_ofNat']
  omega

theorem SubBlock.toBytes_append_inj
    {first second : SubBlock}
    {left right : Bytes}
    (h : first.toBytes ++ left = second.toBytes ++ right) :
    first = second ∧ left = right := by
  simp only [toBytes, List.cons_append, List.cons.injEq] at h
  obtain ⟨hcount, hrest⟩ := h
  have hlength := congrArg UInt8.toNat hcount
  rw [toNat_length, toNat_length] at hlength
  obtain ⟨payload, hpos, hmax⟩ := first
  obtain ⟨payload', hpos', hmax'⟩ := second
  obtain ⟨rfl, htail⟩ := List.append_inj hrest hlength
  exact ⟨rfl, htail⟩

/-- The zero byte is not the count of a sub-block. -/
theorem SubBlock.toBytes_append_ne
    {block : SubBlock}
    {left right : Bytes} :
    block.toBytes ++ left ≠ 0 :: right := by
  intro h
  simp only [toBytes, List.cons_append, List.cons.injEq] at h
  have hcount := congrArg UInt8.toNat h.1
  rw [toNat_length, UInt8.toNat_zero] at hcount
  exact absurd hcount (Nat.ne_of_gt block.pos)

theorem SubBlock.listToBytes_cons
    (block : SubBlock)
    (blocks : List SubBlock) :
    listToBytes (block :: blocks) = block.toBytes ++ listToBytes blocks := by
  simp [listToBytes]

theorem SubBlock.listToBytes_cons_append
    (block : SubBlock)
    (blocks : List SubBlock)
    (rest : Bytes) :
    listToBytes (block :: blocks) ++ rest = block.toBytes ++ (listToBytes blocks ++ rest) := by
  rw [listToBytes_cons, List.append_assoc]

theorem SubBlock.listToBytes_append_inj
    {first second : List SubBlock}
    {left right : Bytes}
    (h : listToBytes first ++ left = listToBytes second ++ right) :
    first = second ∧ left = right := by
  induction first generalizing second with
  | nil =>
      cases second with
      | nil =>
          simp only [listToBytes, List.flatMap_nil, List.nil_append, List.cons_append,
            List.cons.injEq, true_and] at h
          exact ⟨rfl, h⟩
      | cons block blocks =>
          rw [listToBytes_cons_append] at h
          exact absurd h.symm toBytes_append_ne
  | cons block blocks ih =>
      cases second with
      | nil =>
          rw [listToBytes_cons_append] at h
          exact absurd h toBytes_append_ne
      | cons block' blocks' =>
          rw [listToBytes_cons_append, listToBytes_cons_append] at h
          obtain ⟨rfl, hrest⟩ := toBytes_append_inj h
          obtain ⟨rfl, htail⟩ := ih hrest
          exact ⟨rfl, htail⟩

theorem Screen.toBytes_append_inj
    {first second : Screen}
    {left right : Bytes}
    (h : first.toBytes ++ left = second.toBytes ++ right) :
    first = second ∧ left = right := by
  obtain ⟨width, height, flags, background, aspect⟩ := first
  obtain ⟨width', height', flags', background', aspect'⟩ := second
  simp only [toBytes, List.append_assoc] at h
  obtain ⟨rfl, hheight⟩ := word_append_inj h
  obtain ⟨rfl, hbytes⟩ := word_append_inj hheight
  simp only [List.cons_append, List.nil_append, List.cons.injEq] at hbytes
  obtain ⟨rfl, rfl, rfl, htail⟩ := hbytes
  exact ⟨rfl, htail⟩

theorem ImageDescriptor.toBytes_append_inj
    {first second : ImageDescriptor}
    {left right : Bytes}
    (h : first.toBytes ++ left = second.toBytes ++ right) :
    first = second ∧ left = right := by
  obtain ⟨x, y, width, height, flags⟩ := first
  obtain ⟨x', y', width', height', flags'⟩ := second
  simp only [toBytes, List.append_assoc] at h
  obtain ⟨rfl, htop⟩ := word_append_inj h
  obtain ⟨rfl, hwidth⟩ := word_append_inj htop
  obtain ⟨rfl, hheight⟩ := word_append_inj hwidth
  obtain ⟨rfl, hflags⟩ := word_append_inj hheight
  simp only [List.cons_append, List.nil_append, List.cons.injEq] at hflags
  obtain ⟨rfl, htail⟩ := hflags
  exact ⟨rfl, htail⟩

theorem GraphicControl.toBytes_append_inj
    {first second : GraphicControl}
    {left right : Bytes}
    (h : first.toBytes ++ left = second.toBytes ++ right) :
    first = second ∧ left = right := by
  obtain ⟨flags, delay, transparentIndex⟩ := first
  obtain ⟨flags', delay', transparentIndex'⟩ := second
  simp only [toBytes, List.cons_append, List.cons.injEq, List.append_assoc, true_and] at h
  obtain ⟨rfl, hdelay⟩ := h
  obtain ⟨rfl, hindex⟩ := word_append_inj hdelay
  simp only [List.nil_append, List.cons.injEq, true_and] at hindex
  obtain ⟨rfl, htail⟩ := hindex
  exact ⟨rfl, htail⟩

theorem length_tableToBytes (table : ColorTable) :
    (tableToBytes (some table)).length = 3 * table.length := by
  obtain ⟨colors⟩ := table
  change (colors.flatMap Color.toBytes).length = 3 * colors.length
  induction colors with
  | nil => rfl
  | cons color colors ih =>
      rw [List.flatMap_cons, List.length_append, ih, List.length_cons, Color.toBytes,
        List.length_cons, List.length_cons, List.length_cons, List.length_nil]
      omega

/-- The packed byte tells how long a table is. -/
theorem tableToBytes_append_inj
    {flags : UInt8}
    {first second : Option ColorTable}
    {left right : Bytes}
    (hfirst : TableFits flags first)
    (hsecond : TableFits flags second)
    (h : tableToBytes first ++ left = tableToBytes second ++ right) :
    first = second ∧ left = right := by
  have hlengths : first.map ColorTable.length = second.map ColorTable.length :=
    hfirst.trans hsecond.symm
  cases first with
  | none =>
      cases second with
      | none => exact ⟨rfl, h⟩
      | some table => simp at hlengths
  | some table =>
      cases second with
      | none => simp at hlengths
      | some table' =>
          simp only [Option.map_some, Option.some.injEq] at hlengths
          obtain ⟨hbytes, htail⟩ :=
            List.append_inj h (by rw [length_tableToBytes, length_tableToBytes, hlengths])
          have hsame := congrArg ColorTable.ofBytes hbytes
          simp only [tableToBytes, ColorTable.ofBytes_toBytes] at hsame
          exact ⟨congrArg some hsame, htail⟩

theorem ExtensionBlock.toBytes_append_inj
    {first second : ExtensionBlock}
    {left right : Bytes}
    (h : first.toBytes ++ left = second.toBytes ++ right) :
    first = second ∧ left = right := by
  cases first with
  | control found =>
      cases second with
      | control found' =>
          simp only [toBytes, List.cons_append, List.cons.injEq, true_and] at h
          obtain ⟨rfl, htail⟩ := GraphicControl.toBytes_append_inj h
          exact ⟨rfl, htail⟩
      | other label hne blocks =>
          simp only [toBytes, List.cons_append, List.cons.injEq, true_and] at h
          exact absurd h.1.symm hne
  | other label hne blocks =>
      cases second with
      | control found =>
          simp only [toBytes, List.cons_append, List.cons.injEq, true_and] at h
          exact absurd h.1 hne
      | other label' hne' blocks' =>
          simp only [toBytes, List.cons_append, List.cons.injEq, true_and] at h
          obtain ⟨rfl, hblocks⟩ := h
          obtain ⟨rfl, htail⟩ := SubBlock.listToBytes_append_inj hblocks
          exact ⟨rfl, htail⟩

theorem ExtensionBlock.controls_cons
    (block : ExtensionBlock)
    (blocks : List ExtensionBlock) :
    (block :: blocks).filterMap control? =
      block.control?.toList ++ blocks.filterMap control? := by
  cases block with
  | control found => rfl
  | other label hne payload => rfl

/-- No extension begins with the image separator. -/
theorem ExtensionBlock.toBytes_append_ne
    {block : ExtensionBlock}
    {left right : Bytes} :
    block.toBytes ++ left ≠ 0x2C :: right := by
  intro h
  cases block with
  | control found => simp [toBytes] at h
  | other label hne blocks => simp [toBytes] at h

/-- The image separator tells where the extensions end. -/
theorem extensions_append_inj
    {first second : List ExtensionBlock}
    {left right : Bytes}
    (h : first.flatMap ExtensionBlock.toBytes ++ (0x2C :: left) =
      second.flatMap ExtensionBlock.toBytes ++ (0x2C :: right)) :
    first = second ∧ left = right := by
  induction first generalizing second with
  | nil =>
      cases second with
      | nil =>
          simp only [List.flatMap_nil, List.nil_append, List.cons.injEq, true_and] at h
          exact ⟨rfl, h⟩
      | cons block blocks =>
          rw [List.flatMap_cons, List.append_assoc] at h
          exact absurd h.symm ExtensionBlock.toBytes_append_ne
  | cons block blocks ih =>
      cases second with
      | nil =>
          rw [List.flatMap_cons, List.append_assoc] at h
          exact absurd h ExtensionBlock.toBytes_append_ne
      | cons block' blocks' =>
          rw [List.flatMap_cons, List.flatMap_cons, List.append_assoc, List.append_assoc] at h
          obtain ⟨rfl, hrest⟩ := ExtensionBlock.toBytes_append_inj h
          obtain ⟨rfl, htail⟩ := ih hrest
          exact ⟨rfl, htail⟩

theorem toNat_codeSize (size : Lzw.CodeSize) :
    (UInt8.ofNat size.bits).toNat = size.bits := by
  have hmax : size.bits ≤ 12 := size.le_max
  rw [UInt8.toNat_ofNat']
  omega

theorem Body.toBytes_append_inj
    {first second : Body}
    {left right : Bytes}
    (h : first.toBytes ++ left = second.toBytes ++ right) :
    first = second ∧ left = right := by
  obtain ⟨extensions, image, localTable, size, blocks, hfits⟩ := first
  obtain ⟨extensions', image', localTable', size', blocks', hfits'⟩ := second
  simp only [toBytes, imageToBytes, List.append_assoc, List.cons_append] at h
  obtain ⟨rfl, himage⟩ := extensions_append_inj h
  obtain ⟨rfl, htable⟩ := ImageDescriptor.toBytes_append_inj himage
  obtain ⟨rfl, hdata⟩ := tableToBytes_append_inj hfits hfits' htable
  simp only [List.cons.injEq] at hdata
  obtain ⟨hbyte, hblocks⟩ := hdata
  obtain ⟨rfl, htail⟩ := SubBlock.listToBytes_append_inj hblocks
  have hbits := congrArg UInt8.toNat hbyte
  rw [toNat_codeSize, toNat_codeSize] at hbits
  obtain ⟨bits, hlow, hhigh⟩ := size
  obtain ⟨bits', hlow', hhigh'⟩ := size'
  subst hbits
  exact ⟨rfl, htail⟩

/-- In a string of bytes at most one file stands in front. -/
theorem File.toBytes_append_inj
    {first second : File}
    {left right : Bytes}
    (h : first.toBytes ++ left = second.toBytes ++ right) :
    first = second ∧ left = right := by
  obtain ⟨screen, globalTable, body, hfits, hone⟩ := first
  obtain ⟨screen', globalTable', body', hfits', hone'⟩ := second
  simp only [toBytes, List.append_assoc, List.append_cancel_left_eq] at h
  obtain ⟨rfl, htable⟩ := Screen.toBytes_append_inj h
  obtain ⟨rfl, hbody⟩ := tableToBytes_append_inj hfits hfits' htable
  obtain ⟨rfl, htail⟩ := Body.toBytes_append_inj hbody
  exact ⟨rfl, htail⟩

end Gif
end GifBitmap

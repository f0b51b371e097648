import GifBitmap.Proofs.Gif.Reading

/-!
# Which inputs are decoded

`Phase.Accepts` says of every phase which bytes lead from it to a picture, in terms of
the parts of a `File` that are still to come.  One step reads one part, so by induction
over the run nothing but such bytes is accepted (`accepts_of_readsUntil`), and by
induction over the parts all of them are (`readsUntil_of_file`).

The main result is `decode_eq_ok_iff`.
-/

namespace GifBitmap
namespace Gif

open FieldReader

namespace IndexStream

/-- The indices after all blocks of the image data. -/
def finish (pixels : Nat) : IndexStream → List Bytes → Except Error (Array UInt8)
  | stream, [] => .ok stream.indices
  | stream, block :: blocks =>
      match stream.absorb pixels block with
      | .error cause => .error cause
      | .ok fed => finish pixels fed blocks

theorem finish_of_isClosed
    {stream : IndexStream}
    {pixels : Nat}
    (hclosed : stream.isClosed = true)
    (blocks : List Bytes) :
    stream.finish pixels blocks = .ok stream.indices := by
  induction blocks with
  | nil => rfl
  | cons block blocks ih =>
      rw [finish, absorb, if_pos hclosed]
      exact ih

/-- Once there are more indices than pixels, no block has an effect. -/
theorem decodeBlocks_of_lt
    {decompressor : Lzw.Decompressor}
    {pixels : Nat}
    {indices : Array UInt8}
    (hlt : pixels < indices.size)
    (blocks : List Bytes) :
    decodeBlocks pixels decompressor indices blocks = .ok (indices.take pixels) := by
  cases blocks with
  | nil => rfl
  | cons block blocks => rw [decodeBlocks, if_pos (.inr hlt)]

/-- A stream that is not truncated never holds more indices than there are pixels, so
cutting off at each block is cutting off once at the end. -/
theorem finish_eq_decodeBlocks
    {decompressor : Lzw.Decompressor}
    {pixels : Nat}
    {indices : Array UInt8}
    (hsize : indices.size ≤ pixels)
    (blocks : List Bytes) :
    finish pixels ⟨decompressor, indices, false⟩ blocks =
      decodeBlocks pixels decompressor indices blocks := by
  induction blocks generalizing decompressor indices with
  | nil =>
      rw [finish, decodeBlocks]
      exact congrArg _ (Array.extract_eq_self_of_le hsize).symm
  | cons block blocks ih =>
      rw [finish, absorb, decodeBlocks]
      cases hdone : decompressor.isDone with
      | true =>
          have hclosed : isClosed ⟨decompressor, indices, false⟩ = true := by
            rw [isClosed, hdone, Bool.true_or]
          have htake : indices.take pixels = indices := Array.extract_eq_self_of_le hsize
          rw [if_pos hclosed, if_pos (.inl rfl), htake]
          exact finish_of_isClosed hclosed blocks
      | false =>
          have hopen : ¬isClosed ⟨decompressor, indices, false⟩ = true := by
            simp [isClosed, hdone]
          have hmore : ¬(false = true ∨ pixels < indices.size) := by
            simp only [Bool.false_eq_true, false_or]
            omega
          rw [if_neg hopen, if_neg hmore]
          obtain ⟨failure, following, buffer⟩ := decompressor.decompress block indices
          cases failure with
          | some cause => rfl
          | none =>
              dsimp only
              by_cases hlt : pixels < buffer.size
              · -- The stream is cut off here, the other side at the end.
                have hclosed : isClosed ⟨following, buffer.take pixels, true⟩ = true :=
                  Bool.or_true _
                rw [if_pos hlt, decodeBlocks_of_lt hlt]
                exact finish_of_isClosed hclosed blocks
              · rw [if_neg hlt]
                exact ih (Nat.le_of_not_lt hlt)

end IndexStream

/-- Whether the bytes lead to the picture behind the preamble, when the graphic control
extension given was met already. -/
def AcceptsBlocks
    (limit : PixelLimit)
    (preamble : Preamble)
    (control : Option GraphicControl)
    (taken : Bytes)
    (picture : Picture) : Prop :=
  ∃ body indices,
    taken = Body.toBytes body ∧
      (control.toList ++ body.controls).length ≤ 1 ∧
      limit.allows body.image.pixels ∧
      body.indices = .ok indices ∧
      picture = body.picture preamble (control.toList ++ body.controls).head? indices

/-- Whether the bytes lead from a phase to the picture. -/
def Phase.Accepts (limit : PixelLimit) : Phase → Bytes → Picture → Prop
  | start, taken, picture =>
      ∃ file indices,
        taken = File.toBytes file ∧
          file.WithinLimit limit ∧
          file.body.indices = .ok indices ∧
          picture = file.picture indices
  | blocks preamble control, taken, picture =>
      AcceptsBlocks limit preamble control taken picture
  | extension preamble control _ _, taken, picture =>
      ∃ skipped rest,
        taken = SubBlock.listToBytes skipped ++ rest ∧
          AcceptsBlocks limit preamble control rest picture
  | imageData outline stream, taken, picture =>
      ∃ blocks indices,
        taken = SubBlock.listToBytes blocks ∧
          stream.finish outline.image.pixels (blocks.map SubBlock.payload) = .ok indices ∧
          picture = outline.complete indices

theorem allows_iff {limit : PixelLimit} {pixels : Nat} :
    limit.allows pixels ↔ ∀ most, limit = some most → pixels ≤ most := by
  cases limit with
  | none => simp [PixelLimit.allows]
  | some most => simp [PixelLimit.allows]

theorem File.withinLimit_iff {file : File} {limit : PixelLimit} :
    file.WithinLimit limit ↔
      limit.allows file.screen.pixels ∧ limit.allows file.body.image.pixels := by
  rw [allows_iff, allows_iff]
  constructor
  · intro h
    exact ⟨fun most hmost => (h most hmost).1, fun most hmost => (h most hmost).2⟩
  · rintro ⟨hscreen, himage⟩ most hmost
    exact ⟨hscreen most hmost, himage most hmost⟩

theorem Body.finish_eq_indices (body : Body) :
    (IndexStream.initial (.initial body.codeSize)).finish body.image.pixels
      (body.blocks.map SubBlock.payload) = body.indices :=
  IndexStream.finish_eq_decodeBlocks (Nat.zero_le _) _

theorem accepts_start
    {limit : PixelLimit}
    {screen : Screen}
    {table : Option ColorTable}
    {rest : Bytes}
    {picture : Picture}
    (hfits : TableFits screen.flags table)
    (hallows : limit.allows screen.pixels)
    (h : AcceptsBlocks limit ⟨supportedVersion, screen, table⟩ none rest picture) :
    Phase.start.Accepts limit
      (signature ++ (supportedVersion ++ (screen.toBytes ++ tableToBytes table)) ++ rest)
      picture := by
  obtain ⟨body, indices, rfl, hone, himage, hindices, rfl⟩ := h
  refine ⟨⟨screen, table, body, hfits, hone⟩, indices, ?_, ?_, hindices, rfl⟩
  · simp only [List.append_assoc]
    rfl
  · exact File.withinLimit_iff.mpr ⟨hallows, himage⟩

/-- What stands before the blocks of image data ends the extensions. -/
theorem acceptsBlocks_image
    {limit : PixelLimit}
    {preamble : Preamble}
    {control : Option GraphicControl}
    {image : ImageDescriptor}
    {table : Option ColorTable}
    {size : Lzw.CodeSize}
    {rest : Bytes}
    {picture : Picture}
    (hfits : TableFits image.flags table)
    (hallows : limit.allows image.pixels)
    (h : Phase.Accepts limit
      (.imageData ⟨preamble, control, image, table, UInt8.ofNat size.bits⟩
        (.initial (.initial size)))
      rest picture) :
    AcceptsBlocks limit preamble control
      (0x2C :: (image.toBytes ++ (tableToBytes table ++ [UInt8.ofNat size.bits])) ++ rest)
      picture := by
  obtain ⟨blocks, indices, rfl, hindices, rfl⟩ := h
  let body : Body := ⟨[], image, table, size, blocks, hfits⟩
  have hcontrols : control.toList ++ body.controls = control.toList := List.append_nil _
  refine ⟨body, indices, ?_, ?_, hallows, body.finish_eq_indices.symm.trans hindices, ?_⟩
  · simp only [Body.toBytes, Body.imageToBytes, body, List.append_assoc, List.cons_append]
    rfl
  · rw [hcontrols]
    exact Option.length_toList_le
  · rw [hcontrols, Option.head?_toList]
    rfl

theorem acceptsBlocks_cons
    {limit : PixelLimit}
    {preamble : Preamble}
    {control following : Option GraphicControl}
    {rest : Bytes}
    {picture : Picture}
    (block : ExtensionBlock)
    (hcontrol : following.toList = control.toList ++ block.control?.toList)
    (h : AcceptsBlocks limit preamble following rest picture) :
    AcceptsBlocks limit preamble control (block.toBytes ++ rest) picture := by
  obtain ⟨body, indices, rfl, hone, himage, hindices, rfl⟩ := h
  let longer : Body := { body with extensions := block :: body.extensions }
  have hcontrols : control.toList ++ longer.controls = following.toList ++ body.controls := by
    rw [hcontrol, List.append_assoc]
    exact congrArg _ (block.controls_cons body.extensions)
  refine ⟨longer, indices, ?_, ?_, himage, hindices, ?_⟩
  · simp only [longer, Body.toBytes, List.flatMap_cons, List.append_assoc]
    rfl
  · rw [hcontrols]
    exact hone
  · rw [hcontrols]
    rfl

/-- A step keeps what is accepted: bytes accepted from the phase it leads to are accepted
from the phase before, behind the bytes of the step. -/
theorem Phase.accepts_of_step
    {limit : PixelLimit}
    {phase following : Phase}
    {position : Nat}
    {first rest : Bytes}
    {picture : Picture}
    (hstep : (phase.step limit).Reads position first (.inl following))
    (h : following.Accepts limit rest picture) :
    phase.Accepts limit (first ++ rest) picture := by
  cases phase with
  | start =>
      rw [step, reads_bind_iff] at hstep
      obtain ⟨_, _, preamble, rfl, hpreamble, rfl, hfollowing⟩ := hstep
      obtain ⟨screen, table, hfits, hallows, rfl, rfl⟩ := reads_readPreamble_iff.mp hpreamble
      obtain rfl := Sum.inl.inj hfollowing
      rw [List.append_nil]
      exact accepts_start hfits hallows h
  | blocks preamble control =>
      rcases reads_readBlock_iff.mp hstep with
        ⟨image, table, size, hfits, hallows, rfl, hfollowing⟩ |
        ⟨found, rfl, rfl, hfollowing⟩ | ⟨label, hlabel, rfl, hfollowing⟩
      · obtain rfl := Sum.inl.inj hfollowing
        exact acceptsBlocks_image hfits hallows h
      · obtain rfl := Sum.inl.inj hfollowing
        exact acceptsBlocks_cons (.control found) rfl h
      · obtain rfl := Sum.inl.inj hfollowing
        obtain ⟨skipped, more, rfl, hmore⟩ := h
        have hcons := acceptsBlocks_cons (.other label hlabel skipped)
          (List.append_nil _).symm hmore
        exact hcons
  | extension preamble control kind count =>
      rcases reads_skipSubBlock_iff.mp hstep with
        ⟨block, count', rfl, -, hfollowing⟩ | ⟨rfl, hfollowing⟩
      · obtain rfl := Sum.inl.inj hfollowing
        obtain ⟨skipped, more, rfl, hmore⟩ := h
        exact ⟨block :: skipped, more, (SubBlock.listToBytes_cons_append block skipped more).symm,
          hmore⟩
      · obtain rfl := Sum.inl.inj hfollowing
        exact ⟨[], rest, rfl, h⟩
  | imageData outline stream =>
      rcases reads_readDataBlock_iff.mp hstep with
        ⟨block, fed, rfl, hfed, hfollowing⟩ | ⟨rfl, hfollowing⟩
      · obtain rfl := Sum.inl.inj hfollowing
        obtain ⟨blocks, indices, rfl, hindices, rfl⟩ := h
        refine ⟨block :: blocks, indices, ?_, ?_, rfl⟩
        · rw [SubBlock.listToBytes_cons]
        · rw [List.map_cons, IndexStream.finish, hfed]
          exact hindices
      · exact absurd hfollowing Sum.inl_ne_inr

/-- Only the zero byte behind the image data leads to a picture at once. -/
theorem Phase.accepts_of_stop
    {limit : PixelLimit}
    {phase : Phase}
    {position : Nat}
    {taken : Bytes}
    {picture : Picture}
    (hstep : (phase.step limit).Reads position taken (.inr picture)) :
    phase.Accepts limit taken picture := by
  cases phase with
  | start =>
      rw [step, reads_bind_iff] at hstep
      obtain ⟨_, _, preamble, -, -, -, hpicture⟩ := hstep
      exact absurd hpicture Sum.inr_ne_inl
  | blocks preamble control =>
      rcases reads_readBlock_iff.mp hstep with
        ⟨_, _, _, -, -, -, hpicture⟩ | ⟨_, -, -, hpicture⟩ | ⟨_, -, -, hpicture⟩
      · exact absurd hpicture Sum.inr_ne_inl
      · exact absurd hpicture Sum.inr_ne_inl
      · exact absurd hpicture Sum.inr_ne_inl
  | extension preamble control kind count =>
      rcases reads_skipSubBlock_iff.mp hstep with ⟨_, _, -, -, hpicture⟩ | ⟨-, hpicture⟩
      · exact absurd hpicture Sum.inr_ne_inl
      · exact absurd hpicture Sum.inr_ne_inl
  | imageData outline stream =>
      rcases reads_readDataBlock_iff.mp hstep with ⟨_, _, -, -, hpicture⟩ | ⟨rfl, hpicture⟩
      · exact absurd hpicture Sum.inr_ne_inl
      · exact ⟨[], stream.indices, rfl, rfl, Sum.inr.inj hpicture⟩

/-- All bytes that a run reads up to the picture are accepted. -/
theorem Phase.accepts_of_readsUntil
    {limit : PixelLimit}
    {phase : Phase}
    {position : Nat}
    {taken : Bytes}
    {picture : Picture}
    (h : ReadsUntil (Phase.step limit) phase position taken picture) :
    phase.Accepts limit taken picture := by
  induction h with
  | stop hstep => exact accepts_of_stop hstep
  | next hstep _ ih => exact accepts_of_step hstep ih

theorem readsUntil_imageData
    {limit : PixelLimit}
    {outline : Outline}
    {stream : IndexStream}
    {position : Nat}
    {indices : Array UInt8}
    (blocks : List SubBlock)
    (h : stream.finish outline.image.pixels (blocks.map SubBlock.payload) = .ok indices) :
    ReadsUntil (Phase.step limit) (.imageData outline stream) position
      (SubBlock.listToBytes blocks) (outline.complete indices) := by
  induction blocks generalizing stream position with
  | nil =>
      obtain rfl := Except.ok.inj h
      exact .stop (reads_readDataBlock_iff.mpr (.inr ⟨rfl, rfl⟩))
  | cons block blocks ih =>
      rw [List.map_cons, IndexStream.finish] at h
      split at h
      · exact absurd h (by simp)
      · rename_i fed hfed
        rw [SubBlock.listToBytes_cons]
        exact .next (reads_readDataBlock_iff.mpr (.inl ⟨block, fed, rfl, hfed, rfl⟩)) (ih h)

theorem readsUntil_extension
    {limit : PixelLimit}
    {preamble : Preamble}
    {control : Option GraphicControl}
    {kind : Extension}
    {count position : Nat}
    {rest : Bytes}
    {picture : Picture}
    (skipped : List SubBlock)
    (h : ∀ position,
      ReadsUntil (Phase.step limit) (.blocks preamble control) position rest picture) :
    ReadsUntil (Phase.step limit) (.extension preamble control kind count) position
      (SubBlock.listToBytes skipped ++ rest) picture := by
  induction skipped generalizing count position with
  | nil => exact .next (reads_skipSubBlock_iff.mpr (.inr ⟨rfl, rfl⟩)) (h _)
  | cons block skipped ih =>
      rw [SubBlock.listToBytes_cons_append]
      exact .next (reads_skipSubBlock_iff.mpr (.inl ⟨block, _, rfl, rfl, rfl⟩)) ih

theorem readsUntil_image
    {limit : PixelLimit}
    {preamble : Preamble}
    {control : Option GraphicControl}
    {position : Nat}
    {indices : Array UInt8}
    (body : Body)
    (hallows : limit.allows body.image.pixels)
    (hindices : body.indices = .ok indices) :
    ReadsUntil (Phase.step limit) (.blocks preamble control) position body.imageToBytes
      (body.picture preamble control indices) := by
  have hbytes : body.imageToBytes =
      0x2C :: (body.image.toBytes ++
        (tableToBytes body.localTable ++ [UInt8.ofNat body.codeSize.bits])) ++
        SubBlock.listToBytes body.blocks := by
    simp only [Body.imageToBytes, List.cons_append, List.append_assoc, List.nil_append]
  have hblock : (readBlock limit preamble control).Reads position _ _ :=
    reads_readBlock_iff.mpr
      (.inl ⟨body.image, body.localTable, body.codeSize, body.localTable_fits, hallows, rfl, rfl⟩)
  rw [hbytes]
  exact .next hblock
    (readsUntil_imageData body.blocks (body.finish_eq_indices.trans hindices))

/-- The extensions are read one by one, the graphic control extension only once. -/
theorem readsUntil_blocks
    {limit : PixelLimit}
    {preamble : Preamble}
    {control : Option GraphicControl}
    {position : Nat}
    {rest : Bytes}
    {picture : Picture}
    (extensions : List ExtensionBlock)
    (hone : (control.toList ++ extensions.filterMap ExtensionBlock.control?).length ≤ 1)
    (h : ∀ following position,
      following = (control.toList ++ extensions.filterMap ExtensionBlock.control?).head? →
        ReadsUntil (Phase.step limit) (.blocks preamble following) position rest picture) :
    ReadsUntil (Phase.step limit) (.blocks preamble control) position
      (extensions.flatMap ExtensionBlock.toBytes ++ rest) picture := by
  induction extensions generalizing control position with
  | nil =>
      refine h control position ?_
      rw [List.filterMap_nil, List.append_nil, Option.head?_toList]
  | cons block extensions ih =>
      rw [ExtensionBlock.controls_cons] at hone h
      rw [List.flatMap_cons, List.append_assoc]
      cases block with
      | control found =>
          cases control with
          | none =>
              refine .next (reads_readBlock_iff.mpr (.inr (.inl ⟨found, rfl, rfl, rfl⟩))) ?_
              exact ih hone h
          | some earlier =>
              -- A second one would be counted twice.
              simp [ExtensionBlock.control?] at hone
      | other label hlabel skipped =>
          have hblock : (readBlock limit preamble control).Reads position [0x21, label] _ :=
            reads_readBlock_iff.mpr (.inr (.inr ⟨label, hlabel, rfl, rfl⟩))
          change ReadsUntil (Phase.step limit) (.blocks preamble control) position
            ([0x21, label] ++ (SubBlock.listToBytes skipped ++ _)) picture
          exact .next hblock (readsUntil_extension skipped fun _ => ih hone h)

/-- A file whose image data can be decoded is read up to its picture. -/
theorem readsUntil_of_file
    {limit : PixelLimit}
    {file : File}
    {position : Nat}
    {indices : Array UInt8}
    (hwithin : file.WithinLimit limit)
    (hindices : file.body.indices = .ok indices) :
    ReadsUntil (Phase.step limit) .start position file.toBytes (file.picture indices) := by
  obtain ⟨hscreen, himage⟩ := File.withinLimit_iff.mp hwithin
  have hbytes : file.toBytes =
      signature ++ (supportedVersion ++ (file.screen.toBytes ++ tableToBytes file.globalTable)) ++
        (file.body.extensions.flatMap ExtensionBlock.toBytes ++ file.body.imageToBytes) := by
    simp only [List.append_assoc]
    rfl
  have hpreamble : (Phase.start.step limit).Reads position _ (.inl (.blocks file.preamble none)) :=
    reads_bind_iff.mpr ⟨_, [], _, (List.append_nil _).symm,
      reads_readPreamble_iff.mpr
        ⟨file.screen, file.globalTable, file.globalTable_fits, hscreen, rfl, rfl⟩, rfl, rfl⟩
  rw [hbytes]
  refine .next hpreamble (readsUntil_blocks file.body.extensions file.controls_le_one ?_)
  rintro following position rfl
  exact readsUntil_image file.body himage hindices

/-- A file in front of an input is decoded, and what stands behind it is not read. -/
theorem decode_of_file
    {limit : PixelLimit}
    {file : File}
    {indices : Array UInt8}
    {input : Input}
    {tail : Bytes}
    (hsteady : input.source.Steady)
    (hpending : input.source.pending = file.toBytes ++ tail)
    (hwithin : file.WithinLimit limit)
    (hindices : file.body.indices = .ok indices) :
    ∃ rest,
      decode limit input = (.ok (file.picture indices), rest) ∧
        input.Advances file.toBytes rest :=
  repeatUntil_of_readsUntil (readsUntil_of_file hwithin hindices) hsteady rfl hpending

/-- If an input is decoded, whatever its source, a file stands in front, and the input has
moved on by that file. -/
theorem advances_of_decode
    {limit : PixelLimit}
    {input rest : Input}
    {picture : Picture}
    (h : decode limit input = (.ok picture, rest)) :
    ∃ file indices,
      input.Advances (File.toBytes file) rest ∧
        file.WithinLimit limit ∧
        file.body.indices = .ok indices ∧
        picture = file.picture indices := by
  obtain ⟨taken, hadvances, hreads⟩ := advances_of_repeatUntil h
  obtain ⟨file, indices, rfl, hwithin, hindices, hpicture⟩ := Phase.accepts_of_readsUntil hreads
  exact ⟨file, indices, hadvances, hwithin, hindices, hpicture⟩

/-- Decoding gives a picture exactly if a file within the limit, with image data that can
be decoded, stands in front, and then gives the picture of that file.  The file is the
only one in front, all its bytes were read, and none of those behind it. -/
theorem decode_eq_ok_iff (limit : PixelLimit) (bytes : Bytes) :
    let outcome := decode limit (.ofSource (.ofBytes bytes .plain))
    (∀ picture,
      outcome.1 = .ok picture ↔
        ∃ file tail indices,
          bytes = File.toBytes file ++ tail ∧
            file.WithinLimit limit ∧
            file.body.indices = .ok indices ∧
            picture = file.picture indices) ∧
      ∀ file tail,
        bytes = File.toBytes file ++ tail →
          (∀ other otherTail,
            bytes = File.toBytes other ++ otherTail → other = file ∧ otherTail = tail) ∧
          ∀ picture,
            outcome.1 = .ok picture →
              outcome.2.consumed = file.toBytes.length ∧
                outcome.2.source.delivered = file.toBytes.length ∧
                outcome.2.source.pending = tail := by
  have hsteady := Source.steady_plain bytes
  have hcomplete : ∀ file tail indices,
      bytes = File.toBytes file ++ tail →
        file.WithinLimit limit →
        file.body.indices = .ok indices →
        ∃ rest,
          decode limit (.ofSource (.ofBytes bytes .plain)) =
              (.ok (file.picture indices), rest) ∧
            (Input.ofSource (.ofBytes bytes .plain)).Advances file.toBytes rest :=
    fun file tail indices hbytes => decode_of_file hsteady hbytes
  intro outcome
  constructor
  · intro picture
    constructor
    · intro hok
      obtain ⟨file, indices, hadvances, hwithin, hindices, hpicture⟩ :=
        advances_of_decode (Prod.ext hok rfl)
      exact ⟨file, _, indices, hadvances.pending_eq, hwithin, hindices, hpicture⟩
    · rintro ⟨file, tail, indices, hbytes, hwithin, hindices, rfl⟩
      obtain ⟨rest, hdecode, -⟩ := hcomplete file tail indices hbytes hwithin hindices
      exact congrArg Prod.fst hdecode
  · intro file tail hbytes
    constructor
    · intro other otherTail hother
      exact File.toBytes_append_inj (hother.symm.trans hbytes)
    · intro picture hok
      obtain ⟨found, indices, hfound, hwithin, hindices, -⟩ :=
        advances_of_decode (Prod.ext hok rfl)
      obtain ⟨rfl, htail⟩ := File.toBytes_append_inj (hfound.pending_eq.symm.trans hbytes)
      obtain ⟨rest, hdecode, hadvances⟩ := hcomplete found tail indices hbytes hwithin hindices
      have hrest : outcome.2 = rest := congrArg Prod.snd hdecode
      rw [hrest]
      exact ⟨by rw [hadvances.consumed_eq]; exact Nat.zero_add _,
        by rw [hadvances.delivered_eq]; exact Nat.zero_add _, hrest ▸ htail⟩

/-- A comment, a graphic control extension and image data in two blocks. -/
theorem decode_eq_ok_iff_of_single_pixel :
    ∃ picture,
      (decode (some 1) (.ofSource (.ofBytes
        [0x47, 0x49, 0x46, 0x38, 0x39, 0x61, 1, 0, 1, 0, 0x80, 0, 0, 1, 2, 3, 4, 5, 6,
          0x21, 0xFE, 2, 0x68, 0x69, 0, 0x21, 0xF9, 4, 1, 10, 0, 1, 0,
          0x2C, 0, 0, 0, 0, 1, 0, 1, 0, 0, 2, 1, 0x4C, 1, 1, 0, 0x3B] .plain))).1 =
          .ok picture ∧
        picture.frame.control = some ⟨1, 10, 1⟩ ∧
        picture.frame.data.indices = #[1] := by
  let file : File := {
    screen := ⟨1, 1, 0x80, 0, 0⟩
    globalTable := some ⟨[⟨1, 2, 3⟩, ⟨4, 5, 6⟩]⟩
    body := {
      extensions := [
        .other 0xFE (by decide) [⟨[0x68, 0x69], by decide, by decide⟩],
        .control ⟨1, 10, 1⟩]
      image := ⟨0, 0, 1, 1, 0⟩
      localTable := none
      codeSize := ⟨2, by decide, by decide⟩
      blocks := [⟨[0x4C], by decide, by decide⟩, ⟨[1], by decide, by decide⟩]
      localTable_fits := rfl }
    globalTable_fits := rfl
    controls_le_one := by decide }
  have hwithin : file.WithinLimit (some 1) := by
    rintro most ⟨⟩
    exact ⟨Nat.le_refl 1, Nat.le_refl 1⟩
  have hindices : file.body.indices = .ok #[1] := by cbv
  exact ⟨file.picture #[1],
    ((decode_eq_ok_iff (some 1) _).1 _).mpr ⟨file, [0x3B], #[1], by decide, hwithin, hindices, rfl⟩,
    rfl, rfl⟩

end Gif
end GifBitmap

import GifBitmap.Proofs.FieldPassage
import GifBitmap.Proofs.Gif.Faults

/-!
# Extensions that are passed over

An extension that is not a graphic control extension has no influence on the picture.  In front
of any block before the image such extensions can be put in: all that follows is read as
before, and fails as before, only further back.  The bytes in front of a block are those of an
`Opening` with at most one graphic control extension, and they may hold extensions of
both sorts already.

Main facts:
* `crosses_subBlocks`, `crosses_extensions`: extensions that are passed over lead back to where
  they began;
* `standsBeforeBlock_iff`: the bytes in front of a block;
* `decode_of_skipped_extensions`: decoding with extensions put in.
-/

namespace GifBitmap
namespace Gif

open FieldReader

variable {limit : PixelLimit} {preamble : Preamble} {control : Option GraphicControl}
  {position : Nat}

def ExtensionBlock.event : ExtensionBlock → Event
  | .control found => .graphicControl found
  | .other label _ blocks =>
      .extensionSkipped (.ofLabel label) (blocks.map fun block => block.payload.length).sum

/-- The front of an extension that is passed over. -/
theorem scan_front
    {label : UInt8}
    (hlabel : label ≠ 0xF9)
    (rest : Bytes) :
    (Phase.step limit (.blocks preamble control)).scan position ([0x21, label] ++ rest) =
      ⟨.value (.inl (.extension preamble control (.ofLabel label) 0)), [1, 1], []⟩ := by
  have hseparator : (0x21 : UInt8) ≠ imageSeparator := by decide
  have hintroducer : (0x21 : UInt8) = extensionIntroducer := rfl
  have hcontrol : label ≠ graphicControlLabel := hlabel
  change (byte >>= fun found => if found = imageSeparator then _ else _).scan position
    (0x21 :: label :: rest) = _
  rw [scan_byte_bind, if_neg hseparator, if_pos hintroducer, readExtension, scan_byte_bind,
    if_neg hcontrol]
  rfl

/-- A sub-block of an extension is counted, and nothing is made of its bytes. -/
theorem scan_subBlock
    (kind : Extension)
    (skipped : Nat)
    (block : SubBlock)
    (rest : Bytes) :
    (Phase.step limit (.extension preamble control kind skipped)).scan position
        (block.toBytes ++ rest) =
      ⟨.value (.inl (.extension preamble control kind (skipped + block.payload.length))),
        [1, block.payload.length], []⟩ := by
  have hsize := block.toNat_length
  rw [Phase.step, skipSubBlock, SubBlock.toBytes, List.cons_append, scan_byte_bind,
    dif_pos (hsize.symm ▸ block.pos), scan_bytes_bind _ _ hsize.symm, hsize]
  rfl

/-- The zero byte behind the sub-blocks of an extension. -/
theorem scan_terminator
    (kind : Extension)
    (skipped : Nat)
    (rest : Bytes) :
    (Phase.step limit (.extension preamble control kind skipped)).scan position ([0] ++ rest) =
      ⟨.value (.inl (.blocks preamble control)), [1], [.extensionSkipped kind skipped]⟩ := by
  rw [Phase.step, skipSubBlock, List.singleton_append, scan_byte_bind, dif_neg (by decide)]
  rfl

/-- The sub-blocks of an extension lead back to the blocks before the image. -/
theorem crosses_subBlocks
    (kind : Extension)
    (skipped : Nat)
    (blocks : List SubBlock) :
    Crosses (Phase.step limit) (.extension preamble control kind skipped) position
      (SubBlock.listToBytes blocks)
      [.extensionSkipped kind (skipped + (blocks.map fun block => block.payload.length).sum)]
      (.blocks preamble control) := by
  induction blocks generalizing skipped position with
  | nil =>
      exact crosses_of_scan (Phase.step_progresses limit) [1] rfl (scan_terminator kind skipped)
  | cons block blocks ih =>
      have hlength : [1, block.payload.length].sum = block.toBytes.length := by
        simp [SubBlock.toBytes, Nat.add_comm]
      have hblock : Crosses (Phase.step limit) _ position block.toBytes [] _ :=
        crosses_of_scan (Phase.step_progresses limit) _ hlength
          (@scan_subBlock limit preamble control _ kind skipped block)
      rw [SubBlock.listToBytes_cons, List.map_cons, List.sum_cons, ← Nat.add_assoc]
      exact hblock.trans (ih _)

/-- Extensions that are no graphic control extensions lead back to where they began. -/
theorem crosses_extensions
    {extensions : List ExtensionBlock}
    (h : ∀ block ∈ extensions, ExtensionBlock.control? block = none) :
    Crosses (Phase.step limit) (.blocks preamble control) position
      (extensions.flatMap ExtensionBlock.toBytes) (extensions.map ExtensionBlock.event)
      (.blocks preamble control) := by
  induction extensions generalizing position with
  | nil => exact .refl _ _
  | cons block extensions ih =>
      have hrest (position : Nat) :=
        @ih position fun other hother => h other (List.mem_cons_of_mem block hother)
      cases block with
      | control found => exact absurd (h _ List.mem_cons_self) nofun
      | other label hlabel blocks =>
          have hfront : Crosses (Phase.step limit) (.blocks preamble control) position
              [0x21, label] [] _ :=
            crosses_of_scan (Phase.step_progresses limit) _ rfl (scan_front hlabel)
          have hblock := hfront.trans (crosses_subBlocks (.ofLabel label) 0 blocks)
          rw [Nat.zero_add] at hblock
          exact hblock.trans (hrest _)

/-- Whether decoding stands in front of a block before the image when it has read exactly the
given bytes. -/
def StandsBeforeBlock (limit : PixelLimit) (taken : Bytes) : Prop :=
  ∃ preamble control, Passes (Phase.step limit) .start 0 taken (.blocks preamble control)

theorem passes_subBlocks
    (kind : Extension)
    (skipped : Nat)
    (blocks : List SubBlock) :
    Passes (Phase.step limit) (.extension preamble control kind skipped) position
      (SubBlock.listToBytes blocks) (.blocks preamble control) := by
  induction blocks generalizing skipped position with
  | nil =>
      have hend : (Phase.step limit (.extension preamble control kind skipped)).Reads position
          [0] _ :=
        reads_skipSubBlock_iff.mpr (.inr ⟨rfl, rfl⟩)
      have hpasses := Passes.next hend (.refl _ _)
      exact hpasses
  | cons block blocks ih =>
      rw [SubBlock.listToBytes_cons]
      exact .next (reads_skipSubBlock_iff.mpr (.inl ⟨block, _, rfl, rfl, rfl⟩)) (ih _)

/-- Extensions are read one by one, the graphic control extension only once. -/
theorem passes_extensions
    (extensions : List ExtensionBlock)
    (hone : (control.toList ++ extensions.filterMap ExtensionBlock.control?).length ≤ 1) :
    ∃ following,
      Passes (Phase.step limit) (.blocks preamble control) position
        (extensions.flatMap ExtensionBlock.toBytes) (.blocks preamble following) := by
  induction extensions generalizing control position with
  | nil => exact ⟨control, .refl _ _⟩
  | cons block extensions ih =>
      rw [ExtensionBlock.controls_cons] at hone
      cases block with
      | control found =>
          cases control with
          | none =>
              have hblock : (Phase.step limit (.blocks preamble none)).Reads position _ _ :=
                reads_readBlock_iff.mpr (.inr (.inl ⟨found, rfl, rfl, rfl⟩))
              obtain ⟨following, hrest⟩ := ih hone
              exact ⟨following, .next hblock hrest⟩
          | some earlier => simp [ExtensionBlock.control?] at hone
      | other label hlabel blocks =>
          have hfront : (Phase.step limit (.blocks preamble control)).Reads position
              [0x21, label] _ :=
            reads_readBlock_iff.mpr (.inr (.inr ⟨label, hlabel, rfl, rfl⟩))
          have hblock := Passes.next hfront (passes_subBlocks (.ofLabel label) 0 blocks)
          obtain ⟨following, hrest⟩ := ih hone
          exact ⟨following, hblock.trans hrest⟩

/-- A preamble within the limit leads to the first block. -/
theorem reads_preamble
    (opening : Opening)
    (hallows : limit.allows opening.screen.pixels) :
    (Phase.start.step limit).Reads 0
      (signature ++
        (supportedVersion ++ (opening.screen.toBytes ++ tableToBytes opening.globalTable)))
      (.inl (.blocks ⟨supportedVersion, opening.screen, opening.globalTable⟩ none)) :=
  reads_bind_iff.mpr ⟨_, [], _, (List.append_nil _).symm,
    reads_readPreamble_iff.mpr
      ⟨opening.screen, opening.globalTable, opening.globalTable_fits, hallows, rfl, rfl⟩,
    rfl, rfl⟩

/-- The screen of the front of a file was allowed if a block was reached. -/
theorem allows_of_passes
    {following : Phase}
    {opening : Opening}
    (h : Passes (Phase.step limit) .start 0 opening.toBytes following)
    (hfollowing : following ≠ .start) :
    limit.allows opening.screen.pixels := by
  generalize htaken : opening.toBytes = taken at h
  cases h with
  | refl => exact absurd rfl hfollowing
  | next hstart _ =>
      rw [Phase.step, reads_bind_iff] at hstart
      obtain ⟨_, _, _, rfl, hpreamble, -⟩ := hstart
      obtain ⟨screen, table, -, hallows, rfl, -⟩ := reads_readPreamble_iff.mp hpreamble
      simp only [Opening.toBytes, List.append_assoc, List.append_cancel_left_eq] at htaken
      obtain ⟨hscreen, -⟩ := Screen.toBytes_append_inj htaken
      exact hscreen ▸ hallows

/-- In front of a block stand a preamble and extensions, at most one of them a graphic control
extension. -/
theorem standsBeforeBlock_iff {taken : Bytes} :
    StandsBeforeBlock limit taken ↔
      ∃ opening : Opening,
        taken = opening.toBytes ∧
          opening.controls.length ≤ 1 ∧
          limit.allows opening.screen.pixels := by
  constructor
  · rintro ⟨preamble, control, hpasses⟩
    have hstart : Phase.start.Behind [] := rfl
    obtain ⟨opening, rfl, hcontrols⟩ := Phase.behind_of_passes hstart hpasses
    refine ⟨opening, rfl, ?_, allows_of_passes hpasses nofun⟩
    rw [hcontrols]
    exact Option.length_toList_le
  · rintro ⟨opening, rfl, hone, hallows⟩
    let preamble : Preamble := ⟨supportedVersion, opening.screen, opening.globalTable⟩
    obtain ⟨following, hrest⟩ := @passes_extensions limit preamble none _ opening.extensions hone
    refine ⟨preamble, following, ?_⟩
    have hpasses := Passes.next (reads_preamble opening hallows) hrest
    simpa only [Opening.toBytes, List.append_assoc] using hpasses

/-- What can be seen of decoding with extensions put in. -/
theorem insertion_of_skipped
    {front : Bytes}
    (hfront : StandsBeforeBlock limit front)
    {skipped : List ExtensionBlock}
    (hskipped : ∀ block ∈ skipped, ExtensionBlock.control? block = none)
    (rest : Bytes) :
    Insertion (scanFile limit (front ++ rest))
      (scanFile limit (front ++ (skipped.flatMap ExtensionBlock.toBytes ++ rest)))
      (skipped.flatMap ExtensionBlock.toBytes).length (skipped.map ExtensionBlock.event) := by
  obtain ⟨preamble, control, hpasses⟩ := hfront
  obtain ⟨before, hcrosses⟩ := crosses_of_passes (Phase.step_progresses limit) hpasses
  exact insertion_of_crosses (translated_step _ limit) hcrosses (crosses_extensions hskipped) rest

/-- Wherever decoding stands in front of a block before the image, extensions that are no graphic
control extensions can be put in, with any bytes in their sub-blocks and any bytes behind
them.  The picture is the same, or the failure is the same further back; as many bytes more are
consumed and delivered as were put in, and one event more is noted for each extension. -/
theorem decode_of_skipped_extensions (limit : PixelLimit) :
    (∀ front,
      StandsBeforeBlock limit front ↔
        ∃ opening : Opening,
          front = opening.toBytes ∧
            opening.controls.length ≤ 1 ∧
            limit.allows opening.screen.pixels) ∧
      ∀ (front rest : Bytes) (skipped : List ExtensionBlock) (manner : Source.Manner),
        StandsBeforeBlock limit front →
          (∀ block ∈ skipped, block.control? = none) →
            manner.chunk ≠ some 0 →
              manner.fault = none →
                let inserted := skipped.flatMap ExtensionBlock.toBytes
                let short := decode limit (.ofSource (.ofBytes (front ++ rest) manner))
                let long := decode limit (.ofSource (.ofBytes (front ++ (inserted ++ rest)) manner))
                long.1 = short.1.mapError (Error.translate inserted.length) ∧
                  long.2.consumed = short.2.consumed + inserted.length ∧
                  long.2.source.delivered = short.2.source.delivered + inserted.length ∧
                  ∃ before after,
                    short.2.events.toList = before ++ after ∧
                      long.2.events.toList =
                        before ++ (skipped.map ExtensionBlock.event ++ after) := by
  refine ⟨fun front => standsBeforeBlock_iff, ?_⟩
  intro front rest skipped manner hfront hskipped hchunk hfault inserted short long
  have hshort : observed short = _ := observed_decode_of_none limit (front ++ rest) hchunk hfault
  have hlong : observed long = _ :=
    observed_decode_of_none limit (front ++ (inserted ++ rest)) hchunk hfault
  have hlength :
      (front ++ (inserted ++ rest)).length = (front ++ rest).length + inserted.length := by
    simp only [List.length_append]
    omega
  obtain ⟨hresult, hsum, hdelivered, before, after, hevents, hevents'⟩ :=
    insertion_of_skipped hfront hskipped rest
  obtain ⟨hshortResult, hshortConsumed, hshortDelivered, hshortEvents⟩ := observed_eq_iff.mp hshort
  obtain ⟨hlongResult, hlongConsumed, hlongDelivered, hlongEvents⟩ := observed_eq_iff.mp hlong
  refine ⟨?_, ?_, ?_, before, after, ?_, ?_⟩
  · rw [hlongResult, hshortResult, hresult]
  · rw [hlongConsumed, hshortConsumed, hsum]
  · rw [hlongDelivered, hshortDelivered, hlength, hdelivered]
  · rw [hshortEvents, hevents]
  · rw [hlongEvents, hevents']

/-- Two graphic control extensions with a comment put in between them, whose payload has the
form of an image, an extension and an end. -/
theorem decode_of_skipped_extensions_between_controls :
    let front : Bytes :=
      [0x47, 0x49, 0x46, 0x38, 0x39, 0x61, 1, 0, 1, 0, 0, 0, 0, 0x21, 0xF9, 4, 0, 0, 0, 0, 0]
    let rest : Bytes := [0x21, 0xF9, 4, 1, 10, 0, 3, 0, 0x2C]
    let comment : ExtensionBlock :=
      .other 0xFE (by decide) [⟨[0x2C, 0x21, 0], by decide, by decide⟩]
    let short := decode (some 1) (.ofSource (.ofBytes (front ++ rest) ⟨some 2, true, none⟩))
    let long := decode (some 1)
      (.ofSource (.ofBytes (front ++ (comment.toBytes ++ rest)) ⟨some 2, true, none⟩))
    StandsBeforeBlock (some 1) front ∧
      comment.control? = none ∧
      short.1 = .error (.repeatedGraphicControl 21) ∧
      long.1 = .error (.repeatedGraphicControl 28) ∧
      long.2.consumed = short.2.consumed + 7 := by
  intro front rest comment short long
  obtain ⟨hbefore, hinserted⟩ := decode_of_skipped_extensions (some 1)
  let opening : Opening :=
    ⟨⟨1, 1, 0, 0, 0⟩, none, [.control ⟨0, 0, 0⟩], rfl⟩
  have hfront : StandsBeforeBlock (some 1) front :=
    (hbefore front).mpr ⟨opening, by decide, by decide, by decide⟩
  have hskipped : ∀ block ∈ [comment], block.control? = none := by
    simp [comment, ExtensionBlock.control?]
  have hshort : short.1 = .error (.repeatedGraphicControl 21) := by
    unfold short
    rw [decode_eq_run_rounds]
    cbv
  obtain ⟨hresult, hconsumed, -⟩ :=
    hinserted front rest [comment] ⟨some 2, true, none⟩ hfront hskipped (by simp) rfl
  refine ⟨hfront, rfl, hshort, ?_, hconsumed⟩
  have htranslated : long.1 = short.1.mapError (Error.translate 7) := hresult
  rw [htranslated, hshort]
  rfl

end Gif
end GifBitmap

import GifBitmap.Proofs.FieldRestriction
import GifBitmap.Proofs.Gif.Acceptance
import GifBitmap.Proofs.Gif.SkippedExtensions

/-!
# The limit on pixels

The number of pixels is checked in two places: behind the screen descriptor, before anything of
the global color table is read, and behind the image descriptor.  The limit has no other effect.
A reading that does not fail for it is the same with any greater limit and with none.

Main facts:
* `fails_readPreamble_iff`, `fails_readBlock_iff`: the two places;
* `restricts_step`, `decode_of_looser`: nothing else depends on the limit;
* `tooLarge_of_decode`: what was read when decoding fails for the limit;
* `decode_with_limit`: decoding with a limit, by decoding without one.
-/

namespace GifBitmap
namespace Gif

open FieldReader

variable {limit looser : PixelLimit} {preamble : Preamble} {control : Option GraphicControl}
  {position : Nat} {taken : Bytes}

theorem fails_readPreamble_iff :
    (readPreamble limit).Fails position taken .tooLarge ↔
      ∃ screen : Screen,
        ¬limit.allows screen.pixels ∧
          taken = signature ++ (supportedVersion ++ screen.toBytes) := by
  constructor
  · intro h
    rcases readPreamble_of_fails h with hheader | ⟨screen, hlarge, rfl, -⟩
    · rcases readHeader_of_fails hheader with ⟨-, -, hcause⟩ | ⟨_, -, -, -, hcause⟩
      · exact absurd hcause nofun
      · exact absurd hcause nofun
    · exact ⟨screen, hlarge, rfl⟩
  · rintro ⟨screen, hlarge, rfl⟩
    rw [readPreamble, fails_bind_iff]
    refine .inr ⟨signature ++ supportedVersion, screen.toBytes, _, ?_,
      reads_readHeader_iff.mpr ⟨rfl, rfl⟩, ?_⟩
    · rw [List.append_assoc]
    · rw [fails_bind_iff]
      refine .inr ⟨screen.toBytes, [], screen, (List.append_nil _).symm,
        reads_readScreen_iff.mpr rfl, ?_⟩
      exact fails_bind_iff.mpr (.inl (fails_checkPixels_iff.mpr ⟨hlarge, rfl, rfl⟩))

theorem fails_start_iff :
    (Phase.start.step limit).Fails position taken .tooLarge ↔
      ∃ screen : Screen,
        ¬limit.allows screen.pixels ∧
          taken = signature ++ (supportedVersion ++ screen.toBytes) := by
  rw [Phase.step, fails_bind_iff]
  constructor
  · rintro (hpreamble | ⟨_, _, _, -, -, hdone⟩)
    · exact fails_readPreamble_iff.mp hpreamble
    · exact absurd hdone not_fails_done
  · intro h
    exact .inl (fails_readPreamble_iff.mpr h)

theorem fails_readImage_iff :
    (readImage limit preamble control).Fails position taken .tooLarge ↔
      ∃ image : ImageDescriptor, ¬limit.allows image.pixels ∧ taken = image.toBytes := by
  constructor
  · intro h
    rcases readImage_of_fails h with ⟨image, hlarge, rfl, -⟩ | ⟨_, _, _, -, -, -, hcause⟩
    · exact ⟨image, hlarge, rfl⟩
    · exact absurd hcause nofun
  · rintro ⟨image, hlarge, rfl⟩
    rw [readImage, fails_bind_iff]
    refine .inr ⟨image.toBytes, [], image, (List.append_nil _).symm,
      reads_readImageDescriptor_iff.mpr rfl, ?_⟩
    exact fails_bind_iff.mpr (.inl (fails_checkPixels_iff.mpr ⟨hlarge, rfl, rfl⟩))

theorem not_fails_readExtension {start : Nat} :
    ¬(readExtension preamble control start).Fails position taken .tooLarge := by
  intro h
  rcases readExtension_of_fails h with ⟨rest, -, hrest⟩ | ⟨_, -, -, hcause⟩
  · rcases readGraphicControl_of_fails hrest with ⟨_, -, -, hcause⟩ | ⟨_, _, _, _, -, -, hcause⟩
    · exact absurd hcause nofun
    · exact absurd hcause nofun
  · exact absurd hcause nofun

theorem fails_readBlock_iff :
    (readBlock limit preamble control).Fails position taken .tooLarge ↔
      ∃ image : ImageDescriptor, ¬limit.allows image.pixels ∧ taken = 0x2C :: image.toBytes := by
  constructor
  · intro h
    rcases readBlock_of_fails h with ⟨_, -, -, -, hcause⟩ | ⟨rest, rfl, hrest⟩ | ⟨rest, -, hrest⟩
    · exact absurd hcause nofun
    · obtain ⟨image, hlarge, rfl⟩ := fails_readImage_iff.mp hrest
      exact ⟨image, hlarge, rfl⟩
    · exact absurd hrest not_fails_readExtension
  · rintro ⟨image, hlarge, rfl⟩
    rw [readBlock, fails_position_bind_iff, fails_byte_bind_iff]
    refine ⟨imageSeparator, image.toBytes, rfl, ?_⟩
    rw [if_pos rfl]
    exact fails_readImage_iff.mpr ⟨image, hlarge, rfl⟩

section Restricts

variable (hlooser : ∀ pixels, limit.allows pixels → looser.allows pixels)
include hlooser

theorem restricts_checkPixels (pixels : Nat) :
    Restricts .tooLarge (checkPixels limit pixels) (checkPixels looser pixels) := by
  unfold checkPixels
  split
  · rename_i hallows
    rw [if_pos (hlooser pixels hallows)]
    exact .done ()
  · exact .cut _

theorem restricts_readPreamble :
    Restricts .tooLarge (readPreamble limit) (readPreamble looser) := by
  unfold readPreamble
  refine (Restricts.refl _ readHeader).bind fun version => ?_
  refine (Restricts.refl _ readScreen).bind fun screen => ?_
  exact (restricts_checkPixels hlooser screen.pixels).bind fun _ => .refl _ _

theorem restricts_readImage (preamble : Preamble) (control : Option GraphicControl) :
    Restricts .tooLarge (readImage limit preamble control) (readImage looser preamble control) := by
  unfold readImage
  refine (Restricts.refl _ readImageDescriptor).bind fun image => ?_
  exact (restricts_checkPixels hlooser image.pixels).bind fun _ => .refl _ _

theorem restricts_step (phase : Phase) :
    Restricts .tooLarge (phase.step limit) (phase.step looser) := by
  cases phase with
  | start => exact (restricts_readPreamble hlooser).bind fun _ => .refl _ _
  | blocks preamble control =>
      refine .offset fun start => (Restricts.refl _ byte).bind fun found => ?_
      split
      · exact restricts_readImage hlooser preamble control
      · exact .refl _ _
  | extension => exact .refl _ _
  | imageData => exact .refl _ _

/-- Decoding that does not fail for the limit is the same with a looser one. -/
theorem decode_of_looser
    {input : Input}
    (h : (decode limit input).1 ≠ .error .tooLarge) :
    decode limit input = decode looser input := by
  rcases repeatUntil_of_restricts (restricts_step hlooser) (Phase.step_progresses limit)
    (Phase.step_progresses looser) .start input with hsame | hcause
  · exact hsame
  · exact absurd hcause h

end Restricts

/-- Decoding fails for the limit behind a screen descriptor or behind an image descriptor. -/
theorem tooLarge_of_decode
    {source : Source}
    {rest : Input}
    (h : decode limit (.ofSource source) = (.error .tooLarge, rest)) :
    ∃ taken,
      (Input.ofSource source).Advances taken rest ∧
        ((∃ screen : Screen,
          ¬limit.allows screen.pixels ∧
            taken = signature ++ (supportedVersion ++ screen.toBytes)) ∨
          ∃ (front : Bytes) (image : ImageDescriptor),
            StandsBeforeBlock limit front ∧
              ¬limit.allows image.pixels ∧
              taken = front ++ (0x2C :: image.toBytes)) := by
  obtain ⟨prior, phase, middle, hpasses, hprior, hrun⟩ := passes_of_repeatUntil h
  obtain ⟨last, hlast, hfails⟩ := fails_of_run hrun trivial
  refine ⟨prior ++ last, hprior.trans hlast, ?_⟩
  have hpasses : Passes (Phase.step limit) .start 0 prior phase := hpasses
  cases phase with
  | start =>
      have hstart : Phase.start.Behind [] := rfl
      obtain rfl : prior = [] := Phase.behind_of_passes hstart hpasses
      exact .inl (fails_start_iff.mp hfails)
  | blocks preamble control =>
      obtain ⟨image, hlarge, rfl⟩ := fails_readBlock_iff.mp hfails
      exact .inr ⟨prior, image, ⟨preamble, control, hpasses⟩, hlarge, rfl⟩
  | extension => exact absurd hfails not_fails_skipSubBlock
  | imageData =>
      obtain ⟨block, -, hblock⟩ := fails_readDataBlock_iff.mp hfails
      exact (IndexStream.concernsCode_of_absorb hblock).elim

/-- A screen with too many pixels ends decoding behind its descriptor. -/
theorem decode_of_large_screen
    {input : Input}
    {screen : Screen}
    {rest : Bytes}
    (hsteady : input.source.Steady)
    (hlarge : ¬limit.allows screen.pixels)
    (hpending : input.source.pending =
      signature ++ (supportedVersion ++ (screen.toBytes ++ rest))) :
    ∃ left,
      decode limit input = (.error .tooLarge, left) ∧
        input.Advances (signature ++ (supportedVersion ++ screen.toBytes)) left := by
  have hfails (position : Nat) :
      (Phase.start.step limit).Fails position
        (signature ++ (supportedVersion ++ screen.toBytes)) .tooLarge :=
    fails_start_iff.mpr ⟨screen, hlarge, rfl⟩
  have hbytes : input.source.pending =
      [] ++ (signature ++ (supportedVersion ++ screen.toBytes) ++ rest) := by
    rw [hpending]
    simp only [List.nil_append, List.append_assoc]
  have hnone : Passes (Phase.step limit) .start input.consumed [] .start := .refl _ _
  have hended : ∃ left,
      decode limit input = (.error .tooLarge, left) ∧
        input.Advances ([] ++ (signature ++ (supportedVersion ++ screen.toBytes))) left :=
    repeatUntil_of_fails hnone hfails hsteady hbytes
  simpa only [List.nil_append] using hended

/-- An image with too many pixels ends decoding behind its descriptor. -/
theorem decode_of_large_image
    {source : Source}
    {front : Bytes}
    {image : ImageDescriptor}
    {rest : Bytes}
    (hsteady : source.Steady)
    (hfront : StandsBeforeBlock limit front)
    (hlarge : ¬limit.allows image.pixels)
    (hpending : source.pending = front ++ (0x2C :: (image.toBytes ++ rest))) :
    ∃ left,
      decode limit (.ofSource source) = (.error .tooLarge, left) ∧
        (Input.ofSource source).Advances (front ++ (0x2C :: image.toBytes)) left := by
  obtain ⟨preamble, control, hpasses⟩ := hfront
  have hfails (position : Nat) :
      ((Phase.blocks preamble control).step limit).Fails position (0x2C :: image.toBytes)
        .tooLarge :=
    fails_readBlock_iff.mpr ⟨image, hlarge, rfl⟩
  exact repeatUntil_of_fails hpasses hfails hsteady hpending

theorem size_take_le (indices : Array UInt8) (count : Nat) :
    (indices.take count).size ≤ count := by
  rw [Array.take_eq_extract, Array.size_extract]
  omega

/-- There are no more indices than pixels. -/
theorem size_le_of_decodeBlocks
    {pixels : Nat}
    {decompressor : Lzw.Decompressor}
    {indices found : Array UInt8}
    {blocks : List Bytes}
    (h : decodeBlocks pixels decompressor indices blocks = .ok found) :
    found.size ≤ pixels := by
  induction blocks generalizing decompressor indices with
  | nil =>
      obtain rfl := Except.ok.inj h
      exact size_take_le indices pixels
  | cons block blocks ih =>
      rw [decodeBlocks] at h
      split at h
      · obtain rfl := Except.ok.inj h
        exact size_take_le indices pixels
      · dsimp only at h
        split at h
        · cases h
        · exact ih h

/-- Whether a file begins with a screen of too many pixels. -/
def HasLargeScreen (most : Nat) (bytes : Bytes) : Prop :=
  ∃ (screen : Screen) (rest : Bytes),
    bytes = signature ++ (supportedVersion ++ (screen.toBytes ++ rest)) ∧ most < screen.pixels

/-- Whether decoding without a limit comes to an image of too many pixels, and `front` are the
bytes in front of it. -/
def HasLargeImage (most : Nat) (bytes front : Bytes) : Prop :=
  ∃ (image : ImageDescriptor) (rest : Bytes),
    StandsBeforeBlock none front ∧
      bytes = front ++ (0x2C :: (image.toBytes ++ rest)) ∧
      most < image.pixels

theorem allows_some_iff {most pixels : Nat} :
    PixelLimit.allows (some most) pixels ↔ pixels ≤ most :=
  decide_eq_true_iff

theorem not_allows_some_iff {most pixels : Nat} :
    ¬PixelLimit.allows (some most) pixels ↔ most < pixels := by
  rw [allows_some_iff, Nat.not_le]

/-- With a small screen decoding comes to the same blocks with a limit and without one. -/
theorem standsBeforeBlock_some_iff
    {most : Nat}
    {front rest : Bytes}
    (hsmall : ¬HasLargeScreen most (front ++ rest)) :
    StandsBeforeBlock (some most) front ↔ StandsBeforeBlock none front := by
  rw [standsBeforeBlock_iff, standsBeforeBlock_iff]
  constructor
  · rintro ⟨opening, rfl, hone, -⟩
    exact ⟨opening, rfl, hone, rfl⟩
  · rintro ⟨opening, rfl, hone, -⟩
    refine ⟨opening, rfl, hone, ?_⟩
    rw [allows_some_iff]
    refine Nat.le_of_not_lt fun hlarge => hsmall ⟨opening.screen,
      tableToBytes opening.globalTable ++
        (opening.extensions.flatMap ExtensionBlock.toBytes ++ rest), ?_, hlarge⟩
    simp only [Opening.toBytes, List.append_assoc]

/-- Decoding with a limit, by decoding without one.  A screen with too many pixels ends it behind
the 13 bytes up to the end of the screen descriptor, an image with too many pixels ends it
behind the image descriptor, and in all other cases the limit has no effect at all.

So a reading that does not fail for the limit is the same with a greater one, and a picture
that is read has a screen, an image and as many indices as the limit allows. -/
theorem decode_with_limit
    (most : Nat)
    (bytes : Bytes)
    (manner : Source.Manner)
    (hchunk : manner.chunk ≠ some 0)
    (hfault : manner.fault = none) :
    let input := Input.ofSource (.ofBytes bytes manner)
    let limited := decode (some most) input
    (HasLargeScreen most bytes →
      limited.1 = .error .tooLarge ∧
        limited.2.consumed = 13 ∧
        limited.2.source.delivered = 13) ∧
      (¬HasLargeScreen most bytes →
        ∀ front,
          HasLargeImage most bytes front →
            limited.1 = .error .tooLarge ∧
              limited.2.consumed = front.length + 10 ∧
              limited.2.source.delivered = front.length + 10) ∧
      (¬HasLargeScreen most bytes →
        (∀ front, ¬HasLargeImage most bytes front) →
          limited = decode none input) ∧
      (∀ more,
        most ≤ more →
          limited.1 ≠ .error .tooLarge →
            limited = decode (some more) input) ∧
      ∀ picture,
        limited.1 = .ok picture →
          picture.preamble.screen.pixels ≤ most ∧
            picture.frame.image.pixels ≤ most ∧
            picture.frame.data.indices.size ≤ picture.frame.image.pixels ∧
            picture.frame.data.indices.size ≤ most := by
  intro input limited
  have hsteady : input.source.Steady := ⟨hchunk, hfault⟩
  refine ⟨?_, ?_, ?_, ?_, ?_⟩
  · rintro ⟨screen, rest, hbytes, hlarge⟩
    obtain ⟨left, hdecode, hadvances⟩ :=
      decode_of_large_screen hsteady (not_allows_some_iff.mpr hlarge) hbytes
    have hlimited : limited = (.error .tooLarge, left) := hdecode
    rw [hlimited]
    exact ⟨rfl, hadvances.consumed_eq, hadvances.delivered_eq⟩
  · rintro hsmall front ⟨image, rest, hfront, hbytes, hlarge⟩
    rw [hbytes] at hsmall
    obtain ⟨left, hdecode, hadvances⟩ :=
      decode_of_large_image hsteady ((standsBeforeBlock_some_iff hsmall).mpr hfront)
        (not_allows_some_iff.mpr hlarge) hbytes
    have hlimited : limited = (.error .tooLarge, left) := hdecode
    have hlength : 0 + (front ++ (0x2C :: image.toBytes)).length = front.length + 10 := by
      rw [Nat.zero_add, List.length_append]
      rfl
    rw [hlimited]
    exact ⟨rfl, hadvances.consumed_eq.trans hlength, hadvances.delivered_eq.trans hlength⟩
  · intro hsmall hnone
    refine decode_of_looser (fun _ _ => rfl) fun hlarge => ?_
    generalize hleft : limited.2 = left
    obtain ⟨taken, hadvances, ⟨screen, hscreen, rfl⟩ | ⟨front, image, hfront, himage, rfl⟩⟩ :=
      tooLarge_of_decode (Prod.ext hlarge hleft)
    · refine hsmall ⟨screen, left.source.pending, ?_, not_allows_some_iff.mp hscreen⟩
      have hbytes :
          bytes = signature ++ (supportedVersion ++ screen.toBytes) ++ left.source.pending :=
        hadvances.pending_eq
      simpa only [List.append_assoc] using hbytes
    · have hbytes : bytes = front ++ (0x2C :: image.toBytes) ++ left.source.pending :=
        hadvances.pending_eq
      rw [List.append_assoc, List.cons_append] at hbytes
      rw [hbytes] at hsmall
      exact hnone front ⟨image, left.source.pending, (standsBeforeBlock_some_iff hsmall).mp hfront,
        hbytes, not_allows_some_iff.mp himage⟩
  · intro more hmore hended
    refine decode_of_looser (fun pixels hallows => ?_) hended
    exact allows_some_iff.mpr (Nat.le_trans (allows_some_iff.mp hallows) hmore)
  · intro picture hok
    obtain ⟨file, indices, -, hwithin, hindices, rfl⟩ := advances_of_decode (Prod.ext hok rfl)
    obtain ⟨hscreen, himage⟩ := hwithin most rfl
    have hsize := size_le_of_decodeBlocks hindices
    exact ⟨hscreen, himage, hsize, Nat.le_trans hsize himage⟩

/-- An image of two pixels on a screen of one, with a limit too low by one and with the exact
one. -/
theorem decode_with_limit_of_two_pixels :
    let front : Bytes := [0x47, 0x49, 0x46, 0x38, 0x39, 0x61, 1, 0, 1, 0, 0, 0, 0]
    let bytes := front ++ [0x2C, 0, 0, 0, 0, 2, 0, 1, 0, 0, 2, 2, 0x4C, 0x0A, 0]
    let input := Input.ofSource (.ofBytes bytes ⟨some 4, true, none⟩)
    ¬HasLargeScreen 1 bytes ∧
      HasLargeImage 1 bytes front ∧
      (decode (some 1) input).1 = .error .tooLarge ∧
      (decode (some 1) input).2.consumed = 23 ∧
      (decode (some 2) input).1 ≠ .error .tooLarge ∧
      decode (some 2) input = decode (some 3) input := by
  intro front bytes input
  let opening : Opening := ⟨⟨1, 1, 0, 0, 0⟩, none, [], rfl⟩
  let image : ImageDescriptor := ⟨0, 0, 2, 1, 0⟩
  have hsplit : bytes =
      signature ++ (supportedVersion ++ (opening.screen.toBytes ++ bytes.drop 13)) := by
    decide
  have hsmall : ¬HasLargeScreen 1 bytes := by
    rintro ⟨found, rest, hbytes, hlarge⟩
    have hfound : opening.screen.toBytes ++ bytes.drop 13 = found.toBytes ++ rest :=
      List.append_cancel_left (List.append_cancel_left (hsplit.symm.trans hbytes))
    obtain ⟨rfl, -⟩ := Screen.toBytes_append_inj hfound
    exact absurd hlarge (by decide)
  have hfront : StandsBeforeBlock none front :=
    standsBeforeBlock_iff.mpr ⟨opening, by decide, by decide, by decide⟩
  have himage : HasLargeImage 1 bytes front :=
    ⟨image, [2, 2, 0x4C, 0x0A, 0], hfront, by decide, by decide⟩
  have hended : (decode (some 2) input).1 ≠ .error .tooLarge := by
    unfold input
    rw [decode_eq_run_rounds]
    cbv
    intro hsame
    cases hsame
  obtain ⟨-, hlarge, -⟩ :=
    decode_with_limit 1 bytes ⟨some 4, true, none⟩ (by decide) rfl
  obtain ⟨hresult, hconsumed, -⟩ := hlarge hsmall front himage
  obtain ⟨-, -, -, hlooser, -⟩ :=
    decode_with_limit 2 bytes ⟨some 4, true, none⟩ (by decide) rfl
  exact ⟨hsmall, himage, hresult, hconsumed, hended, hlooser 3 (by decide) hended⟩

end Gif
end GifBitmap

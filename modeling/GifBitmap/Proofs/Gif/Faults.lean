import GifBitmap.Proofs.Gif.Failing
import GifBitmap.Proofs.Gif.Truncation

/-!
# Faults of a file

When decoding fails, the bytes consumed up to then tell why: they are the front of a file, with
the part at fault as their last one.  `FailsBehind` lists the places where that may happen, and
the cause that belongs to each of them.

The front of a file up to a block is an `Opening`.  `Phase.Behind` says of every phase which
bytes lead to it; one step keeps that, and so does a run.

Main facts:
* `Phase.behind_of_step`, `Phase.behind_of_passes`: the bytes in front of a phase;
* `Phase.failsBehind_of_fails`: a step that fails;
* `failsBehind_of_decode`: where decoding fails;
* `decode_eq_error`: what each cause says about the bytes consumed.
-/

namespace GifBitmap
namespace Gif

open FieldReader

/-- The front of a file up to a block before the image. -/
structure Opening where
  screen : Screen
  globalTable : Option ColorTable
  extensions : List ExtensionBlock
  globalTable_fits : TableFits screen.flags globalTable

namespace Opening

def controls (opening : Opening) : List GraphicControl :=
  opening.extensions.filterMap ExtensionBlock.control?

def toBytes (opening : Opening) : Bytes :=
  signature ++
    (supportedVersion ++
      (opening.screen.toBytes ++
        (tableToBytes opening.globalTable ++
          opening.extensions.flatMap ExtensionBlock.toBytes)))

/-- The front of the file that is one extension longer. -/
def snoc (opening : Opening) (block : ExtensionBlock) : Opening :=
  { opening with extensions := opening.extensions ++ [block] }

theorem toBytes_snoc (opening : Opening) (block : ExtensionBlock) :
    (opening.snoc block).toBytes = opening.toBytes ++ block.toBytes := by
  simp [snoc, toBytes, List.append_assoc]

theorem controls_snoc (opening : Opening) (block : ExtensionBlock) :
    (opening.snoc block).controls = opening.controls ++ block.control?.toList := by
  rw [controls, snoc, List.filterMap_append, ExtensionBlock.controls_cons]
  simp [controls]

/-- A graphic control extension stands behind a shorter front of the file. -/
theorem exists_control
    {opening : Opening}
    (h : opening.controls ≠ []) :
    ∃ (earlier : Opening) (found : GraphicControl),
      earlier.toBytes ++ (ExtensionBlock.control found).toBytes <+: opening.toBytes := by
  obtain ⟨found, hfound⟩ := List.exists_mem_of_ne_nil _ h
  obtain ⟨block, hblock, hcontrol⟩ := List.mem_filterMap.mp hfound
  obtain ⟨before, after, hextensions⟩ := List.append_of_mem hblock
  cases block with
  | other label hne blocks => exact absurd hcontrol nofun
  | control same =>
      obtain rfl := Option.some.inj hcontrol
      refine ⟨{ opening with extensions := before }, same,
        after.flatMap ExtensionBlock.toBytes, ?_⟩
      simp [toBytes, hextensions, List.append_assoc]

end Opening

/-- Whether the bytes lead to a phase. -/
def Phase.Behind : Phase → Bytes → Prop
  | start, taken => taken = []
  | blocks _ control, taken =>
      ∃ opening,
        taken = Opening.toBytes opening ∧ opening.controls = control.toList
  | extension _ control kind _, taken =>
      ∃ opening skipped,
        taken = Opening.toBytes opening ++
            (0x21 :: kind.label :: List.flatMap SubBlock.toBytes skipped) ∧
          opening.controls = control.toList ∧
          kind.label ≠ 0xF9
  | imageData outline _, taken =>
      ∃ opening table minCodeSize passed,
        taken = Opening.toBytes opening ++
            (imageFront outline.image table minCodeSize ++ List.flatMap SubBlock.toBytes passed) ∧
          TableFits outline.image.flags table

/-- A step keeps it: behind its bytes is the phase that it leads to. -/
theorem Phase.behind_of_step
    {limit : PixelLimit}
    {phase following : Phase}
    {position : Nat}
    {prior first : Bytes}
    (h : phase.Behind prior)
    (hstep : (phase.step limit).Reads position first (.inl following)) :
    following.Behind (prior ++ first) := by
  cases phase with
  | start =>
      obtain rfl := h
      rw [step, reads_bind_iff] at hstep
      obtain ⟨_, _, preamble, rfl, hpreamble, rfl, hfollowing⟩ := hstep
      obtain ⟨screen, table, hfits, -, rfl, rfl⟩ := reads_readPreamble_iff.mp hpreamble
      obtain rfl := Sum.inl.inj hfollowing
      refine ⟨⟨screen, table, [], hfits⟩, ?_, rfl⟩
      simp [Opening.toBytes]
  | blocks preamble control =>
      obtain ⟨opening, rfl, hcontrols⟩ := h
      rcases reads_readBlock_iff.mp hstep with
        ⟨image, table, size, hfits, -, rfl, hfollowing⟩ |
        ⟨found, rfl, rfl, hfollowing⟩ | ⟨label, hlabel, rfl, hfollowing⟩
      · obtain rfl := Sum.inl.inj hfollowing
        exact ⟨opening, table, _, [], by rw [List.flatMap_nil, List.append_nil]; rfl, hfits⟩
      · obtain rfl := Sum.inl.inj hfollowing
        refine ⟨opening.snoc (.control found), (opening.toBytes_snoc (.control found)).symm, ?_⟩
        rw [opening.controls_snoc, hcontrols]
        rfl
      · obtain rfl := Sum.inl.inj hfollowing
        refine ⟨opening, [], ?_, hcontrols, ?_⟩
        · rw [Extension.label_ofLabel]
          rfl
        · rw [Extension.label_ofLabel]
          exact hlabel
  | extension preamble control kind count =>
      obtain ⟨opening, skipped, rfl, hcontrols, hlabel⟩ := h
      rcases reads_skipSubBlock_iff.mp hstep with
        ⟨block, count', rfl, -, hfollowing⟩ | ⟨rfl, hfollowing⟩
      · obtain rfl := Sum.inl.inj hfollowing
        refine ⟨opening, skipped ++ [block], ?_, hcontrols, hlabel⟩
        simp [List.append_assoc]
      · obtain rfl := Sum.inl.inj hfollowing
        refine ⟨opening.snoc (.other kind.label hlabel skipped), ?_, ?_⟩
        · rw [opening.toBytes_snoc, List.append_assoc]
          rfl
        · rw [opening.controls_snoc, hcontrols]
          exact List.append_nil _
  | imageData outline stream =>
      obtain ⟨opening, table, minCodeSize, passed, rfl, hfits⟩ := h
      rcases reads_readDataBlock_iff.mp hstep with
        ⟨block, fed, rfl, -, hfollowing⟩ | ⟨-, hfollowing⟩
      · obtain rfl := Sum.inl.inj hfollowing
        refine ⟨opening, table, minCodeSize, passed ++ [block], ?_, hfits⟩
        simp [List.append_assoc]
      · exact absurd hfollowing Sum.inl_ne_inr

theorem Phase.behind_of_passes
    {limit : PixelLimit}
    {phase following : Phase}
    {position : Nat}
    {prior taken : Bytes}
    (h : phase.Behind prior)
    (hpasses : Passes (Phase.step limit) phase position taken following) :
    following.Behind (prior ++ taken) := by
  induction hpasses generalizing prior with
  | refl =>
      rw [List.append_nil]
      exact h
  | next hstep _ ih =>
      rw [← List.append_assoc]
      exact ih (behind_of_step h hstep)

/-- Where decoding fails: the bytes consumed, and the cause. -/
inductive FailsBehind (limit : PixelLimit) : Bytes → Error → Prop
  | signature
      {found : Bytes}
      (hlength : found.length = 3)
      (hother : found ≠ signature) :
      FailsBehind limit found (.badSignature found)
  | version
      {found : Bytes}
      (hlength : found.length = 3)
      (hother : found ≠ supportedVersion) :
      FailsBehind limit (Gif.signature ++ found) (.unsupportedVersion found)
  | screen
      (screen : Screen)
      (hlarge : ¬limit.allows screen.pixels) :
      FailsBehind limit (Gif.signature ++ (supportedVersion ++ screen.toBytes)) .tooLarge
  /-- Neither an image nor an extension begins with the byte. -/
  | block
      (opening : Opening)
      {found : UInt8}
      (himage : found ≠ 0x2C)
      (hextension : found ≠ 0x21) :
      FailsBehind limit (opening.toBytes ++ [found])
        (.unexpectedByte opening.toBytes.length 0x2C found)
  | controlSize
      (opening : Opening)
      {size : UInt8}
      (hother : size ≠ 4) :
      FailsBehind limit (opening.toBytes ++ [0x21, 0xF9, size]) (.graphicControlSize size)
  | controlEnd
      (opening : Opening)
      (flags : UInt8)
      (delay : UInt16)
      (index : UInt8)
      {found : UInt8}
      (hother : found ≠ 0) :
      FailsBehind limit
        (opening.toBytes ++
          (0x21 :: 0xF9 :: 4 :: flags :: (littleEndian 2 delay.toNat ++ [index, found])))
        (.unexpectedByte (opening.toBytes.length + 7) 0 found)
  /-- The graphic control extension is not the first one. -/
  | repeatedControl
      (opening : Opening)
      (control : GraphicControl)
      (hcontrols : opening.controls ≠ []) :
      FailsBehind limit (opening.toBytes ++ (ExtensionBlock.control control).toBytes)
        (.repeatedGraphicControl opening.toBytes.length)
  | image
      (opening : Opening)
      (image : ImageDescriptor)
      (hlarge : ¬limit.allows image.pixels) :
      FailsBehind limit (opening.toBytes ++ (0x2C :: image.toBytes)) .tooLarge
  | codeSize
      (opening : Opening)
      {image : ImageDescriptor}
      {table : Option ColorTable}
      {found : UInt8}
      (hfits : TableFits image.flags table)
      (hrange : ¬(2 ≤ found.toNat ∧ found.toNat ≤ 12)) :
      FailsBehind limit (opening.toBytes ++ imageFront image table found)
        (.codeSizeOutOfRange found)
  /-- The last block holds a code that cannot be decoded. -/
  | code
      (opening : Opening)
      {image : ImageDescriptor}
      {table : Option ColorTable}
      (minCodeSize : UInt8)
      (passed : List SubBlock)
      (block : SubBlock)
      {cause : Error}
      (hfits : TableFits image.flags table)
      (hcause : cause.ConcernsCode) :
      FailsBehind limit
        (opening.toBytes ++
          (imageFront image table minCodeSize ++
            (passed.flatMap SubBlock.toBytes ++ block.toBytes)))
        cause

/-- A step fails behind the bytes in front of its phase. -/
theorem Phase.failsBehind_of_fails
    {limit : PixelLimit}
    {phase : Phase}
    {prior taken : Bytes}
    {cause : Error}
    (h : phase.Behind prior)
    (hfails : (phase.step limit).Fails prior.length taken cause) :
    FailsBehind limit (prior ++ taken) cause := by
  cases phase with
  | start =>
      obtain rfl := h
      rw [step, fails_bind_iff] at hfails
      rcases hfails with hfails | ⟨_, _, _, -, -, hfails⟩
      · rcases readPreamble_of_fails hfails with hheader | ⟨screen, hlarge, rfl, rfl⟩
        · rcases readHeader_of_fails hheader with
            ⟨hlength, hother, rfl⟩ | ⟨version, rfl, hlength, hother, rfl⟩
          · exact .signature hlength hother
          · exact .version hlength hother
        · exact .screen screen hlarge
      · exact absurd hfails not_fails_done
  | blocks preamble control =>
      obtain ⟨opening, rfl, hcontrols⟩ := h
      rcases readBlock_of_fails hfails with
        ⟨found, himage, hextension, rfl, rfl⟩ | ⟨rest, rfl, hrest⟩ | ⟨rest, rfl, hrest⟩
      · exact .block opening himage hextension
      · rcases readImage_of_fails hrest with
          ⟨image, hlarge, rfl, rfl⟩ | ⟨image, table, stored, hfits, hrange, rfl, rfl⟩
        · exact .image opening image hlarge
        · exact .codeSize opening hfits hrange
      · rcases readExtension_of_fails hrest with
          ⟨more, rfl, hmore⟩ | ⟨found, hcontrol, rfl, rfl⟩
        · rcases readGraphicControl_of_fails hmore with
            ⟨size, hother, rfl, rfl⟩ | ⟨flags, delay, index, found, hother, rfl, rfl⟩
          · exact .controlSize opening hother
          · exact .controlEnd opening flags delay index hother
        · refine .repeatedControl opening found ?_
          rw [hcontrols]
          cases control with
          | none => exact absurd rfl hcontrol
          | some earlier => exact List.cons_ne_nil _ _
  | extension preamble control kind count => exact absurd hfails not_fails_skipSubBlock
  | imageData outline stream =>
      obtain ⟨opening, table, minCodeSize, passed, rfl, hfits⟩ := h
      obtain ⟨block, rfl, hblock⟩ := fails_readDataBlock_iff.mp hfails
      rw [List.append_assoc, List.append_assoc]
      exact .code opening minCodeSize passed block hfits
        (IndexStream.concernsCode_of_absorb hblock)

/-- Decoding a new input fails behind the bytes consumed, whatever the source, if the cause
lies in the file. -/
theorem failsBehind_of_decode
    {limit : PixelLimit}
    {source : Source}
    {rest : Input}
    {cause : Error}
    (h : decode limit (.ofSource source) = (.error cause, rest))
    (hcause : cause.LiesInFile) :
    ∃ taken,
      (Input.ofSource source).Advances taken rest ∧ FailsBehind limit taken cause := by
  obtain ⟨prior, phase, middle, hpasses, hprior, hrun⟩ := passes_of_repeatUntil h
  obtain ⟨taken, htaken, hfails⟩ := fails_of_run hrun hcause
  have hposition : middle.consumed = prior.length :=
    hprior.consumed_eq.trans (Nat.zero_add _)
  have hstart : Phase.start.Behind [] := rfl
  have hbehind : phase.Behind prior := Phase.behind_of_passes hstart hpasses
  rw [hposition] at hfails
  exact ⟨prior ++ taken, hprior.trans htaken, Phase.failsBehind_of_fails hbehind hfails⟩

/-- A failure that does not lie in the file is that the bytes ended, in front of a field of
which all that was left is delivered. -/
theorem liesInFile_or_endOfInput
    {limit : PixelLimit}
    {bytes : Bytes}
    {manner : Source.Manner}
    (hchunk : manner.chunk ≠ some 0)
    (hfault : manner.fault = none)
    {cause : Error}
    (h : (decode limit (.ofSource (.ofBytes bytes manner))).1 = .error cause) :
    let rest := (decode limit (.ofSource (.ofBytes bytes manner))).2
    cause.LiesInFile ∨
      cause = .endOfInput rest.consumed ∧
        rest.consumed ≤ bytes.length ∧
        rest.source.delivered = bytes.length := by
  intro rest
  have hobserved := observed_decode_of_none limit bytes hchunk hfault
  have hresult : .error cause = (scanFile limit bytes).result 0 .endOfSource :=
    h.symm.trans (congrArg (fun seen => seen.1) hobserved)
  have hconsumed : rest.consumed = (scanFile limit bytes).fields.sum :=
    congrArg (fun seen => seen.2.1) hobserved
  have hdelivered : rest.source.delivered = (scanFile limit bytes).delivered bytes.length :=
    congrArg (fun seen => seen.2.2.1) hobserved
  have hle : (scanFile limit bytes).fields.sum ≤ bytes.length := sum_fields_le _ 0 bytes
  rw [hconsumed, hdelivered]
  cases hending : (scanFile limit bytes).ending with
  | value picture => simp [Scan.result, hending] at hresult
  | failure found =>
      obtain rfl : cause = found := by simpa [Scan.result, hending] using hresult
      exact .inl (liesInFile_of_scanFile hending)
  | short count =>
      simp only [Scan.result, hending, Nat.zero_add, Except.error.injEq] at hresult
      exact .inr ⟨hresult, hle, by rw [Scan.delivered, hending]⟩

/-- What each cause says about the bytes of a file and the input that is left. -/
def Explains (limit : PixelLimit) (bytes : Bytes) (rest : Input) : Error → Prop
  | .unexpectedByte place expected found =>
      bytes[place]? = some found ∧
        found ≠ expected ∧
        rest.consumed = place + 1 ∧
        ∃ opening : Opening,
          (expected = 0x2C ∧ found ≠ 0x21 ∧ bytes.take place = opening.toBytes) ∨
            (expected = 0 ∧
              place = opening.toBytes.length + 7 ∧
              opening.toBytes ++ [0x21, 0xF9, 4] <+: bytes.take place)
  | .repeatedGraphicControl place =>
      rest.consumed = place + 8 ∧
        ∃ (earlier opening : Opening) (first second : GraphicControl),
          place = opening.toBytes.length ∧
            bytes.take rest.consumed =
              opening.toBytes ++ (ExtensionBlock.control second).toBytes ∧
            earlier.toBytes ++ (ExtensionBlock.control first).toBytes <+: opening.toBytes
  | .graphicControlSize found =>
      found ≠ 4 ∧
        ∃ opening : Opening,
          bytes.take rest.consumed = opening.toBytes ++ [0x21, 0xF9, found]
  | .badSignature found =>
      found = bytes.take 3 ∧ found ≠ signature ∧ rest.consumed = 3
  | .unsupportedVersion found =>
      bytes.take 3 = signature ∧
        found = (bytes.drop 3).take 3 ∧
        found ≠ supportedVersion ∧
        rest.consumed = 6
  | .codeSizeOutOfRange found =>
      ¬(2 ≤ found.toNat ∧ found.toNat ≤ 12) ∧
        ∃ (opening : Opening) (image : ImageDescriptor) (table : Option ColorTable),
          bytes.take rest.consumed = opening.toBytes ++ imageFront image table found
  | .undefinedCode .. | .indexOutOfRange _ =>
      ∃ (opening : Opening) (image : ImageDescriptor) (table : Option ColorTable)
        (minCodeSize : UInt8) (passed : List SubBlock) (block : SubBlock),
        TableFits image.flags table ∧
          bytes.take rest.consumed =
            opening.toBytes ++
              (imageFront image table minCodeSize ++
                (passed.flatMap SubBlock.toBytes ++ block.toBytes))
  | .tooLarge =>
      (∃ screen : Screen,
        ¬limit.allows screen.pixels ∧
          bytes.take rest.consumed = signature ++ (supportedVersion ++ screen.toBytes)) ∨
        ∃ (opening : Opening) (image : ImageDescriptor),
          ¬limit.allows image.pixels ∧
            bytes.take rest.consumed = opening.toBytes ++ (0x2C :: image.toBytes)
  | .endOfInput place =>
      place = rest.consumed ∧
        rest.consumed ≤ bytes.length ∧
        rest.source.delivered = bytes.length
  | .stream _ | .numberOutOfRange | .missingColorTable => False

/-- A fault is explained by its cause. -/
theorem FailsBehind.explains
    {limit : PixelLimit}
    {taken : Bytes}
    {cause : Error}
    (h : FailsBehind limit taken cause)
    {rest : Input}
    (hconsumed : rest.consumed = taken.length)
    (left : Bytes) :
    Explains limit (taken ++ left) rest cause := by
  have hfront : (taken ++ left).take rest.consumed = taken := by
    rw [hconsumed, List.take_left' rfl]
  cases h with
  | signature hlength hother =>
      rw [hlength] at hconsumed
      rw [hconsumed] at hfront
      exact ⟨hfront.symm, hother, hconsumed⟩
  | @version found hlength hother =>
      have hthree : (Gif.signature ++ found).length = 6 := by
        rw [List.length_append, hlength]
        rfl
      rw [List.append_assoc]
      refine ⟨List.take_left' rfl, ?_, hother, hconsumed.trans hthree⟩
      exact (List.take_left' hlength).symm
  | screen screen hlarge => exact .inl ⟨screen, hlarge, hfront⟩
  | @block opening found himage hextension =>
      rw [List.append_assoc]
      refine ⟨?_, himage, by simp [hconsumed], opening, .inl ⟨rfl, hextension, ?_⟩⟩
      · rw [List.getElem?_append_right (Nat.le_refl _), Nat.sub_self]
        rfl
      · exact List.take_left' rfl
  | controlSize opening hother => exact ⟨hother, opening, hfront⟩
  | @controlEnd opening flags delay index found hother =>
      let body : Bytes := 0x21 :: 0xF9 :: 4 :: flags :: (littleEndian 2 delay.toNat ++ [index])
      have hbody : (opening.toBytes ++ body).length = opening.toBytes.length + 7 :=
        List.length_append
      have hbytes :
          opening.toBytes ++
              (0x21 :: 0xF9 :: 4 :: flags :: (littleEndian 2 delay.toNat ++ [index, found])) ++
              left =
            opening.toBytes ++ body ++ (found :: left) := by
        simp [body, List.append_assoc]
      rw [hbytes, ← hbody]
      refine ⟨?_, hother, ?_, opening, .inr ⟨rfl, hbody, ?_⟩⟩
      · rw [List.getElem?_append_right (Nat.le_refl _), Nat.sub_self]
        rfl
      · rw [hconsumed, hbody, List.length_append]
        rfl
      · rw [List.take_left' rfl]
        exact List.prefix_append_right_inj _ |>.mpr (List.prefix_append [0x21, 0xF9, 4] _)
  | repeatedControl opening control hcontrols =>
      obtain ⟨earlier, first, hearlier⟩ := Opening.exists_control hcontrols
      refine ⟨?_, earlier, opening, first, control, rfl, hfront, hearlier⟩
      rw [hconsumed, List.length_append]
      rfl
  | image opening image hlarge => exact .inr ⟨opening, image, hlarge, hfront⟩
  | codeSize opening hfits hrange => exact ⟨hrange, opening, _, _, hfront⟩
  | code opening minCodeSize passed block hfits hcode =>
      cases cause with
      | undefinedCode | indexOutOfRange =>
          exact ⟨opening, _, _, minCodeSize, passed, block, hfits, hfront⟩
      | _ => exact hcode.elim

/-- When decoding fails, the cause tells the truth about the bytes consumed: the byte that it
names stands where it says, as the last one that was read, and what stands in front of it is the
front of a file that calls for another byte.  The end of the bytes is named only when all of
them were delivered. -/
theorem decode_eq_error
    {limit : PixelLimit}
    {bytes : Bytes}
    {manner : Source.Manner}
    (hchunk : manner.chunk ≠ some 0)
    (hfault : manner.fault = none)
    {cause : Error}
    (h : (decode limit (.ofSource (.ofBytes bytes manner))).1 = .error cause) :
    Explains limit bytes (decode limit (.ofSource (.ofBytes bytes manner))).2 cause := by
  rcases liesInFile_or_endOfInput hchunk hfault h with hcause | ⟨rfl, hle, hdelivered⟩
  · obtain ⟨taken, hadvances, hfails⟩ := failsBehind_of_decode (Prod.ext h rfl) hcause
    obtain ⟨left, hbytes⟩ : ∃ left, bytes = taken ++ left := ⟨_, hadvances.pending_eq⟩
    have hexplains := hfails.explains (hadvances.consumed_eq.trans (Nat.zero_add _)) left
    rwa [← hbytes] at hexplains
  · exact ⟨rfl, hle, hdelivered⟩

/-- A second graphic control extension, with a comment between it and the first one. -/
theorem decode_eq_error_of_repeated_control :
    let bytes : Bytes :=
      [0x47, 0x49, 0x46, 0x38, 0x39, 0x61, 1, 0, 1, 0, 0, 0, 0, 0x21, 0xF9, 4, 0, 0, 0, 0, 0,
        0x21, 0xFE, 1, 0x41, 0, 0x21, 0xF9, 4, 1, 10, 0, 3, 0, 0x2C]
    let reading := decode (some 1) (.ofSource (.ofBytes bytes ⟨some 5, true, none⟩))
    reading.1 = .error (.repeatedGraphicControl 26) ∧
      reading.2.consumed = 34 ∧
      ∃ (opening : Opening) (second : GraphicControl),
        opening.toBytes.length = 26 ∧
          bytes.take 34 = opening.toBytes ++ (ExtensionBlock.control second).toBytes := by
  intro bytes reading
  have hresult : reading.1 = .error (.repeatedGraphicControl 26) := by
    unfold reading
    rw [decode_eq_run_rounds]
    cbv
  obtain ⟨hconsumed, -, opening, -, second, hplace, hfront, -⟩ :=
    decode_eq_error (by simp) rfl hresult
  rw [hconsumed] at hfront
  exact ⟨hresult, hconsumed, opening, second, hplace.symm, hfront⟩

end Gif
end GifBitmap

import GifBitmap.Proofs.Gif.DataEvents
import GifBitmap.Proofs.Gif.SkippedExtensions

/-!
# The events of decoding

In front of the image data only parts of the file are noted, each once it was read
(`Event.IsOfBlock`).  From there on the events are those of the image data.  Which of them there
are can be told from the bytes of the fields that were read: if they begin with the front of a
file up to its image data, the blocks behind it have their events, and otherwise there are none.

Main facts:
* `notesOnly_step`: the phases in front of the image data;
* `File.toBytes_eq_front_append`: a file is its front and the blocks of its image data;
* `File.passes_front`, `exists_file_of_leaves`: the bytes in front of the image data;
* `decode_events`: the events of decoding, whatever the source.
-/

namespace GifBitmap

/-- Whether an event tells of a part of a file in front of its image data. -/
def Event.IsOfBlock : Event → Prop
  | header _ | screen _ | colorTable _ | extensionSkipped .. | graphicControl _ | image _ => True
  | _ => False

/-- Such an event is no warning. -/
theorem Event.IsOfBlock.level_eq
    {event : Event}
    (h : event.IsOfBlock) :
    event.level = .debug := by
  cases event with
  | header | screen | colorTable | extensionSkipped | graphicControl | image => rfl
  | imageData | imageDataSkipped | indicesTruncated | endCodeMissing | imageClipped
  | bitmapWritten | converted => exact h.elim

namespace Gif

open FieldReader

section Notes

variable {limit : PixelLimit}

theorem notesOnly_checkPixels (pixels : Nat) :
    (checkPixels limit pixels).NotesOnly Event.IsOfBlock := by
  unfold checkPixels
  split
  · trivial
  · trivial

theorem notesOnly_readHeader : readHeader.NotesOnly Event.IsOfBlock := by
  unfold readHeader
  refine (NotesOnly.bytes 3 _).bind fun found => ?_
  split
  · refine (NotesOnly.bytes 3 _).bind fun version => ?_
    split
    · exact ⟨trivial, trivial⟩
    · trivial
  · trivial

theorem notesOnly_readScreen : readScreen.NotesOnly Event.IsOfBlock :=
  fun _ _ _ _ _ => ⟨trivial, trivial⟩

theorem notesOnly_readColorTable (shape : TableShape) :
    (readColorTable shape).NotesOnly Event.IsOfBlock := by
  unfold readColorTable
  split
  · exact fun _ => ⟨trivial, trivial⟩
  · trivial

theorem notesOnly_readPreamble : (readPreamble limit).NotesOnly Event.IsOfBlock := by
  unfold readPreamble
  refine notesOnly_readHeader.bind fun version => ?_
  refine notesOnly_readScreen.bind fun screen => ?_
  refine (notesOnly_checkPixels screen.pixels).bind fun _ => ?_
  exact (notesOnly_readColorTable screen.tableShape).bind fun _ => trivial

theorem notesOnly_expectByte (expected : UInt8) :
    (expectByte expected).NotesOnly Event.IsOfBlock := by
  unfold expectByte
  refine fun start => NotesOnly.byte.bind fun found => ?_
  split
  · trivial
  · trivial

theorem notesOnly_readGraphicControl : readGraphicControl.NotesOnly Event.IsOfBlock := by
  unfold readGraphicControl
  refine NotesOnly.byte.bind fun size => ?_
  split
  · exact fun _ _ _ => (notesOnly_expectByte 0).bind fun _ => ⟨trivial, trivial⟩
  · trivial

theorem notesOnly_readImageDescriptor : readImageDescriptor.NotesOnly Event.IsOfBlock :=
  fun _ _ _ _ _ => ⟨trivial, trivial⟩

theorem notesOnly_readImage (preamble : Preamble) (control : Option GraphicControl) :
    (readImage limit preamble control).NotesOnly Event.IsOfBlock := by
  unfold readImage
  refine notesOnly_readImageDescriptor.bind fun image => ?_
  refine (notesOnly_checkPixels image.pixels).bind fun _ => ?_
  refine (notesOnly_readColorTable image.tableShape).bind fun localTable => ?_
  refine NotesOnly.byte.bind fun minCodeSize => ?_
  split
  · trivial
  · trivial

theorem notesOnly_readExtension
    (preamble : Preamble)
    (control : Option GraphicControl)
    (start : Nat) :
    (readExtension preamble control start).NotesOnly Event.IsOfBlock := by
  unfold readExtension
  refine NotesOnly.byte.bind fun label => ?_
  split
  · refine notesOnly_readGraphicControl.bind fun found => ?_
    cases control with
    | none => trivial
    | some earlier => trivial
  · trivial

theorem notesOnly_readBlock (preamble : Preamble) (control : Option GraphicControl) :
    (readBlock limit preamble control).NotesOnly Event.IsOfBlock := by
  unfold readBlock
  refine fun start => NotesOnly.byte.bind fun found => ?_
  split
  · exact notesOnly_readImage preamble control
  · split
    · exact notesOnly_readExtension preamble control start
    · trivial

theorem notesOnly_skipSubBlock
    (preamble : Preamble)
    (control : Option GraphicControl)
    (kind : Extension)
    (skipped : Nat) :
    (skipSubBlock preamble control kind skipped).NotesOnly Event.IsOfBlock := by
  unfold skipSubBlock
  refine NotesOnly.byte.bind fun size => ?_
  split
  · exact fun _ => trivial
  · exact ⟨trivial, trivial⟩

/-- Whether a phase lies in front of the image data. -/
def Phase.IsBeforeData : Phase → Prop
  | imageData .. => False
  | _ => True

theorem notesOnly_step
    (phase : Phase)
    (h : phase.IsBeforeData) :
    (phase.step limit).NotesOnly Event.IsOfBlock := by
  cases phase with
  | start => exact notesOnly_readPreamble.bind fun _ => trivial
  | blocks preamble control => exact notesOnly_readBlock preamble control
  | extension preamble control kind skipped =>
      exact notesOnly_skipSubBlock preamble control kind skipped
  | imageData => exact h.elim

end Notes

namespace File

/-- The front of a file up to its image. -/
def opening (file : File) : Opening :=
  ⟨file.screen, file.globalTable, file.body.extensions, file.globalTable_fits⟩

/-- The stored form up to the blocks of image data. -/
def frontToBytes (file : File) : Bytes :=
  file.opening.toBytes ++ file.body.frontToBytes

/-- The blocks of image data stand behind this front. -/
theorem toBytes_eq_front_append (file : File) :
    file.toBytes = file.frontToBytes ++ SubBlock.listToBytes file.body.blocks := by
  rw [toBytes, frontToBytes, List.append_assoc, ← Body.imageToBytes_eq]
  simp only [Opening.toBytes, Body.toBytes, opening, signature, supportedVersion,
    List.append_assoc]

/-- The file with other blocks of image data. -/
def withBlocks (file : File) (blocks : List SubBlock) : File :=
  { file with body := { file.body with blocks } }

variable {limit : PixelLimit}

/-- Decoding comes from the front of a file within the limit to its image data. -/
theorem passes_front
    (file : File)
    (hwithin : file.WithinLimit limit) :
    ∃ outline,
      Passes (Phase.step limit) .start 0 file.frontToBytes
        (.imageData outline (.initial (.initial file.body.codeSize))) := by
  obtain ⟨hscreen, himage⟩ := File.withinLimit_iff.mp hwithin
  obtain ⟨preamble, control, hpasses⟩ :=
    standsBeforeBlock_iff.mpr ⟨file.opening, rfl, file.controls_le_one, hscreen⟩
  have hreads := @Body.reads_frontToBytes limit preamble control file.body himage
    (0 + file.opening.toBytes.length)
  have hfront := Passes.next hreads (.refl _ _)
  rw [List.append_nil] at hfront
  exact ⟨_, hpasses.trans hfront⟩

end File

/-- Where decoding comes to image data it has read the front of a file within the limit. -/
theorem exists_file_of_leaves
    {limit : PixelLimit}
    {front last : Bytes}
    {middle following : Phase}
    {events : List Event}
    (h : Leaves (Phase.step limit) Phase.IsBeforeData Event.IsOfBlock .start 0 front last middle
      following events) :
    ∃ file outline,
      File.frontToBytes file = front ++ last ∧
        file.WithinLimit limit ∧
        file.body.image = Outline.image outline ∧
        following = .imageData outline (.initial (.initial file.body.codeSize)) := by
  have hreads := h.reads
  cases middle with
  | start =>
      rw [Phase.step, reads_bind_iff] at hreads
      obtain ⟨_, _, preamble, -, -, -, hfollowing⟩ := hreads
      obtain rfl := Sum.inl.inj hfollowing
      exact absurd trivial h.outside
  | blocks preamble control =>
      obtain ⟨opening, rfl, hone, hscreen⟩ := standsBeforeBlock_iff.mp ⟨preamble, control, h.passes⟩
      rcases reads_readBlock_iff.mp hreads with
        ⟨image, table, size, hfits, himage, rfl, hfollowing⟩ | ⟨found, -, -, hfollowing⟩ |
        ⟨label, -, -, hfollowing⟩
      · obtain rfl := Sum.inl.inj hfollowing
        let file : File :=
          ⟨opening.screen, opening.globalTable, ⟨opening.extensions, image, table, size, [], hfits⟩,
            opening.globalTable_fits, hone⟩
        exact ⟨file, _, rfl, File.withinLimit_iff.mpr ⟨hscreen, himage⟩, rfl, rfl⟩
      · obtain rfl := Sum.inl.inj hfollowing
        exact absurd trivial h.outside
      · obtain rfl := Sum.inl.inj hfollowing
        exact absurd trivial h.outside
  | extension preamble control kind skipped =>
      rcases reads_skipSubBlock_iff.mp hreads with
        ⟨block, count, -, -, hfollowing⟩ | ⟨-, hfollowing⟩
      · obtain rfl := Sum.inl.inj hfollowing
        exact absurd trivial h.outside
      · obtain rfl := Sum.inl.inj hfollowing
        exact absurd trivial h.outside
  | imageData => exact absurd h.inside id

/-- Whatever the source, the fields and the events of decoding are those of the scan of some front
of the bytes that are pending. -/
theorem exists_scan_of_decode (limit : PixelLimit) (source : Source) :
    ∃ bytes,
      bytes <+: source.pending ∧
        (decode limit (.ofSource source)).2.consumed =
          (scanUntil (Phase.step limit) .start 0 bytes).fields.sum ∧
        (decode limit (.ofSource source)).2.events.toList =
          (scanUntil (Phase.step limit) .start 0 bytes).events := by
  obtain ⟨bytes, hbytes, hconsumed, hevents⟩ := exists_scan_of_run
    (rounds (Phase.step limit) (source.pending.length + 1) .start) (.ofSource source)
  have hlength : bytes.length < source.pending.length + 1 :=
    Nat.lt_succ_of_le hbytes.length_le
  have hrounds : (rounds (Phase.step limit) (source.pending.length + 1) .start).scan 0 bytes =
      scanUntil (Phase.step limit) .start 0 bytes :=
    scan_rounds_eq (Phase.step_progresses limit) .start 0 hlength (Nat.lt_succ_self _)
  refine ⟨bytes, hbytes, ?_, ?_⟩
  · rw [decode_eq_run_rounds, ← hrounds]
    exact hconsumed.trans (Nat.zero_add _)
  · rw [decode_eq_run_rounds, ← hrounds]
    exact hevents.trans (List.nil_append _)

/-- The events of decoding, from the bytes of the fields that were read.  If these begin with the
front of a file within the limit up to its image data, there is one event for each block that
stands behind it, with its size, and the two warnings about the image data.  If they do not, only
parts in front of the image data are noted. -/
theorem decode_events (limit : PixelLimit) (source : Source) :
    let reading := decode limit (.ofSource source)
    let taken := source.pending.take reading.2.consumed
    ∃ early data : List Event,
      reading.2.events.toList = early ++ data ∧
        (∀ event ∈ early, event.IsOfBlock) ∧
        ((data = [] ∧ ∀ file : File, file.WithinLimit limit → ¬file.frontToBytes <+: taken) ∨
          ∃ (file : File) (fed passed : List SubBlock) (last read : Bytes),
            file.WithinLimit limit ∧
              taken = file.frontToBytes ++ read ∧
              file.body.blocks = fed ++ passed ∧
              ReadsData (.initial file.body.codeSize) file.body.image.pixels fed passed last
                read ∧
              data = dataEvents (.initial file.body.codeSize) file.body.image.pixels fed passed
                last) := by
  intro reading taken
  obtain ⟨bytes, hbytes, hconsumed, hevents⟩ := exists_scan_of_decode limit source
  have htaken : taken = bytes.take (scanUntil (Phase.step limit) .start 0 bytes).fields.sum := by
    have hle : (scanUntil (Phase.step limit) .start 0 bytes).fields.sum ≤ bytes.length :=
      sum_fields_le _ _ _
    obtain ⟨tail, htail⟩ := hbytes
    unfold taken
    rw [hconsumed, ← htail, List.take_append_of_le_length hle]
  rcases stays_or_leaves (Phase.step_progresses limit) notesOnly_step
      (show Phase.start.IsBeforeData from trivial) 0 bytes with
    hstays | ⟨front, last, rest, middle, following, early, rfl, hleaves⟩
  · refine ⟨_, [], hevents.trans (List.append_nil _).symm, hstays.allowed, .inl ⟨rfl, ?_⟩⟩
    intro file hwithin hfront
    obtain ⟨outline, hpasses⟩ := file.passes_front hwithin
    refine hstays.inside hpasses (hfront.trans ?_)
    rw [htaken]
    exact List.take_prefix _ _
  · obtain ⟨file, outline, hfile, hwithin, himage, rfl⟩ := exists_file_of_leaves hleaves
    obtain ⟨fields, hsum, hscan⟩ := hleaves.crosses
    obtain ⟨fed, passed, ending, hreads, hdata⟩ := exists_readsData limit outline
      file.body.codeSize (0 + (front ++ last).length) rest
    rw [← himage] at hreads hdata
    have hwhole := hscan rest
    rw [List.append_assoc] at hwhole
    refine ⟨early, _, ?_, hleaves.allowed, .inr ⟨file.withBlocks (fed ++ passed), fed, passed,
      ending, _, hwithin, ?_, rfl, hreads, rfl⟩⟩
    · rw [hevents, hwhole]
      exact congrArg (early ++ ·) hdata
    · have hfront : (file.withBlocks (fed ++ passed)).frontToBytes = front ++ last := hfile
      rw [htaken, hfront, ← List.append_assoc, ← List.take_length_add_append, hscan rest, ← hsum]
      exact congrArg (List.take · _) List.sum_append

end Gif
end GifBitmap

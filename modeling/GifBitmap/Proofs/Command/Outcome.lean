import GifBitmap.Proofs.Command.Run
import GifBitmap.Proofs.Command.Words
import GifBitmap.Proofs.ConversionOrder

/-!
# The files at the end of the command

What a command leaves in its directory is told by the conversion of its input to a sink that
accepts all that is offered: whether that succeeds, with which bytes and with which counts.

The main result is `run_outcome`, for every way of reading a command line.
-/

namespace GifBitmap
namespace Command

variable {options : Options}

/-- What a directory holds when a conversion was completed: the bitmap in the output, the counts
in the log, and all else as before. -/
structure Options.Completes
    (options : Options)
    (bitmap : Bytes)
    (statistics : Conversion.Statistics)
    (before after : Directory) : Prop where
  output_eq :
    ∀ name,
      options.output = some name →
        after.content? name = some bitmap ∧ after.standardOutput = before.standardOutput
  standardOutput_eq :
    options.output = .none → after.standardOutput = before.standardOutput ++ bitmap
  log_eq :
    ∀ name,
      options.log = some name →
        after.content? name =
          some ("uncodedSize = " ++ toString statistics.gifSize ++ "\n" ++
            "codedSize = " ++ toString statistics.bitmapSize ++ "\n").toUTF8.toList
  others_eq :
    ∀ name,
      options.output ≠ some name →
        options.log ≠ some name → after.content? name = before.content? name

/-- What a directory holds when a conversion was given up: no output, and all else as before. -/
structure Options.Abandons
    (options : Options)
    (before after : Directory) : Prop where
  output_eq : ∀ name, options.output = some name → after.content? name = .none
  standardOutput_eq : after.standardOutput = before.standardOutput
  others_eq : ∀ name, options.output ≠ some name → after.content? name = before.content? name

/-- What a directory holds when a conversion was not begun: all is as before. -/
structure Directory.Kept (before after : Directory) : Prop where
  standardOutput_eq : after.standardOutput = before.standardOutput
  content_eq : ∀ name, after.content? name = before.content? name

theorem Options.NamesFiles.completes
    (hfiles : options.NamesFiles)
    {bitmap : Bytes}
    {statistics : Conversion.Statistics}
    {before after : Directory}
    (hafter :
      after.holdings =
        ((before.holdings.consume options.input).emit options.output bitmap).record options.log
          (logText statistics).toUTF8.toList) :
    options.Completes bitmap statistics before after := by
  have hcontent : ∀ name, after.content? name =
      if options.log = some name then some (logText statistics).toUTF8.toList
      else if options.output = some name then some bitmap else before.content? name := by
    intro name
    have hname := Directory.content?_of_holdings hafter name
    rw [Holdings.content?_record, Holdings.content?_emit, Holdings.content?_consume] at hname
    exact hname
  have hstream : after.standardOutput =
      before.standardOutput ++ if options.output.isSome then [] else bitmap := by
    have hstandard := congrArg Holdings.standardOutput hafter
    rw [Holdings.standardOutput_record, Holdings.standardOutput_emit,
      Holdings.standardOutput_consume] at hstandard
    exact hstandard
  constructor
  · intro name houtput
    rw [hcontent, if_neg (hfiles.output_ne_log name houtput), if_pos houtput, hstream, houtput]
    exact ⟨rfl, List.append_nil _⟩
  · intro houtput
    rw [hstream, houtput]
    rfl
  · intro name hlog
    rw [hcontent, if_pos hlog]
    rfl
  · intro name houtput hlog
    rw [hcontent, if_neg hlog, if_neg houtput]

theorem Options.abandons
    {before after : Directory}
    (hafter :
      after.holdings = (before.holdings.consume options.input).discard options.output) :
    options.Abandons before after := by
  have hcontent : ∀ name, after.content? name =
      if options.output = some name then .none else before.content? name := by
    intro name
    have hname := Directory.content?_of_holdings hafter name
    rw [Holdings.content?_discard, Holdings.content?_consume] at hname
    exact hname
  constructor
  · intro name houtput
    rw [hcontent, if_pos houtput]
  · have hstandard := congrArg Holdings.standardOutput hafter
    rw [Holdings.standardOutput_discard, Holdings.standardOutput_consume] at hstandard
    exact hstandard
  · intro name houtput
    rw [hcontent, if_neg houtput]

theorem Directory.kept
    {before after : Directory}
    {input : Option String}
    (hafter : after.holdings = before.holdings.consume input) :
    before.Kept after := by
  constructor
  · have hstandard := congrArg Holdings.standardOutput hafter
    rw [Holdings.standardOutput_consume] at hstandard
    exact hstandard
  · intro name
    have hname := Directory.content?_of_holdings hafter name
    rw [Holdings.content?_consume] at hname
    exact hname

/-- A command converts the file that it is told, or else the standard input, to the file that it
is told, or else the standard output, however its words and the setting for the records are read.

If the input can be converted, the status is 0: the output then holds the bitmap and the log its
two counts.  If there is no input, or it cannot be converted, the status is 1, and nothing but the
output is touched.  The output is missing then, unless it was never created: when there is no
input, or when the blocks are to be shown and the input cannot be decoded. -/
theorem run_outcome
    {readers : Readers}
    {words : List String}
    {options : Options}
    (hwords : readers.request words = .ok (.convert options))
    (hfiles : options.NamesFiles)
    (setting : Option String)
    (before : Directory) :
    let input := before.holdings.input? options.input
    let reading := fun contents => (Gif.decode .standard (.ofSource (.ofBytes contents .plain))).1
    let outcome := fun contents =>
      Conversion.convert .standard (.ofBytes contents .plain) (.empty .plain)
    let unreadable := fun contents =>
      options.showsBlocks = true ∧ ∃ failure, reading contents = .error failure
    let command : StateM Directory UInt32 := runWith readers words setting
    let status := (command.run before).1
    let after := (command.run before).2
    (∀ contents statistics,
      input = some contents →
        (outcome contents).result = .ok statistics →
          status = 0 ∧
            options.Completes (outcome contents).sink.accepted.toList statistics before after) ∧
      (input = none → status = 1 ∧ before.Kept after) ∧
      ∀ contents cause,
        input = some contents →
          (outcome contents).result = .error cause →
            status = 1 ∧
              (unreadable contents → before.Kept after) ∧
              (¬unreadable contents → options.Abandons before after) := by
  intro input reading outcome unreadable command status after
  -- The final state is known up to what was printed, and that does not count.
  have hends : ∀ {result : Except String Unit} {held : Holdings},
      (∀ printer, Leads (carryOut printer options).run before.holdings result held) →
        status = (if result.isOk then 0 else 1) ∧ after.holdings = held := by
    intro result held hcommand
    obtain ⟨last, hlast, hheld⟩ := leads_runWith hwords setting hcommand before rfl
    have hafter : after = last := congrArg Prod.snd hlast
    exact ⟨congrArg Prod.fst hlast, hafter ▸ hheld⟩
  refine ⟨?_, ?_, ?_⟩
  · intro contents statistics hinput hresult
    cases hprepare : Conversion.prepare .standard (inputOf contents) with
    | mk prepared rest =>
        cases prepared with
        | error cause =>
            have herror : (outcome contents).result = .error cause := by
              simp only [outcome]
              rw [Conversion.convert, ← inputOf, hprepare]
            rw [hresult] at herror
            exact absurd herror (by simp)
        | ok prepared =>
            obtain ⟨hok, haccepted⟩ := Conversion.convert_of_prepare hprepare
            obtain ⟨picture, last, -, hdecode, -⟩ :=
              Conversion.exists_picture_of_prepare hprepare
            have hcounts : statistics = ⟨prepared.gifSize, prepared.bitmap.file.length⟩ :=
              Except.ok.inj (hresult.symm.trans hok)
            obtain ⟨hstatus, hafter⟩ := hends fun printer =>
              leads_carryOut hfiles hinput (fun _ => ⟨picture, congrArg Prod.fst hdecode⟩)
                hprepare
            have hbitmap : (outcome contents).sink.accepted.toList = prepared.bitmap.file :=
              haccepted
            rw [hbitmap, hcounts]
            exact ⟨hstatus, hfiles.completes hafter⟩
  · intro hinput
    obtain ⟨hstatus, hafter⟩ := hends fun printer => leads_carryOut_of_missing hfiles hinput
    exact ⟨hstatus, Directory.kept hafter⟩
  · intro contents cause hinput hresult
    by_cases hunreadable : unreadable contents
    · obtain ⟨hshows, failure, hreading⟩ := hunreadable
      obtain ⟨hstatus, hafter⟩ := hends fun printer =>
        leads_carryOut_of_undecodable hfiles hinput hshows (Prod.ext hreading rfl)
      exact ⟨hstatus, fun _ => Directory.kept hafter, fun h => absurd ⟨hshows, _, hreading⟩ h⟩
    · have hshown : options.showsBlocks = true →
          ∃ picture, (Gif.decode .standard (inputOf contents)).1 = .ok picture := by
        intro hshows
        cases hreading : reading contents with
        | error failure => exact absurd ⟨hshows, failure, hreading⟩ hunreadable
        | ok picture => exact ⟨picture, hreading⟩
      cases hprepare : Conversion.prepare .standard (inputOf contents) with
      | mk prepared rest =>
          cases prepared with
          | ok prepared =>
              obtain ⟨hok, -⟩ := Conversion.convert_of_prepare hprepare
              exact absurd (hresult.symm.trans hok) (by simp)
          | error found =>
              obtain ⟨hstatus, hafter⟩ := hends fun printer =>
                leads_carryOut_of_failure hfiles hinput hshown hprepare
              exact ⟨hstatus, fun h => absurd h hunreadable, fun _ => Options.abandons hafter⟩

/-- A file with a single black pixel. -/
def dotFile : Gif.File where
  screen := ⟨1, 1, 0x80, 0, 0⟩
  globalTable := some ⟨[⟨255, 255, 255⟩, ⟨0, 0, 0⟩]⟩
  body := Conversion.pixelBody
  globalTable_fits := rfl
  controls_le_one := Conversion.controls_pixelBody

def dotBitmap : Bytes :=
  [0x42, 0x4D, 66, 0, 0, 0, 0, 0, 0, 0, 62, 0, 0, 0,
    40, 0, 0, 0, 1, 0, 0, 0, 255, 255, 255, 255, 1, 0, 8, 0, 0, 0, 0, 0, 0, 0, 0, 0,
    0, 0, 0, 0, 0, 0, 0, 0, 2, 0, 0, 0, 0, 0, 0, 0,
    255, 255, 255, 0, 0, 0, 0, 0, 1, 0, 0, 0]

theorem convert_dotFile :
    let outcome :=
      Conversion.convert .standard (.ofBytes dotFile.toBytes .plain) (.empty .plain)
    outcome.result = .ok ⟨34, 66⟩ ∧ outcome.sink.accepted.toList = dotBitmap := by
  have hindices : dotFile.body.indices = .ok #[1] := by cbv
  have hwithin : dotFile.WithinLimit .standard := by
    rintro most ⟨⟩
    decide
  obtain ⟨rest, hdecode, hadvances⟩ :=
    @Gif.decode_of_file .standard dotFile #[1] (.ofSource (.ofBytes dotFile.toBytes .plain)) []
      (Source.steady_plain _) (List.append_nil _).symm hwithin hindices
  have hconsumed : rest.consumed = 34 := hadvances.consumed_eq
  obtain ⟨hresult, haccepted⟩ := Conversion.convert_of_decode hdecode rfl
  have hbitmap : (Conversion.bitmapOf (dotFile.picture #[1])
      ⟨[⟨255, 255, 255⟩, ⟨0, 0, 0⟩]⟩).file = dotBitmap := by
    decide
  rw [hbitmap] at haccepted
  have hsize := congrArg List.length haccepted
  rw [Array.length_toList] at hsize
  intro outcome
  refine ⟨hresult.trans ?_, haccepted⟩
  rw [hconsumed, hsize]
  rfl

/-- A picture is shown and converted, over an output and a log of an earlier run. -/
theorem run_outcome_over_earlier_files :
    let files : List (String × Bytes) :=
      [("-dot-", [0, 0, 0]), ("dot.gif", dotFile.toBytes), ("notes", [1]), ("sizes", [2])]
    let before : Directory := ⟨files, [], [7], ""⟩
    let command : StateM Directory UInt32 :=
      run ["--show", "--input", "dot.gif", "--output=-dot-", "--log", "sizes"] (some "debug")
    let status := (command.run before).1
    let after := (command.run before).2
    status = 0 ∧
      after.content? "-dot-" = some dotBitmap ∧
      after.content? "sizes" =
        some "uncodedSize = 34\ncodedSize = 66\n".toUTF8.toList ∧
      after.content? "dot.gif" = some dotFile.toBytes ∧
      after.content? "notes" = some [1] ∧
      after.standardOutput = [7] := by
  intro files before command status after
  have hwords := Readers.standard_request ⟨some "dot.gif", some "-dot-", some "sizes", true⟩
  have hfiles : Options.NamesFiles ⟨some "dot.gif", some "-dot-", some "sizes", true⟩ :=
    ⟨by decide, by decide⟩
  obtain ⟨hresult, hbitmap⟩ := convert_dotFile
  obtain ⟨hconverted, -⟩ := run_outcome hwords hfiles (some "debug") before
  obtain ⟨hstatus, houtput, -, hlog, hothers⟩ := hconverted dotFile.toBytes ⟨34, 66⟩ rfl hresult
  obtain ⟨hwritten, hstream⟩ := houtput "-dot-" rfl
  rw [hbitmap] at hwritten
  exact ⟨hstatus, hwritten, hlog "sizes" rfl, hothers "dot.gif" (by decide) (by decide),
    hothers "notes" (by decide) (by decide), hstream⟩

end Command
end GifBitmap

import GifBitmap.Proofs.Command.Holdings
import GifBitmap.Proofs.PictureRoundTrip

/-!
# How the command goes on

A command that converts ends in one of four ways.  Its input is missing, or its blocks are to be
shown and cannot be read: then the output is never created.  Or the conversion fails: then the
output was created and is removed.  Or all goes well: then the bitmap is in the output and the
counts are in the log.

Main facts, for files with names of their own:
* `leads_carryOut_of_missing`, `leads_carryOut_of_undecodable`, `leads_carryOut_of_failure`,
  `leads_carryOut`: the four ways;
* `leads_runWith`: the status at the end.
-/

namespace GifBitmap
namespace Command

variable
  {printer : Printer}
  {options : Options}
  {contents : Bytes}
  {rest : Input}
  {before ready : Holdings}

theorem leads_showBlocks
    {picture : Gif.Picture}
    (hreading : Gif.decode .standard (inputOf contents) = (.ok picture, rest))
    (before : Holdings) :
    Leads (showBlocks printer contents).run before (.ok ()) before := by
  rw [showBlocks, hreading]
  exact (leads_printEvents _ _ before).andThen (leads_report _ before).lift

theorem leads_showBlocks_of_error
    {cause : Error}
    (hreading : Gif.decode .standard (inputOf contents) = (.error cause, rest))
    (before : Holdings) :
    Leads (showBlocks printer contents).run before (.error cause.message) before := by
  rw [showBlocks, hreading]
  exact (leads_printEvents _ _ before).andThen (leads_pure _ before)

/-- The bytes are at hand, or they are read when the output was created. -/
theorem leads_contentsOf
    (hapart : ∀ name, options.input = some name → options.output ≠ some name)
    (hinput : before.input? options.input = some contents) :
    Leads (contentsOf (inputHandle options.input) none).run (before.emit options.output [])
      (.ok contents) ((before.consume options.input).emit options.output []) := by
  have hfound : (before.emit options.output []).input? options.input = some contents :=
    (before.input?_emit_nil hapart).trans hinput
  have hread := leads_readAll hfound
  rw [before.consume_emit] at hread
  exact hread

theorem leads_convertTo
    {output : Option String}
    {prepared : Conversion.Prepared}
    (hprepare : Conversion.prepare .standard (inputOf contents) = (.ok prepared, rest)) :
    Leads (convertTo printer contents (outputHandle output)).run (before.emit output [])
      (.ok ⟨prepared.gifSize, prepared.bitmap.file.length⟩)
      (before.emit output prepared.bitmap.file) := by
  have hpasses := (Conversion.fits_of_prepare hprepare).toPasses
  have hencode := Bmp.Bitmap.encode_eq_ok_iff.mpr ⟨hpasses, rfl⟩
  rw [← Bmp.Bitmap.bytes_encoding_eq_file hpasses, convertTo, hprepare]
  refine (leads_printEvents _ _ _).andThen ?_
  dsimp only
  rw [hencode]
  refine (leads_write _).andThen ?_
  rw [List.nil_append]
  exact (leads_printEvents _ _ _).andThen (leads_pure _ _)

theorem leads_convertTo_of_error
    {output : Option String}
    {cause : Error}
    (hprepare : Conversion.prepare .standard (inputOf contents) = (.error cause, rest)) :
    Leads (convertTo printer contents (outputHandle output)).run before (.error cause.message)
      before := by
  rw [convertTo, hprepare]
  exact (leads_printEvents _ _ _).andThen (leads_pure _ _)

/-- What was created for an output is gone when the output is removed. -/
theorem leads_removePartial
    {output : Option String}
    (hname : ∀ name ∈ output, Directory.IsName name) :
    Leads (removePartial printer output).run (before.emit output []) (.ok ())
      (before.discard output) := by
  cases output with
  | none =>
      rw [before.emit_none_nil]
      exact leads_pure _ _
  | some name =>
      have hcreated : (before.emit (some name) []).content? name = some [] :=
        Function.update_self ..
      have hremoved := leads_remove (hname name rfl) hcreated
      rw [Holdings.emit, Holdings.put_put] at hremoved
      exact hremoved.lift.andThen (leads_pure _ _)

theorem leads_writeLog
    {log : Option String}
    (hname : ∀ name ∈ log, Directory.IsName name)
    (statistics : Conversion.Statistics)
    (before : Holdings) :
    Leads (writeLog log statistics).run before (.ok ())
      (before.record log (logText statistics).toUTF8.toList) := by
  cases log with
  | none => exact leads_pure _ _
  | some name => exact (leads_createOutput hname).andThen (leads_write _)

section

variable
  {shown : Option Bytes}
  (houtput : ∀ name ∈ options.output, Directory.IsName name)
  (hcontents :
    Leads (contentsOf (inputHandle options.input) shown).run (before.emit options.output [])
      (.ok contents) (ready.emit options.output []))

include houtput hcontents

theorem leads_convertOpened
    {prepared : Conversion.Prepared}
    (hlog : ∀ name ∈ options.log, Directory.IsName name)
    (hprepare : Conversion.prepare .standard (inputOf contents) = (.ok prepared, rest)) :
    Leads (convertOpened printer options (inputHandle options.input) shown).run before (.ok ())
      ((ready.emit options.output prepared.bitmap.file).record options.log
        (logText ⟨prepared.gifSize, prepared.bitmap.file.length⟩).toUTF8.toList) := by
  rw [convertOpened]
  refine (leads_createOutput houtput).andThen ?_
  refine (hcontents.andThen (leads_convertTo hprepare)).lift.andThen ?_
  exact leads_writeLog hlog _ _

theorem leads_convertOpened_of_error
    {cause : Error}
    (hprepare : Conversion.prepare .standard (inputOf contents) = (.error cause, rest)) :
    Leads (convertOpened printer options (inputHandle options.input) shown).run before
      (.error cause.message) (ready.discard options.output) := by
  rw [convertOpened]
  refine (leads_createOutput houtput).andThen ?_
  refine (hcontents.andThen (leads_convertTo_of_error hprepare)).lift.andThen ?_
  exact (leads_removePartial houtput).andThen (leads_pure _ _)

end

def Options.names (options : Options) : List String :=
  options.input.toList ++ options.output.toList ++ options.log.toList

/-- Whether all that a command was told are names of files, and no two of them are the same. -/
structure Options.NamesFiles (options : Options) : Prop where
  isName : ∀ name ∈ options.names, Directory.IsName name
  nodup : options.names.Nodup

namespace Options.NamesFiles

variable (hfiles : options.NamesFiles)

include hfiles

theorem input : ∀ name ∈ options.input, Directory.IsName name :=
  fun name hname => hfiles.isName name (by simp [names, Option.mem_def.mp hname])

theorem output : ∀ name ∈ options.output, Directory.IsName name :=
  fun name hname => hfiles.isName name (by simp [names, Option.mem_def.mp hname])

theorem log : ∀ name ∈ options.log, Directory.IsName name :=
  fun name hname => hfiles.isName name (by simp [names, Option.mem_def.mp hname])

theorem input_ne_output (name : String) (hinput : options.input = some name) :
    options.output ≠ some name := by
  intro houtput
  have hnodup := hfiles.nodup
  simp [names, hinput, houtput] at hnodup

theorem output_ne_log (name : String) (houtput : options.output = some name) :
    options.log ≠ some name := by
  intro hlog
  have hnodup := hfiles.nodup
  simp [names, houtput, hlog, List.nodup_append] at hnodup

end Options.NamesFiles

section

variable (hfiles : options.NamesFiles)

include hfiles

theorem leads_carryOut_of_missing (hinput : before.input? options.input = none) :
    Leads (carryOut printer options).run before (.error SystemError.notFound.message)
      (before.consume options.input) := by
  have hsame : before.consume options.input = before := by
    cases hname : options.input with
    | none =>
        rw [hname] at hinput
        exact absurd hinput nofun
    | some name => rfl
  have hopen := leads_openInput hfiles.input before
  rw [hinput] at hopen
  rw [carryOut, hsame]
  exact hopen.stop

variable (hinput : before.input? options.input = some contents)

include hinput

theorem leads_carryOut_of_undecodable
    {cause : Error}
    (hshows : options.showsBlocks = true)
    (hreading : Gif.decode .standard (inputOf contents) = (.error cause, rest)) :
    Leads (carryOut printer options).run before (.error cause.message)
      (before.consume options.input) := by
  have hopen := leads_openInput hfiles.input before
  rw [hinput] at hopen
  rw [carryOut]
  refine hopen.andThen ?_
  rw [if_pos hshows]
  refine (leads_readAll hinput).andThen ?_
  exact (leads_showBlocks_of_error hreading _).stop

/-- Whether the blocks are shown first makes no difference, unless they cannot be read. -/
theorem leads_carryOut_of_opened
    {result : Except String Unit}
    {after : Holdings}
    (hshown :
      options.showsBlocks = true →
        ∃ picture, (Gif.decode .standard (inputOf contents)).1 = .ok picture)
    (hopened :
      ∀ {start shown},
        Leads (contentsOf (inputHandle options.input) shown).run (start.emit options.output [])
            (.ok contents) ((before.consume options.input).emit options.output []) →
          Leads (convertOpened printer options (inputHandle options.input) shown).run start result
            after) :
    Leads (carryOut printer options).run before result after := by
  have hopen := leads_openInput hfiles.input before
  rw [hinput] at hopen
  rw [carryOut]
  cases hshows : options.showsBlocks with
  | true =>
      obtain ⟨picture, hpicture⟩ := hshown hshows
      refine hopen.andThen ?_
      refine (leads_readAll hinput).andThen ?_
      refine (leads_showBlocks (Prod.ext hpicture rfl) _).andThen ?_
      exact hopened (leads_pure _ _)
  | false =>
      refine hopen.andThen ?_
      exact hopened (leads_contentsOf hfiles.input_ne_output hinput)

theorem leads_carryOut_of_failure
    {cause : Error}
    (hshown :
      options.showsBlocks = true →
        ∃ picture, (Gif.decode .standard (inputOf contents)).1 = .ok picture)
    (hprepare : Conversion.prepare .standard (inputOf contents) = (.error cause, rest)) :
    Leads (carryOut printer options).run before (.error cause.message)
      ((before.consume options.input).discard options.output) :=
  leads_carryOut_of_opened hfiles hinput hshown fun hcontents =>
    leads_convertOpened_of_error hfiles.output hcontents hprepare

theorem leads_carryOut
    {prepared : Conversion.Prepared}
    (hshown :
      options.showsBlocks = true →
        ∃ picture, (Gif.decode .standard (inputOf contents)).1 = .ok picture)
    (hprepare : Conversion.prepare .standard (inputOf contents) = (.ok prepared, rest)) :
    Leads (carryOut printer options).run before (.ok ())
      (((before.consume options.input).emit options.output prepared.bitmap.file).record
        options.log (logText ⟨prepared.gifSize, prepared.bitmap.file.length⟩).toUTF8.toList) :=
  leads_carryOut_of_opened hfiles hinput hshown fun hcontents =>
    leads_convertOpened hfiles.output hcontents hfiles.log hprepare

end

/-- The status of a command tells whether what it was asked for was carried out. -/
theorem leads_runWith
    {readers : Readers}
    {words : List String}
    {result : Except String Unit}
    {after : Holdings}
    (hwords : readers.request words = .ok (.convert options))
    (setting : Option String)
    (hcommand : ∀ printer, Leads (carryOut printer options).run before result after) :
    Leads (runWith readers words setting) before (if result.isOk then 0 else 1) after := by
  unfold runWith
  refine (leads_report _ before).bind ?_
  rw [hwords]
  refine (hcommand _).bind ?_
  cases result with
  | ok => exact leads_pure _ _
  | error message => exact (leads_report _ after).bind (leads_pure _ _)

end Command
end GifBitmap

import GifBitmap.Command.Run

/-!
# Words for every conversion

There is a command line for every conversion, whatever its files are called: a name that looks
like an option is joined to the option that it is for, and any other name stands behind it.

Main facts:
* `ofWords_words`: the words for a conversion are read as that conversion;
* `Readers.standard_request`: so does the command read them.
-/

namespace GifBitmap
namespace Command

theorem toList_of_beginsOption {word : String} (h : beginsOption word = true) :
    ∃ letter letters, word.toList = '-' :: letter :: letters := by
  rw [beginsOption] at h
  split at h
  · rename_i letter letters hword
    exact ⟨letter, letters, hword⟩
  · exact absurd h Bool.false_ne_true

theorem ne_endOfOptions_of_readWord
    {options : Options}
    {word : String}
    {found : Word}
    (hread : readWord options word = .ok found) :
    word ≠ endOfOptions := by
  rintro rfl
  exact absurd hread nofun

theorem readWords_of_complete
    {options next : Options}
    {word : String}
    (hread : readWord options word = .ok (.complete next))
    (rest : List String) :
    readWords options none (word :: rest) = readWords next none rest := by
  rw [readWords.eq_def]
  dsimp only
  rw [if_neg (ne_endOfOptions_of_readWord hread), hread]
  rfl

theorem readWords_of_needsFile
    {options next : Options}
    {option : FileOption}
    {word : String}
    (hread : readWord options word = .ok (.needsFile option next))
    (rest : List String) :
    readWords options none (word :: rest) = readWords next (some option) rest := by
  rw [readWords.eq_def]
  dsimp only
  rw [if_neg (ne_endOfOptions_of_readWord hread), hread]
  rfl

namespace FileOption

/-- The words that give a file for an option. -/
def words (option : FileOption) (file : String) : List String :=
  if beginsOption file then
    ["--" ++ option.name ++ "=" ++ file]
  else
    ["--" ++ option.name, file]

variable
  {option : FileOption}
  {options next : Options}
  {file : String}

theorem readWord_name (option : FileOption) (options : Options) :
    readWord options ("--" ++ option.name) = .ok (.needsFile option options) := by
  cases option <;> rfl

/-- The value behind an equals sign begins with a dash, so the sign is all that is left out. -/
theorem readWord_joined
    (hbegins : beginsOption file = true)
    (hset : option.set options file = .ok next) :
    readWord options ("--" ++ option.name ++ "=" ++ file) = .ok (.complete next) := by
  obtain ⟨letter, letters, hfile⟩ := toList_of_beginsOption hbegins
  obtain ⟨behind, hbehind⟩ : ∃ behind, behind = option.name.toList ++ '=' :: file.toList :=
    ⟨_, rfl⟩
  have hword : ("--" ++ option.name ++ "=" ++ file).toList = '-' :: '-' :: behind := by
    simp [hbehind]
  have hjoined : behind.dropWhile (· = '-') = behind := by
    rw [hbehind]
    cases option <;> rfl
  have hname : behind.takeWhile (· ≠ '=') = option.name.toList := by
    rw [hbehind]
    cases option <;> rfl
  have hvalue : behind.dropWhile (· ≠ '=') = '=' :: file.toList := by
    rw [hbehind]
    cases option <;> rfl
  have hgiven : ('=' :: file.toList).dropWhile (· = '=') = file.toList := by
    rw [hfile]
    rfl
  have hfound : ofName? option.name = some option := by
    cases option <;> decide
  simp only [readWord, hword, hjoined, hname, hvalue, hgiven, List.isEmpty_cons,
    Bool.false_eq_true, if_false, String.ofList_toList]
  unfold readName
  rw [hfound]
  dsimp only
  rw [hset]
  rfl

/-- Behind the words for a file the file is given. -/
theorem readWords_words
    (hset : option.set options file = .ok next)
    (rest : List String) :
    readWords options none (option.words file ++ rest) = readWords next none rest := by
  rw [words]
  split
  · rename_i hbegins
    exact readWords_of_complete (readWord_joined hbegins hset) rest
  · rename_i hbegins
    refine (readWords_of_needsFile (readWord_name option options) (file :: rest)).trans ?_
    rw [readWords.eq_def]
    dsimp only
    rw [if_neg hbegins, hset]
    rfl

/-- Behind the words for a file that may be given. -/
theorem readWords_optional
    {given : Option String}
    (hset : ∀ file, given = some file → option.set options file = .ok next)
    (hnone : given = none → options = next)
    (rest : List String) :
    readWords options none (given.toList.flatMap option.words ++ rest) =
      readWords next none rest := by
  cases given with
  | none => rw [hnone rfl, Option.toList_none, List.flatMap_nil, List.nil_append]
  | some file =>
      rw [Option.toList_some, List.flatMap_singleton]
      exact readWords_words (hset file rfl) rest

end FileOption

/-- The words that ask for a conversion. -/
def Options.words (options : Options) : List String :=
  (if options.showsBlocks then ["--show"] else []) ++
    (options.input.toList.flatMap FileOption.input.words ++
      (options.output.toList.flatMap FileOption.output.words ++
        options.log.toList.flatMap FileOption.log.words))

/-- The words for a conversion are read as that conversion. -/
theorem ofWords_words (options : Options) :
    Request.ofWords options.words = .ok (.convert options) := by
  obtain ⟨input, output, log, shows⟩ := options
  have hshows : ∀ rest,
      readWords .none none ((if shows then ["--show"] else []) ++ rest) =
        readWords ⟨none, none, none, shows⟩ none rest := by
    intro rest
    cases shows with
    | false => rfl
    | true => exact readWords_of_complete rfl rest
  have hinput := @FileOption.readWords_optional .input ⟨none, none, none, shows⟩
    ⟨input, none, none, shows⟩ input (by rintro file rfl; rfl) (by rintro rfl; rfl)
  have houtput := @FileOption.readWords_optional .output ⟨input, none, none, shows⟩
    ⟨input, output, none, shows⟩ output (by rintro file rfl; rfl) (by rintro rfl; rfl)
  have hlog := @FileOption.readWords_optional .log ⟨input, output, none, shows⟩
    ⟨input, output, log, shows⟩ log (by rintro file rfl; rfl) (by rintro rfl; rfl) []
  rw [List.append_nil] at hlog
  rw [Request.ofWords, Options.words]
  dsimp only
  rw [hshows, hinput, houtput, hlog, readWords.eq_def]

/-- The command can be asked for every conversion. -/
theorem Readers.standard_request (options : Options) :
    Readers.standard.request options.words = .ok (.convert options) :=
  congrArg (Except.mapError UsageError.message) (ofWords_words options)

end Command
end GifBitmap

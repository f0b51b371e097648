import GifBitmap.Command.Request

/-!
# The command line

The words after the command's name are options.  Options without a value can share
one dash; the value of an option is the rest of its word, with or without an equals
sign, or else the next word.  A name stands behind two dashes or more, and a value that
is joined to an option without one is passed over.  Two dashes alone end the options;
nothing may come after them.
-/

namespace GifBitmap
namespace Command

namespace Options

/-- The options of a command without any word. -/
def none : Options :=
  ⟨.none, .none, .none, false⟩

end Options

/-- The options that take a file name. -/
inductive FileOption
  | input
  | output
  | log
  deriving Repr, DecidableEq

inductive UsageError
  /-- A word that is no option. -/
  | unexpected (word : String)
  /-- An option that was given before. -/
  | repeated (name : String)
  /-- An option that lacks its file name. -/
  | missingValue (option : FileOption)
  deriving Repr, DecidableEq

namespace FileOption

def name : FileOption → String
  | input => "input"
  | output => "output"
  | log => "log"

def ofName? (name : String) : Option FileOption :=
  [input, output, log].find? fun option => option.name = name

def ofLetter? : Char → Option FileOption
  | 'i' => some input
  | 'o' => some output
  | 'l' => some log
  | _ => none

def get (option : FileOption) (options : Options) : Option String :=
  match option with
  | input => options.input
  | output => options.output
  | log => options.log

/-- The options with a file name given for one of them, unless it had one before. -/
def set
    (option : FileOption)
    (options : Options)
    (file : String) :
    Except UsageError Options :=
  if (option.get options).isSome then
    .error (.repeated option.name)
  else
    .ok <|
      match option with
      | input => { options with input := some file }
      | output => { options with output := some file }
      | log => { options with log := some file }

end FileOption

namespace UsageError

def message : UsageError → String
  | unexpected word =>
      "error: Found argument '" ++ word ++ "' which wasn't expected, or isn't valid in this context"
  | repeated name =>
      "error: The argument '--" ++ name ++
        "' was provided more than once, but cannot be used multiple times"
  | missingValue option =>
      "error: The argument '--" ++ option.name ++ " <FILE>' requires a value but none was supplied"

end UsageError

/-- What one word of the command line comes to. -/
inductive Word
  /-- The options so far, after a word that is complete. -/
  | complete (options : Options)
  /-- An option whose file name is the next word. -/
  | needsFile (option : FileOption) (options : Options)
  /-- A request that makes all other words void. -/
  | instead (request : Request)
  deriving Repr, DecidableEq

def versionLine : String :=
  "gif2bmp 0.1.0\n"

def helpText : String :=
  versionLine ++
    "Convert a GIF image to an indexed BMP\n\n" ++
    "OPTIONS:\n" ++
    "    -i, --input <FILE>     input GIF file (default: stdin)\n" ++
    "    -o, --output <FILE>    output BMP file (default: stdout)\n" ++
    "    -l, --log <FILE>       write byte counts to a log file\n" ++
    "    -s, --show             show GIF blocks on stderr\n" ++
    "    -h, --help             print this text\n" ++
    "    -V, --version          print the version\n"

/-- Marks that the blocks are to be shown, unless that was marked before. -/
def markShow (options : Options) : Except UsageError Options :=
  if options.showsBlocks then
    .error (.repeated "show")
  else
    .ok { options with showsBlocks := true }

/-- The letters behind one dash. -/
def readLetters (options : Options) : List Char → Except UsageError Word
  | [] => .ok (.complete options)
  | 's' :: rest => do readLetters (← markShow options) rest
  | 'V' :: _ => .ok (.instead (.print versionLine))
  | 'h' :: _ => .ok (.instead (.print helpText))
  | letter :: rest =>
      match FileOption.ofLetter? letter, rest with
      | some option, [] => .ok (.needsFile option options)
      | some option, value => do
          let file := String.ofList (value.dropWhile (· = '='))
          return .complete (← option.set options file)
      | none, _ => .error (.unexpected ("-" ++ String.ofList [letter]))

/-- A name behind dashes, with the value that an equals sign joins to it. -/
def readName
    (options : Options)
    (name : String)
    (value : Option String) :
    Except UsageError Word :=
  match FileOption.ofName? name, value with
  | some option, none => .ok (.needsFile option options)
  | some option, some file => do return .complete (← option.set options file)
  | none, _ =>
      match name with
      | "show" => do return .complete (← markShow options)
      | "version" => .ok (.instead (.print versionLine))
      | "help" => .ok (.instead (.print helpText))
      | _ => .error (.unexpected ("--" ++ name))

def readWord (options : Options) (word : String) : Except UsageError Word :=
  match word.toList with
  | '-' :: '-' :: rest =>
      let joined := rest.dropWhile (· = '-')
      let name := joined.takeWhile (· ≠ '=')
      let value := joined.dropWhile (· ≠ '=')
      readName options (String.ofList name) <|
        if value.isEmpty then none else some (String.ofList (value.dropWhile (· = '=')))
  | '-' :: letter :: rest => readLetters options (letter :: rest)
  | _ => .error (.unexpected word)

/-- The word that ends the options. -/
def endOfOptions : String :=
  "--"

/-- Whether a word begins an option, so that it cannot be a file name. -/
def beginsOption (word : String) : Bool :=
  match word.toList with
  | '-' :: _ :: _ => true
  | _ => false

/-- Reads the words that are left.  `awaited` is the option whose file name comes next.
An option that lacks its file name is reported only if no later word asks for
something else. -/
def readWords
    (options : Options)
    (awaited : Option FileOption)
    (words : List String) :
    Except UsageError Request :=
  match awaited, words with
  | none, [] => .ok (.convert options)
  | some option, [] => .error (.missingValue option)
  | none, word :: rest =>
      if word = endOfOptions then
        match rest with
        | [] => .ok (.convert options)
        | other :: _ => .error (.unexpected other)
      else do
        match ← readWord options word with
        | .complete options => readWords options none rest
        | .needsFile option options => readWords options (some option) rest
        | .instead request => return request
  | some option, word :: rest =>
      if beginsOption word then do
        match ← readWords options none (word :: rest) with
        | .convert _ => .error (.missingValue option)
        | request => return request
      else do
        readWords (← option.set options word) none rest
termination_by (words.length, awaited.isSome.toNat)

def Request.ofWords (words : List String) : Except UsageError Request :=
  readWords .none none words

end Command
end GifBitmap

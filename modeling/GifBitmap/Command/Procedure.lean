import GifBitmap.Conversion
import GifBitmap.Command.Host
import GifBitmap.Command.Request
import GifBitmap.Command.Summary

/-!
# What the command does

The command opens its input, shows the blocks if that is asked for, creates its
output, and converts.  An output that could not be completed is removed.  The byte
counts are written only when all else is done.

A failure ends the command with its message on the standard error stream.  How the command line and
the setting for the records are read makes no difference to any of that (`runWith`).
-/

namespace GifBitmap
namespace Command

variable {m : Type → Type} [Monad m] [Host m]

/-- The parts of the command: they end with a value or with a message. -/
abbrev Action (m : Type → Type) := ExceptT String m

/-- An operation of the system as a part of the command. -/
def attempt {α : Type} (operation : m (Except SystemError α)) : Action m α := do
  match ← ExceptT.lift operation with
  | .ok value => return value
  | .error failure => throw failure.message

def printRecords (printer : Printer) (records : List Record) : Action m Unit :=
  ExceptT.lift (Host.report (printer.lines records))

def printEvents (printer : Printer) (events : List Event) : Action m Unit :=
  printRecords printer (events.map Record.ofEvent)

/-- The input that holds the bytes of a file. -/
def inputOf (contents : Bytes) : Input :=
  .ofSource (.ofBytes contents .plain)

/-- Reads the first picture of a file and shows what it consists of. -/
def showBlocks (printer : Printer) (contents : Bytes) : Action m Unit := do
  let (result, rest) := Gif.decode .standard (inputOf contents)
  printEvents printer rest.events.toList
  match result with
  | .ok picture => ExceptT.lift (Host.report (summary picture))
  | .error failure => throw failure.message

/-- Converts the bytes of a file to an output, which the system is given as a whole. -/
def convertTo
    (printer : Printer)
    (contents : Bytes)
    (output : Host.Handle m) :
    Action m Conversion.Statistics := do
  let (result, rest) := Conversion.prepare .standard (inputOf contents)
  printEvents printer rest.events.toList
  match result with
  | .error failure => throw failure.message
  | .ok prepared =>
      match prepared.bitmap.encode with
      | .error failure => throw failure.message
      | .ok encoding =>
          attempt (Host.write output encoding.bytes)
          let statistics := prepared.statistics ⟨encoding.layout, encoding.bytes.length⟩
          printEvents printer (Conversion.completion statistics encoding.layout)
          return statistics

def removalFailed (path : String) (failure : SystemError) : Record where
  level := .warn
  origin := "gif2bmp"
  text := "Could not remove \"" ++ path ++ "\": " ++ failure.message

/-- Removes an output that was not completed, if it is a file. -/
def removePartial (printer : Printer) (path : Option String) : Action m Unit :=
  match path with
  | none => pure ()
  | some path => do
      match ← ExceptT.lift (Host.remove path) with
      | .ok () => pure ()
      | .error failure => printRecords printer [removalFailed path failure]

def logText (statistics : Conversion.Statistics) : String :=
  "uncodedSize = " ++ toString statistics.gifSize ++ "\n" ++
    "codedSize = " ++ toString statistics.bitmapSize ++ "\n"

/-- Writes the byte counts to a file, if one is wanted. -/
def writeLog (path : Option String) (statistics : Conversion.Statistics) : Action m Unit :=
  match path with
  | none => pure ()
  | some path => do
      let log ← attempt (Host.createOutput (some path))
      attempt (Host.write log (logText statistics).toUTF8.toList)

/-- The bytes of an input that is open; `shown` holds them if they were read before. -/
def contentsOf (input : Host.Handle m) (shown : Option Bytes) : Action m Bytes :=
  match shown with
  | some contents => pure contents
  | none => attempt (Host.readAll input)

/-- Converts an input that is open.  The output is created first, so that an input of the same
name is found empty. -/
def convertOpened
    (printer : Printer)
    (options : Options)
    (input : Host.Handle m)
    (shown : Option Bytes) :
    Action m Unit := do
  let output ← attempt (Host.createOutput options.output)
  let conversion : Action m Conversion.Statistics := do
    let contents ← contentsOf input shown
    convertTo printer contents output
  match ← ExceptT.lift conversion.run with
  | .ok statistics => writeLog options.log statistics
  | .error message => do
      removePartial printer options.output
      throw message

/-- Carries out a conversion as its options say. -/
def carryOut (printer : Printer) (options : Options) : Action m Unit := do
  let input ← attempt (Host.openInput options.input)
  if options.showsBlocks then
    let contents ← attempt (Host.readAll input)
    showBlocks printer contents
    convertOpened printer options input (some contents)
  else
    convertOpened printer options input none

def printOut (text : String) : Action m Unit := do
  let output ← attempt (Host.createOutput none)
  attempt (Host.write output text.toUTF8.toList)

/-- Does what a command line asks for. -/
def answer (printer : Printer) : Request → Action m Unit
  | .convert options => carryOut printer options
  | .print text => printOut text

/-- Runs the command with the words behind its name and the setting for the records, and gives the
exit status. -/
def runWith (readers : Readers) (words : List String) (setting : Option String) : m UInt32 := do
  let printer := readers.printer setting
  Host.report printer.preface
  match readers.request words with
  | .error fault => do
      Host.report (fault ++ "\n")
      return 1
  | .ok request => do
      match ← (answer printer request : Action m Unit).run with
      | .ok () => return 0
      | .error message => do
          Host.report ("gif2bmp: " ++ message ++ "\n")
          return 1

end Command
end GifBitmap

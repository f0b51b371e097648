import GifBitmap.Command.LogFilter
import GifBitmap.Command.Procedure
import GifBitmap.Command.Words

/-!
# Running the command

The command as it is started: with its own options, and with the rules that a filter lists for the
records.
-/

namespace GifBitmap
namespace Command

/-- The forms in which the command is told what to do. -/
def Readers.standard : Readers where
  request words := (Request.ofWords words).mapError UsageError.message
  printer := LogFilter.printer

/-- Runs the command with the words behind its name and the written form of the log filter. -/
def run
    {m : Type → Type}
    [Monad m]
    [Host m]
    (words : List String)
    (filterText : Option String) :
    m UInt32 :=
  runWith .standard words filterText

end Command
end GifBitmap

import GifBitmap.Event

/-!
# What the command is told

A command line asks for a conversion or for a text about the command, and a setting beside it
says which records are printed.  How both are written is left open: the command is the same for
every way of reading them (`Readers`).
-/

namespace GifBitmap
namespace Command

/-- What a conversion is told on the command line. -/
structure Options where
  /-- The file to read; the standard input if there is none. -/
  input : Option String
  /-- The file to write; the standard output if there is none. -/
  output : Option String
  /-- The file for the byte counts, if they are wanted. -/
  log : Option String
  /-- Whether the blocks of the input are shown first. -/
  showsBlocks : Bool
  deriving Repr, DecidableEq

/-- What a command line asks for. -/
inductive Request
  | convert (options : Options)
  | print (text : String)
  deriving Repr, DecidableEq

/-- One record for the standard error stream. -/
structure Record where
  level : Level
  origin : String
  text : String
  deriving Repr, DecidableEq

def Record.ofEvent (event : Event) : Record :=
  ⟨event.level, event.origin, event.text⟩

/-- What becomes of the records. -/
structure Printer where
  /-- The line of a record; none if the record is not printed. -/
  line? : Record → Option String
  /-- What is said in front of all records. -/
  preface : String

/-- The lines of those records that are printed. -/
def Printer.lines (printer : Printer) (records : List Record) : String :=
  String.join (records.filterMap printer.line?)

/-- How the command reads what it is told. -/
structure Readers where
  /-- What the words behind the command's name ask for, or the wording of a fault in them. -/
  request : List String → Except String Request
  /-- What becomes of the records, by the setting for them. -/
  printer : Option String → Printer

end Command
end GifBitmap

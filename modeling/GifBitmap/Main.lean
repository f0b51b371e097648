import GifBitmap.Command.Run

/-!
# The program

The command on the system it is started on.  Every operation is one call of the
system, with its failure as a `SystemError`.
-/

namespace GifBitmap
namespace Command

/-- The reason with a number, which some calls of the system give with its sign changed. -/
def reason (code : UInt32) (details : String) : SystemError :=
  .ofCode code.toInt32.toInt.natAbs details

/-- The reason that a failed call of the system gives. -/
def reasonOf : IO.Error → SystemError
  | .alreadyExists _ code details
  | .interrupted _ code details
  | .noFileOrDirectory _ code details
  | .invalidArgument _ code details
  | .permissionDenied _ code details
  | .resourceExhausted _ code details
  | .inappropriateType _ code details
  | .noSuchThing _ code details
  | .otherError code details
  | .resourceBusy code details
  | .resourceVanished code details
  | .unsupportedOperation code details
  | .hardwareFault code details
  | .unsatisfiedConstraints code details
  | .illegalOperation code details
  | .protocolError code details
  | .timeExpired code details => reason code details
  | .unexpectedEof => .other 0 "unexpected end of file"
  | .userError details => .other 0 details

def caught {α : Type} (call : IO α) : IO (Except SystemError α) := do
  try
    return .ok (← call)
  catch failure =>
    return .error (reasonOf failure)

partial def readToEnd (stream : IO.FS.Stream) (start : ByteArray) : IO ByteArray := do
  let chunk ← stream.read 65536
  if chunk.isEmpty then
    return start
  else
    readToEnd stream (start ++ chunk)

instance : Host IO where
  Handle := IO.FS.Stream
  openInput
    | some path => caught (IO.FS.Stream.ofHandle <$> IO.FS.Handle.mk path .read)
    | none => caught IO.getStdin
  createOutput
    | some path => caught (IO.FS.Stream.ofHandle <$> IO.FS.Handle.mk path .write)
    | none => caught IO.getStdout
  readAll stream := caught do
    return (← readToEnd stream .empty).toList
  write stream bytes := caught do
    stream.write (ByteArray.mk bytes.toArray)
    stream.flush
  remove path := caught (IO.FS.removeFile path)
  report text := IO.eprint text

end Command
end GifBitmap

/-- Runs the command on the words of the command line. -/
def main (words : List String) : IO UInt32 := do
  GifBitmap.Command.run words (← IO.getEnv "RUST_LOG")

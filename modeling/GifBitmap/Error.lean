import GifBitmap.Text
import GifBitmap.Bytes

/-!
# Causes of failure

A conversion fails for one of a fixed list of causes.  Some come from the byte
stream at either end (`StreamError`); the others are faults of the picture, each
with the values that locate or explain it.  `Error.message` is the only place that
words them.
-/

namespace GifBitmap

/-- The kind of a failure reported by a source or a sink of bytes. -/
inductive StreamError.Kind
  | unexpectedEnd
  | writeZero
  | invalidInput
  | invalidData
  | permissionDenied
  | brokenPipe
  | timedOut
  | other
  deriving Repr, DecidableEq

/-- A failure reported by a source or a sink of bytes. -/
structure StreamError where
  kind : StreamError.Kind
  message : String
  deriving Repr, DecidableEq

namespace StreamError

/-- The source ended before a request was met. -/
def endOfSource : StreamError :=
  ⟨.unexpectedEnd, "failed to fill whole buffer"⟩

/-- The sink took no byte of what was left to write. -/
def nothingAccepted : StreamError :=
  ⟨.writeZero, "failed to write whole buffer"⟩

/-- The sink took no byte of what a buffer in front of it had to hand over. -/
def bufferNotAccepted : StreamError :=
  ⟨.writeZero, "failed to write the buffered data"⟩

/-- The number of indices is not the number of pixels. -/
def indexCountMismatch : StreamError :=
  ⟨.invalidInput, "index count does not match image size"⟩

end StreamError

/-- The causes for which a conversion fails. -/
inductive Error
  /-- A source or sink of bytes failed. -/
  | stream (failure : StreamError)
  /-- A number does not fit the integer field that has to hold it. -/
  | numberOutOfRange
  /-- The input ended inside the field at this offset. -/
  | endOfInput (offset : Nat)
  /-- The input does not begin with the signature of a GIF. -/
  | badSignature (found : Bytes)
  /-- The version is not the one that is supported. -/
  | unsupportedVersion (found : Bytes)
  /-- A byte that the format fixes, or that names a block, has another value. -/
  | unexpectedByte (offset : Nat) (expected found : UInt8)
  /-- The body of a graphic control extension has the wrong size. -/
  | graphicControlSize (found : UInt8)
  /-- A second graphic control extension stands before the image, at this offset. -/
  | repeatedGraphicControl (offset : Nat)
  /-- The minimum code size of the image data is not supported. -/
  | codeSizeOutOfRange (found : UInt8)
  /-- A code lies beyond the next free slot of the code table. -/
  | undefinedCode (code next : Nat)
  /-- A code stands for a single index that is no byte. -/
  | indexOutOfRange (code : Nat)
  /-- There is neither a local nor a global color table. -/
  | missingColorTable
  /-- A picture or one of its sizes is larger than allowed. -/
  | tooLarge
  deriving Repr, DecidableEq

namespace Error

def message : Error → String
  | stream failure => failure.message
  | numberOutOfRange => "number too large to fit in target type"
  | endOfInput offset => "UnexpectedEndOfFile(" ++ toString offset ++ ")"
  | badSignature found => "MalformedHeader(" ++ Text.byteList found ++ ")"
  | unsupportedVersion found => "UnsupportedVersion(" ++ Text.byteList found ++ ")"
  | unexpectedByte offset expected found =>
      "UnexpectedByte at " ++ toString offset ++
        ": expected " ++ Text.hexByte expected ++ ", found " ++ Text.hexByte found
  | graphicControlSize found =>
      "MalformedGraphicControlExtension(" ++ toString found.toNat ++ ")"
  | repeatedGraphicControl offset => "InvalidBlockSequence(" ++ toString offset ++ ")"
  | codeSizeOutOfRange found => "InvalidCodeSize(" ++ toString found.toNat ++ ")"
  | undefinedCode code next =>
      Text.record "InvalidLzwCode" [("code", toString code), ("next", toString next)]
  | indexOutOfRange code => "InvalidColorIndex(" ++ toString code ++ ")"
  | missingColorTable => "MissingColorTable"
  | tooLarge => "TooLargeImage"

/-- The message of the failure beneath, for the causes that have one. -/
def source? : Error → Option String
  | stream failure => some failure.message
  | numberOutOfRange => some numberOutOfRange.message
  | _ => none

/-- The failure of a source as a cause: its plain end is located at `offset`. -/
def ofSource (offset : Nat) (failure : StreamError) : Error :=
  match failure.kind with
  | .unexpectedEnd => endOfInput offset
  | _ => stream failure

end Error
end GifBitmap

/-!
# Text of numbers

The few ways in which messages, log records and the summary of a picture write
numbers: in a field of fixed width, as two hexadecimal digits, as hundredths, and
as a bracketed list.
-/

namespace GifBitmap
namespace Text

/-- A text set against the right edge of a field; a longer text keeps its length. -/
def alignRight (width : Nat) (text : String) : String :=
  String.ofList (List.replicate (width - text.length) ' ') ++ text

/-- A text set against the left edge of a field; a longer text keeps its length. -/
def alignLeft (width : Nat) (text : String) : String :=
  text ++ String.ofList (List.replicate (width - text.length) ' ')

def hexDigit (value : Nat) : Char :=
  if value < 10 then Char.ofNat (0x30 + value) else Char.ofNat (0x37 + value)

/-- A byte as `0x` and two hexadecimal digits. -/
def hexByte (byte : UInt8) : String :=
  String.ofList ['0', 'x', hexDigit (byte.toNat / 16), hexDigit (byte.toNat % 16)]

/-- A number of hundredths as a decimal with two places. -/
def hundredths (count : Nat) : String :=
  toString (count / 100) ++ "." ++ toString (count % 100 / 10) ++ toString (count % 10)

/-- The texts between brackets, with commas. -/
def bracketed (texts : List String) : String :=
  "[" ++ String.intercalate ", " texts ++ "]"

def byteList (bytes : List UInt8) : String :=
  bracketed (bytes.map fun byte => toString byte.toNat)

/-- A record: its name, then its labelled fields between braces. -/
def record (name : String) (fields : List (String × String)) : String :=
  name ++ " \x7b " ++
    String.intercalate ", " (fields.map fun field => field.1 ++ ": " ++ field.2) ++ " \x7d"

end Text
end GifBitmap

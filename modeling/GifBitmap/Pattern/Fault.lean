import GifBitmap.Pattern.Place

/-!
# Faults of a written pattern

A fault has a reason and a span, and sometimes a second span that it clashes with.
Its report shows the pattern with the spans marked beneath it.  A pattern of several
lines is shown with line numbers, and spans that cross lines are described in words.
-/

namespace GifBitmap
namespace Pattern

/-- What can be wrong with a written pattern. -/
inductive Reason
  | notInSet
  | rangeReversed
  | rangeEnd
  | setUnclosed
  | decimalTooLarge
  | hexEmpty
  | hexNoCharacter
  | hexDigit
  | escapeUnfinished
  | escapeUnknown
  | flagMinusDangling
  | flagRepeated
  | flagMinusRepeated
  | flagUnfinished
  | flagUnknown
  | nameRepeated
  | nameEmpty
  | nameCharacter
  | nameUnfinished
  | groupUnclosed
  | groupUnopened
  | nestedTooDeep (limit : Nat)
  | countReversed
  | countEmpty
  | countUnclosed
  | nothingToRepeat
  | edgeUnclosed
  | edgeUnknown
  | edgeUnfinished
  | propertyLetter
  | backreference
  | lookaround
  | characterNotAllowed
  | beyondText
  | propertyUnknown
  | propertyValueUnknown
  | shorthandUnavailable
  | caseUnavailable
  deriving Repr, DecidableEq

namespace Reason

def message : Reason → String
  | notInSet => "invalid escape sequence found in character class"
  | rangeReversed => "invalid character class range, the start must be <= the end"
  | rangeEnd => "invalid range boundary, must be a literal"
  | setUnclosed => "unclosed character class"
  | decimalTooLarge => "decimal literal invalid"
  | hexEmpty => "hexadecimal literal empty"
  | hexNoCharacter => "hexadecimal literal is not a Unicode scalar value"
  | hexDigit => "invalid hexadecimal digit"
  | escapeUnfinished => "incomplete escape sequence, reached end of pattern prematurely"
  | escapeUnknown => "unrecognized escape sequence"
  | flagMinusDangling => "dangling flag negation operator"
  | flagRepeated => "duplicate flag"
  | flagMinusRepeated => "flag negation operator repeated"
  | flagUnfinished => "expected flag but got end of regex"
  | flagUnknown => "unrecognized flag"
  | nameRepeated => "duplicate capture group name"
  | nameEmpty => "empty capture group name"
  | nameCharacter => "invalid capture group character"
  | nameUnfinished => "unclosed capture group name"
  | groupUnclosed => "unclosed group"
  | groupUnopened => "unopened group"
  | nestedTooDeep limit =>
      "exceed the maximum number of nested parentheses/brackets (" ++ toString limit ++ ")"
  | countReversed => "invalid repetition count range, the start must be <= the end"
  | countEmpty => "repetition quantifier expects a valid decimal"
  | countUnclosed => "unclosed counted repetition"
  | nothingToRepeat => "repetition operator missing expression"
  | edgeUnclosed =>
      "special word boundary assertion is either unclosed or contains an invalid character"
  | edgeUnknown =>
      "unrecognized special word boundary assertion, " ++
        "valid choices are: start, end, start-half or end-half"
  | edgeUnfinished =>
      "found either the beginning of a special word boundary or a bounded repetition " ++
        "on a \\b with an opening brace, but no closing brace"
  | propertyLetter => "invalid Unicode character class"
  | backreference => "backreferences are not supported"
  | lookaround => "look-around, including look-ahead and look-behind, is not supported"
  | characterNotAllowed => "Unicode not allowed here"
  | beyondText => "pattern can match invalid UTF-8"
  | propertyUnknown => "Unicode property not found"
  | propertyValueUnknown => "Unicode property value not found"
  | shorthandUnavailable =>
      "Unicode-aware Perl class not found (make sure the unicode-perl feature is enabled)"
  | caseUnavailable =>
      "Unicode-aware case insensitivity matching is not available " ++
        "(make sure the unicode-case feature is enabled)"

end Reason

/-- A fault, where it is, and what it clashes with if it clashes with something. -/
structure Fault where
  reason : Reason
  span : Span
  other : Option Span
  deriving Repr, DecidableEq

namespace Fault

/-- A fault that clashes with nothing. -/
def of (reason : Reason) (span : Span) : Fault :=
  ⟨reason, span, none⟩

def spans (fault : Fault) : List Span :=
  match fault.other with
  | none => [fault.span]
  | some other => if fault.span.precedes other then [fault.span, other] else [other, fault.span]

/-- The lines of a text.  A line ends with a line feed, or a carriage return and a line
feed; behind the last line end there is a line only if something stands there. -/
def linesOf (text : String) : List String :=
  let pieces := (text.splitOn "\n").map String.toList
  let ended := pieces.dropLast.map fun piece =>
    if piece.getLast? = some '\r' then piece.dropLast else piece
  let rest := (pieces.getLast?.filter (· ≠ [])).toList
  (ended ++ rest).map String.ofList

/-- The marks under one line, which holds the given spans.  Every span shows, an empty
one too. -/
def marks (spans : List Span) : String :=
  spans.foldl
    (fun drawn span =>
      let blanks := span.start.column - 1 - drawn.length
      let width := max 1 (span.stop.column - span.start.column)
      drawn ++ String.ofList (List.replicate blanks ' ' ++ List.replicate width '^'))
    ""

/-- The lines of a pattern with the marks of a fault beneath them.  `width` is that of
the line numbers, and zero if there are none. -/
def marked (fault : Fault) (lines : List String) (width : Nat) : String :=
  let indent := if width = 0 then 4 else width + 2
  let shown := lines.zipIdx.map fun (line, index) =>
    let number := toString (index + 1)
    let opening :=
      if width = 0 then
        "    "
      else
        String.ofList (List.replicate (width - number.length) ' ') ++ number ++ ": "
    let here := fault.spans.filter fun span => span.isOneLine && span.start.line = index + 1
    let beneath :=
      if here.isEmpty then
        ""
      else
        String.ofList (List.replicate indent ' ') ++ marks here ++ "\n"
    opening ++ line ++ "\n" ++ beneath
  String.join shown

/-- A span that crosses lines, in words. -/
def crossing (span : Span) : String :=
  "on line " ++ toString span.start.line ++ " (column " ++ toString span.start.column ++
    ") through line " ++ toString span.stop.line ++ " (column " ++
    toString (span.stop.column - 1) ++ ")"

/-- The report of a fault in a pattern. -/
def report (fault : Fault) (pattern : String) : String :=
  let lines := linesOf pattern
  let verdict := "error: " ++ fault.reason.message
  if pattern.toList.contains '\n' then
    let count := if pattern.toList.getLast? = some '\n' then lines.length + 1 else lines.length
    let width := if count ≤ 1 then 0 else (toString count).length
    let divider := String.ofList (List.replicate 79 '~') ++ "\n"
    let crossings := (fault.spans.filter fun span => !span.isOneLine).map crossing
    let notes := if crossings.isEmpty then "" else String.intercalate "\n" crossings ++ "\n"
    "regex parse error:\n" ++ divider ++ fault.marked lines width ++ divider ++ notes ++ verdict
  else
    "regex parse error:\n" ++ fault.marked lines 0 ++ verdict

end Fault
end Pattern
end GifBitmap

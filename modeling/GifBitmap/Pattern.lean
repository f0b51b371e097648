import GifBitmap.Pattern.Depth
import GifBitmap.Pattern.Meaning
import GifBitmap.Pattern.Room

/-!
# Patterns

A pattern is a regular expression.  It is read, checked and laid out once; then it can
be looked for in texts.  A pattern that cannot be used is refused with a reason.
-/

namespace GifBitmap

/-- A pattern that can be looked for. -/
structure Pattern where
  expression : Pattern.Expression
  deriving Repr, DecidableEq

namespace Pattern

inductive Refusal
  /-- It is written or nested wrongly, or asks for what there is not. -/
  | fault (fault : Fault)
  /-- It takes too much room. -/
  | tooLarge
  /-- It asks for the edges of words of every script, for which there is no table. -/
  | wideEdge
  deriving Repr, DecidableEq

namespace Refusal

def message (pattern : String) : Refusal → String
  | .fault found => found.report pattern
  | tooLarge => "Compiled regex exceeds size limit of " ++ toString roomLimit ++ " bytes."
  | wideEdge => "error building NFA"

end Refusal

/-- Lays an expression out.  Reading forward comes first, then the edges of words, and
then reading backward. -/
def ofExpression (expression : Expression) : Except Refusal Pattern :=
  if !expression.fits .forward then
    .error .tooLarge
  else if expression.hasWideEdge then
    .error .wideEdge
  else if !expression.fits .backward then
    .error .tooLarge
  else
    .ok ⟨expression⟩

/-- What a written pattern matches. -/
def meaningOfText (text : String) : Except Fault Expression := do
  let tree ← Tree.read text
  tree.checkDepth 0
  let (expression, _) ← tree.meaning .initial
  return expression

def ofText (text : String) : Except Refusal Pattern :=
  match meaningOfText text with
  | .ok expression => ofExpression expression
  | .error fault => .error (.fault fault)

/-- Whether a pattern matches some part of a text. -/
def occursIn (pattern : Pattern) (text : String) : Bool :=
  pattern.expression.occursIn text.toList

end Pattern
end GifBitmap

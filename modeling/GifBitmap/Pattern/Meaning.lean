import GifBitmap.Pattern.Tree
import GifBitmap.Pattern.Expression

/-!
# From a written pattern to what it matches

The flags in force decide what a part means.  A flag holds from where it is set to the
end of the parentheses around it, across the bars.

Without the flag `unicode` sets are sets of bytes.  As a text must stay a text, they may
hold bytes of ASCII only: a set that leaves characters out is a fault, and so is the dot.
With the flag characters are those of every script.  No table of their properties is
kept, so the sets that letters and properties name are faults then, and so is letting
both cases of a letter match.
-/

namespace GifBitmap
namespace Pattern

/-- The flags in force. -/
structure Mode where
  ignoreCase : Bool
  multiLine : Bool
  dotMatchesAll : Bool
  unicode : Bool
  carriageReturn : Bool
  deriving Repr, DecidableEq

namespace Mode

/-- The flags in force where a pattern begins. -/
def initial : Mode :=
  ⟨false, false, false, true, false⟩

/-- The mode with some flags set or cleared. -/
def apply (mode : Mode) (flags : Flags) : Mode :=
  ⟨flags.state .ignoreCase mode.ignoreCase,
    flags.state .multiLine mode.multiLine,
    flags.state .dotMatchesAll mode.dotMatchesAll,
    flags.state .unicode mode.unicode,
    flags.state .carriageReturn mode.carriageReturn⟩

end Mode

/-- A set as it is put together. -/
structure Selection where
  set : CharSet
  /-- Whether it is known to be closed under letter case. -/
  isCaseless : Bool
  deriving Repr, DecidableEq

namespace Selection

/-- The empty set, which has every letter in both cases. -/
def none : Selection :=
  ⟨.nothing, true⟩

/-- A set of which nothing is known. -/
def of (set : CharSet) : Selection :=
  ⟨set, false⟩

def union (left right : Selection) : Selection :=
  ⟨left.set.add right.set, left.isCaseless && right.isCaseless⟩

/-- The set closed under letter case, if that is wanted. -/
def fold (mode : Mode) (span : Span) (selection : Selection) : Except Fault Selection :=
  if !mode.ignoreCase || selection.isCaseless then
    .ok selection
  else if mode.unicode then
    fault .caseUnavailable span
  else
    .ok ⟨.anyCase selection.set, true⟩

/-- The set closed under letter case, if that is wanted, and then turned into its
complement, if it is negated. -/
def foldAndNegate
    (mode : Mode)
    (span : Span)
    (negated : Bool)
    (selection : Selection) :
    Except Fault Selection := do
  let folded ← selection.fold mode span
  if !negated then
    return folded
  else if mode.unicode then
    return { folded with set := .complement folded.set }
  else
    fault .beyondText span

def combine (operation : SetOperation) (left right : Selection) : Selection :=
  let set :=
    match operation with
    | .intersection => CharSet.intersection left.set right.set
    | .difference => .difference left.set right.set
    | .symmetricDifference => .symmetricDifference left.set right.set
  ⟨set, left.isCaseless && right.isCaseless⟩

end Selection

namespace Shorthand

/-- The characters of ASCII in a set. -/
def set : Shorthand → CharSet
  | digit => .range '0' '9'
  | space => .ofRanges [('\t', '\r'), (' ', ' ')]
  | word => .ofRanges [('0', '9'), ('A', 'Z'), ('_', '_'), ('a', 'z')]

/-- The set that a shorthand names. -/
def selection (mode : Mode) (span : Span) (negated : Bool) (shorthand : Shorthand) :
    Except Fault Selection :=
  if mode.unicode then
    fault .shorthandUnavailable span
  else if negated then
    fault .beyondText span
  else
    .ok ⟨shorthand.set, true⟩

end Shorthand

namespace AsciiClass

/-- The characters of a set. -/
def set : AsciiClass → CharSet
  | alnum => .ofRanges [('0', '9'), ('A', 'Z'), ('a', 'z')]
  | alpha => .ofRanges [('A', 'Z'), ('a', 'z')]
  | ascii => .range '\x00' '\x7f'
  | blank => .ofRanges [('\t', '\t'), (' ', ' ')]
  | cntrl => .ofRanges [('\x00', '\x1f'), ('\x7f', '\x7f')]
  | digit => .range '0' '9'
  | graph => .range '!' '~'
  | lower => .range 'a' 'z'
  | print => .range ' ' '~'
  | punct => .ofRanges [('!', '/'), (':', '@'), ('[', '\x60'), ('\x7b', '~')]
  | space => .ofRanges [('\t', '\r'), (' ', ' ')]
  | upper => .range 'A' 'Z'
  | word => .ofRanges [('0', '9'), ('A', 'Z'), ('_', '_'), ('a', 'z')]
  | xdigit => .ofRanges [('0', '9'), ('A', 'F'), ('a', 'f')]

end AsciiClass

/-- The name of a property in lower case, without blanks, underscores, hyphens and
characters beyond ASCII, and without `is` in front. -/
def propertyName (name : String) : String :=
  let lowered := name.toList.map Char.toLower
  let bare := if ['i', 's'].isPrefixOf lowered then lowered.drop 2 else lowered
  String.ofList (bare.filter fun c => c.toNat < 0x80 && c ∉ [' ', '_', '-'])

/-- Why a property cannot be had.  Three names are those of values of the general
category; all others are looked for among the properties. -/
def propertyFault (mode : Mode) (name : String) : Reason :=
  if !mode.unicode then
    .characterNotAllowed
  else if propertyName name ∈ ["cf", "sc", "lc"] then
    .propertyValueUnknown
  else
    .propertyUnknown

/-- Whether a character can be a member of a set of bytes. -/
def memberByte (written : Literal) : Except Fault Char :=
  if written.character.toNat < 0x80 then
    .ok written.character
  else if written.asByte && written.character.toNat < 0x100 then
    fault .beyondText written.span
  else
    fault .characterNotAllowed written.span

def memberCharacter (mode : Mode) (written : Literal) : Except Fault Char :=
  if mode.unicode then .ok written.character else memberByte written

mutual

/-- The set that members make up. -/
def Members.selection (mode : Mode) : Members → Except Fault Selection
  | .nothing _ => .ok .none
  | .literal written => do
      return .of (.one (← memberCharacter mode written))
  | .range _ first last => do
      let low ← memberCharacter mode first
      let high ← memberCharacter mode last
      return .of (.range low high)
  | .named span name negated => (Selection.of name.set).foldAndNegate mode span negated
  | .shorthand span kind negated => kind.selection mode span negated
  | .property span name _ => fault (propertyFault mode name) span
  | .bracketed span negated members => do
      (← members.selection mode).foldAndNegate mode span negated
  | .several _ items => Members.selectionOfAll mode items
  | .combined _ operation left right => do
      let first ← left.selection mode
      let second ← right.selection mode
      let second ← second.fold mode right.span
      let first ← first.fold mode left.span
      return first.combine operation second

def Members.selectionOfAll (mode : Mode) : List Members → Except Fault Selection
  | [] => .ok .none
  | item :: items => do
      let first ← item.selection mode
      let others ← Members.selectionOfAll mode items
      return first.union others

end

def Literal.meaning (mode : Mode) (written : Literal) : Except Fault Expression := do
  if !mode.unicode && written.asByte && 0x80 ≤ written.character.toNat then
    fault .beyondText written.span
  else if !mode.ignoreCase then
    return .one (.one written.character)
  else if mode.unicode then
    fault .caseUnavailable written.span
  else if written.character.isAlpha then
    return .one (.anyCase (.one written.character))
  else
    return .one (.one written.character)

def dotSet (mode : Mode) : CharSet :=
  if mode.dotMatchesAll then
    .all
  else if mode.carriageReturn then
    .complement (.ofRanges [('\n', '\n'), ('\r', '\r')])
  else
    .complement (.one '\n')

/-- The landmark that an anchor stands for. -/
def Anchor.landmark (mode : Mode) : Anchor → Landmark
  | .lineStart => if mode.multiLine then .lineStart mode.carriageReturn else .textStart
  | .lineEnd => if mode.multiLine then .lineEnd mode.carriageReturn else .textEnd
  | .textStart => .textStart
  | .textEnd => .textEnd
  | .word edge => .word edge mode.unicode

def Atom.meaning (mode : Mode) : Atom → Except Fault Expression
  | .literal written => written.meaning mode
  | .dot span => if mode.unicode then .ok (.one (dotSet mode)) else fault .beyondText span
  | .anchor _ kind => .ok (.landmark (kind.landmark mode))
  | .shorthand span kind negated => do
      return .one (← kind.selection mode span negated).set
  | .property span name _ => fault (propertyFault mode name) span

namespace Expression

/-- Whether an expression can match nothing but the empty text, whatever its counts. -/
def isEmpty : Expression → Bool
  | nothing | landmark _ => true
  | one _ => false
  | both first second | either first second => first.isEmpty && second.isEmpty
  | captured body => body.isEmpty
  | repeated _ most body => most = some 0 || body.isEmpty

/-- One after the other, without a trace of the empty text. -/
def followedBy (first second : Expression) : Expression :=
  match first, second with
  | nothing, other | other, nothing => other
  | first, second => both first second

/-- A repetition, without one that has no effect.  What matches only the empty text need
not be repeated. -/
def times (least : Nat) (most : Option Nat) (body : Expression) : Expression :=
  let (least, most) :=
    if body.isEmpty then (min least 1, some (min (most.getD 1) 1)) else (least, most)
  if most = some 0 then
    nothing
  else if least = 1 ∧ most = some 1 then
    body
  else
    repeated least most body

end Expression

mutual

/-- What a pattern matches, and the mode behind it. -/
def Tree.meaning (mode : Mode) : Tree → Except Fault (Expression × Mode)
  | .nothing _ => .ok (.nothing, mode)
  | .flags _ settings => .ok (.nothing, mode.apply settings)
  | .atom part => do
      return (← part.meaning mode, mode)
  | .set members => do
      return (.one (← members.selection mode).set, mode)
  | .repetition _ least most body => do
      let (body, mode) ← body.meaning mode
      return (body.times least most, mode)
  | .group _ captures settings body => do
      let (body, _) ← body.meaning (mode.apply settings)
      return (if captures then .captured body else body, mode)
  | .sequence _ parts => Tree.meaningInOrder mode parts
  | .alternation _ branches => Tree.meaningOfAny mode branches

def Tree.meaningInOrder (mode : Mode) : List Tree → Except Fault (Expression × Mode)
  | [] => .ok (.nothing, mode)
  | part :: parts => do
      let (first, mode) ← part.meaning mode
      let (others, mode) ← Tree.meaningInOrder mode parts
      return (first.followedBy others, mode)

/-- What any of some patterns matches; there is at least one. -/
def Tree.meaningOfAny (mode : Mode) : List Tree → Except Fault (Expression × Mode)
  | [] => .ok (.one .nothing, mode)
  | [branch] => branch.meaning mode
  | branch :: branches => do
      let (first, mode) ← branch.meaning mode
      let (others, mode) ← Tree.meaningOfAny mode branches
      return (.either first others, mode)

end

end Pattern
end GifBitmap

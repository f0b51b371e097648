import GifBitmap.Pattern.Atom

/-!
# Sets between brackets

Between brackets stand characters, ranges, named sets and further brackets.  Two signs
in a row set an operation between what stands before them and what stands behind; of
several operations each takes all that came before it.
-/

namespace GifBitmap
namespace Pattern

/-- The sets of ASCII characters that a name between colons stands for. -/
inductive AsciiClass
  | alnum
  | alpha
  | ascii
  | blank
  | cntrl
  | digit
  | graph
  | lower
  | print
  | punct
  | space
  | upper
  | word
  | xdigit
  deriving Repr, DecidableEq

namespace AsciiClass

def ofName? : String → Option AsciiClass
  | "alnum" => some alnum
  | "alpha" => some alpha
  | "ascii" => some ascii
  | "blank" => some blank
  | "cntrl" => some cntrl
  | "digit" => some digit
  | "graph" => some graph
  | "lower" => some lower
  | "print" => some print
  | "punct" => some punct
  | "space" => some space
  | "upper" => some upper
  | "word" => some word
  | "xdigit" => some xdigit
  | _ => none

end AsciiClass

inductive SetOperation
  | intersection
  | difference
  | symmetricDifference
  deriving Repr, DecidableEq

/-- What stands between brackets. -/
inductive Members
  | nothing (span : Span)
  | literal (literal : Literal)
  | range (span : Span) (first last : Literal)
  | named (span : Span) (name : AsciiClass) (negated : Bool)
  | shorthand (span : Span) (shorthand : Shorthand) (negated : Bool)
  | property (span : Span) (name : String) (negated : Bool)
  | bracketed (span : Span) (negated : Bool) (members : Members)
  | several (span : Span) (items : List Members)
  | combined (span : Span) (operation : SetOperation) (left right : Members)
  deriving Repr

namespace Members

def span : Members → Span
  | .literal written => written.span
  | nothing span | range span _ _ | named span _ _ | shorthand span _ _ | property span _ _
  | bracketed span _ _ | several span _ | combined span _ _ _ => span

end Members

/-- Members that are being gathered, the latest first. -/
structure Gathered where
  span : Span
  items : List Members
  deriving Repr

namespace Gathered

def none (position : Position) : Gathered :=
  ⟨.ofPosition position, []⟩

def push (gathered : Gathered) (item : Members) : Gathered :=
  let start := if gathered.items.isEmpty then item.span.start else gathered.span.start
  ⟨⟨start, item.span.stop⟩, item :: gathered.items⟩

/-- The members together. -/
def members (gathered : Gathered) : Members :=
  match gathered.items with
  | [] => .nothing gathered.span
  | [item] => item
  | items => .several gathered.span items.reverse

end Gathered

/-- The beginning of a bracket. -/
structure Opening where
  /-- From the bracket to the first member that needs no care for being first. -/
  span : Span
  negated : Bool
  deriving Repr, DecidableEq

/-- A member that is a character without meaning of its own, the next one. -/
def plain (character : Char) (cursor : Cursor) : Members :=
  .literal ⟨cursor.ahead, character, false⟩

/-- Gathers the minus signs with which a bracket begins. -/
def gatherDashes (loose : Bool) (gathered : Gathered) (cursor : Cursor) : Gathered × Cursor :=
  match _h : cursor.rest with
  | '-' :: _ => gatherDashes loose (gathered.push (plain '-' cursor)) (cursor.step loose)
  | _ => (gathered, cursor)
termination_by cursor.rest.length
decreasing_by
  have := Cursor.length_step_le loose cursor
  rw [_h] at this ⊢
  simp only [List.length_cons] at this ⊢
  omega

/-- Reads the beginning of a bracket.  A minus sign in front stands for itself, and so
does a closing bracket that comes first of all. -/
def readOpening (loose : Bool) (cursor : Cursor) :
    Except Fault ((Opening × Gathered) × Cursor) := do
  let start := cursor.position
  let inside := cursor.step loose
  if inside.isAtEnd then
    fault .setUnclosed (inside.since start)
  else
    let negated := inside.next? = some '^'
    let first := if negated then inside.step loose else inside
    if first.isAtEnd then
      fault .setUnclosed (first.since start)
    else
      let (dashes, behind) := gatherDashes loose (.none first.position) first
      if behind.isAtEnd then
        fault .setUnclosed (.ofPosition start)
      else if dashes.items.isEmpty && behind.next? = some ']' then
        let further := behind.step loose
        if further.isAtEnd then
          fault .setUnclosed (further.since start)
        else
          return ((⟨further.since start, negated⟩, dashes.push (plain ']' behind)), further)
      else
        return ((⟨behind.since start, negated⟩, dashes), behind)

/-- Reads the name of a set between colons, from its bracket on, if there is one. -/
def readNamed? (cursor : Cursor) : Option (Members × Cursor) := do
  let colon ← cursor.past? ['[', ':']
  let negated := colon.next? = some '^'
  let first := if negated then colon.advance else colon
  let (name, behind) := first.collect false (· ≠ ':')
  let further ← behind.past? [':', ']']
  let kind ← AsciiClass.ofName? (String.ofList name)
  return (.named (further.since cursor.position) kind negated, further)

/-- Reads one end of a range, or what is no range. -/
def readEnd (loose : Bool) (character : Char) (cursor : Cursor) :
    Except Fault (Atom × Cursor) :=
  if character = '\\' then
    readEscape loose cursor
  else
    .ok (.literal ⟨cursor.ahead, character, false⟩, cursor.advance)

namespace Atom

/-- An atom as a member of a set. -/
def member : Atom → Except Fault Members
  | .literal written => .ok (.literal written)
  | .shorthand span kind negated => .ok (.shorthand span kind negated)
  | .property span name negated => .ok (.property span name negated)
  | atom => fault .notInSet atom.span

/-- An atom as the end of a range. -/
def rangeEnd : Atom → Except Fault Literal
  | .literal written => .ok written
  | atom => fault .rangeEnd atom.span

end Atom

def readMember (loose : Bool) (opening : Opening) (character : Char) (cursor : Cursor) :
    Except Fault (Members × Cursor) := do
  let (first, behind) ← readEnd loose character cursor
  let behind := behind.skip loose
  if behind.isAtEnd then
    fault .setUnclosed opening.span
  else
    let next := behind.peek? loose
    if behind.next? ≠ some '-' || next = some ']' || next = some '-' then
      return (← first.member, behind)
    else
      let second := behind.step loose
      match second.next? with
      | none => fault .setUnclosed opening.span
      | some character =>
          let (last, further) ← readEnd loose character second
          let span : Span := ⟨first.span.start, last.span.stop⟩
          let low ← first.rangeEnd
          let high ← last.rangeEnd
          if low.character ≤ high.character then
            return (.range span low high, further)
          else
            fault .rangeReversed span

namespace SetOperation

/-- The operation that two signs in a row stand for. -/
def ofSigns? (first : Char) (second : Option Char) : Option SetOperation :=
  match first, second with
  | '&', some '&' => some intersection
  | '-', some '-' => some difference
  | '~', some '~' => some symmetricDifference
  | _, _ => none

end SetOperation

/-- The members so far, after an operation that waits for them. -/
def settle (pending : Option (SetOperation × Members)) (members : Members) : Members :=
  match pending with
  | none => members
  | some (operation, left) =>
      .combined ⟨left.span.start, members.span.stop⟩ operation left members

/-- Reads the members of a bracket and its end.  Every round takes a character, so as
many rounds are enough as characters are left. -/
def readMembers (loose : Bool) :
    Nat →
    Opening →
    Option (SetOperation × Members) →
    Gathered →
    Cursor →
    Except Fault (Members × Cursor)
  | 0, opening, _, _, _ => fault .setUnclosed opening.span
  | rounds + 1, opening, pending, gathered, cursor =>
      let cursor := cursor.skip loose
      match cursor.next? with
      | none => fault .setUnclosed opening.span
      | some '[' =>
          match readNamed? cursor with
          | some (item, further) =>
              readMembers loose rounds opening pending (gathered.push item) further
          | none => do
              let ((inner, first), inside) ← readOpening loose cursor
              let (item, further) ← readMembers loose rounds inner none first inside
              readMembers loose rounds opening pending (gathered.push item) further
      | some ']' =>
          let further := cursor.advance
          let members := settle pending gathered.members
          .ok (.bracketed (further.since opening.span.start) opening.negated members, further)
      | some character =>
          match SetOperation.ofSigns? character cursor.second? with
          | some operation =>
              let further := cursor.advance.advance
              let left := settle pending gathered.members
              readMembers loose rounds opening (some (operation, left))
                (.none further.position) further
          | none => do
              let (item, further) ← readMember loose opening character cursor
              readMembers loose rounds opening pending (gathered.push item) further

namespace Members

/-- Reads a set between brackets, from its bracket on. -/
def read (loose : Bool) (cursor : Cursor) : Except Fault (Members × Cursor) := do
  let ((opening, first), inside) ← readOpening loose cursor
  readMembers loose cursor.rest.length opening none first inside

end Members
end Pattern
end GifBitmap

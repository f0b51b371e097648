import GifBitmap.Text.Letter
import GifBitmap.Pattern.Members

/-!
# Written patterns

A pattern is read into a tree.  Branches stand between bars, a branch is a sequence of
parts, and a part can be repeated.  Parentheses make a part of a whole pattern; they can
set flags for it, or for what follows them in the parentheses around.

The one flag that matters for reading is that of loose writing.
-/

namespace GifBitmap
namespace Pattern

/-- The flags that change how a part of a pattern is read or what it means. -/
inductive Flag
  | ignoreCase
  | multiLine
  | dotMatchesAll
  | swapGreed
  | unicode
  | carriageReturn
  | loose
  deriving Repr, DecidableEq

namespace Flag

/-- The flag that a letter stands for. -/
def ofLetter? : Char → Option Flag
  | 'i' => some ignoreCase
  | 'm' => some multiLine
  | 's' => some dotMatchesAll
  | 'U' => some swapGreed
  | 'u' => some unicode
  | 'R' => some carriageReturn
  | 'x' => some loose
  | _ => none

end Flag

/-- The flags that one place sets or clears. -/
abbrev Flags := List (Flag × Bool)

namespace Flags

/-- What becomes of a flag, given what it was. -/
def state (flags : Flags) (flag : Flag) (before : Bool) : Bool :=
  (flags.lookup flag).getD before

end Flags

/-- A written pattern. -/
inductive Tree
  | nothing (span : Span)
  | flags (span : Span) (flags : Flags)
  | atom (atom : Atom)
  /-- A set between brackets. -/
  | set (members : Members)
  | repetition (span : Span) (least : Nat) (most : Option Nat) (body : Tree)
  | group (span : Span) (captures : Bool) (flags : Flags) (body : Tree)
  | alternation (span : Span) (branches : List Tree)
  | sequence (span : Span) (parts : List Tree)
  deriving Repr

namespace Tree

def span : Tree → Span
  | .atom part => part.span
  | .set members => members.span
  | nothing span | flags span _ | repetition span _ _ _ | group span _ _ _
  | alternation span _ | sequence span _ => span

/-- Whether a part can be repeated. -/
def isRepeatable : Tree → Bool
  | nothing _ | flags _ _ => false
  | _ => true

end Tree

/-- The letters and minus signs of a group of flags; a minus sign is no flag. -/
abbrev FlagItems := List (Option Flag × Span)

namespace FlagItems

/-- What the items set and clear: a minus sign clears all that come after it. -/
def settings (items : FlagItems) : Flags :=
  let raised := items.takeWhile fun item => item.1.isSome
  let lowered := items.dropWhile fun item => item.1.isSome
  raised.filterMap (fun item => item.1.map (·, true)) ++
    lowered.filterMap (fun item => item.1.map (·, false))

end FlagItems

def readFlags (items : FlagItems) (cursor : Cursor) : Except Fault (FlagItems × Cursor) :=
  match _h : cursor.rest with
  | [] => fault .flagUnfinished cursor.here
  | character :: _ =>
      if character = ':' || character = ')' then
        match items.getLast? with
        | some (none, minus) => fault .flagMinusDangling minus
        | _ => .ok (items, cursor)
      else
        let item := if character = '-' then some none else (Flag.ofLetter? character).map some
        match item with
        | none => fault .flagUnknown cursor.ahead
        | some item =>
            match items.lookup item with
            | some earlier =>
                let reason := if item.isNone then Reason.flagMinusRepeated else .flagRepeated
                .error ⟨reason, cursor.ahead, some earlier⟩
            | none => readFlags (items ++ [(item, cursor.ahead)]) cursor.advance
termination_by cursor.rest.length
decreasing_by
  have := Cursor.length_advance cursor
  rw [_h] at this ⊢
  simp only [List.length_cons] at this ⊢
  omega

/-- The names of groups, and where each stands. -/
abbrev Names := List (String × Span)

def beginsName (character : Char) : Bool :=
  character = '_' || Text.isLetter character

def continuesName (character : Char) : Bool :=
  Text.isLetter character || Text.isNumeral character || character ∈ ['_', '.', '[', ']']

/-- Reads the name of a group and the angle behind it. -/
def readName (names : Names) (cursor : Cursor) : Except Fault (Names × Cursor) :=
  match cursor.next? with
  | none => fault .nameUnfinished cursor.here
  | some character =>
      if character = '>' then
        fault .nameEmpty cursor.here
      else if !beginsName character then
        fault .nameCharacter cursor.ahead
      else
        let (name, behind) := cursor.collect false continuesName
        let span := behind.since cursor.position
        match behind.next? with
        | none => fault .nameUnfinished behind.here
        | some closing =>
            if closing ≠ '>' then
              fault .nameCharacter behind.ahead
            else
              match names.lookup (String.ofList name) with
              | some earlier => .error ⟨.nameRepeated, span, some earlier⟩
              | none => .ok (names ++ [(String.ofList name, span)], behind.advance)

/-- What a parenthesis begins. -/
inductive Head
  /-- Flags for what follows. -/
  | flags (span : Span) (flags : Flags)
  /-- A group, known by its parenthesis. -/
  | group (parenthesis : Span) (captures : Bool) (flags : Flags)
  deriving Repr, DecidableEq

/-- The signs behind a parenthesis that look ahead or behind. -/
def lookarounds : List (List Char) :=
  [['?', '='], ['?', '!'], ['?', '<', '='], ['?', '<', '!']]

/-- Reads what a parenthesis begins, up to what stands in the group. -/
def readHead (loose : Bool) (names : Names) (cursor : Cursor) :
    Except Fault ((Head × Names) × Cursor) := do
  let parenthesis := cursor.ahead
  let inside := cursor.step loose
  match lookarounds.findSome? inside.past? with
  | some behind => fault .lookaround (behind.since cursor.position)
  | none =>
      match (inside.past? ['?', 'P', '<']).or (inside.past? ['?', '<']) with
      | some name =>
          let (names, further) ← readName names name
          return ((.group parenthesis true [], names), further)
      | none =>
          match inside.past? ['?'] with
          | none => return ((.group parenthesis true [], names), inside)
          | some first =>
              if first.isAtEnd then
                fault .groupUnclosed parenthesis
              else
                let (items, behind) ← readFlags [] first
                let further := behind.advance
                if behind.next? = some ':' then
                  return ((.group parenthesis false items.settings, names), further)
                else if items.isEmpty then
                  fault .nothingToRepeat inside.here
                else
                  let span := further.since cursor.position
                  return ((.flags span items.settings, names), further)

def greatestCount : Nat :=
  UInt32.size - 1

/-- Reads a decimal number with blanks around it.  What is wrong with it is told only
when it is asked for. -/
def readDecimal (loose : Bool) (cursor : Cursor) : Except Fault Nat × Cursor :=
  let first := cursor.skipBlanks
  let (digits, behind) := first.collect loose Char.isDigit
  let span := behind.since first.position
  let number := digits.foldl (fun number digit => 10 * number + (digit.toNat - 0x30)) 0
  let result :=
    if digits.isEmpty then
      fault .countEmpty span
    else if greatestCount < number then
      fault .decimalTooLarge span
    else
      .ok number
  (result, behind.skipBlanks)

/-- The least and the greatest count of a repetition; there may be no greatest. -/
abbrev Counts := Nat × Option Nat

/-- Reads counts up to the brace that ends them, from the opening brace on. -/
def readCounts (loose : Bool) (cursor : Cursor) : Except Fault (Counts × Cursor) := do
  let unclosed (behind : Cursor) : Except Fault (Counts × Cursor) :=
    fault .countUnclosed (behind.since cursor.position)
  let first := cursor.step loose
  if first.isAtEnd then
    unclosed first
  else
    let (least, behind) := readDecimal loose first
    if behind.isAtEnd then
      unclosed behind
    else if behind.next? ≠ some ',' then
      let count ← least
      return ((count, some count), behind)
    else
      let second := behind.step loose
      if second.isAtEnd then
        unclosed second
      else if second.next? = some '}' then
        return ((← least, none), second)
      else
        let least ← least
        let (most, further) := readDecimal loose second
        return ((least, some (← most)), further)

/-- Reads counts between braces and the sign that makes them reluctant. -/
def readBraces (loose : Bool) (cursor : Cursor) : Except Fault (Counts × Cursor) := do
  let ((least, most), behind) ← readCounts loose cursor
  if behind.next? ≠ some '}' then
    fault .countUnclosed (behind.since cursor.position)
  else
    let closed := behind.step loose
    let further := if closed.next? = some '?' then closed.advance else closed
    if most.any (· < least) then
      fault .countReversed (further.since cursor.position)
    else
      return ((least, most), further)

/-- The counts that a single sign stands for. -/
def countsOf? : Char → Option Counts
  | '?' => some (0, some 1)
  | '*' => some (0, none)
  | '+' => some (1, none)
  | _ => none

/-- Reads what says how often the part before it is repeated, if that comes next. -/
def readRepetition? (loose : Bool) (character : Char) (cursor : Cursor) :
    Option (Except Fault (Counts × Cursor)) :=
  if character = '{' then
    some (readBraces loose cursor)
  else
    (countsOf? character).map fun counts =>
      let behind := cursor.advance
      .ok (counts, if behind.next? = some '?' then behind.advance else behind)

/-- The branches that are being read, the latest parts and branches first. -/
structure Branches where
  start : Position
  finished : List Tree
  branch : Position
  parts : List Tree
  deriving Repr

namespace Branches

/-- Nothing yet. -/
def none (position : Position) : Branches :=
  ⟨position, [], position, []⟩

def push (branches : Branches) (part : Tree) : Branches :=
  { branches with parts := part :: branches.parts }

def current (branches : Branches) (stop : Position) : Tree :=
  match branches.parts with
  | [] => .nothing ⟨branches.branch, stop⟩
  | [part] => part
  | parts => .sequence ⟨branches.branch, stop⟩ parts.reverse

/-- The branches with a bar behind them, which stands at `stop`. -/
def bar (branches : Branches) (stop next : Position) : Branches :=
  ⟨branches.start, branches.current stop :: branches.finished, next, []⟩

/-- The branches together. -/
def tree (branches : Branches) (stop : Position) : Tree :=
  match branches.finished with
  | [] => branches.current stop
  | finished => .alternation ⟨branches.start, stop⟩ (finished.reverse ++ [branches.current stop])

/-- The branches with their last part repeated. -/
def repeated (branches : Branches) (counts : Counts) (stop : Position) : Option Branches :=
  match branches.parts with
  | [] => Option.none
  | part :: parts =>
      if part.isRepeatable then
        let body := .repetition ⟨part.span.start, stop⟩ counts.1 counts.2 part
        some { branches with parts := body :: parts }
      else
        Option.none

end Branches

/-- Reads branches up to the parenthesis that closes them, or to the end where none is
open.  `parenthesis` is the one that is open.  Every round but the last takes a
character. -/
def readBranches :
    Nat →
    Bool →
    Option Span →
    Names →
    Branches →
    Cursor →
    Except Fault ((Tree × Names) × Cursor)
  | 0, _, _, names, branches, cursor => .ok ((branches.tree cursor.position, names), cursor)
  | rounds + 1, loose, parenthesis, names, branches, cursor => do
      let cursor := cursor.skip loose
      match cursor.next? with
      | none =>
          match parenthesis with
          | some opened => fault .groupUnclosed opened
          | none => return ((branches.tree cursor.position, names), cursor)
      | some ')' =>
          if parenthesis.isSome then
            return ((branches.tree cursor.position, names), cursor)
          else
            fault .groupUnopened cursor.ahead
      | some '|' =>
          let further := cursor.advance
          let branches := branches.bar cursor.position further.position
          readBranches rounds loose parenthesis names branches further
      | some '(' =>
          let ((head, names), inside) ← readHead loose names cursor
          match head with
          | .flags span flags =>
              let branches := branches.push (.flags span flags)
              let loose := flags.state .loose loose
              readBranches rounds loose parenthesis names branches inside
          | .group opened captures flags =>
              let ((body, names), behind) ←
                readBranches rounds (flags.state .loose loose) (some opened) names
                  (.none inside.position) inside
              let further := behind.advance
              let branches :=
                branches.push (.group (further.since opened.start) captures flags body)
              readBranches rounds loose parenthesis names branches further
      | some '[' =>
          let (members, further) ← Members.read loose cursor
          readBranches rounds loose parenthesis names (branches.push (.set members)) further
      | some character =>
          match readRepetition? loose character cursor with
          | some repetition =>
              if (branches.repeated (0, none) cursor.position).isNone then
                fault .nothingToRepeat cursor.here
              else
                let (counts, further) ← repetition
                match branches.repeated counts further.position with
                | some branches => readBranches rounds loose parenthesis names branches further
                | none => fault .nothingToRepeat cursor.here
          | none =>
              let (atom, further) ← Atom.read loose character cursor
              readBranches rounds loose parenthesis names (branches.push (.atom atom)) further

namespace Tree

/-- Reads a written pattern. -/
def read (text : String) : Except Fault Tree := do
  let cursor := Cursor.ofText text
  let ((tree, _), _) ←
    readBranches (cursor.rest.length + 1) false none [] (.none cursor.position) cursor
  return tree

end Tree
end Pattern
end GifBitmap

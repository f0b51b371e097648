import GifBitmap.Pattern.Cursor

/-!
# Characters, sets and positions in a written pattern

An atom is a part that is written without brackets and parentheses: a character that
stands for itself, the dot, an anchor, a set that a letter behind a backslash names, or
a property of characters.  It remembers its span, so that a fault that shows only when
the flags are known can still be placed.

Everything that begins with a backslash is read here.  Behind a backslash every ASCII
character that is no letter and no digit stands for itself, save the two angles.
-/

namespace GifBitmap
namespace Pattern

structure Literal where
  span : Span
  character : Char
  /-- Whether it is written as a byte, in two hexadecimal digits. -/
  asByte : Bool
  deriving Repr, DecidableEq

/-- The sets that a single letter behind a backslash names. -/
inductive Shorthand
  | digit
  | space
  | word
  deriving Repr, DecidableEq

/-- Where a position may stand beside words. -/
inductive WordEdge
  /-- Between a word and something else. -/
  | boundary
  /-- Inside a word, or away from all words. -/
  | noBoundary
  /-- Before a word. -/
  | start
  /-- Behind a word. -/
  | stop
  /-- Not behind a word's character. -/
  | startHalf
  /-- Not before a word's character. -/
  | stopHalf
  deriving Repr, DecidableEq

/-- The conditions on a position that a pattern can state. -/
inductive Anchor
  | lineStart
  | lineEnd
  | textStart
  | textEnd
  | word (edge : WordEdge)
  deriving Repr, DecidableEq

/-- The parts that are written without brackets and parentheses. -/
inductive Atom
  | literal (literal : Literal)
  | dot (span : Span)
  | anchor (span : Span) (anchor : Anchor)
  | shorthand (span : Span) (shorthand : Shorthand) (negated : Bool)
  | property (span : Span) (name : String) (negated : Bool)
  deriving Repr, DecidableEq

namespace Atom

def span : Atom → Span
  | .literal written => written.span
  | dot span | anchor span _ | shorthand span _ _ | property span _ _ => span

end Atom

def hexValue? (character : Char) : Option Nat :=
  if character.isDigit then
    some (character.toNat - 0x30)
  else if 'a' ≤ character ∧ character ≤ 'f' then
    some (character.toNat - 0x57)
  else if 'A' ≤ character ∧ character ≤ 'F' then
    some (character.toNat - 0x37)
  else
    none

def hexNumber (digits : List Char) : Nat :=
  digits.foldl (fun number digit => 16 * number + (hexValue? digit).getD 0) 0

def characterOf? (code : Nat) : Option Char :=
  if code.isValidChar then some (Char.ofNat code) else none

def readHexDigits (loose : Bool) : Nat → Cursor → Except Fault (List Char × Cursor)
  | 0, cursor => .ok ([], cursor)
  | count + 1, cursor =>
      match cursor.next? with
      | none => fault .escapeUnfinished cursor.here
      | some digit =>
          if (hexValue? digit).isSome then do
            let (digits, further) ← readHexDigits loose count (cursor.step loose)
            return (digit :: digits, further)
          else
            fault .hexDigit cursor.ahead

/-- Reads hexadecimal digits between braces, from the opening brace on. -/
def readHexBraces (loose : Bool) (cursor : Cursor) : Except Fault (Char × Cursor) := do
  let (digits, behind) := (cursor.step loose).collect loose fun c => (hexValue? c).isSome
  match behind.next? with
  | none => fault .escapeUnfinished (behind.since cursor.position)
  | some closing =>
      if closing ≠ '}' then
        fault .hexDigit behind.ahead
      else
        let further := behind.step loose
        if digits.isEmpty then
          fault .hexEmpty (further.since cursor.position)
        else
          match characterOf? (hexNumber digits) with
          | some character => return (character, further)
          | none => fault .hexNoCharacter (behind.since cursor.advance.position)

/-- Reads the code point of a character, from the letter behind the backslash on.
`count` is how many digits there are without braces. -/
def readHex (loose : Bool) (start : Position) (count : Nat) (cursor : Cursor) :
    Except Fault (Atom × Cursor) := do
  let first := cursor.step loose
  match first.next? with
  | none => fault .escapeUnfinished first.here
  | some character =>
      if character = '{' then
        let (character, further) ← readHexBraces loose first
        return (.literal ⟨further.since start, character, false⟩, further)
      else
        let (digits, further) ← readHexDigits loose count first
        match characterOf? (hexNumber digits) with
        | some character => return (.literal ⟨further.since start, character, count = 2⟩, further)
        | none => fault .hexNoCharacter (further.since first.position)

/-- Reads a property of characters, from the letter behind the backslash on. -/
def readProperty (loose : Bool) (start : Position) (negated : Bool) (cursor : Cursor) :
    Except Fault (Atom × Cursor) := do
  let first := cursor.step loose
  match first.next? with
  | none => fault .escapeUnfinished first.here
  | some character =>
      if character = '{' then
        let (name, behind) := (first.step loose).collect loose (· ≠ '}')
        if behind.isAtEnd then
          fault .escapeUnfinished behind.here
        else
          let further := behind.advance
          return (.property (further.since start) (String.ofList name) negated, further)
      else if character = '\\' then
        fault .propertyLetter first.ahead
      else
        let further := first.step loose
        return (.property (further.since start) (String.ofList [character]) negated, further)

/-- Whether a character can be part of the name of a word's edge. -/
def isEdgeLetter (character : Char) : Bool :=
  character.isAlpha || character = '-'

/-- Reads the name of a word's edge between braces, from the opening brace on.  Where
the braces hold something else they are left for what may follow any anchor. -/
def readEdge
    (loose : Bool)
    (start : Position)
    (cursor : Cursor) :
    Except Fault (WordEdge × Cursor) := do
  let first := cursor.step loose
  match first.next? with
  | none => fault .edgeUnfinished (first.since start)
  | some character =>
      if !isEdgeLetter character then
        return (.boundary, cursor)
      else
        let (name, behind) := first.collect loose isEdgeLetter
        if behind.next? ≠ some '}' then
          fault .edgeUnclosed (behind.since cursor.position)
        else
          let further := behind.advance
          match String.ofList name with
          | "start" => return (.start, further)
          | "end" => return (.stop, further)
          | "start-half" => return (.startHalf, further)
          | "end-half" => return (.stopHalf, further)
          | _ => fault .edgeUnknown (behind.since first.position)

/-- The set that a letter behind a backslash names, and whether it is left out. -/
def shorthand? : Char → Option (Shorthand × Bool)
  | 'd' => some (.digit, false)
  | 'D' => some (.digit, true)
  | 's' => some (.space, false)
  | 'S' => some (.space, true)
  | 'w' => some (.word, false)
  | 'W' => some (.word, true)
  | _ => none

def control? : Char → Option Char
  | 'a' => some (Char.ofNat 0x07)
  | 'f' => some (Char.ofNat 0x0C)
  | 't' => some '\t'
  | 'n' => some '\n'
  | 'r' => some '\r'
  | 'v' => some (Char.ofNat 0x0B)
  | _ => none

def anchor? : Char → Option Anchor
  | 'A' => some .textStart
  | 'z' => some .textEnd
  | 'b' => some (.word .boundary)
  | 'B' => some (.word .noBoundary)
  | '<' => some (.word .start)
  | '>' => some (.word .stop)
  | _ => none

/-- How many digits a code point has without braces, by the letter behind the
backslash. -/
def hexCount? : Char → Option Nat
  | 'x' => some 2
  | 'u' => some 4
  | 'U' => some 8
  | _ => none

def standsForItself (character : Char) : Bool :=
  character.toNat < 0x80 && !character.isAlphanum && character ≠ '<' && character ≠ '>'

/-- Reads what begins with a backslash, from the backslash on. -/
def readEscape (loose : Bool) (cursor : Cursor) : Except Fault (Atom × Cursor) := do
  let start := cursor.position
  let letter := cursor.advance
  let further := letter.advance
  let span := further.since start
  match letter.next? with
  | none => fault .escapeUnfinished (letter.since start)
  | some character =>
      if character.isDigit then
        fault .backreference span
      else if let some count := hexCount? character then
        readHex loose start count letter
      else if character = 'p' || character = 'P' then
        readProperty loose start (character = 'P') letter
      else if let some (kind, negated) := shorthand? character then
        return (.shorthand span kind negated, further)
      else if standsForItself character then
        return (.literal ⟨span, character, false⟩, further)
      else if let some control := control? character then
        return (.literal ⟨span, control, false⟩, further)
      else if character = 'b' && further.next? = some '{' then
        let (edge, behind) ← readEdge loose start further
        return (.anchor (behind.since start) (.word edge), behind)
      else if let some anchor := anchor? character then
        return (.anchor span anchor, further)
      else
        fault .escapeUnknown span

namespace Atom

/-- Reads the atom that begins with the next character. -/
def read (loose : Bool) (character : Char) (cursor : Cursor) : Except Fault (Atom × Cursor) :=
  let further := cursor.advance
  match character with
  | '\\' => readEscape loose cursor
  | '.' => .ok (.dot cursor.ahead, further)
  | '^' => .ok (.anchor cursor.ahead .lineStart, further)
  | '$' => .ok (.anchor cursor.ahead .lineEnd, further)
  | _ => .ok (.literal ⟨cursor.ahead, character, false⟩, further)

end Atom
end Pattern
end GifBitmap

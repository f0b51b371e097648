import GifBitmap.Text.Blank
import GifBitmap.Pattern.Fault

/-!
# Reading a written pattern

A cursor is a position together with the characters behind it.  In loose writing,
blanks between the parts count for nothing, and neither does a comment from a number
sign to the end of its line.

A reading is a function of the cursor that gives a value and a later cursor, or a
fault.
-/

namespace GifBitmap
namespace Pattern

/-- A position, and the characters behind it. -/
structure Cursor where
  rest : List Char
  position : Position
  deriving Repr, DecidableEq

namespace Cursor

def ofText (text : String) : Cursor :=
  ⟨text.toList, .first⟩

def isAtEnd (cursor : Cursor) : Bool :=
  cursor.rest.isEmpty

def next? (cursor : Cursor) : Option Char :=
  cursor.rest.head?

/-- The character behind the next one. -/
def second? (cursor : Cursor) : Option Char :=
  cursor.rest.tail.head?

/-- The cursor behind the next character. -/
def advance (cursor : Cursor) : Cursor :=
  match cursor.rest with
  | [] => cursor
  | character :: rest => ⟨rest, cursor.position.past character⟩

def here (cursor : Cursor) : Span :=
  .ofPosition cursor.position

/-- The span of the next character. -/
def ahead (cursor : Cursor) : Span :=
  ⟨cursor.position, cursor.advance.position⟩

/-- The span from an earlier position to the cursor. -/
def since (cursor : Cursor) (start : Position) : Span :=
  ⟨start, cursor.position⟩

/-- The cursor behind the characters that have a property. -/
def dropWhile (property : Char → Bool) : List Char → Position → Cursor
  | [], position => ⟨[], position⟩
  | character :: rest, position =>
      if property character then
        dropWhile property rest (position.past character)
      else
        ⟨character :: rest, position⟩

def skipBlanks (cursor : Cursor) : Cursor :=
  dropWhile Text.isBlank cursor.rest cursor.position

/-- The cursor behind blanks and comments.  `inComment` tells whether a comment has
begun. -/
def skipFrom (inComment : Bool) : List Char → Position → Cursor
  | [], position => ⟨[], position⟩
  | character :: rest, position =>
      if inComment then
        skipFrom (character ≠ '\n') rest (position.past character)
      else if Text.isBlank character then
        skipFrom false rest (position.past character)
      else if character = '#' then
        skipFrom true rest (position.past character)
      else
        ⟨character :: rest, position⟩

/-- The cursor behind what counts for nothing. -/
def skip (loose : Bool) (cursor : Cursor) : Cursor :=
  if loose then skipFrom false cursor.rest cursor.position else cursor

/-- The cursor behind the next character and what counts for nothing after it. -/
def step (loose : Bool) (cursor : Cursor) : Cursor :=
  cursor.advance.skip loose

/-- The cursor behind some characters, if they come next. -/
def past? (cursor : Cursor) : List Char → Option Cursor
  | [] => some cursor
  | expected :: others =>
      if cursor.next? = some expected then cursor.advance.past? others else none

/-- The first character behind the next one that is no blank and does not begin a
comment; a comment is taken to end with its blanks. -/
def visible? (inComment : Bool) : List Char → Option Char
  | [] => none
  | character :: rest =>
      if Text.isBlank character then
        visible? inComment rest
      else if character = '#' && !inComment then
        visible? true rest
      else
        some character

/-- The character behind the next one, without blanks in loose writing.  If only blanks
are left it is the first of them. -/
def peek? (loose : Bool) (cursor : Cursor) : Option Char :=
  if loose then
    (visible? false cursor.rest.tail).or cursor.second?
  else
    cursor.second?

theorem length_advance (cursor : Cursor) :
    cursor.advance.rest.length = cursor.rest.length - 1 := by
  unfold advance
  split <;> simp_all

theorem length_skipFrom_le
    (inComment : Bool)
    (rest : List Char)
    (position : Position) :
    (skipFrom inComment rest position).rest.length ≤ rest.length := by
  induction rest generalizing inComment position with
  | nil => simp [skipFrom]
  | cons character rest ih =>
      unfold skipFrom
      split
      · exact Nat.le_succ_of_le (ih _ _)
      · split
        · exact Nat.le_succ_of_le (ih _ _)
        · split
          · exact Nat.le_succ_of_le (ih _ _)
          · simp

theorem length_skip_le
    (loose : Bool)
    (cursor : Cursor) :
    (cursor.skip loose).rest.length ≤ cursor.rest.length := by
  unfold skip
  split
  · exact length_skipFrom_le _ _ _
  · exact Nat.le_refl _

theorem length_step_le
    (loose : Bool)
    (cursor : Cursor) :
    (cursor.step loose).rest.length ≤ cursor.rest.length - 1 :=
  Nat.le_trans (length_skip_le _ _) (Nat.le_of_eq (length_advance _))

/-- The characters that have a property, as far as they go, with the cursor behind them
and behind what counts for nothing after each. -/
def collect (loose : Bool) (property : Char → Bool) (cursor : Cursor) : List Char × Cursor :=
  match _h : cursor.rest with
  | [] => ([], cursor)
  | character :: _ =>
      if property character then
        let (characters, further) := collect loose property (cursor.step loose)
        (character :: characters, further)
      else
        ([], cursor)
termination_by cursor.rest.length
decreasing_by
  have := length_step_le loose cursor
  rw [_h] at this ⊢
  simp only [List.length_cons] at this ⊢
  omega

end Cursor

/-- A reading that ends with a fault. -/
def fault {α : Type} (reason : Reason) (span : Span) : Except Fault α :=
  .error (.of reason span)

end Pattern
end GifBitmap

import GifBitmap.Powers
import GifBitmap.Pattern.Atom
import GifBitmap.Pattern.CharSet

/-!
# What a pattern matches

An expression says between which positions of a text it matches.  A set of positions is
kept as a number: its bit `n` tells whether the position behind `n` characters is in
the set.  `ends` sends the positions at which a match may begin to those at which it
can end, for all of them at once.

An expression occurs in a text if a match that may begin anywhere ends somewhere.

Main facts:
* `testBit_marks`: the bits of a marked list;
* `repeatedly_succ`: stopping at the first step that changes nothing makes no
  difference.
-/

namespace GifBitmap
namespace Pattern

inductive Landmark
  | textStart
  | textEnd
  /-- The start of a line; lines may also end in carriage returns. -/
  | lineStart (carriageReturn : Bool)
  /-- The end of a line; lines may also end in carriage returns. -/
  | lineEnd (carriageReturn : Bool)
  /-- The edge of a word.  The words of a `wide` edge are those of every script. -/
  | word (edge : WordEdge) (wide : Bool)
  deriving Repr, DecidableEq

/-- Whether a character belongs to words: a letter or digit of ASCII, or an underscore. -/
def isWordCharacter (character : Char) : Bool :=
  character.isAlphanum || character = '_'

namespace WordEdge

/-- Whether an edge is here, given whether words stand before and behind. -/
def holds : WordEdge → Bool → Bool → Bool
  | boundary, before, behind => before != behind
  | noBoundary, before, behind => before == behind
  | start, before, behind => !before && behind
  | stop, before, behind => before && !behind
  | startHalf, before, _ => !before
  | stopHalf, _, behind => !behind

end WordEdge

namespace Landmark

/-- Whether a landmark is between two characters; there is none before the first and
behind the last. -/
def holds (before behind : Option Char) : Landmark → Bool
  | textStart => before.isNone
  | textEnd => behind.isNone
  | lineStart false => before.isNone || before = some '\n'
  | lineStart true =>
      before.isNone || before = some '\n' || (before = some '\r' && behind ≠ some '\n')
  | lineEnd false => behind.isNone || behind = some '\n'
  | lineEnd true =>
      behind.isNone || behind = some '\r' || (behind = some '\n' && before ≠ some '\r')
  | word edge _ => edge.holds (before.any isWordCharacter) (behind.any isWordCharacter)

end Landmark

/-- What a pattern matches. -/
inductive Expression
  /-- The empty text. -/
  | nothing
  /-- One character of a set. -/
  | one (set : CharSet)
  /-- The empty text at a landmark. -/
  | landmark (place : Landmark)
  /-- One after the other. -/
  | both (first second : Expression)
  /-- One or the other. -/
  | either (first second : Expression)
  /-- Again and again: at least `least` times, and at most `most` times if there is a
  most. -/
  | repeated (least : Nat) (most : Option Nat) (body : Expression)
  /-- The same, and remembered. -/
  | captured (body : Expression)
  deriving Repr, DecidableEq

/-- The set of the indices at which a list has a property. -/
def marks {α : Type} (property : α → Bool) : List α → Nat
  | [] => 0
  | item :: items => (property item).toNat + 2 * marks property items

/-- The characters before and behind each position of a text. -/
def gaps (before : Option Char) : List Char → List (Option Char × Option Char)
  | [] => [(before, none)]
  | character :: text => (before, some character) :: gaps (some character) text

/-- A step made up to `count` times.  It stops when a step changes nothing. -/
def repeatedly (step : Nat → Nat) : Nat → Nat → Nat
  | 0, positions => positions
  | count + 1, positions =>
      let further := step positions
      if further = positions then positions else repeatedly step count further

namespace Expression

/-- The positions at which a match can end if it begins at one of those given. -/
def ends (text : List Char) : Expression → Nat → Nat
  | nothing, starts => starts
  | one set, starts => (starts &&& marks set.contains text) <<< 1
  | .landmark place, starts =>
      starts &&& marks (fun gap => place.holds gap.1 gap.2) (gaps none text)
  | both first second, starts => second.ends text (first.ends text starts)
  | either first second, starts => first.ends text starts ||| second.ends text starts
  | captured body, starts => body.ends text starts
  | repeated least most body, starts =>
      let further := fun positions => positions ||| body.ends text positions
      let extra :=
        match most with
        | some most => most - least
        | none => text.length + 1
      repeatedly further extra (repeatedly (body.ends text) least starts)

/-- Whether a match begins and ends anywhere in a text. -/
def occursIn (expression : Expression) (text : List Char) : Bool :=
  expression.ends text (2 ^ (text.length + 1) - 1) ≠ 0

end Expression

theorem testBit_marks
    {α : Type}
    (property : α → Bool)
    (items : List α)
    (index : Nat) :
    (marks property items).testBit index = (items[index]?).any property := by
  induction items generalizing index with
  | nil => simp [marks]
  | cons item items ih =>
      cases index with
      | zero =>
          simp only [marks, Nat.testBit_zero, List.getElem?_cons_zero, Option.any_some]
          cases property item with
          | false => simp
          | true => simp
      | succ index =>
          have half : ((property item).toNat + 2 * marks property items) / 2 =
              marks property items := by
            cases property item with
            | false => simp
            | true =>
                simp only [Bool.toNat_true]
                omega
          rw [marks, Nat.testBit_succ, half, ih, List.getElem?_cons_succ]

theorem repeatedly_of_fixed
    {step : Nat → Nat}
    {positions : Nat}
    (h : step positions = positions)
    (count : Nat) :
    repeatedly step count positions = positions := by
  cases count with
  | zero => rfl
  | succ count => simp [repeatedly, h]

/-- Stopping early makes no difference: a step can be made first or last. -/
theorem repeatedly_succ
    (step : Nat → Nat)
    (count positions : Nat) :
    repeatedly step (count + 1) positions = repeatedly step count (step positions) := by
  rw [repeatedly]
  split
  · next h => rw [h, repeatedly_of_fixed h]
  · rfl

end Pattern
end GifBitmap

import GifBitmap.Pattern.Expression

/-!
# The room that a pattern takes

An expression is laid out as an automaton over bytes, once for either direction of
reading, and a pattern whose automaton is too large is refused.  A state takes a fixed
room, and so does every way out of a state that has several.

Counts are laid out one after the other, so the room grows with them.  A set that holds
characters beyond ASCII needs states for their further bytes; those are shared where
the automaton reads forward.
-/

namespace GifBitmap
namespace Pattern

/-- The direction in which an automaton reads. -/
inductive Direction
  | forward
  | backward
  deriving Repr, DecidableEq

def stateRoom : Nat :=
  32

/-- The room of one way out of a state that has several. -/
def branchRoom : Nat :=
  4

/-- The room of one range of bytes that leads out of a state. -/
def rangeRoom : Nat :=
  8

def roomLimit : Nat :=
  10 * 0x100000

namespace CharSet

/-- The least code points at which membership in a set may change. -/
def borders : CharSet → List Nat
  | nothing => []
  | range first last => [first.toNat, last.toNat + 1]
  | union left right | intersection left right | difference left right =>
      left.borders ++ right.borders
  | complement set => set.borders
  | anyCase set => set.borders

/-- Whether a set holds a character beyond ASCII.  It is enough to look where membership
may change. -/
def isWide (set : CharSet) : Bool :=
  (0x80 :: set.borders).any fun code =>
    0x80 ≤ code && code.isValidChar && set.contains (Char.ofNat code)

/-- The ASCII characters of a set in closed runs. -/
def asciiRuns (set : CharSet) : Nat :=
  (List.range 0x80).countP fun code =>
    set.contains (Char.ofNat code) && (code = 0 || !set.contains (Char.ofNat (code - 1)))

/-- The room of a set.  A single character is laid out byte after byte. -/
def room (direction : Direction) (set : CharSet) : Nat :=
  match set with
  | range first last =>
      if first = last then stateRoom * first.utf8Size else several set
  | _ => several set
where
  /-- The room of a set of several characters. -/
  several (set : CharSet) : Nat :=
    let runs := set.asciiRuns
    if !set.isWide then
      2 * stateRoom + rangeRoom * runs
    else
      match direction with
      | .forward => 9 * stateRoom + rangeRoom * (runs + 15)
      | .backward => (runs + 28) * stateRoom + branchRoom * (runs + 8)

end CharSet

namespace Expression

/-- Whether every match of an expression has a character. -/
def needsCharacter : Expression → Bool
  | nothing | landmark _ => false
  | one _ => true
  | both first second => first.needsCharacter || second.needsCharacter
  | either first second => first.needsCharacter && second.needsCharacter
  | captured body => body.needsCharacter
  | repeated least _ body => 0 < least && body.needsCharacter

/-- The set of an expression that matches one character. -/
def single? : Expression → Option CharSet
  | one set => some set
  | either first second => do return (← first.single?).add (← second.single?)
  | _ => none

/-- The room of a repetition, given the room of what is repeated and whether that needs
a character. -/
def repeatedRoom (least : Nat) (most : Option Nat) (needs : Bool) (room : Nat) : Nat :=
  let fork := stateRoom + 2 * branchRoom
  match most with
  | none =>
      if least = 0 then
        if needs then room + fork else room + 2 * fork + stateRoom
      else
        least * room + fork
  | some most =>
      if least = most then
        least * room
      else if least = 0 ∧ most = 1 then
        room + fork + stateRoom
      else
        max stateRoom (least * room) + stateRoom + (most - least) * (room + fork)

/-- The room of an expression. -/
def room (direction : Direction) : Expression → Nat
  | nothing | landmark _ => stateRoom
  | one set => set.room direction
  | both first second => first.room direction + second.room direction
  | either first second =>
      match (either first second).single? with
      | some set => set.room direction
      | none =>
          let fork :=
            match second with
            | either _ _ => branchRoom
            | _ => 2 * stateRoom + 2 * branchRoom
          first.room direction + second.room direction + fork
  | captured body =>
      match direction with
      | .forward => body.room direction + 2 * stateRoom
      | .backward => body.room direction
  | repeated least most body =>
      repeatedRoom least most body.needsCharacter (body.room direction)

/-- The room that searching takes apart from what is searched for. -/
def searchRoom : Direction → Nat
  | .forward => 6 * stateRoom + 2 * branchRoom + rangeRoom
  | .backward => 4 * stateRoom + 2 * branchRoom + rangeRoom

/-- Whether an expression can be laid out in one direction. -/
def fits (direction : Direction) (expression : Expression) : Bool :=
  expression.room direction + searchRoom direction ≤ roomLimit

def hasWideEdge : Expression → Bool
  | nothing | one _ => false
  | .landmark place =>
      match place with
      | .word _ wide => wide
      | _ => false
  | both first second | either first second => first.hasWideEdge || second.hasWideEdge
  | captured body | repeated _ _ body => body.hasWideEdge

end Expression
end Pattern
end GifBitmap

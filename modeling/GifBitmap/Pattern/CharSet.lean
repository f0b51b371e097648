/-!
# Sets of characters

A set is built from ranges by the operations on sets.  Closing a set under letter case
adds the other case of each ASCII letter in it.

Main facts: `contains` of every operation is that operation on `contains`.
-/

namespace GifBitmap
namespace Pattern

inductive CharSet
  | nothing
  | range (first last : Char)
  | union (left right : CharSet)
  | intersection (left right : CharSet)
  | difference (left right : CharSet)
  | complement (set : CharSet)
  | anyCase (set : CharSet)
  deriving Repr, DecidableEq

namespace CharSet

/-- A letter of ASCII in its other case; any other character as it is. -/
def otherCase (character : Char) : Char :=
  if character.isUpper then character.toLower else character.toUpper

def contains : CharSet → Char → Bool
  | nothing, _ => false
  | range first last, character => first ≤ character && character ≤ last
  | union left right, character => left.contains character || right.contains character
  | intersection left right, character => left.contains character && right.contains character
  | difference left right, character => left.contains character && !right.contains character
  | complement set, character => !set.contains character
  | anyCase set, character => set.contains character || set.contains (otherCase character)

def one (character : Char) : CharSet :=
  range character character

def all : CharSet :=
  complement nothing

/-- The union of two sets, without a trace of one that is empty. -/
def add (left right : CharSet) : CharSet :=
  match left, right with
  | nothing, set | set, nothing => set
  | left, right => union left right

def ofRanges (ranges : List (Char × Char)) : CharSet :=
  ranges.foldl (fun set bounds => set.add (range bounds.1 bounds.2)) nothing

def symmetricDifference (left right : CharSet) : CharSet :=
  difference (union left right) (intersection left right)

@[simp]
theorem contains_one
    (member character : Char) :
    (one member).contains character = (member = character) := by
  simp only [one, contains, Bool.and_eq_true, decide_eq_true_eq, eq_iff_iff]
  exact ⟨fun h => Char.le_antisymm h.1 h.2, fun h => h ▸ ⟨Char.le_refl _, Char.le_refl _⟩⟩

@[simp]
theorem contains_all (character : Char) : all.contains character = true :=
  rfl

@[simp]
theorem contains_add
    (left right : CharSet)
    (character : Char) :
    (left.add right).contains character =
      (left.contains character || right.contains character) := by
  unfold add
  split <;> simp [contains]

@[simp]
theorem contains_symmetricDifference
    (left right : CharSet)
    (character : Char) :
    (left.symmetricDifference right).contains character =
      (left.contains character ^^ right.contains character) := by
  simp only [symmetricDifference, contains]
  cases left.contains character <;> cases right.contains character <;> rfl

end CharSet
end Pattern
end GifBitmap

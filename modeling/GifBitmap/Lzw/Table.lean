import GifBitmap.Lzw.CodeSize

/-!
# The code table

Every entry stands for a phrase, a sequence of indices.  Rather than the whole
phrase an entry holds its last index and the code of the phrase before that index,
its parent; entries without a parent stand for a single index.  The first index of
each phrase is kept as well, because that is what the next entry ends with.

A parent is always an older entry, so the walk from a code over its parents ends.

Main facts:
* `phrase_of_literal`, `phrase_of_parent`: the phrase of an entry, by its parent;
* `next_push`, `next_reset`: how many codes are assigned afterwards.
-/

namespace GifBitmap
namespace Lzw

/-- One entry of the code table. -/
structure Entry where
  parent : Option Nat
  /-- The last index of the phrase. -/
  last : UInt8
  /-- The first index of the phrase. -/
  first : UInt8
  deriving Repr, DecidableEq

namespace Entry

/-- The entry of a code that stands for a single index. -/
def literal (index : UInt8) : Entry :=
  ⟨none, index, index⟩

/-- The entry that keeps a code from being assigned. -/
def reserved : Entry :=
  ⟨none, 0, 0⟩

end Entry

/-- The entries by code. -/
structure Table where
  entries : Array Entry
  deriving Repr, DecidableEq

namespace Table

/-- The table before any code was assigned. -/
def initial (size : CodeSize) : Table :=
  ⟨Array.ofFn fun code : Fin size.firstFree =>
    if code.val < size.clearCode then .literal (UInt8.ofNat code.val) else .reserved⟩

/-- The next code to assign. -/
def next (table : Table) : Nat :=
  table.entries.size

def isFull (table : Table) : Bool :=
  maxEntries ≤ table.entries.size

/-- The first index of the phrase of a code; zero if there is no such code. -/
def first (table : Table) (code : Nat) : UInt8 :=
  match table.entries[code]? with
  | some entry => entry.first
  | none => 0

/-- Assigns the next code to the phrase of `parent` followed by an index.  A full
table stays as it is. -/
def push (table : Table) (parent : Nat) (index : UInt8) : Table :=
  if table.isFull then
    table
  else
    ⟨table.entries.push ⟨some parent, index, table.first parent⟩⟩

/-- Forgets all codes that were assigned. -/
def reset (table : Table) (size : CodeSize) : Table :=
  ⟨table.entries.take size.firstFree⟩

/-- The phrase of a code with `tail` behind it, found by walking over the parents. -/
def phraseBefore (table : Table) (code : Nat) (tail : List UInt8) : List UInt8 :=
  match table.entries[code]? with
  | none => tail
  | some entry =>
      match entry.parent with
      | none => entry.last :: tail
      | some parent =>
          if parent < code then
            table.phraseBefore parent (entry.last :: tail)
          else
            entry.last :: tail
termination_by code

/-- The indices that a code stands for. -/
def phrase (table : Table) (code : Nat) : List UInt8 :=
  table.phraseBefore code []

@[simp]
theorem next_initial (size : CodeSize) : (initial size).next = size.firstFree := by
  simp [initial, next]

/-- A full table does not grow; any other grows by one entry. -/
theorem next_push (table : Table) (parent : Nat) (index : UInt8) :
    (table.push parent index).next =
      if table.isFull then table.next else table.next + 1 := by
  unfold push next
  split <;> simp

@[simp]
theorem next_reset (table : Table) (size : CodeSize) :
    (table.reset size).next = min size.firstFree table.next := by
  simp [reset, next]

/-- The phrase that is found stands in front of what was there before. -/
theorem phraseBefore_eq (table : Table) (code : Nat) (tail : List UInt8) :
    table.phraseBefore code tail = table.phrase code ++ tail := by
  unfold phrase
  induction code using Nat.strongRecOn generalizing tail with
  | ind code ih =>
      rw [phraseBefore]
      conv => rhs; rw [phraseBefore]
      split
      · simp
      · split
        · simp
        · split
          · rename_i hparent
            rw [ih _ hparent, ih _ hparent [_]]
            simp
          · simp

/-- An entry without a parent stands for its one index. -/
theorem phrase_of_literal
    {table : Table}
    {code : Nat}
    {entry : Entry}
    (hentry : table.entries[code]? = some entry)
    (hparent : entry.parent = none) :
    table.phrase code = [entry.last] := by
  rw [phrase, phraseBefore, hentry]
  simp [hparent]

/-- An entry with a parent stands for the parent's phrase followed by its own index. -/
theorem phrase_of_parent
    {table : Table}
    {code parent : Nat}
    {entry : Entry}
    (hentry : table.entries[code]? = some entry)
    (hparent : entry.parent = some parent)
    (holder : parent < code) :
    table.phrase code = table.phrase parent ++ [entry.last] := by
  rw [phrase, phraseBefore, hentry]
  simp only [hparent, if_pos holder]
  exact table.phraseBefore_eq parent [entry.last]

end Table
end Lzw
end GifBitmap

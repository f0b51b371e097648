import GifBitmap.Lzw.Expander

/-!
# Phrases of a growing code table

The phrase of a code depends on the entries up to that code only, because a parent is
always an older entry.  So an assignment leaves every phrase as it was, and a clear
code gives the first table back.

Main facts:
* `phrase_push_of_lt`, `phrase_push_next`: the phrases after an assignment;
* `reset_push`, `reset_initial`: what a clear code goes back to.
-/

namespace GifBitmap
namespace Lzw
namespace Table

/-- Tables that agree up to a code give it the same phrase. -/
theorem phraseBefore_congr
    {first second : Table}
    {code : Nat}
    (h : ∀ slot, slot ≤ code → first.entries[slot]? = second.entries[slot]?)
    (tail : List UInt8) :
    first.phraseBefore code tail = second.phraseBefore code tail := by
  induction code using Nat.strongRecOn generalizing tail with
  | ind code ih =>
      have hentry := h code (Nat.le_refl code)
      rw [phraseBefore, phraseBefore, hentry]
      cases second.entries[code]? with
      | none => rfl
      | some entry =>
          cases hparent : entry.parent with
          | none => simp [hparent]
          | some parent =>
              simp only [hparent]
              split
              · rename_i holder
                exact ih parent holder (fun slot hslot => h slot (by omega)) _
              · rfl

section Push

variable {table : Table} {parent : Nat} {index : UInt8}

theorem push_of_isFull
    (hfull : maxEntries ≤ table.next) :
    table.push parent index = table := by
  unfold push isFull
  exact if_pos (by simpa [next] using hfull)

theorem push_of_lt
    (hroom : table.next < maxEntries) :
    table.push parent index =
      ⟨table.entries.push ⟨some parent, index, table.first parent⟩⟩ := by
  unfold push isFull
  refine if_neg ?_
  simpa [next] using hroom

theorem next_push_of_lt
    (hroom : table.next < maxEntries) :
    (table.push parent index).next = table.next + 1 := by
  rw [push_of_lt hroom, next, Array.size_push]
  rfl

/-- A code that is assigned behind an assignment was so before, or is the one that was free. -/
theorem lt_next_of_push
    {code : Nat}
    (hcode : code < (table.push parent index).next) :
    code < table.next ∨ (table.next < maxEntries ∧ code = table.next) := by
  by_cases hroom : table.next < maxEntries
  · rw [next_push_of_lt hroom] at hcode
    omega
  · rw [push_of_isFull (Nat.le_of_not_lt hroom)] at hcode
    exact .inl hcode

theorem entries_push_of_lt
    {code : Nat}
    (hcode : code < table.next) :
    (table.push parent index).entries[code]? = table.entries[code]? := by
  by_cases hroom : table.next < maxEntries
  · rw [push_of_lt hroom]
    exact Array.getElem?_push_lt hcode |>.trans (Array.getElem?_eq_getElem hcode).symm
  · rw [push_of_isFull (Nat.le_of_not_lt hroom)]

theorem phrase_push_of_lt
    {code : Nat}
    (hcode : code < table.next) :
    (table.push parent index).phrase code = table.phrase code :=
  phraseBefore_congr
    (fun _ hslot => entries_push_of_lt (Nat.lt_of_le_of_lt hslot hcode)) []

theorem first_push_of_lt
    {code : Nat}
    (hcode : code < table.next) :
    (table.push parent index).first code = table.first code := by
  unfold first
  rw [entries_push_of_lt hcode]

/-- The code that was free is the one that is assigned. -/
theorem entries_push_next
    (hroom : table.next < maxEntries) :
    (table.push parent index).entries[table.next]? =
      some ⟨some parent, index, table.first parent⟩ := by
  rw [push_of_lt hroom, next]
  exact Array.getElem?_push_size

/-- The new phrase is that of the parent followed by the index. -/
theorem phrase_push_next
    (hroom : table.next < maxEntries)
    (hparent : parent < table.next) :
    (table.push parent index).phrase table.next = table.phrase parent ++ [index] := by
  rw [phrase_of_parent (entries_push_next hroom) rfl hparent, phrase_push_of_lt hparent]

theorem first_push_next
    (hroom : table.next < maxEntries) :
    (table.push parent index).first table.next = table.first parent := by
  unfold first
  rw [entries_push_next hroom]
  rfl

/-- An assignment does not change what a clear code goes back to. -/
theorem reset_push
    {size : CodeSize}
    (hfirst : size.firstFree ≤ table.next) :
    (table.push parent index).reset size = table.reset size := by
  by_cases hroom : table.next < maxEntries
  · rw [push_of_lt hroom]
    unfold reset
    congr 1
    apply Array.ext_getElem?
    intro slot
    rw [Array.take_eq_extract, Array.take_eq_extract, Array.getElem?_extract,
      Array.getElem?_extract]
    have hsize : size.firstFree ≤ table.entries.size := hfirst
    rw [Array.size_push]
    by_cases hslot : slot < size.firstFree
    · rw [if_pos (by omega), if_pos (by omega), Array.getElem?_push, if_neg (by omega)]
    · rw [if_neg (by omega), if_neg (by omega)]
  · rw [push_of_isFull (Nat.le_of_not_lt hroom)]

end Push

section Initial

variable {size : CodeSize}

theorem reset_initial : (initial size).reset size = initial size := by
  have hsize : (initial size).entries.size = size.firstFree := next_initial size
  unfold reset
  rw [Array.take_eq_extract, ← hsize, Array.extract_size]

/-- A table that a clear code takes back to the first one begins with its entries. -/
theorem entries_of_reset
    {table : Table}
    (hfirst : size.firstFree ≤ table.next)
    (hreset : table.reset size = initial size)
    {code : Nat}
    (hcode : code < size.firstFree) :
    table.entries[code]? = (initial size).entries[code]? := by
  have hsize : size.firstFree ≤ table.entries.size := hfirst
  rw [← hreset, reset, Array.take_eq_extract, Array.getElem?_extract, if_pos (by omega),
    Nat.zero_add]

theorem entries_initial_of_lt
    {code : Nat}
    (hcode : code < size.clearCode) :
    (initial size).entries[code]? = some (.literal (UInt8.ofNat code)) := by
  have hfree : code < size.firstFree := by
    unfold CodeSize.firstFree
    omega
  simp [initial, hfree, hcode]

theorem phrase_initial_of_lt
    {code : Nat}
    (hcode : code < size.clearCode) :
    (initial size).phrase code = [UInt8.ofNat code] :=
  phrase_of_literal (entries_initial_of_lt hcode) rfl

theorem first_initial_of_lt
    {code : Nat}
    (hcode : code < size.clearCode) :
    (initial size).first code = UInt8.ofNat code := by
  unfold first
  rw [entries_initial_of_lt hcode]
  rfl

end Initial

end Table
end Lzw
end GifBitmap

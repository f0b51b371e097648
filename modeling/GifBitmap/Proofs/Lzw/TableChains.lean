import GifBitmap.Proofs.Lzw.Phrases

/-!
# Chains of entries

From each entry of a code table a chain of parents leads to an entry of the first table, because
a parent is always an older entry.  `Table.Reachable` are the tables that come about when codes
are assigned to any phrases and forgotten again, and `Table.GrowsTo` relates a table to those
that further assignments lead to, up to a full one.

Growth leaves the chain of a code as it is, with all that follows from it: the entry, the phrase
and its first index.

Main facts:
* `Chained.push`, `Reachable.chained`: an assignment keeps the chains, and they are there in all
  tables that come about;
* `GrowsTo.entries_eq`, `GrowsTo.phrase_eq`: growth leaves the codes that were assigned;
* `exists_growsTo_full`: growth may go on up to a full table.
-/

namespace GifBitmap
namespace Lzw
namespace Table

/-- Whether all chains of a table end, and each entry keeps the first index of its phrase. -/
structure Chained (table : Table) (size : CodeSize) : Prop where
  firstFree_le : size.firstFree ≤ table.next
  next_le : table.next ≤ max maxEntries size.firstFree
  /-- A clear code gives the first table back. -/
  reset_eq : table.reset size = initial size
  parent_lt : ∀ {code parent : Nat} {entry : Entry},
    table.entries[code]? = some entry → entry.parent = some parent → parent < code
  /-- The first index that is kept with an entry is that of its phrase. -/
  head_eq : ∀ {code : Nat}, code < table.next →
    (table.phrase code).head? = some (table.first code)

/-- An entry of the first table has no parent, and its one index is the first one. -/
theorem entries_initial
    {size : CodeSize}
    {code : Nat}
    {entry : Entry}
    (hentry : (initial size).entries[code]? = some entry) :
    entry.parent = none ∧ entry.first = entry.last := by
  obtain ⟨hcode, rfl⟩ := Array.getElem?_eq_some_iff.mp hentry
  simp only [initial, Array.getElem_ofFn]
  split
  · exact ⟨rfl, rfl⟩
  · exact ⟨rfl, rfl⟩

theorem exists_entry
    {table : Table}
    {code : Nat}
    (hcode : code < table.next) :
    ∃ entry, table.entries[code]? = some entry :=
  ⟨_, Array.getElem?_eq_getElem hcode⟩

theorem lt_next_of_entry
    {table : Table}
    {code : Nat}
    {entry : Entry}
    (hentry : table.entries[code]? = some entry) :
    code < table.next :=
  (Array.getElem?_eq_some_iff.mp hentry).1

namespace Chained

variable {table : Table} {size : CodeSize} {parent : Nat}

theorem initial (size : CodeSize) : (initial size).Chained size where
  firstFree_le := Nat.le_of_eq (next_initial size).symm
  next_le := by
    rw [next_initial]
    exact Nat.le_max_right _ _
  reset_eq := reset_initial
  parent_lt := by
    intro code parent entry hentry hparent
    rw [(entries_initial hentry).1] at hparent
    exact absurd hparent.symm (Option.some_ne_none _)
  head_eq := by
    intro code hcode
    obtain ⟨entry, hentry⟩ := exists_entry hcode
    obtain ⟨hparent, hfirst⟩ := entries_initial hentry
    rw [phrase_of_literal hentry hparent, first, hentry, ← hfirst]
    rfl

/-- An assignment adds an entry in front of the chain of its parent. -/
theorem push
    (h : table.Chained size)
    (hparent : parent < table.next)
    (index : UInt8) :
    (table.push parent index).Chained size := by
  by_cases hroom : table.next < maxEntries
  · have hnext : (table.push parent index).next = table.next + 1 := next_push_of_lt hroom
    have hfree := h.firstFree_le
    constructor
    · omega
    · rw [hnext]
      exact Nat.le_trans hroom (Nat.le_max_left _ _)
    · rw [reset_push hfree, h.reset_eq]
    · intro code found entry hentry hfound
      rcases lt_next_of_push (lt_next_of_entry hentry) with hold | ⟨-, rfl⟩
      · rw [entries_push_of_lt hold] at hentry
        exact h.parent_lt hentry hfound
      · rw [entries_push_next hroom, Option.some.injEq] at hentry
        rw [← hentry, Option.some.injEq] at hfound
        exact hfound ▸ hparent
    · intro code hcode
      rcases lt_next_of_push hcode with hold | ⟨-, rfl⟩
      · rw [phrase_push_of_lt hold, first_push_of_lt hold]
        exact h.head_eq hold
      · rw [phrase_push_next hroom hparent, first_push_next hroom, List.head?_append,
          h.head_eq hparent]
        rfl
  · rw [push_of_isFull (Nat.le_of_not_lt hroom)]
    exact h

theorem reset (h : table.Chained size) : (table.reset size).Chained size := by
  rw [h.reset_eq]
  exact .initial size

end Chained

/-- The tables to which assignments and clear codes lead.  Any code that is assigned may be a
parent, and any index may follow its phrase. -/
inductive Reachable (size : CodeSize) : Table → Prop
  | initial : Reachable size (.initial size)
  | push
      {table : Table}
      (h : Reachable size table)
      {parent : Nat}
      (hparent : parent < table.next)
      (index : UInt8) :
      Reachable size (table.push parent index)
  | reset
      {table : Table}
      (h : Reachable size table) :
      Reachable size (table.reset size)

/-- The tables to which a table grows by assignments alone.  A full one stays as it is. -/
inductive GrowsTo (table : Table) : Table → Prop
  | refl : GrowsTo table table
  | push
      {later : Table}
      (h : GrowsTo table later)
      {parent : Nat}
      (hparent : parent < later.next)
      (index : UInt8) :
      GrowsTo table (later.push parent index)

variable {table later : Table} {size : CodeSize} {code : Nat}

theorem Reachable.chained (h : Reachable size table) : table.Chained size := by
  induction h with
  | initial => exact .initial size
  | push _ hparent index ih => exact ih.push hparent index
  | reset _ ih => exact ih.reset

theorem Reachable.growsTo
    (h : Reachable size table)
    (hgrows : table.GrowsTo later) :
    Reachable size later := by
  induction hgrows with
  | refl => exact h
  | push _ hparent index ih => exact ih.push hparent index

namespace GrowsTo

theorem next_le (h : table.GrowsTo later) : table.next ≤ later.next := by
  induction h with
  | refl => exact Nat.le_refl _
  | push _ _ _ ih =>
      rw [next_push]
      split <;> omega

theorem entries_eq
    (h : table.GrowsTo later)
    (hcode : code < table.next) :
    later.entries[code]? = table.entries[code]? := by
  induction h with
  | refl => rfl
  | push hbefore _ _ ih =>
      rw [entries_push_of_lt (Nat.lt_of_lt_of_le hcode hbefore.next_le), ih]

/-- The chain of a code has entries up to that code only, and growth leaves those. -/
theorem phrase_eq
    (h : table.GrowsTo later)
    (hcode : code < table.next) :
    later.phrase code = table.phrase code :=
  phraseBefore_congr (fun _ hslot => h.entries_eq (Nat.lt_of_le_of_lt hslot hcode)) []

end GrowsTo

/-- By induction on the number of assignments: each of them takes a slot, until none is free. -/
theorem exists_growsTo
    (hpos : 0 < table.next)
    (count : Nat) :
    ∃ later, table.GrowsTo later ∧ min maxEntries (table.next + count) ≤ later.next := by
  induction count with
  | zero => exact ⟨table, .refl, Nat.min_le_right _ _⟩
  | succ count ih =>
      obtain ⟨later, hgrows, hcount⟩ := ih
      have hzero : 0 < later.next := Nat.lt_of_lt_of_le hpos hgrows.next_le
      refine ⟨later.push 0 0, hgrows.push hzero 0, ?_⟩
      by_cases hroom : later.next < maxEntries
      · rw [next_push_of_lt hroom]
        omega
      · rw [push_of_isFull (Nat.le_of_not_lt hroom)]
        omega

theorem exists_growsTo_full (hpos : 0 < table.next) :
    ∃ full, table.GrowsTo full ∧ full.isFull = true := by
  obtain ⟨full, hgrows, hcount⟩ := exists_growsTo hpos maxEntries
  exact ⟨full, hgrows, decide_eq_true (by rw [← next]; omega)⟩

end Table
end Lzw
end GifBitmap

import Mathlib.Algebra.Ring.Nat
import GifBitmap.Proofs.Lzw.TableLinks

/-!
# Words and tables with undefined results

The code tables of this library count in numbers of any size, and every access to one has
a value.  A program that is to be fast holds its numbers in words of fixed length and its
entries in an array.  The operations here do so.  Each of them gives `none` where it has no
value: a word overflows, a difference is negative, a shift is as long as the word, a slot
is looked up that is not assigned, or a walk does not end.

On a table whose chains end none of this happens, so on a linked one neither.

Main facts:
* `Chained.first?_eq`, `Chained.walk?_eq`: assigned codes have a first index, and the walk over
  their parents meets assigned slots only and ends;
* `Chained.push?_eq`, `Chained.reset?_eq`: codes are assigned and forgotten as without words.
-/

namespace GifBitmap
namespace Lzw

namespace Word

/-- A number that has to fit a word of `bits` bits. -/
def fit (bits value : Nat) : Option Nat :=
  if value < 2 ^ bits then some value else none

/-- A difference that must not be negative. -/
def subtract (first second : Nat) : Option Nat :=
  if second ≤ first then some (first - second) else none

/-- A word of `bits` bits, shifted up; bits that leave the word are lost. -/
def shiftLeft (bits value count : Nat) : Option Nat :=
  if count < bits then some (value <<< count % 2 ^ bits) else none

/-- A word of `bits` bits, shifted down. -/
def shiftRight (bits value count : Nat) : Option Nat :=
  if count < bits then some (value >>> count) else none

theorem fit_of_lt
    {bits value : Nat}
    (h : value < 2 ^ bits) :
    fit bits value = some value :=
  if_pos h

theorem subtract_of_le
    {first second : Nat}
    (h : second ≤ first) :
    subtract first second = some (first - second) :=
  if_pos h

theorem shiftLeft_of_lt
    {bits value count : Nat}
    (hcount : count < bits)
    (h : value * 2 ^ count < 2 ^ bits) :
    shiftLeft bits value count = some (value * 2 ^ count) := by
  rw [shiftLeft, if_pos hcount, Nat.shiftLeft_eq, Nat.mod_eq_of_lt h]

theorem shiftLeft_one
    {bits count : Nat}
    (h : count < bits) :
    shiftLeft bits 1 count = some (2 ^ count) := by
  rw [shiftLeft_of_lt h (by rw [Nat.one_mul]; exact Nat.pow_lt_pow_right (by decide) h),
    Nat.one_mul]

theorem shiftRight_of_lt
    {bits value count : Nat}
    (h : count < bits) :
    shiftRight bits value count = some (value / 2 ^ count) := by
  rw [shiftRight, if_pos h, Nat.shiftRight_eq_div_pow]

end Word

theorem CodeSize.firstFree_lt (size : CodeSize) : size.firstFree < 2 ^ 16 := by
  have hpow : 2 ^ size.bits ≤ 2 ^ maxWidth := Nat.pow_le_pow_right (by decide) size.le_max
  unfold CodeSize.firstFree CodeSize.clearCode
  unfold maxWidth at hpow
  omega

theorem Width.bits_lt (width : Width) : width.bits < 16 :=
  Nat.lt_of_le_of_lt width.le_max (by decide)

namespace Table

/-- The number of entries as a word of 16 bits. -/
def nextWord (table : Table) : Nat :=
  table.entries.size % 2 ^ 16

/-- The first index of the phrase of an assigned code. -/
def first? (table : Table) (code : Nat) : Option UInt8 :=
  if code < table.nextWord then table.entries[code]?.map Entry.first else none

/-- The walk from a code over its parents, up to an entry without one.  The indices that
were met are put in front of those met before.  There is no result if the walk is longer
than `steps` entries. -/
def walk? (table : Table) : (steps code : Nat) → List UInt8 → Option (List UInt8)
  | 0, _, _ => none
  | steps + 1, code, met => do
      let entry ← table.entries[code]?
      match entry.parent with
      | none => some (entry.last :: met)
      | some parent => table.walk? steps parent (entry.last :: met)

/-- The phrase of an assigned code.  A walk that is longer than the table is in a circle,
and does not end. -/
def phrase? (table : Table) (code : Nat) : Option (List UInt8) :=
  if code < table.nextWord then table.walk? table.entries.size code [] else none

/-- Assigns the next code, unless all codes are assigned. -/
def push? (table : Table) (parent : Nat) (index : UInt8) : Option Table :=
  if maxEntries ≤ table.entries.size then
    some table
  else do
    let first ← table.first? parent
    return ⟨table.entries.push ⟨some parent, index, first⟩⟩

/-- Forgets the codes that were assigned, or makes the first table. -/
def reset? (table : Table) (minBits : Nat) : Option Table := do
  let clear ← Word.shiftLeft 16 1 minBits
  let last ← Word.fit 16 (clear + 1)
  if last + 1 ≤ table.entries.size then
    return ⟨table.entries.take (last + 1)⟩
  else
    let literals := (Array.range clear).map fun code => Entry.literal (UInt8.ofNat code)
    return ⟨literals ++ #[Entry.reserved, Entry.reserved]⟩

section Checked

variable {table : Table} {size : CodeSize}

namespace Chained

theorem nextWord_eq (h : table.Chained size) : table.nextWord = table.next := by
  have hle := h.next_le
  have hlt := CodeSize.firstFree_lt size
  refine Nat.mod_eq_of_lt (Nat.lt_of_le_of_lt hle (Nat.max_lt.mpr ⟨by decide, hlt⟩))

/-- The first index of an assigned code is found. -/
theorem first?_eq
    (h : table.Chained size)
    {code : Nat}
    (hcode : code < table.next) :
    table.first? code = some (table.first code) := by
  obtain ⟨entry, hentry⟩ := exists_entry hcode
  rw [first?, h.nextWord_eq, if_pos hcode, first, hentry]
  rfl

/-- The walk from an assigned code meets assigned codes only, and ends: each parent is a
smaller code, so there are at most as many steps as smaller codes. -/
theorem walk?_eq
    (h : table.Chained size)
    {steps code : Nat}
    (hcode : code < table.next)
    (hsteps : code < steps)
    (met : List UInt8) :
    table.walk? steps code met = some (table.phraseBefore code met) := by
  induction steps generalizing code met with
  | zero => exact absurd hsteps (Nat.not_lt_zero code)
  | succ steps ih =>
      obtain ⟨entry, hentry⟩ := exists_entry hcode
      rw [walk?, phraseBefore, hentry]
      cases hparent : entry.parent with
      | none => simp [hparent]
      | some parent =>
          have holder := h.parent_lt hentry hparent
          have hrest := ih (Nat.lt_trans holder hcode)
            (Nat.lt_of_lt_of_le holder (Nat.le_of_lt_succ hsteps)) (entry.last :: met)
          simpa [hparent, holder] using hrest

theorem phrase?_eq
    (h : table.Chained size)
    {code : Nat}
    (hcode : code < table.next) :
    table.phrase? code = some (table.phrase code) := by
  rw [phrase?, h.nextWord_eq, if_pos hcode]
  exact h.walk?_eq hcode hcode []

theorem push?_eq
    (h : table.Chained size)
    {parent : Nat}
    (hparent : parent < table.next)
    (index : UInt8) :
    table.push? parent index = some (table.push parent index) := by
  rw [push?]
  split
  · rename_i hfull
    rw [push_of_isFull hfull]
  · rename_i hroom
    rw [push_of_lt (Nat.lt_of_not_le hroom), h.first?_eq hparent]
    rfl

theorem reset?_eq (h : table.Chained size) :
    table.reset? size.bits = some (table.reset size) := by
  have hbits : size.bits < 16 := Nat.lt_of_le_of_lt size.le_max (by decide)
  have hlast : 2 ^ size.bits + 1 < 2 ^ 16 :=
    Nat.lt_of_succ_lt (CodeSize.firstFree_lt size)
  have hle : 2 ^ size.bits + 1 + 1 ≤ table.entries.size := h.firstFree_le
  simp only [reset?, Word.shiftLeft_one hbits, Option.bind_eq_bind, Option.bind_some,
    Word.fit_of_lt hlast, if_pos hle]
  rfl

end Chained

theorem Linked.first?_eq
    (h : table.Linked size)
    {code : Nat}
    (hcode : code < table.next) :
    table.first? code = some (table.first code) :=
  h.chained.first?_eq hcode

theorem Linked.phrase?_eq
    (h : table.Linked size)
    {code : Nat}
    (hcode : code < table.next) :
    table.phrase? code = some (table.phrase code) :=
  h.chained.phrase?_eq hcode

theorem entries_initial_eq (size : CodeSize) :
    ((Array.range size.clearCode).map fun code => Entry.literal (UInt8.ofNat code)) ++
        #[Entry.reserved, Entry.reserved] =
      (initial size).entries := by
  apply Array.ext
  · simp [initial, CodeSize.firstFree]
  · intro slot hleft hright
    by_cases hliteral : slot < size.clearCode
    · simp [initial, hliteral]
    · have hslot : slot - size.clearCode = 0 ∨ slot - size.clearCode = 1 := by
        rw [← next, next_initial, CodeSize.firstFree] at hright
        omega
      rcases hslot with hzero | hone
      · simp [initial, hliteral, Array.getElem_append, hzero]
      · simp [initial, hliteral, Array.getElem_append, hone]

/-- From nothing the first table is made. -/
theorem reset?_empty (size : CodeSize) :
    (⟨#[]⟩ : Table).reset? size.bits = some (initial size) := by
  have hbits : size.bits < 16 := Nat.lt_of_le_of_lt size.le_max (by decide)
  have hlast : 2 ^ size.bits + 1 < 2 ^ 16 :=
    Nat.lt_of_succ_lt (CodeSize.firstFree_lt size)
  simp only [reset?, Word.shiftLeft_one hbits, Option.bind_eq_bind, Option.bind_some,
    Word.fit_of_lt hlast, List.size_toArray, List.length_nil, Nat.le_zero_eq, Nat.succ_ne_zero,
    if_false]
  exact congrArg (fun entries => some (Table.mk entries)) (entries_initial_eq size)

end Checked
end Table

end Lzw
end GifBitmap

import GifBitmap.Proofs.Lzw.History
import GifBitmap.Proofs.Lzw.Refinement
import GifBitmap.Proofs.Lzw.TableChains

/-!
# Links between the entries of a code table

Every entry that was assigned while decoding is linked to an older one, and never to the
clear code or the end code.  `Table.Linked` says so of a table, `Expander.Sound` and
`Decompressor.Sound` of the states around it.  All states that input leads to are sound
(`Reachable.sound`), those behind a failure included, because a code that fails changes
nothing but the bits that are pending.

Main facts:
* `Expander.step_cases`: all that a code can do;
* `Table.Linked.push`, `Expander.Sound.step`, `Decompressor.Sound.decompress`: soundness
  is kept by an assignment, by a code, and by a piece of input;
* `Expander.Sound.adds_of_step`: what a code adds;
* `Decompressor.Reachable.expander_induction`: what each code keeps holds in all states.
-/

namespace GifBitmap
namespace Lzw

namespace Table

/-- How many entries a table has, and how they are linked. -/
structure Linked (table : Table) (size : CodeSize) : Prop where
  firstFree_le : size.firstFree ≤ table.next
  next_le : table.next ≤ max maxEntries size.firstFree
  /-- A clear code gives the first table back. -/
  reset_eq : table.reset size = initial size
  /-- Entries that were there from the start have no parent. -/
  parent_of_lt : ∀ {slot : Nat}, slot < size.firstFree →
    ∃ entry, table.entries[slot]? = some entry ∧ entry.parent = none
  /-- Entries that were assigned have an older parent that stands for a phrase. -/
  parent_of_le : ∀ {slot : Nat}, size.firstFree ≤ slot → slot < table.next →
    ∃ entry parent,
      table.entries[slot]? = some entry ∧
        entry.parent = some parent ∧
        parent < slot ∧
        parent ≠ size.clearCode ∧
        parent ≠ size.endCode
  /-- The first index that is kept with an entry is that of its phrase. -/
  head_eq : ∀ {slot : Nat}, slot < table.next →
    (table.phrase slot).head? = some (table.first slot)

namespace Linked

variable {table : Table} {size : CodeSize}

theorem initial (size : CodeSize) : (initial size).Linked size := by
  have hchained := Chained.initial size
  refine ⟨hchained.firstFree_le, hchained.next_le, hchained.reset_eq, ?_, ?_, hchained.head_eq⟩
  · intro slot hslot
    obtain ⟨entry, hentry⟩ := exists_entry ((next_initial size).symm ▸ hslot)
    exact ⟨entry, hentry, (entries_initial hentry).1⟩
  · intro slot hfree hslot
    rw [next_initial] at hslot
    omega

/-- The chains of a linked table end, because its parents are older entries. -/
theorem chained (h : table.Linked size) : table.Chained size where
  firstFree_le := h.firstFree_le
  next_le := h.next_le
  reset_eq := h.reset_eq
  parent_lt := by
    intro code parent entry hentry hparent
    by_cases hfree : code < size.firstFree
    · obtain ⟨found, hfound, hnone⟩ := h.parent_of_lt hfree
      rw [hfound, Option.some.injEq] at hentry
      rw [← hentry, hnone] at hparent
      exact absurd hparent.symm (Option.some_ne_none _)
    · obtain ⟨found, older, hfound, hsome, holder, -, -⟩ :=
        h.parent_of_le (Nat.le_of_not_lt hfree) (lt_next_of_entry hentry)
      rw [hfound, Option.some.injEq] at hentry
      rw [← hentry, hsome, Option.some.injEq] at hparent
      exact hparent ▸ holder
  head_eq := h.head_eq

/-- The codes of single indices are assigned from the start. -/
theorem lt_next_of_literal
    (h : table.Linked size)
    {code : Nat}
    (hliteral : code < size.clearCode) :
    code < table.next :=
  Nat.lt_of_lt_of_le (Nat.lt_add_right 2 hliteral) h.firstFree_le

/-- An assignment adds an entry that is linked to its parent. -/
theorem push
    (h : table.Linked size)
    {parent : Nat}
    (hnames : size.NamesPhrase parent)
    (hparent : parent < table.next)
    (index : UInt8) :
    (table.push parent index).Linked size := by
  have hchained := h.chained.push hparent index
  refine ⟨hchained.firstFree_le, hchained.next_le, hchained.reset_eq, ?_, ?_, hchained.head_eq⟩
  · intro slot hslot
    rw [entries_push_of_lt (Nat.lt_of_lt_of_le hslot h.firstFree_le)]
    exact h.parent_of_lt hslot
  · intro slot hfree hslot
    rcases lt_next_of_push hslot with hold | ⟨hroom, rfl⟩
    · rw [entries_push_of_lt hold]
      exact h.parent_of_le hfree hold
    · refine ⟨_, parent, entries_push_next hroom, rfl, hparent, ?_, ?_⟩ <;>
        unfold CodeSize.NamesPhrase CodeSize.firstFree at hnames
      · omega
      · unfold CodeSize.endCode
        omega

end Linked
end Table

namespace Expander

/-- All that a code can do if it does not fail: clear the table, end the data, stand for a
single index behind the start or a clear code, or stand for a phrase behind another one. -/
theorem step_cases
    {expander after : Expander}
    {code : Nat}
    {indices : List UInt8}
    (h : expander.step code = .ok (after, indices)) :
    (code = expander.size.clearCode ∧ after = expander.clear ∧ indices = []) ∨
      (code = expander.size.endCode ∧ after = expander.finish ∧ indices = []) ∨
      (expander.size.NamesPhrase code ∧
        expander.previous = none ∧
        code < expander.size.clearCode ∧
        after = { expander with previous := some code } ∧
        indices = expander.table.phrase code) ∨
      (expander.size.NamesPhrase code ∧
        ∃ previous,
          expander.previous = some previous ∧
            code ≤ expander.table.next ∧
            after =
              { expander with
                table := expander.tableAfter previous code
                width := expander.widthAfter
                previous := some code } ∧
            indices = (expander.tableAfter previous code).phrase code) := by
  rw [step] at h
  split at h
  · simp only [Except.ok.injEq, Prod.mk.injEq] at h
    exact .inl ⟨‹_›, h.1.symm, h.2.symm⟩
  · split at h
    · simp only [Except.ok.injEq, Prod.mk.injEq] at h
      exact .inr (.inl ⟨‹_›, h.1.symm, h.2.symm⟩)
    · split at h
      · simp at h
      · rename_i hclear hend hbyte
        have hnames : expander.size.NamesPhrase code := by
          unfold CodeSize.endCode at hend
          unfold CodeSize.NamesPhrase CodeSize.firstFree
          omega
        rw [expand] at h
        split at h
        · rename_i hprevious
          split at h
          · rename_i hliteral
            simp only [Except.ok.injEq, Prod.mk.injEq] at h
            exact .inr (.inr (.inl ⟨hnames, hprevious, hliteral, h.1.symm, h.2.symm⟩))
          · simp at h
        · rename_i previous hprevious
          split at h
          · rename_i hle
            simp only [Except.ok.injEq, Prod.mk.injEq] at h
            exact .inr (.inr (.inr ⟨hnames, previous, hprevious, hle, h.1.symm, h.2.symm⟩))
          · simp at h

/-- Whether the table is linked, and the code before the next one stands for a phrase. -/
structure Sound (expander : Expander) : Prop where
  linked : expander.table.Linked expander.size
  previous : ∀ {code : Nat}, expander.previous = some code →
    expander.size.NamesPhrase code ∧ code < expander.table.next

namespace Sound

variable {expander after : Expander} {code : Nat} {indices : List UInt8}

theorem initial (size : CodeSize) : (initial size).Sound where
  linked := .initial size
  previous := by simp [Expander.initial]

/-- The table is linked after a code that follows another one. -/
theorem linked_tableAfter
    (h : expander.Sound)
    {previous : Nat}
    (hprevious : expander.previous = some previous)
    (code : Nat) :
    (expander.tableAfter previous code).Linked expander.size := by
  obtain ⟨hnames, hlt⟩ := h.previous hprevious
  exact h.linked.push hnames hlt _

/-- A code that may still be free is assigned after it was taken: with all slots in use it
could not be a code of twelve bits. -/
theorem lt_next_tableAfter
    (previous : Nat)
    (hle : code ≤ expander.table.next)
    (hmax : code < maxEntries) :
    code < (expander.tableAfter previous code).next := by
  rw [tableAfter]
  by_cases hroom : expander.table.next < maxEntries
  · rw [Table.next_push_of_lt hroom]
    omega
  · rw [Table.push_of_isFull (Nat.le_of_not_lt hroom)]
    omega

/-- A code keeps an expander sound. -/
theorem step
    (h : expander.Sound)
    (hmax : code < maxEntries)
    (hstep : expander.step code = .ok (after, indices)) :
    after.Sound ∧ after.size = expander.size := by
  rcases step_cases hstep with
    ⟨-, rfl, -⟩ | ⟨-, rfl, -⟩ | ⟨hnames, -, hliteral, rfl, -⟩ |
    ⟨hnames, previous, hprevious, hle, rfl, -⟩
  · refine ⟨⟨?_, by simp [clear]⟩, rfl⟩
    simp only [clear]
    rw [h.linked.reset_eq]
    exact .initial _
  · exact ⟨⟨h.linked, h.previous⟩, rfl⟩
  · refine ⟨⟨h.linked, ?_⟩, rfl⟩
    intro found hfound
    obtain rfl := Option.some.inj hfound
    exact ⟨hnames, h.linked.lt_next_of_literal hliteral⟩
  · refine ⟨⟨h.linked_tableAfter hprevious code, ?_⟩, rfl⟩
    intro found hfound
    obtain rfl := Option.some.inj hfound
    exact ⟨hnames, lt_next_tableAfter previous hle hmax⟩

/-- A code adds nothing, or its phrase; then it is assigned afterwards. -/
theorem adds_of_step
    (h : expander.Sound)
    (hmax : code < maxEntries)
    (hstep : expander.step code = .ok (after, indices)) :
    (indices = [] ∧ (code = expander.size.clearCode ∨ code = expander.size.endCode)) ∨
      (code < after.table.next ∧ indices = after.table.phrase code) := by
  rcases step_cases hstep with
    ⟨hclear, -, rfl⟩ | ⟨hend, -, rfl⟩ | ⟨-, -, hliteral, rfl, rfl⟩ |
    ⟨-, previous, -, hle, rfl, rfl⟩
  · exact .inl ⟨rfl, .inl hclear⟩
  · exact .inl ⟨rfl, .inr hend⟩
  · exact .inr ⟨h.linked.lt_next_of_literal hliteral, rfl⟩
  · exact .inr ⟨lt_next_tableAfter previous hle hmax, rfl⟩

end Sound
end Expander

namespace Decompressor

/-- Whether the expander is sound, and the bits that are pending make up less than a code of
the greatest width, with no stray bit above them. -/
structure Sound (decompressor : Decompressor) : Prop where
  expander : decompressor.expander.Sound
  clean : decompressor.pending.Clean
  size_lt : decompressor.pending.size < maxWidth

namespace Sound

variable {decompressor : Decompressor}

theorem initial (size : CodeSize) : (initial size).Sound :=
  ⟨.initial size, BitBuffer.clean_empty, Nat.succ_pos 11⟩

/-- Unpacking keeps a decompressor sound. -/
theorem unpack
    (h : decompressor.Sound)
    {bytes left : Bytes}
    {code : Option Nat}
    {pending : BitBuffer}
    (hunpack : decompressor.pending.unpack decompressor.expander.width bytes =
      (code, pending, left)) :
    ({ decompressor with pending } : Decompressor).Sound := by
  refine ⟨h.expander, h.clean.unpack hunpack, ?_⟩
  have hlt := h.size_lt
  have hmax := decompressor.expander.width.le_max
  have hpos := decompressor.expander.width.pos
  unfold maxWidth at *
  cases code with
  | none =>
      obtain ⟨-, -, hshort⟩ := BitBuffer.unpack_none hunpack
      exact Nat.lt_of_lt_of_le hshort hmax
  | some code =>
      obtain ⟨-, hsize⟩ := BitBuffer.unpack_some_size hunpack
      dsimp only
      omega

/-- A code that was unpacked has at most twelve bits. -/
theorem lt_maxEntries
    (h : decompressor.Sound)
    {bytes left : Bytes}
    {code : Nat}
    {pending : BitBuffer}
    (hunpack : decompressor.pending.unpack decompressor.expander.width bytes =
      (some code, pending, left)) :
    code < maxEntries :=
  Width.lt_maxEntries (BitBuffer.unpack_some_bits h.clean hunpack).1

/-- A code keeps a decompressor sound. -/
theorem code
    (h : decompressor.Sound)
    {bytes left : Bytes}
    {code : Nat}
    {pending : BitBuffer}
    (hunpack : decompressor.pending.unpack decompressor.expander.width bytes =
      (some code, pending, left))
    {expander : Expander}
    {indices : List UInt8}
    (hstep : decompressor.expander.step code = .ok (expander, indices)) :
    (⟨expander, pending⟩ : Decompressor).Sound ∧
      expander.size = decompressor.expander.size := by
  have hpending := h.unpack hunpack
  obtain ⟨hsound, hsize⟩ := h.expander.step (h.lt_maxEntries hunpack) hstep
  exact ⟨⟨hsound, hpending.clean, hpending.size_lt⟩, hsize⟩

/-- A piece of input keeps a decompressor sound, whether it fails or not. -/
theorem decompress
    (h : decompressor.Sound)
    (bytes : Bytes)
    (buffer : Array UInt8) :
    (decompressor.decompress bytes buffer).decompressor.Sound ∧
      (decompressor.decompress bytes buffer).decompressor.expander.size =
        decompressor.expander.size := by
  fun_induction Decompressor.decompress decompressor bytes buffer with
  | case1 => exact ⟨h, rfl⟩
  | case2 decompressor bytes buffer hdone pending left hcode => exact ⟨h.unpack hcode, rfl⟩
  | case3 decompressor bytes buffer hdone code pending left hcode failure hstep =>
      exact ⟨h.unpack hcode, rfl⟩
  | case4 decompressor bytes buffer hdone code pending left hcode expander indices hstep ih =>
      obtain ⟨hsound, hsize⟩ := h.code hcode hstep
      obtain ⟨hrest, hsame⟩ := ih hsound
      exact ⟨hrest, hsame.trans hsize⟩

end Sound

/-- All states that input leads to are sound. -/
theorem Reachable.sound
    {size : CodeSize}
    {decompressor : Decompressor}
    (h : Reachable size decompressor) :
    decompressor.Sound ∧ decompressor.expander.size = size := by
  induction h with
  | initial => exact ⟨.initial size, rfl⟩
  | code _ _ hunpack hstep ih =>
      obtain ⟨hsound, hsize⟩ := ih
      obtain ⟨hafter, hsame⟩ := hsound.code hunpack hstep
      exact ⟨hafter, hsame.trans hsize⟩
  | decompress _ bytes buffer ih =>
      obtain ⟨hsound, hsize⟩ := ih
      obtain ⟨hafter, hsame⟩ := hsound.decompress bytes buffer
      exact ⟨hafter, hsame.trans hsize⟩

/-- What holds of the first expander and is kept by each code holds in all states that input
leads to. -/
theorem Reachable.expander_induction
    {size : CodeSize}
    {decompressor : Decompressor}
    (h : Reachable size decompressor)
    {motive : Expander → Prop}
    (hinitial : motive (.initial size))
    (hkept : ∀ {expander after : Expander} {code : Nat} {indices : List UInt8},
      expander.Sound → expander.size = size → expander.step code = .ok (after, indices) →
        motive expander → motive after) :
    motive decompressor.expander := by
  induction h with
  | initial => exact hinitial
  | code hbefore _ _ hstep ih =>
      obtain ⟨hsound, hsize⟩ := hbefore.sound
      exact hkept hsound.expander hsize hstep ih
  | @decompress decompressor hbefore bytes buffer ih =>
      obtain ⟨hsound, hsize⟩ := hbefore.sound
      clear hbefore
      fun_induction Decompressor.decompress decompressor bytes buffer with
      | case1 => exact ih
      | case2 => exact ih
      | case3 => exact ih
      | case4 decompressor bytes buffer hdone code pending left hcode expander indices hstep more =>
          obtain ⟨hafter, hsame⟩ := hsound.code hcode hstep
          exact more (hkept hsound.expander hsize hstep ih) hafter (hsame.trans hsize)

end Decompressor
end Lzw
end GifBitmap

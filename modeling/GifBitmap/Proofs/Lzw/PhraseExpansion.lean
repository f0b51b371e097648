import GifBitmap.Proofs.Lzw.CheckedTable

/-!
# Phrases in a buffer

A fast program does not make a phrase before it adds it to the output.  It walks over the parents
of a code and puts the last index of each entry behind the buffer.  So the indices of a phrase
come in reverse order, and the part of the buffer that is new is turned round at the end
(`Table.extend?`).

On all tables that come about this adds the phrase of the code, and what the buffer held before
stays.  It goes on to do so while the table grows.

Main facts:
* `extend?_eq`, `Chained.adds_phrase`: what is added to a buffer is the phrase that a walk finds;
* `Expander.Sound.growsTo_step`, `Decompressor.Reachable.table`: the tables of a decompressor
  come about by assignments and clear codes;
* `phrases_of_reachable`: what holds of all tables that come about.
-/

namespace GifBitmap
namespace Lzw

namespace Table

/-- The walk from a code over its parents, which puts the last index of each entry behind a
buffer.  There is no result if the walk is longer than `steps` entries. -/
def unwind? (table : Table) : (steps code : Nat) → Array UInt8 → Option (Array UInt8)
  | 0, _, _ => none
  | steps + 1, code, buffer => do
      let entry ← table.entries[code]?
      match entry.parent with
      | none => some (buffer.push entry.last)
      | some parent => table.unwind? steps parent (buffer.push entry.last)

/-- A buffer with the part from `start` on turned round. -/
def turnedFrom (buffer : Array UInt8) (start : Nat) : Array UInt8 :=
  buffer.extract 0 start ++ (buffer.extract start buffer.size).reverse

/-- Adds the phrase of an assigned code to a buffer.  A walk that is longer than the table is in
a circle, and does not end. -/
def extend? (table : Table) (code : Nat) (buffer : Array UInt8) : Option (Array UInt8) :=
  if code < table.nextWord then do
    let filled ← table.unwind? table.entries.size code buffer
    return turnedFrom filled buffer.size
  else
    none

/-- Whether a code adds some indices to any buffer, behind what that holds. -/
def Adds (table : Table) (code : Nat) (indices : List UInt8) : Prop :=
  ∀ buffer, table.extend? code buffer = some (buffer ++ indices)

theorem turnedFrom_append (buffer : Array UInt8) (indices : List UInt8) :
    turnedFrom (buffer ++ indices.reverse) buffer.size = buffer ++ indices := by
  have hsize := size_append_bytes buffer indices.reverse
  apply Array.ext'
  simp [turnedFrom, hsize, List.take_of_length_le]

/-- The walk that puts indices behind a buffer meets the same entries as the one that puts them
in front of a list, in the same order. -/
theorem unwind?_eq
    (table : Table)
    (steps code : Nat)
    (buffer : Array UInt8)
    (met : List UInt8) :
    table.unwind? steps code (buffer ++ met.reverse) =
      (table.walk? steps code met).map fun indices : List UInt8 => buffer ++ indices.reverse := by
  induction steps generalizing code met with
  | zero => rfl
  | succ steps ih =>
      rw [unwind?, walk?]
      cases table.entries[code]? with
      | none => rfl
      | some entry =>
          have hmet : (buffer ++ met.reverse).push entry.last =
              buffer ++ (entry.last :: met).reverse := by
            apply Array.ext'
            simp
          cases hparent : entry.parent with
          | none => simp [hparent, hmet]
          | some parent => simpa [hparent, hmet] using ih parent (entry.last :: met)

/-- What is added in place is the phrase that a walk finds. -/
theorem extend?_eq (table : Table) (code : Nat) (buffer : Array UInt8) :
    table.extend? code buffer =
      (table.phrase? code).map fun indices : List UInt8 => buffer ++ indices := by
  rw [extend?, phrase?]
  split
  · have hwalk := table.unwind?_eq table.entries.size code buffer []
    rw [List.reverse_nil, Array.appendList_nil] at hwalk
    rw [hwalk]
    cases table.walk? table.entries.size code [] with
    | none => rfl
    | some indices => exact congrArg some (turnedFrom_append buffer indices)
  · rfl

namespace Chained

variable {table : Table} {size : CodeSize} {code : Nat} {entry : Entry}

/-- An assigned code adds its phrase. -/
theorem adds_phrase
    (h : table.Chained size)
    (hcode : code < table.next) :
    table.Adds code (table.phrase code) := by
  intro buffer
  rw [extend?_eq, h.phrase?_eq hcode]
  rfl

theorem phrase_of_entry
    (h : table.Chained size)
    (hentry : table.entries[code]? = some entry)
    {parent : Nat}
    (hparent : entry.parent = some parent) :
    parent < code ∧ table.phrase code = table.phrase parent ++ [entry.last] := by
  have holder := h.parent_lt hentry hparent
  exact ⟨holder, phrase_of_parent hentry hparent holder⟩

theorem head?_phrase
    (h : table.Chained size)
    (hentry : table.entries[code]? = some entry) :
    (table.phrase code).head? = some entry.first := by
  rw [h.head_eq (lt_next_of_entry hentry), first, hentry]

theorem getLast?_phrase
    (h : table.Chained size)
    (hentry : table.entries[code]? = some entry) :
    (table.phrase code).getLast? = some entry.last := by
  cases hparent : entry.parent with
  | none => rw [phrase_of_literal hentry hparent, List.getLast?_singleton]
  | some parent => rw [(h.phrase_of_entry hentry hparent).2, List.getLast?_concat]

end Chained

/-- Growth does not change what a code adds. -/
theorem Reachable.adds_of_growsTo
    {table later : Table}
    {size : CodeSize}
    (h : table.Reachable size)
    (hgrows : table.GrowsTo later)
    {code : Nat}
    (hcode : code < table.next) :
    later.Adds code (table.phrase code) := by
  rw [← hgrows.phrase_eq hcode]
  exact (h.growsTo hgrows).chained.adds_phrase (Nat.lt_of_lt_of_le hcode hgrows.next_le)

end Table

namespace Expander

variable {expander after : Expander} {code : Nat} {indices : List UInt8}

/-- Only a clear code makes a table shorter. -/
theorem Sound.growsTo_step
    (h : expander.Sound)
    (hstep : expander.step code = .ok (after, indices))
    (hclear : code ≠ expander.size.clearCode) :
    expander.table.GrowsTo after.table := by
  rcases step_cases hstep with
    ⟨hcode, -, -⟩ | ⟨-, rfl, -⟩ | ⟨-, -, -, rfl, -⟩ | ⟨-, previous, hprevious, -, rfl, -⟩
  · exact absurd hcode hclear
  · exact .refl
  · exact .refl
  · exact .push .refl (h.previous hprevious).2 _

theorem Sound.reachable_step
    (h : expander.Sound)
    (hstep : expander.step code = .ok (after, indices))
    (hreachable : expander.table.Reachable expander.size) :
    after.table.Reachable expander.size := by
  by_cases hclear : code = expander.size.clearCode
  · rw [Expander.step, if_pos hclear, Except.ok.injEq, Prod.mk.injEq] at hstep
    rw [← hstep.1]
    exact hreachable.reset
  · exact hreachable.growsTo (h.growsTo_step hstep hclear)

end Expander

theorem Decompressor.Reachable.table
    {size : CodeSize}
    {decompressor : Decompressor}
    (h : Reachable size decompressor) :
    decompressor.expander.table.Reachable size := by
  refine h.expander_induction (motive := fun expander => expander.table.Reachable size) .initial ?_
  rintro expander after code indices hsound rfl hstep hreachable
  exact hsound.reachable_step hstep hreachable

namespace Table

/-- The tables of a decompressor come about by assignments and clear codes, and the indices of a
code that stands for a phrase are those that it adds in place.

On all tables that come about so, an assigned code, a reserved one among them, adds its phrase
behind what a buffer holds.  The phrase is not empty, begins with the first index that is kept
with the entry and ends with its last one; it is that index alone, or what the parent adds
followed by it.  Growth, up to a full table, leaves the entry and what the code adds.  A clear
code gives the first table back, which is also what is made from nothing. -/
theorem phrases_of_reachable (size : CodeSize) :
    (∀ decompressor, Decompressor.Reachable size decompressor →
      let before := decompressor.expander
      before.table.Reachable size ∧
        ∀ bytes code pending left after indices,
          decompressor.pending.unpack before.width bytes = (some code, pending, left) →
            before.step code = .ok (after, indices) →
              code ≠ size.clearCode →
                code ≠ size.endCode →
                  before.table.GrowsTo after.table ∧ after.table.Adds code indices) ∧
      (∀ table : Table, table.Reachable size →
        (∀ code entry, table.entries[code]? = some entry →
          let indices := table.phrase code
          table.Adds code indices ∧
            indices ≠ [] ∧
            table.first? code = some entry.first ∧
            indices.head? = some entry.first ∧
            indices.getLast? = some entry.last ∧
            (entry.parent = none → indices = [entry.last]) ∧
            (∀ parent, entry.parent = some parent →
              ∃ shorter, table.Adds parent shorter ∧ indices = shorter ++ [entry.last]) ∧
            ∀ later, table.GrowsTo later →
              later.entries[code]? = some entry ∧ later.Adds code indices) ∧
          table.reset size = initial size ∧
          table.reset? size.bits = some (initial size)) ∧
      (⟨#[]⟩ : Table).reset? size.bits = some (initial size) := by
  refine ⟨?_, ?_, reset?_empty size⟩
  · intro decompressor hreachable before
    refine ⟨hreachable.table, ?_⟩
    intro bytes code pending left after indices hunpack hstep hclear hend
    obtain ⟨hsound, rfl⟩ := hreachable.sound
    have hmax := hsound.lt_maxEntries hunpack
    refine ⟨hsound.expander.growsTo_step hstep hclear, ?_⟩
    rcases hsound.expander.adds_of_step hmax hstep with ⟨-, hcode⟩ | ⟨hassigned, rfl⟩
    · exact absurd hcode (not_or_intro hclear hend)
    · exact (hsound.expander.step hmax hstep).1.linked.chained.adds_phrase hassigned
  · intro table hreachable
    have hchained := hreachable.chained
    refine ⟨?_, hchained.reset_eq, hchained.reset_eq ▸ hchained.reset?_eq⟩
    intro code entry hentry indices
    have hcode := lt_next_of_entry hentry
    have hhead : indices.head? = some entry.first := hchained.head?_phrase hentry
    refine ⟨hchained.adds_phrase hcode, List.ne_nil_of_mem (List.mem_of_head? hhead), ?_, hhead,
      hchained.getLast?_phrase hentry, phrase_of_literal hentry, ?_, ?_⟩
    · rw [hchained.first?_eq hcode, first, hentry]
    · intro parent hparent
      obtain ⟨holder, hphrase⟩ := hchained.phrase_of_entry hentry hparent
      exact ⟨_, hchained.adds_phrase (Nat.lt_trans holder hcode), hphrase⟩
    · intro later hgrows
      exact ⟨(hgrows.entries_eq hcode).trans hentry, hreachable.adds_of_growsTo hgrows hcode⟩

/-- A code that is taken as soon as it is assigned, behind another one of this kind, with its
phrase in a full table, and a code of a single index. -/
theorem phrases_of_reachable_up_to_full_table :
    let size : CodeSize := ⟨2, by decide, by decide⟩
    let decompressor := ((Decompressor.initial size).decompress [0xF1] #[]).decompressor
    ∃ after full,
      Decompressor.Reachable size decompressor ∧
        decompressor.pending.unpack decompressor.expander.width [0x01] = (some 7, ⟨0, 7⟩, []) ∧
        decompressor.expander.step 7 = .ok (after, [1, 1, 1]) ∧
        after.table.Adds 7 [1, 1, 1] ∧
        after.table.entries[7]? = some ⟨some 6, 1, 1⟩ ∧
        after.table.Adds 6 [1, 1] ∧
        after.table.entries[1]? = some (.literal 1) ∧
        after.table.phrase 1 = [1] ∧
        after.table.GrowsTo full ∧
        full.isFull = true ∧
        full.Adds 7 [1, 1, 1] ∧
        full.reset size = initial size := by
  intro size decompressor
  let after : Expander :=
    { decompressor.expander with
      table := decompressor.expander.tableAfter 6 7
      width := decompressor.expander.widthAfter
      previous := some 7 }
  have hreachable : Decompressor.Reachable size decompressor := .decompress .initial _ _
  have hunpack : decompressor.pending.unpack decompressor.expander.width [0x01] =
      (some 7, ⟨0, 7⟩, []) := by
    unfold decompressor
    cbv
  have hstep : decompressor.expander.step 7 = .ok (after, [1, 1, 1]) := by
    unfold after decompressor
    cbv
  have hnext : after.table.next = 8 := by
    unfold after decompressor
    cbv
  have hentry : after.table.entries[7]? = some ⟨some 6, 1, 1⟩ := by
    unfold after decompressor
    cbv
  have hliteral : after.table.entries[1]? = some (.literal 1) := by
    unfold after decompressor
    cbv
  have hphrase : after.table.phrase 7 = [1, 1, 1] := by
    unfold after decompressor
    cbv
  have hpos : 0 < after.table.next := hnext ▸ Nat.succ_pos 7
  obtain ⟨full, hgrows, hfull⟩ := exists_growsTo_full hpos
  obtain ⟨hdecompressors, htables, -⟩ := phrases_of_reachable size
  obtain ⟨htable, hcodes⟩ := hdecompressors decompressor hreachable
  obtain ⟨hlater, hadds⟩ := hcodes _ 7 _ _ after _ hunpack hstep (by decide) (by decide)
  have hafter := htable.growsTo hlater
  obtain ⟨-, -, -, -, -, -, hparent, hkept⟩ := (htables _ hafter).1 7 _ hentry
  obtain ⟨shorter, hshorter, hconcat⟩ := hparent 6 rfl
  rw [hphrase] at hconcat hkept
  obtain rfl : shorter = [1, 1] := List.append_inj_left' hconcat.symm rfl
  obtain ⟨-, -, -, -, -, halone, -⟩ := (htables _ hafter).1 1 _ hliteral
  exact ⟨after, full, hreachable, hunpack, hstep, hadds, hentry, hshorter, hliteral, halone rfl,
    hgrows, hfull, (hkept full hgrows).2, (htables full (hafter.growsTo hgrows)).2.1⟩

end Table
end Lzw
end GifBitmap

import Mathlib.Algebra.Ring.Nat
import GifBitmap.Proofs.Lzw.CodeWidth

/-!
# How much input expands to

The phrase of a code that was assigned is one index longer than that of its parent, so it is at
most as long as the number of codes that were assigned up to it, and one more
(`Table.Linked.length_phrase`).  A table never has more entries than twelve bits can name.
Hence no code adds more indices than `CodeSize.longest`, and a bound for any calls follows from
the number of bits that each code takes at least.

Main facts:
* `Table.Linked.length_phrase`: the length of a phrase, from that of its parent;
* `Expander.Sound.length_step`: how many indices one code adds;
* `Decompressor.Reachable.exists_count`: how many codes a piece of input has;
* `Decompressor.expansion_bounded`: what holds of all phrases, codes and calls.
-/

namespace GifBitmap
namespace Lzw

/-- The greatest number of indices that one code can add. -/
def CodeSize.longest (size : CodeSize) : Nat :=
  max 1 (4095 - 2 ^ size.bits)

namespace Table

variable {table : Table} {size : CodeSize} {slot : Nat}

theorem Linked.length_phrase_of_lt
    (h : table.Linked size)
    (hslot : slot < size.firstFree) :
    (table.phrase slot).length = 1 := by
  obtain ⟨entry, hentry, hparent⟩ := h.parent_of_lt hslot
  rw [phrase_of_literal hentry hparent, List.length_singleton]

/-- By induction on the slot: the parent is older, so its phrase is shorter than the bound, or
it stands for a single index. -/
theorem Linked.length_phrase
    (h : table.Linked size)
    (hfree : size.firstFree ≤ slot)
    (hslot : slot < table.next) :
    2 ≤ (table.phrase slot).length ∧ (table.phrase slot).length ≤ slot - size.clearCode := by
  induction slot using Nat.strongRecOn with
  | ind slot ih =>
      obtain ⟨entry, parent, hentry, hparent, holder, -, -⟩ := h.parent_of_le hfree hslot
      rw [phrase_of_parent hentry hparent holder, List.length_append, List.length_singleton]
      have hfirst : size.firstFree = size.clearCode + 2 := rfl
      by_cases hassigned : size.firstFree ≤ parent
      · have hlength := ih parent holder hassigned (Nat.lt_trans holder hslot)
        omega
      · have hone := h.length_phrase_of_lt (Nat.lt_of_not_le hassigned)
        omega

/-- A code of twelve bits stands for at least one index, and for no more than the longest
phrase has. -/
theorem Linked.length_phrase_of_lt_next
    (h : table.Linked size)
    (hslot : slot < table.next)
    (hmax : slot < maxEntries) :
    1 ≤ (table.phrase slot).length ∧ (table.phrase slot).length ≤ size.longest := by
  have hlongest : size.longest = max 1 (4095 - size.clearCode) := rfl
  by_cases hfree : size.firstFree ≤ slot
  · have hlength := h.length_phrase hfree hslot
    have hlast : slot ≤ 4095 := Nat.le_of_lt_succ hmax
    omega
  · have hone := h.length_phrase_of_lt (Nat.lt_of_not_le hfree)
    omega

end Table

namespace Expander

variable {expander after : Expander} {code : Nat} {indices : List UInt8}

/-- A code that stands for a phrase adds at least one index, and at most as many as the longest
phrase has. -/
theorem Sound.length_step
    (h : expander.Sound)
    (hmax : code < maxEntries)
    (hstep : expander.step code = .ok (after, indices)) :
    indices.length ≤ expander.size.longest ∧
      (code ≠ expander.size.clearCode → code ≠ expander.size.endCode → 1 ≤ indices.length) := by
  rcases h.adds_of_step hmax hstep with ⟨rfl, hcode⟩ | ⟨hlt, rfl⟩
  · exact ⟨Nat.zero_le _, fun hclear hend => absurd hcode (not_or_intro hclear hend)⟩
  · obtain ⟨hsound, hsize⟩ := h.step hmax hstep
    obtain ⟨hone, hlongest⟩ := hsound.linked.length_phrase_of_lt_next hlt hmax
    exact ⟨hsize ▸ hlongest, fun _ _ => hone⟩

end Expander

namespace Decompressor

variable {size : CodeSize} {decompressor : Decompressor}

/-- How many indices calls add, each with a piece of input and a buffer of its own, whatever
became of the calls before. -/
def addedByCalls (decompressor : Decompressor) : List (Bytes × Array UInt8) → Nat
  | [] => 0
  | (bytes, buffer) :: calls =>
      let outcome := decompressor.decompress bytes buffer
      (outcome.buffer.size - buffer.size) + outcome.decompressor.addedByCalls calls

/-- How many bytes calls are given. -/
def givenToCalls (calls : List (Bytes × Array UInt8)) : Nat :=
  (calls.flatMap Prod.fst).length

/-- No code is narrower than the first one. -/
theorem Reachable.bits_initial_le (h : Reachable size decompressor) :
    (Width.initial size).bits ≤ decompressor.expander.width.bits := by
  obtain ⟨hsound, hsize⟩ := h.sound
  have hfree := hsound.expander.linked.firstFree_le
  rw [hsize] at hfree
  rw [h.fitted, Expander.bits_initial]
  exact widthFor_mono hfree

/-- The codes of a piece of input, by how many they are: what they add, and what they take of
the bits. -/
theorem Reachable.exists_count
    (h : Reachable size decompressor)
    (bytes : Bytes)
    (buffer : Array UInt8) :
    let outcome := decompressor.decompress bytes buffer
    ∃ count,
      outcome.buffer.size ≤ buffer.size + count * size.longest ∧
        count * (Width.initial size).bits + outcome.decompressor.pending.size ≤
          decompressor.pending.size + 8 * bytes.length := by
  fun_induction Decompressor.decompress decompressor bytes buffer with
  | case1 decompressor bytes buffer hdone =>
      dsimp only
      exact ⟨0, by omega, by omega⟩
  | case2 decompressor bytes buffer hdone pending left hunpack =>
      obtain ⟨-, hsize, -⟩ := BitBuffer.unpack_none hunpack
      dsimp only
      exact ⟨0, by omega, by omega⟩
  | case3 decompressor bytes buffer hdone code pending left hunpack cause hstep =>
      obtain ⟨hsize, -⟩ := BitBuffer.unpack_some_size hunpack
      dsimp only
      exact ⟨0, by omega, by omega⟩
  | case4 decompressor bytes buffer hdone code pending left hunpack expander indices hstep ih =>
      have hopen : decompressor.isDone = false := Bool.eq_false_iff.mpr hdone
      obtain ⟨hsound, hsame⟩ := h.sound
      obtain ⟨hlength, -⟩ := hsound.expander.length_step (hsound.lt_maxEntries hunpack) hstep
      have hwidth := h.bits_initial_le
      obtain ⟨hsize, -⟩ := BitBuffer.unpack_some_size hunpack
      obtain ⟨count, hadded, hbits⟩ := ih (.code h hopen hunpack hstep)
      have hlonger := size_append_bytes buffer indices
      rw [hsame] at hlength
      refine ⟨count + 1, ?_, ?_⟩
      · rw [Nat.succ_mul]
        omega
      · rw [Nat.succ_mul]
        dsimp only at hbits
        omega

/-- The same of calls, one after the other. -/
theorem Reachable.exists_count_calls
    (h : Reachable size decompressor)
    (calls : List (Bytes × Array UInt8)) :
    ∃ count,
      decompressor.addedByCalls calls ≤ count * size.longest ∧
        count * (Width.initial size).bits ≤
          decompressor.pending.size + 8 * givenToCalls calls := by
  induction calls generalizing decompressor with
  | nil => exact ⟨0, Nat.le_of_eq (Nat.zero_mul _).symm, by omega⟩
  | cons call calls ih =>
      obtain ⟨bytes, buffer⟩ := call
      obtain ⟨first, hfirst, hbits⟩ := h.exists_count bytes buffer
      obtain ⟨later, hlater, hrest⟩ := ih (h.decompress bytes buffer)
      have hgiven : givenToCalls ((bytes, buffer) :: calls) = bytes.length + givenToCalls calls :=
        List.length_append
      refine ⟨first + later, ?_, ?_⟩
      · rw [addedByCalls, Nat.add_mul]
        omega
      · rw [hgiven, Nat.add_mul]
        omega

/-- The phrase of a code that was assigned has two indices or more, and at most as many as its
distance from the clear code.  A code that stands for a phrase adds at least one index and at
most `max 1 (4095 - 2 ^ n)`, where `n` is the minimum code size.  A call leaves what its buffer
held, and all calls together add at most so many indices for each code of the first width that
their bits are enough for. -/
theorem expansion_bounded (size : CodeSize) :
    let most := max 1 (4095 - 2 ^ size.bits)
    (∀ decompressor, Reachable size decompressor →
      (∀ slot, 2 ^ size.bits + 2 ≤ slot → slot < decompressor.expander.table.next →
        2 ≤ (decompressor.expander.table.phrase slot).length ∧
          (decompressor.expander.table.phrase slot).length ≤ slot - 2 ^ size.bits) ∧
        (∀ bytes code pending left after indices,
          decompressor.pending.unpack decompressor.expander.width bytes =
              (some code, pending, left) →
            decompressor.expander.step code = .ok (after, indices) →
              code ≠ 2 ^ size.bits →
                code ≠ 2 ^ size.bits + 1 →
                  1 ≤ indices.length ∧ indices.length ≤ most) ∧
        ∀ bytes buffer,
          ∃ added : List UInt8,
            (decompressor.decompress bytes buffer).buffer = buffer ++ added) ∧
      ∀ calls,
        (initial size).addedByCalls calls ≤
          8 * givenToCalls calls / min 12 (size.bits + 1) * most := by
  intro most
  constructor
  · intro decompressor hreachable
    obtain ⟨hsound, hsize⟩ := hreachable.sound
    have hlinked := hsound.expander.linked
    rw [hsize] at hlinked
    refine ⟨fun slot hfree hslot => hlinked.length_phrase hfree hslot, ?_,
      decompressor.exists_buffer_eq⟩
    intro bytes code pending left after indices hunpack hstep hclear hend
    obtain ⟨hlt, -⟩ := BitBuffer.unpack_some_bits hsound.clean hunpack
    obtain ⟨hlength, hone⟩ := hsound.expander.length_step (Width.lt_maxEntries hlt) hstep
    rw [hsize] at hlength hone
    exact ⟨hone hclear hend, hlength⟩
  · intro calls
    have hreach : Reachable size (initial size) := .initial
    obtain ⟨count, hadded, hbits⟩ := hreach.exists_count_calls calls
    have hpending : (initial size).pending.size = 0 := rfl
    have hwidth : (Width.initial size).bits = min 12 (size.bits + 1) := rfl
    have hpos : 0 < min 12 (size.bits + 1) := Nat.lt_min.mpr ⟨by decide, Nat.succ_pos _⟩
    rw [hpending, Nat.zero_add, hwidth] at hbits
    have hcount : count ≤ 8 * givenToCalls calls / min 12 (size.bits + 1) :=
      (Nat.le_div_iff_mul_le hpos).mpr hbits
    exact Nat.le_trans hadded (Nat.mul_le_mul_right _ hcount)

/-- Four codes in two calls of which each but the first is taken as soon as it is assigned.
Their phrases are as long as they may be. -/
theorem expansion_bounded_of_growing_phrases :
    let size : CodeSize := ⟨2, by decide, by decide⟩
    let calls : List (Bytes × Array UInt8) := [([0xF0], #[9]), ([0x11], #[])]
    let after := ((initial size).decompress [0xF0, 0x11] #[9]).decompressor
    Reachable size after ∧
      after.expander.table.next = 9 ∧
      after.expander.table.phrase 8 = [0, 0, 0, 0] ∧
      [(0 : UInt8), 0, 0, 0].length ≤ 8 - 2 ^ 2 ∧
      (initial size).addedByCalls calls = 10 ∧
      10 ≤ 8 * givenToCalls calls / 3 * 4091 := by
  intro size calls after
  have hreachable : Reachable size after := .decompress .initial _ _
  have hnext : after.expander.table.next = 9 := by
    unfold after
    cbv
  have hphrase : after.expander.table.phrase 8 = [0, 0, 0, 0] := by
    unfold after
    cbv
  have hadded : (initial size).addedByCalls calls = 10 := by
    unfold calls
    cbv
  obtain ⟨hstates, htotal⟩ := expansion_bounded size
  obtain ⟨hphrases, -⟩ := hstates after hreachable
  have hlength := (hphrases 8 (by decide) (by omega)).2
  have hcalls := htotal calls
  rw [hphrase] at hlength
  rw [hadded] at hcalls
  exact ⟨hreachable, hnext, hphrase, hlength, hadded, hcalls⟩

end Decompressor
end Lzw
end GifBitmap

import GifBitmap.Proofs.Lzw.PhraseEncoding
import GifBitmap.Proofs.Lzw.TableLinks

/-!
# The width of the next code

The width of the codes is never computed from the table.  It is tested behind every code that
follows another one, also if that code found no room for an entry, and set back by a clear
code.  In all states that input leads to it is nevertheless the number of bits that the number
of entries has, up to twelve (`Expander.Fitted`).

Main facts:
* `Expander.Fitted.bits_widthAfter`, `Expander.Fitted.step`: the width is kept in step with the
  entries by the test, and by a code;
* `Expander.Fitted.lt_iff_assigns`: the one code with which the width grows;
* `Decompressor.width_of_reachable`: what holds in all states that input leads to.
-/

namespace GifBitmap
namespace Lzw

theorem widthFor_le_twelve (entries : Nat) : widthFor entries ≤ 12 :=
  Nat.min_le_left _ _

/-- More entries do not take fewer bits. -/
theorem widthFor_mono
    {first second : Nat}
    (h : first ≤ second) :
    widthFor first ≤ widthFor second := by
  have hlog : first.log2 ≤ second.log2 := by
    by_cases hzero : first = 0
    · rw [hzero, Nat.log2_zero]
      exact Nat.zero_le _
    · exact (Nat.le_log2 (by omega)).mpr (Nat.le_trans (Nat.log2_self_le hzero) h)
  unfold widthFor
  omega

namespace Expander

variable {expander after : Expander} {code : Nat} {indices : List UInt8}

/-- Whether a code assigns a slot: it is free before the code, and no longer afterwards. -/
def Assigns (before after : Expander) (slot : Nat) : Prop :=
  before.table.next ≤ slot ∧ slot < after.table.next

def Fitted (expander : Expander) : Prop :=
  expander.width.bits = widthFor expander.table.next

theorem bits_initial (size : CodeSize) :
    (Width.initial size).bits = widthFor size.firstFree :=
  (widthFor_two_pow_add_two size.two_le).symm

namespace Sound

/-- A clear code leaves as many entries as there are at the start. -/
theorem next_clear (h : expander.Sound) :
    expander.clear.table.next = expander.size.firstFree := by
  have hreset : expander.clear.table = Table.initial expander.size := h.linked.reset_eq
  rw [hreset, Table.next_initial]

/-- Only a code that follows another one assigns a slot, and none assigns two. -/
theorem next_cases
    (h : expander.Sound)
    (hstep : expander.step code = .ok (after, indices)) :
    after.table.next ≤ expander.table.next ∨
      after.table.next = expander.table.next + 1 ∧ after.width = expander.widthAfter := by
  rcases step_cases hstep with
    ⟨-, rfl, -⟩ | ⟨-, rfl, -⟩ | ⟨-, -, -, rfl, -⟩ | ⟨-, previous, -, -, rfl, -⟩
  · left
    rw [h.next_clear]
    exact h.linked.firstFree_le
  · exact .inl (Nat.le_refl _)
  · exact .inl (Nat.le_refl _)
  · by_cases hroom : expander.table.next < maxEntries
    · exact .inr ⟨Table.next_push_of_lt hroom, rfl⟩
    · have hsame : expander.tableAfter previous code = expander.table :=
        Table.push_of_isFull (Nat.le_of_not_lt hroom)
      exact .inl (Nat.le_of_eq (congrArg Table.next hsame))

end Sound

namespace Fitted

theorem initial (size : CodeSize) : (initial size).Fitted := by
  change (Width.initial size).bits = widthFor (Table.initial size).next
  rw [Table.next_initial, bits_initial]

/-- The test behind a code looks at the number of entries before it, and gives the width for
those after it.  With all slots in use it could only hold if a slot were left. -/
theorem bits_widthAfter
    (h : expander.Fitted)
    (hpos : 0 < expander.table.next)
    (previous code : Nat) :
    expander.widthAfter.bits = widthFor (expander.tableAfter previous code).next := by
  have hcodes : expander.width.codes = 2 ^ widthFor expander.table.next :=
    congrArg (2 ^ ·) h
  have hpow : 0 < 2 ^ widthFor expander.table.next := Nat.two_pow_pos _
  have hmax := widthFor_le_twelve expander.table.next
  rw [tableAfter, widthAfter, hcodes]
  by_cases hroom : expander.table.next < maxEntries
  · have hgrow : expander.width.grow.bits = min 12 (widthFor expander.table.next + 1) :=
      congrArg (fun bits => min 12 (bits + 1)) h
    rw [Table.next_push_of_lt hroom, widthFor_succ hpos hroom]
    by_cases hlast : expander.table.next + 1 = 2 ^ widthFor expander.table.next
    · rw [if_pos hlast, hgrow]
      split <;> omega
    · rw [if_neg hlast, if_neg (by omega)]
      exact h
  · have hle : 2 ^ widthFor expander.table.next ≤ maxEntries :=
      Nat.pow_le_pow_right Nat.two_pos hmax
    rw [Table.push_of_isFull (Nat.le_of_not_lt hroom), if_neg (by omega)]
    exact h

/-- A code keeps the width in step with the number of entries. -/
theorem step
    (h : expander.Fitted)
    (hsound : expander.Sound)
    (hstep : expander.step code = .ok (after, indices)) :
    after.Fitted := by
  have hfree := hsound.linked.firstFree_le
  rcases step_cases hstep with
    ⟨-, rfl, -⟩ | ⟨-, rfl, -⟩ | ⟨-, -, -, rfl, -⟩ | ⟨-, previous, -, -, rfl, -⟩
  · change (Width.initial expander.size).bits = widthFor expander.clear.table.next
    rw [hsound.next_clear, bits_initial]
  · exact h
  · exact h
  · exact h.bits_widthAfter (Nat.lt_of_lt_of_le (Nat.succ_pos _) hfree) previous code

/-- The width grows, by one bit, with the code that assigns the last slot which codes of the
width can name, unless it is the greatest width. -/
theorem lt_iff_assigns
    (h : expander.Fitted)
    (hsound : expander.Sound)
    (hstep : expander.step code = .ok (after, indices)) :
    (expander.width.bits < after.width.bits ↔
      expander.Assigns after (2 ^ expander.width.bits - 1) ∧ expander.width.bits < 12) ∧
      (expander.Assigns after (2 ^ expander.width.bits - 1) →
        after.width.bits = min 12 (expander.width.bits + 1)) := by
  have hmax : expander.width.bits ≤ 12 := expander.width.le_max
  unfold Assigns
  rcases hsound.next_cases hstep with hle | ⟨hnext, hwidth⟩
  · have hnarrow : after.width.bits ≤ expander.width.bits := by
      rw [h.step hsound hstep, h]
      exact widthFor_mono hle
    constructor
    · omega
    · omega
  · have hgrow : expander.width.grow.bits = min 12 (expander.width.bits + 1) := rfl
    have hcodes : expander.width.codes = 2 ^ expander.width.bits := rfl
    have hpow : 0 < 2 ^ expander.width.bits := Nat.two_pow_pos _
    rw [hwidth, widthAfter, hcodes, hnext]
    by_cases hlast : expander.table.next + 1 = 2 ^ expander.width.bits
    · rw [if_pos hlast, hgrow]
      constructor
      · omega
      · omega
    · rw [if_neg hlast]
      constructor
      · omega
      · omega

/-- While a slot is free, the width has a code for it, and for all codes that may come next. -/
theorem lt_two_pow
    (h : expander.Fitted)
    (hsound : expander.Sound)
    (hroom : expander.table.next < 4096) :
    expander.table.next < 2 ^ expander.width.bits ∧
      ∀ {code after indices}, expander.step code = .ok (after, indices) →
        code < 2 ^ expander.width.bits := by
  have hslot : expander.table.next < 2 ^ expander.width.bits := by
    rw [h]
    exact lt_two_pow_widthFor hroom
  refine ⟨hslot, fun hstep => ?_⟩
  have hfree := hsound.linked.firstFree_le
  unfold CodeSize.firstFree at hfree
  rcases step_cases hstep with
    ⟨rfl, -, -⟩ | ⟨rfl, -, -⟩ | ⟨-, -, hliteral, -, -⟩ | ⟨-, previous, -, hle, -, -⟩
  · omega
  · unfold CodeSize.endCode
    omega
  · omega
  · omega

end Fitted
end Expander

namespace Decompressor

/-- The width fits the number of entries in all states that input leads to. -/
theorem Reachable.fitted
    {size : CodeSize}
    {decompressor : Decompressor}
    (h : Reachable size decompressor) :
    decompressor.expander.Fitted :=
  h.expander_induction (.initial size) fun hsound _ hstep hfitted => hfitted.step hsound hstep

/-- In all states that input leads to, the width of the next code is the number of bits that
the number of entries has, up to twelve.  So while a slot is free there is a code for it, and
the width grows with the code that assigns the last slot it can name, until it is twelve. -/
theorem width_of_reachable
    {size : CodeSize}
    {decompressor : Decompressor}
    (h : Reachable size decompressor) :
    let expander := decompressor.expander
    let entries := expander.table.next
    let width := expander.width.bits
    width = min 12 (entries.log2 + 1) ∧
      width ≤ 12 ∧
      (entries < 4096 →
        entries < 2 ^ width ∧
          ∀ {code after indices}, expander.step code = .ok (after, indices) →
            code < 2 ^ width) ∧
      ∀ {code after indices}, expander.step code = .ok (after, indices) →
        (width < after.width.bits ↔ expander.Assigns after (2 ^ width - 1) ∧ width < 12) ∧
          (expander.Assigns after (2 ^ width - 1) → after.width.bits = min 12 (width + 1)) := by
  have hsound := h.sound.1.expander
  exact ⟨h.fitted, decompressor.expander.width.le_max, h.fitted.lt_two_pow hsound,
    h.fitted.lt_iff_assigns hsound⟩

/-- Behind the codes 0 and 1 there are seven entries, and the third code assigns slot 7, the
last one that three bits can name. -/
theorem width_of_third_code :
    let size : CodeSize := ⟨2, by decide, by decide⟩
    let before := ((initial size).decompress [0x88] #[]).decompressor
    ∃ after,
      Reachable size before ∧
        before.expander.table.next = 7 ∧
        before.expander.width.bits = 3 ∧
        before.expander.step 2 = .ok (after, [2]) ∧
        before.expander.Assigns after 7 ∧
        after.width.bits = 4 := by
  intro size before
  have hreachable : Reachable size before := .decompress .initial _ _
  have hentries : before.expander.table.next = 7 := by
    unfold before
    cbv
  have hwidth : before.expander.width.bits = 3 := by
    unfold before
    cbv
  let after : Expander :=
    { before.expander with
      table := before.expander.tableAfter 1 2
      width := before.expander.widthAfter
      previous := some 2 }
  have hstep : before.expander.step 2 = .ok (after, [2]) := by
    unfold after before
    cbv
  have hlast : after.table.next = 8 := by
    unfold after before
    cbv
  have hassigns : before.expander.Assigns after (2 ^ 3 - 1) := ⟨by omega, by omega⟩
  obtain ⟨-, -, -, hgrowth⟩ := width_of_reachable hreachable
  rw [hwidth] at hgrowth
  exact ⟨after, hreachable, hentries, hwidth, hstep, hassigns, (hgrowth hstep).2 hassigns⟩

end Decompressor
end Lzw
end GifBitmap

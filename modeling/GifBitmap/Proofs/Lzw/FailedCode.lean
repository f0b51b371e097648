import GifBitmap.Proofs.Lzw.TableLinks

/-!
# A code that fails

A code that cannot be decoded takes its bits away and changes nothing else.  To say so of a
whole piece of input, its bits are read as codes one by one (`Expander.Takes`), up to where
decoding comes to a halt (`Expander.Halts`).  Any piece is decoded in this way
(`Sound.decodes`), also one that is given behind a failure, and it gives up no byte that is
not needed for that.

Main facts:
* `BitBuffer.exists_taken`: the bytes that a code needs;
* `Decompressor.Sound.decodes`: a piece of input, code by code;
* `Decompressor.decodes_up_to_failure`: what a piece leaves behind that fails.
-/

namespace GifBitmap
namespace Lzw

@[simp]
theorem bitsOf_append (first second : Bytes) :
    bitsOf (first ++ second) = bitsOf first ++ bitsOf second :=
  List.flatMap_append

/-- A code that the buffer holds needs none of the bytes. -/
theorem BitBuffer.unpack_nil_of_le
    {buffer rest : BitBuffer}
    {width : Width}
    {bytes left : Bytes}
    {code : Nat}
    (hready : width.bits ≤ buffer.size)
    (h : buffer.unpack width bytes = (some code, rest, left)) :
    bytes = left ∧ buffer.unpack width [] = (some code, rest, []) := by
  rw [unpack_of_le bytes hready] at h
  simp only [Prod.mk.injEq] at h
  obtain ⟨hcode, hrest, hleft⟩ := h
  exact ⟨hleft, by rw [unpack_of_le [] hready, hcode, hrest]⟩

/-- A code that is found needs some of the bytes, and is not found in fewer of them. -/
theorem BitBuffer.exists_taken
    {buffer rest : BitBuffer}
    {width : Width}
    {bytes left : Bytes}
    {code : Nat}
    (h : buffer.unpack width bytes = (some code, rest, left)) :
    ∃ taken,
      bytes = taken ++ left ∧
        buffer.unpack width taken = (some code, rest, []) ∧
        ∀ count < taken.length,
          ∃ waiting, buffer.unpack width (taken.take count) = (none, waiting, []) := by
  induction bytes generalizing buffer with
  | nil =>
      by_cases hready : width.bits ≤ buffer.size
      · obtain ⟨rfl, hnone⟩ := unpack_nil_of_le hready h
        exact ⟨[], rfl, hnone, fun count hcount => absurd hcount (Nat.not_lt_zero count)⟩
      · simp [unpack, hready] at h
  | cons byte bytes ih =>
      by_cases hready : width.bits ≤ buffer.size
      · obtain ⟨rfl, hnone⟩ := unpack_nil_of_le hready h
        exact ⟨[], rfl, hnone, fun count hcount => absurd hcount (Nat.not_lt_zero count)⟩
      · rw [unpack, if_neg hready] at h
        obtain ⟨taken, rfl, htaken, hfewer⟩ := ih h
        refine ⟨byte :: taken, rfl, ?_, ?_⟩
        · rw [unpack, if_neg hready]
          exact htaken
        · intro count hcount
          cases count with
          | zero => exact ⟨buffer, by rw [List.take_zero, unpack, if_neg hready]⟩
          | succ count =>
              obtain ⟨waiting, hwaiting⟩ := hfewer count (Nat.lt_of_succ_lt_succ hcount)
              exact ⟨waiting, by rw [List.take_succ_cons, unpack, if_neg hready, hwaiting]⟩

/-- Where no code is found, none is found in a part of the bytes. -/
theorem BitBuffer.unpack_take_of_none
    {buffer rest : BitBuffer}
    {width : Width}
    {bytes left : Bytes}
    (h : buffer.unpack width bytes = (none, rest, left))
    (count : Nat) :
    ∃ waiting, buffer.unpack width (bytes.take count) = (none, waiting, []) := by
  obtain ⟨code, waiting, others, hfront⟩ :
      ∃ code waiting others, buffer.unpack width (bytes.take count) = (code, waiting, others) :=
    ⟨_, _, _, rfl⟩
  cases code with
  | none =>
      obtain ⟨rfl, -, -⟩ := unpack_none hfront
      exact ⟨waiting, hfront⟩
  | some code =>
      have hwhole := unpack_append_of_some hfront (bytes.drop count)
      rw [List.take_append_drop, h] at hwhole
      simp at hwhole

namespace Expander

/-- Codes that are taken one by one off the front of a string of bits, each as wide as the
state before it has it: the codes, the indices they add, and the state and the bits behind
them. -/
inductive Takes :
    Expander → BitString → List Nat → List UInt8 → Expander → BitString → Prop
  | nil (expander : Expander) (bits : BitString) :
      Takes expander bits [] [] expander bits
  | cons
      {before next after : Expander}
      {code : Nat}
      {codes : List Nat}
      {indices more : List UInt8}
      {bits left : BitString}
      (hopen : before.finished = false)
      (hwidth : code < 2 ^ before.width.bits)
      (hstep : before.step code = .ok (next, indices))
      (hrest : Takes next bits codes more after left) :
      Takes before (lowBits before.width.bits code ++ bits) (code :: codes) (indices ++ more)
        after left

/-- How decoding comes to a halt in front of some bits: the failure, if any, and the bits that
are kept. -/
inductive Halts (expander : Expander) : BitString → Option Error → BitString → Prop
  /-- The end code was met. -/
  | finished
      {bits : BitString}
      (hdone : expander.finished = true) :
      Halts expander bits none bits
  /-- The bits make up no code. -/
  | short
      {bits : BitString}
      (hopen : expander.finished = false)
      (hlength : bits.length < expander.width.bits) :
      Halts expander bits none bits
  /-- The next code cannot be decoded.  Its bits are not kept. -/
  | failed
      {code : Nat}
      {bits : BitString}
      {cause : Error}
      (hopen : expander.finished = false)
      (hwidth : code < 2 ^ expander.width.bits)
      (hstep : expander.step code = .error cause) :
      Halts expander (lowBits expander.width.bits code ++ bits) (some cause) bits

end Expander

namespace Decompressor

/-- What bytes lead to that are all taken: their bits stand behind those that were pending,
and codes are taken off the whole until decoding comes to a halt.  With fewer of the bytes it
would neither have failed nor met the end code. -/
structure Decodes
    (decompressor : Decompressor)
    (taken : Bytes)
    (buffer : Array UInt8)
    (outcome : Outcome) : Prop where
  codes : ∃ codes indices bits,
    decompressor.expander.Takes (decompressor.pending.bits ++ bitsOf taken) codes indices
        outcome.decompressor.expander bits ∧
      outcome.decompressor.expander.Halts bits outcome.failure outcome.decompressor.pending.bits ∧
      outcome.buffer = buffer ++ indices
  alone : decompressor.decompress taken buffer = outcome
  fewer : ∀ count < taken.length,
    (decompressor.decompress (taken.take count) buffer).failure = none ∧
      (decompressor.decompress (taken.take count) buffer).decompressor.isDone = false

variable {decompressor : Decompressor}

/-- Bytes that make up no code are kept. -/
theorem decompress_of_none
    (hopen : decompressor.isDone = false)
    {bytes left : Bytes}
    {pending : BitBuffer}
    (hunpack : decompressor.pending.unpack decompressor.expander.width bytes =
      (none, pending, left))
    (buffer : Array UInt8) :
    decompressor.decompress bytes buffer = ⟨none, { decompressor with pending }, buffer⟩ := by
  rw [decompress, if_neg (by simp [hopen]), hunpack]

/-- A code that fails keeps all but its bits. -/
theorem decompress_of_error
    (hopen : decompressor.isDone = false)
    {bytes left : Bytes}
    {code : Nat}
    {pending : BitBuffer}
    (hunpack : decompressor.pending.unpack decompressor.expander.width bytes =
      (some code, pending, left))
    {cause : Error}
    (hstep : decompressor.expander.step code = .error cause)
    (buffer : Array UInt8) :
    decompressor.decompress bytes buffer =
      ⟨some cause, { decompressor with pending }, buffer⟩ := by
  rw [decompress, if_neg (by simp [hopen]), hunpack]
  simp only [hstep]

/-- Behind a code the bytes that it did not need are decompressed. -/
theorem decompress_of_ok
    (hopen : decompressor.isDone = false)
    {bytes left : Bytes}
    {code : Nat}
    {pending : BitBuffer}
    (hunpack : decompressor.pending.unpack decompressor.expander.width bytes =
      (some code, pending, left))
    {expander : Expander}
    {indices : List UInt8}
    (hstep : decompressor.expander.step code = .ok (expander, indices))
    (buffer : Array UInt8) :
    decompressor.decompress bytes buffer =
      (⟨expander, pending⟩ : Decompressor).decompress left (buffer ++ indices) := by
  rw [decompress, if_neg (by simp [hopen]), hunpack]
  simp only [hstep]

/-- Bytes that make up no code lead to neither a failure nor the end code. -/
theorem open_of_none
    (hopen : decompressor.isDone = false)
    {bytes left : Bytes}
    {pending : BitBuffer}
    (hunpack : decompressor.pending.unpack decompressor.expander.width bytes =
      (none, pending, left))
    (buffer : Array UInt8) :
    (decompressor.decompress bytes buffer).failure = none ∧
      (decompressor.decompress bytes buffer).decompressor.isDone = false := by
  rw [decompress_of_none hopen hunpack]
  exact ⟨rfl, hopen⟩

/-- A code that is found is the front of the pending bits and those of the bytes it needs.
With fewer of them nothing happens. -/
theorem Sound.exists_taken
    (h : decompressor.Sound)
    (hopen : decompressor.isDone = false)
    {bytes left : Bytes}
    {code : Nat}
    {pending : BitBuffer}
    (hunpack : decompressor.pending.unpack decompressor.expander.width bytes =
      (some code, pending, left))
    (buffer : Array UInt8) :
    ∃ taken,
      bytes = taken ++ left ∧
        decompressor.pending.unpack decompressor.expander.width taken = (some code, pending, []) ∧
        code < 2 ^ decompressor.expander.width.bits ∧
        decompressor.pending.bits ++ bitsOf taken =
          lowBits decompressor.expander.width.bits code ++ pending.bits ∧
        ∀ count < taken.length,
          (decompressor.decompress (taken.take count) buffer).failure = none ∧
            (decompressor.decompress (taken.take count) buffer).decompressor.isDone = false := by
  obtain ⟨taken, hbytes, htaken, hfewer⟩ := BitBuffer.exists_taken hunpack
  obtain ⟨hwidth, hbits⟩ := BitBuffer.unpack_some_bits h.clean htaken
  rw [bitsOf_nil, List.append_nil] at hbits
  refine ⟨taken, hbytes, htaken, hwidth, hbits, fun count hcount => ?_⟩
  obtain ⟨waiting, hwaiting⟩ := hfewer count hcount
  exact open_of_none hopen hwaiting buffer

/-- Behind the end code no byte is taken. -/
theorem Decodes.of_isDone
    (hdone : decompressor.isDone = true)
    (buffer : Array UInt8) :
    decompressor.Decodes [] buffer ⟨none, decompressor, buffer⟩ where
  codes := by
    refine ⟨[], [], decompressor.pending.bits, ?_, .finished hdone, by simp⟩
    rw [bitsOf_nil, List.append_nil]
    exact .nil _ _
  alone := decompress_of_isDone hdone [] buffer
  fewer := fun count hcount => absurd hcount (Nat.not_lt_zero count)

/-- Bytes that make up no code are all taken. -/
theorem Decodes.of_none
    (hclean : decompressor.pending.Clean)
    (hopen : decompressor.isDone = false)
    {bytes left : Bytes}
    {pending : BitBuffer}
    (hunpack : decompressor.pending.unpack decompressor.expander.width bytes =
      (none, pending, left))
    (buffer : Array UInt8) :
    decompressor.Decodes bytes buffer ⟨none, { decompressor with pending }, buffer⟩ where
  codes := by
    obtain ⟨hbits, hshort⟩ := BitBuffer.unpack_none_bits hclean hunpack
    rw [← hbits] at hshort ⊢
    exact ⟨[], [], pending.bits, .nil _ _, .short hopen hshort, by simp⟩
  alone := decompress_of_none hopen hunpack buffer
  fewer := fun count _ => by
    obtain ⟨waiting, hwaiting⟩ := BitBuffer.unpack_take_of_none hunpack count
    exact open_of_none hopen hwaiting buffer

/-- A piece of input is decoded code by code from the bytes it needs for them, and bytes are
left of it only behind a failure or the end code. -/
theorem Sound.decodes
    (h : decompressor.Sound)
    (bytes : Bytes)
    (buffer : Array UInt8) :
    let outcome := decompressor.decompress bytes buffer
    ∃ taken left,
      bytes = taken ++ left ∧
        decompressor.Decodes taken buffer outcome ∧
        (left = [] ∨ outcome.failure ≠ none ∨ outcome.decompressor.isDone = true) := by
  fun_induction Decompressor.decompress decompressor bytes buffer with
  | case1 decompressor bytes buffer hdone =>
      exact ⟨[], bytes, rfl, .of_isDone hdone buffer, .inr (.inr hdone)⟩
  | case2 decompressor bytes buffer hdone pending left hunpack =>
      have hopen : decompressor.isDone = false := Bool.eq_false_iff.mpr hdone
      exact ⟨bytes, [], (List.append_nil bytes).symm, .of_none h.clean hopen hunpack buffer,
        .inl rfl⟩
  | case3 decompressor bytes buffer hdone code pending left hunpack cause hstep =>
      have hopen : decompressor.isDone = false := Bool.eq_false_iff.mpr hdone
      obtain ⟨taken, hbytes, htaken, hwidth, hbits, hfewer⟩ :=
        h.exists_taken hopen hunpack buffer
      have hcause : some cause ≠ none := Option.some_ne_none cause
      refine ⟨taken, left, hbytes, ⟨?_, ?_, hfewer⟩, .inr (.inl hcause)⟩
      · refine ⟨[], [], _, ?_, .failed hopen hwidth hstep, by simp⟩
        rw [hbits]
        exact .nil _ _
      · exact decompress_of_error hopen htaken hstep buffer
  | case4 decompressor bytes buffer hdone code pending left hunpack expander indices hstep ih =>
      have hopen : decompressor.isDone = false := Bool.eq_false_iff.mpr hdone
      obtain ⟨taken, hbytes, htaken, hwidth, hbits, hfewer⟩ :=
        h.exists_taken hopen hunpack buffer
      obtain ⟨following, others, hleft, ⟨⟨codes, more, bits, htakes, hhalts, hbuffer⟩, halone,
        hfollowing⟩, hend⟩ := ih (h.code hunpack hstep).1
      have happend (second : Bytes) :
          decompressor.decompress (taken ++ second) buffer =
            (⟨expander, pending⟩ : Decompressor).decompress second (buffer ++ indices) :=
        decompress_of_ok hopen (BitBuffer.unpack_append_of_some htaken second) hstep buffer
      refine ⟨taken ++ following, others, ?_, ⟨?_, (happend following).trans halone, ?_⟩, hend⟩
      · rw [hbytes, hleft, List.append_assoc]
      · refine ⟨code :: codes, indices ++ more, bits, ?_, hhalts, ?_⟩
        · rw [bitsOf_append, ← List.append_assoc, hbits, List.append_assoc]
          exact .cons hopen hwidth hstep htakes
        · rw [hbuffer]
          apply Array.ext'
          simp only [Array.toList_appendList, List.append_assoc]
      · -- Fewer bytes end within this code, or within those behind it.
        intro count hcount
        rw [List.length_append] at hcount
        by_cases hfront : count < taken.length
        · rw [List.take_append_of_le_length (Nat.le_of_lt hfront)]
          exact hfewer count hfront
        · rw [List.take_append, List.take_of_length_le (Nat.le_of_not_lt hfront), happend]
          exact hfollowing (count - taken.length) (by omega)

/-- From any state that input leads to, a piece that fails has decoded the codes in front of
one that cannot be decoded.  The state is the one they left, the buffer has their indices, and
of the bytes none is taken that this code does not need, so the ones behind it do not matter.
What is given next is decoded in that state, behind the bits that are left. -/
theorem decodes_up_to_failure
    {size : CodeSize}
    (h : Reachable size decompressor)
    {bytes : Bytes}
    {buffer : Array UInt8}
    {cause : Error}
    (hfails : (decompressor.decompress bytes buffer).failure = some cause) :
    let outcome := decompressor.decompress bytes buffer
    let before := outcome.decompressor.expander
    let pending := outcome.decompressor.pending
    (∃ codes indices code taken left,
      bytes = taken ++ left ∧
        decompressor.expander.Takes (decompressor.pending.bits ++ bitsOf taken) codes indices
          before (lowBits before.width.bits code ++ pending.bits) ∧
        before.finished = false ∧
        code < 2 ^ before.width.bits ∧
        before.step code = .error cause ∧
        outcome.buffer = buffer ++ indices ∧
        (∀ count < taken.length,
          (decompressor.decompress (taken.take count) buffer).failure = none) ∧
        ∀ others, decompressor.decompress (taken ++ others) buffer = outcome) ∧
      ∀ chunk longer,
        let next := outcome.decompressor.decompress chunk longer
        ∃ taken left,
          chunk = taken ++ left ∧
            outcome.decompressor.Decodes taken longer next ∧
            (left = [] ∨ next.failure ≠ none ∨ next.decompressor.isDone = true) := by
  intro outcome before pending
  constructor
  · obtain ⟨taken, left, hbytes, ⟨⟨codes, indices, bits, htakes, hhalts, hbuffer⟩, halone, hfewer⟩,
      -⟩ := h.sound.1.decodes bytes buffer
    rw [hfails] at hhalts
    cases hhalts with
    | failed hopen hwidth hstep =>
        refine ⟨codes, indices, _, taken, left, hbytes, htakes, hopen, hwidth, hstep, hbuffer,
          fun count hcount => (hfewer count hcount).1, fun others => ?_⟩
        rw [decompress_append, halone]
        simp only [hfails]
        rfl
  · exact fun chunk longer => (h.sound.1.decompress bytes buffer).1.decodes chunk longer

/-- Code 7 is not assigned behind code 1.  It leaves two bits, and with them the next byte
begins with code 6, which the codes before the failure allow. -/
theorem decodes_up_to_unassigned_code :
    let start := initial ⟨2, by decide, by decide⟩
    let outcome := start.decompress [0xB9, 0xFF] #[9]
    outcome.failure = some (.undefinedCode 7 6) ∧
      outcome.buffer = #[9, 1] ∧
      outcome.decompressor.pending.bits = [false, true] ∧
      (∃ taken left, [0xB9, 0xFF] = taken ++ left ∧
        ∀ others, start.decompress (taken ++ others) #[9] = outcome) ∧
      (outcome.decompressor.decompress [0x01] outcome.buffer).buffer = #[9, 1, 1, 1, 0, 0] := by
  intro start outcome
  have hfails : outcome.failure = some (.undefinedCode 7 6) := by
    unfold outcome start
    cbv
  have hbuffer : outcome.buffer = #[9, 1] := by
    unfold outcome start
    cbv
  have hpending : outcome.decompressor.pending.bits = [false, true] := by
    unfold outcome start
    cbv
  have hnext :
      (outcome.decompressor.decompress [0x01] outcome.buffer).buffer = #[9, 1, 1, 1, 0, 0] := by
    unfold outcome start
    cbv
  obtain ⟨⟨-, -, -, taken, left, hbytes, -, -, -, -, -, -, hothers⟩, -⟩ :=
    decodes_up_to_failure .initial hfails
  exact ⟨hfails, hbuffer, hpending, ⟨taken, left, hbytes, hothers⟩, hnext⟩

end Decompressor
end Lzw
end GifBitmap

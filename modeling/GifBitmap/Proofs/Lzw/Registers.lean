import GifBitmap.Proofs.Lzw.CheckedTable

/-!
# Decompression in words of fixed length

`Registers` is the decompressor with words of 8, 16 and 32 bits.  Each of its operations
gives `none` where it has no value, also where more bytes are left out than there are, or
where a loop does not end.

In all states that input leads to, none of this happens, and both machines do the same.

Main facts:
* `Decompressor.unpack_registers`, `Decompressor.step_registers`: both machines take the same
  codes, and do the same with a code;
* `Decompressor.decompressWithin_succ`, `Decompressor.decompress_registers`: both machines do
  the same in a round, and with a piece of input;
* `Decompressor.safe_of_reachable`: what holds in all states that input leads to.
-/

namespace GifBitmap
namespace Lzw

/-- The state of decompression in words. -/
structure Registers where
  table : Table
  /-- The minimum code size, in 8 bits. -/
  minBits : Nat
  /-- The number of bits of the next code, in 8 bits. -/
  width : Nat
  /-- The code before the next one, in 16 bits. -/
  previous : Option Nat
  /-- Bits of the input that wait to be used, in 32 bits. -/
  held : Nat
  /-- The number of those bits, in 8 bits. -/
  heldBits : Nat
  finished : Bool

namespace Registers

def firstWidth (minBits : Nat) : Option Nat := do
  let width ← Word.fit 8 (minBits + 1)
  return min maxWidth width

/-- The state before the first byte, for the minimum code size that a byte gives. -/
def ofByte (byte : UInt8) : Option (Except Error Registers) :=
  if 2 ≤ byte.toNat ∧ byte.toNat ≤ maxWidth then do
    let table ← Table.reset? ⟨#[]⟩ byte.toNat
    let width ← firstWidth byte.toNat
    return .ok {
      table
      minBits := byte.toNat
      width
      previous := none
      held := 0
      heldBits := 0
      finished := false }
  else
    return .error (.codeSizeOutOfRange byte)

/-- Takes bytes as long as too few bits wait for a code, and counts those bytes. -/
def fill (registers : Registers) : Bytes → Option (Nat × Registers)
  | [] => some (0, registers)
  | byte :: bytes =>
      if registers.width ≤ registers.heldBits then
        some (0, registers)
      else do
        let high ← Word.shiftLeft 32 byte.toNat registers.heldBits
        let heldBits ← Word.fit 8 (registers.heldBits + 8)
        let held := registers.held ||| high
        let (count, filled) ← fill { registers with held, heldBits } bytes
        return (count + 1, filled)

/-- Cuts a code off the bits that wait, if there are enough of them. -/
def takeCode (registers : Registers) : Option (Option Nat × Registers) :=
  if registers.width ≤ registers.heldBits then do
    let codes ← Word.shiftLeft 32 1 registers.width
    let mask ← Word.subtract codes 1
    let held ← Word.shiftRight 32 registers.held registers.width
    let heldBits ← Word.subtract registers.heldBits registers.width
    let code := (registers.held &&& mask) % 2 ^ 16
    return (some code, { registers with held, heldBits })
  else
    return (none, registers)

/-- The next code, if there is one, and the number of bytes that were taken for it. -/
def unpack (registers : Registers) (bytes : Bytes) :
    Option (Nat × Option Nat × Registers) := do
  let (count, filled) ← registers.fill bytes
  let (code, rest) ← filled.takeCode
  return (count, code, rest)

/-- One bit more for the next code, if slot `next` is the last one of the width. -/
def growAt (registers : Registers) (next : Nat) : Option Registers := do
  let following ← Word.fit 16 (next + 1)
  let codes ← Word.shiftLeft 16 1 registers.width
  if following = codes then
    let width ← Word.fit 8 (registers.width + 1)
    return { registers with width := min maxWidth width }
  else
    return registers

/-- Takes one code that stands for a phrase, and gives that phrase. -/
def expand (registers : Registers) (code : Nat) :
    Option (Except Error (Registers × List UInt8)) := do
  let next := registers.table.nextWord
  let clear ← Word.shiftLeft 16 1 registers.minBits
  if code < clear ∧ 255 < code then
    return .error (.indexOutOfRange code)
  else
    match registers.previous with
    | none =>
        if clear ≤ code then
          return .error (.undefinedCode code next)
        else
          let indices ← registers.table.phrase? code
          return .ok (registers, indices)
    | some previous =>
        if next < code then
          return .error (.undefinedCode code next)
        else if code = next then
          -- The code gets its entry first.
          let index ← registers.table.first? previous
          let table ← registers.table.push? previous index
          let indices ← table.phrase? code
          let after ← { registers with table }.growAt next
          return .ok (after, indices)
        else
          let indices ← registers.table.phrase? code
          let index ← registers.table.first? code
          let table ← registers.table.push? previous index
          let after ← { registers with table }.growAt next
          return .ok (after, indices)

/-- Takes one code, and gives the indices it adds to the output. -/
def step (registers : Registers) (code : Nat) :
    Option (Except Error (Registers × List UInt8)) := do
  let clear ← Word.shiftLeft 16 1 registers.minBits
  let last ← Word.fit 16 (clear + 1)
  if code = clear then
    let table ← registers.table.reset? registers.minBits
    let width ← firstWidth registers.minBits
    return .ok ({ registers with table, width, previous := none }, [])
  else if code = last then
    return .ok ({ registers with finished := true }, [])
  else
    match ← registers.expand code with
    | .error cause => return .error cause
    | .ok (after, indices) => return .ok ({ after with previous := some code }, indices)

/-- Decompresses a piece of input in so many rounds at most, one for each code and one for the
end: the failure, if any, the state afterwards, and the buffer with further indices. -/
def decompressWithin :
    (rounds : Nat) → Registers → Bytes → Array UInt8 →
      Option (Option Error × Registers × Array UInt8)
  | 0, _, _, _ => none
  | rounds + 1, registers, bytes, buffer =>
      if registers.finished then
        some (none, registers, buffer)
      else do
        let (count, found, rest) ← registers.unpack bytes
        match found with
        | none => return (none, rest, buffer)
        | some code =>
            match ← rest.step code with
            | .error cause => return (some cause, rest, buffer)
            | .ok (after, indices) =>
                if count ≤ bytes.length then
                  after.decompressWithin rounds (bytes.drop count) (buffer ++ indices)
                else
                  none

/-- Decompresses a piece of input.  A code has at least one bit: a loop with more rounds than
there are bits goes on without input, and does not end. -/
def decompress (registers : Registers) (bytes : Bytes) (buffer : Array UInt8) :
    Option (Option Error × Registers × Array UInt8) :=
  registers.decompressWithin (registers.heldBits + 8 * bytes.length + 1) bytes buffer

end Registers

namespace Decompressor

/-- The words of a decompressor. -/
def registers (decompressor : Decompressor) : Registers where
  table := decompressor.expander.table
  minBits := decompressor.expander.size.bits
  width := decompressor.expander.width.bits
  previous := decompressor.expander.previous
  held := decompressor.pending.value
  heldBits := decompressor.pending.size
  finished := decompressor.expander.finished

variable {decompressor : Decompressor}

theorem firstWidth_eq (size : CodeSize) :
    Registers.firstWidth size.bits = some (Width.initial size).bits := by
  have hbits : size.bits + 1 < 2 ^ 8 :=
    Nat.lt_of_le_of_lt (Nat.succ_le_succ size.le_max) (by decide)
  simp only [Registers.firstWidth, Word.fit_of_lt hbits, Option.bind_eq_bind, Option.bind_some]
  rfl

/-- The masked bits are the code that stands in front. -/
theorem takeCode_of_le
    (h : decompressor.expander.width.bits ≤ decompressor.pending.size) :
    decompressor.registers.takeCode =
      some
        (some (decompressor.pending.front decompressor.expander.width.bits),
          registers { decompressor with
            pending := decompressor.pending.drop decompressor.expander.width.bits }) := by
  have hwidth := Width.bits_lt decompressor.expander.width
  have hwide : decompressor.expander.width.bits < 32 := Nat.lt_trans hwidth (by decide)
  have hcode : (decompressor.pending.value &&& 2 ^ decompressor.expander.width.bits - 1) % 2 ^ 16 =
      decompressor.pending.front decompressor.expander.width.bits := by
    rw [Nat.and_two_pow_sub_one_eq_mod]
    refine Nat.mod_eq_of_lt (Nat.lt_trans (Nat.mod_lt _ (Nat.two_pow_pos _)) ?_)
    exact Nat.pow_lt_pow_right (by decide) hwidth
  simp only [Registers.takeCode, registers, if_pos h, Word.shiftLeft_one hwide,
    Word.subtract_of_le (Nat.one_le_two_pow), Word.shiftRight_of_lt hwide,
    Word.subtract_of_le h, Option.bind_eq_bind, Option.bind_some, hcode]
  rfl

theorem takeCode_of_lt
    (h : decompressor.pending.size < decompressor.expander.width.bits) :
    decompressor.registers.takeCode = some (none, decompressor.registers) :=
  if_neg (Nat.not_le_of_lt h)

/-- A byte is put above the bits that wait, and none of its own bits is lost. -/
theorem fill_cons_of_lt
    (hclean : decompressor.pending.Clean)
    (h : decompressor.pending.size < decompressor.expander.width.bits)
    (byte : UInt8)
    (bytes : Bytes) :
    decompressor.registers.fill (byte :: bytes) =
      ((registers { decompressor with pending := decompressor.pending.push byte }).fill bytes).map
        fun (count, filled) => (count + 1, filled) := by
  have hsize : decompressor.pending.size < 12 :=
    Nat.lt_of_lt_of_le h decompressor.expander.width.le_max
  have hbyte : byte.toNat < 2 ^ 8 := byte.toNat_lt
  have hpow : 2 ^ decompressor.pending.size ≤ 2 ^ 12 :=
    Nat.pow_le_pow_right (by decide) (Nat.le_of_lt hsize)
  have hhigh : byte.toNat * 2 ^ decompressor.pending.size < 2 ^ 32 :=
    Nat.lt_of_le_of_lt (Nat.mul_le_mul (Nat.le_of_lt hbyte) hpow) (by decide)
  have hor : decompressor.pending.value ||| byte.toNat * 2 ^ decompressor.pending.size =
      decompressor.pending.value + byte.toNat * 2 ^ decompressor.pending.size := by
    rw [Nat.or_comm, Nat.mul_comm, ← Nat.two_pow_add_eq_or_of_lt hclean, Nat.add_comm]
  have hopen : ¬decompressor.registers.width ≤ decompressor.registers.heldBits :=
    Nat.not_le_of_lt h
  rw [Registers.fill, if_neg hopen]
  simp only [registers, Word.shiftLeft_of_lt (Nat.lt_trans hsize (by decide)) hhigh,
    Word.fit_of_lt (show decompressor.pending.size + 8 < 2 ^ 8 by omega), hor,
    Option.bind_eq_bind, Option.bind_some]
  exact Option.map_eq_bind.symm

/-- The bytes behind one that was taken are counted from there. -/
theorem unpack_cons_of_lt
    (hclean : decompressor.pending.Clean)
    (h : decompressor.pending.size < decompressor.expander.width.bits)
    (byte : UInt8)
    (bytes : Bytes) :
    decompressor.registers.unpack (byte :: bytes) =
      ((registers { decompressor with pending := decompressor.pending.push byte }).unpack bytes).map
        fun (count, code, rest) => (count + 1, code, rest) := by
  rw [Registers.unpack, Registers.unpack, fill_cons_of_lt hclean h byte bytes]
  cases (registers { decompressor with pending := decompressor.pending.push byte }).fill bytes with
  | none => rfl
  | some found =>
      simp only [Option.map_some, Option.bind_eq_bind, Option.bind_some]
      cases found.2.takeCode with
      | none => rfl
      | some taken => rfl

/-- Both machines take the same bytes for a code. -/
theorem unpack_registers
    (hclean : decompressor.pending.Clean)
    {bytes left : Bytes}
    {code : Option Nat}
    {pending : BitBuffer}
    (h : decompressor.pending.unpack decompressor.expander.width bytes =
      (code, pending, left)) :
    ∃ count,
      count ≤ bytes.length ∧
        bytes.drop count = left ∧
        decompressor.registers.unpack bytes =
          some (count, code, registers { decompressor with pending }) := by
  induction bytes generalizing decompressor with
  | nil =>
      unfold BitBuffer.unpack at h
      split at h
      · rename_i hsize
        simp only [Prod.mk.injEq] at h
        obtain ⟨rfl, rfl, rfl⟩ := h
        refine ⟨0, Nat.le_refl 0, rfl, ?_⟩
        simp only [Registers.unpack, Registers.fill, Option.bind_eq_bind, Option.bind_some,
          takeCode_of_le hsize]
        rfl
      · rename_i hsize
        simp only [Prod.mk.injEq] at h
        obtain ⟨rfl, rfl, rfl⟩ := h
        refine ⟨0, Nat.le_refl 0, rfl, ?_⟩
        simp only [Registers.unpack, Registers.fill, Option.bind_eq_bind, Option.bind_some,
          takeCode_of_lt (Nat.lt_of_not_le hsize)]
        rfl
  | cons byte bytes ih =>
      unfold BitBuffer.unpack at h
      split at h
      · rename_i hsize
        simp only [Prod.mk.injEq] at h
        obtain ⟨rfl, rfl, rfl⟩ := h
        have hfull : decompressor.registers.width ≤ decompressor.registers.heldBits := hsize
        refine ⟨0, Nat.zero_le _, rfl, ?_⟩
        simp only [Registers.unpack, Registers.fill, if_pos hfull, Option.bind_eq_bind,
          Option.bind_some, takeCode_of_le hsize]
        rfl
      · rename_i hsize
        have hcons := unpack_cons_of_lt hclean (Nat.lt_of_not_le hsize) byte bytes
        obtain ⟨count, hcount, hleft, hunpack⟩ :=
          @ih { decompressor with pending := decompressor.pending.push byte } (hclean.push byte) h
        refine ⟨count + 1, Nat.succ_le_succ hcount, hleft, ?_⟩
        rw [hcons, hunpack]
        rfl

section Codes

variable {expander : Expander} {pending : BitBuffer} {code : Nat}

theorem next_lt (h : expander.Sound) : expander.table.next + 1 < 2 ^ 16 := by
  have hle := h.linked.next_le
  have hpow : 2 ^ expander.size.bits ≤ 2 ^ maxWidth :=
    Nat.pow_le_pow_right (by decide) expander.size.le_max
  have hmax : maxEntries = 4096 := rfl
  unfold CodeSize.firstFree CodeSize.clearCode at hle
  unfold maxWidth at hpow
  omega

/-- The width grows for both machines at the same slot. -/
theorem growAt_next
    (h : expander.Sound)
    (pending : BitBuffer)
    (table : Table) :
    ({ registers ⟨expander, pending⟩ with table } : Registers).growAt expander.table.next =
      some { registers ⟨expander, pending⟩ with table, width := expander.widthAfter.bits } := by
  have hbits := Width.bits_lt expander.width
  have hwide : expander.width.bits + 1 < 2 ^ 8 := Nat.lt_of_le_of_lt hbits (by decide)
  have hcodes : expander.width.codes = 2 ^ expander.width.bits := rfl
  simp only [Registers.growAt, registers, Word.fit_of_lt (next_lt h), Word.shiftLeft_one hbits,
    Word.fit_of_lt hwide, Option.bind_eq_bind, Option.bind_some, Expander.widthAfter, hcodes]
  split
  · rfl
  · rfl

theorem clear_eq (size : CodeSize) :
    Word.shiftLeft 16 1 size.bits = some size.clearCode :=
  Word.shiftLeft_one (Nat.lt_of_le_of_lt size.le_max (by decide))

theorem last_eq (size : CodeSize) :
    Word.fit 16 (size.clearCode + 1) = some size.endCode :=
  Word.fit_of_lt (Nat.lt_of_succ_lt (CodeSize.firstFree_lt size))

/-- A code behind the start or a clear code is looked up as the code of a single index. -/
theorem expand_of_none
    (h : expander.Sound)
    (hprevious : expander.previous = none)
    (hbyte : ¬(code < expander.size.clearCode ∧ 255 < code)) :
    (registers ⟨expander, pending⟩).expand code =
      some ((expander.expand code).map fun (after, indices) =>
        ({ registers ⟨after, pending⟩ with previous := none }, indices)) := by
  have hnext := h.linked.chained.nextWord_eq
  simp only [Registers.expand, registers, clear_eq, Option.bind_eq_bind, Option.bind_some,
    if_neg hbyte, hprevious, hnext, Expander.expand]
  by_cases hliteral : code < expander.size.clearCode
  · have hcode := h.linked.lt_next_of_literal hliteral
    simp only [if_neg (Nat.not_le_of_lt hliteral), if_pos hliteral, h.linked.phrase?_eq hcode,
      Option.bind_some]
    rfl
  · simp only [if_pos (Nat.le_of_not_lt hliteral), if_neg hliteral]
    rfl

/-- A code behind another one is looked up before its own entry is made, or afterwards if
it is the code of that entry. -/
theorem expand_of_some
    (h : expander.Sound)
    {previous : Nat}
    (hprevious : expander.previous = some previous)
    (hmax : code < maxEntries)
    (hbyte : ¬(code < expander.size.clearCode ∧ 255 < code)) :
    (registers ⟨expander, pending⟩).expand code =
      some ((expander.expand code).map fun (after, indices) =>
        ({ registers ⟨after, pending⟩ with previous := some previous }, indices)) := by
  have hnext := h.linked.chained.nextWord_eq
  obtain ⟨-, hlt⟩ := h.previous hprevious
  have hafter := h.linked_tableAfter hprevious code
  rcases Nat.lt_trichotomy code expander.table.next with hold | hfree | hbeyond
  · have hle := Nat.le_of_lt hold
    have htable : expander.tableAfter previous code =
        expander.table.push previous (expander.table.first code) := by
      rw [Expander.tableAfter, if_pos hold]
    have hphrase : (expander.tableAfter previous code).phrase code =
        expander.table.phrase code := by
      rw [htable, Table.phrase_push_of_lt hold]
    have hgrow := growAt_next h pending (expander.tableAfter previous code)
    simp only [registers, hprevious] at hgrow
    simp only [Registers.expand, registers, clear_eq, Option.bind_eq_bind, Option.bind_some,
      if_neg hbyte, hprevious, hnext, Expander.expand, if_neg (Nat.not_lt_of_le hle),
      if_neg (Nat.ne_of_lt hold), if_pos hle, h.linked.phrase?_eq hold,
      h.linked.first?_eq hold, h.linked.chained.push?_eq hlt, ← htable, hgrow, hphrase]
    rfl
  · have hle := Nat.le_of_eq hfree
    have htable : expander.tableAfter previous code =
        expander.table.push previous (expander.table.first previous) := by
      rw [Expander.tableAfter, if_neg (Nat.not_lt_of_le (Nat.le_of_eq hfree.symm))]
    have hassigned := Expander.Sound.lt_next_tableAfter previous hle hmax
    have hphrase := hafter.phrase?_eq hassigned
    have hgrow := growAt_next h pending (expander.tableAfter previous code)
    simp only [registers, hprevious] at hgrow
    simp only [Registers.expand, registers, clear_eq, Option.bind_eq_bind, Option.bind_some,
      if_neg hbyte, hprevious, hnext, Expander.expand, if_neg (Nat.not_lt_of_le hle),
      if_pos hfree, if_pos hle, h.linked.first?_eq hlt, h.linked.chained.push?_eq hlt, ← htable,
      hphrase, hgrow]
    rfl
  · simp only [Registers.expand, registers, clear_eq, Option.bind_eq_bind, Option.bind_some,
      if_neg hbyte, hprevious, hnext, Expander.expand, if_pos hbeyond,
      if_neg (Nat.not_le_of_lt hbeyond)]
    rfl

/-- Both machines expand a code in the same way; which code came last is noted later. -/
theorem expand_registers
    (h : expander.Sound)
    (hmax : code < maxEntries)
    (hbyte : ¬(code < expander.size.clearCode ∧ 255 < code)) :
    (registers ⟨expander, pending⟩).expand code =
      some ((expander.expand code).map fun (after, indices) =>
        ({ registers ⟨after, pending⟩ with previous := expander.previous }, indices)) := by
  cases hprevious : expander.previous with
  | none => exact expand_of_none h hprevious hbyte
  | some previous => exact expand_of_some h hprevious hmax hbyte

theorem previous_of_expand
    {after : Expander}
    {indices : List UInt8}
    (h : expander.expand code = .ok (after, indices)) :
    after.previous = some code := by
  unfold Expander.expand at h
  split at h
  · split at h
    · simp only [Except.ok.injEq, Prod.mk.injEq] at h
      rw [← h.1]
    · simp at h
  · split at h
    · simp only [Except.ok.injEq, Prod.mk.injEq] at h
      rw [← h.1]
    · simp at h

/-- Both machines do the same with a code. -/
theorem step_registers
    (h : expander.Sound)
    (hmax : code < maxEntries)
    (pending : BitBuffer) :
    (registers ⟨expander, pending⟩).step code =
      some ((expander.step code).map fun (after, indices) =>
        (registers ⟨after, pending⟩, indices)) := by
  have hreset := h.linked.chained.reset?_eq
  have hwidth := firstWidth_eq expander.size
  have hstart : (registers ⟨expander, pending⟩).minBits = expander.size.bits := rfl
  rw [Registers.step, hstart, clear_eq, Expander.step]
  simp only [Option.bind_eq_bind, Option.bind_some, last_eq]
  by_cases hclear : code = expander.size.clearCode
  · simp only [if_pos hclear, registers, hreset, hwidth, Option.bind_some]
    rfl
  · by_cases hend : code = expander.size.endCode
    · simp only [if_neg hclear, if_pos hend]
      rfl
    · by_cases hbyte : code < expander.size.clearCode ∧ 255 < code
      · simp only [if_neg hclear, if_neg hend, if_pos hbyte, Registers.expand, hstart, clear_eq,
          Option.bind_eq_bind, Option.bind_some]
        rfl
      · simp only [if_neg hclear, if_neg hend, if_neg hbyte, expand_registers h hmax hbyte,
          Option.bind_some]
        cases hexpand : expander.expand code with
        | error cause => rfl
        | ok found =>
            obtain ⟨after, indices⟩ := found
            have hafter := previous_of_expand hexpand
            simp only [Except.map, registers, hafter]
            rfl

end Codes

/-- Both machines start in the same state, or refuse the same code size. -/
theorem registers_ofByte (byte : UInt8) :
    Registers.ofByte byte = some ((ofByte byte).map registers) := by
  unfold Registers.ofByte ofByte CodeSize.ofByte
  by_cases hbyte : 2 ≤ byte.toNat ∧ byte.toNat ≤ maxWidth
  · have htable := Table.reset?_empty ⟨byte.toNat, hbyte.1, hbyte.2⟩
    have hwidth := firstWidth_eq ⟨byte.toNat, hbyte.1, hbyte.2⟩
    dsimp only at htable hwidth
    rw [if_pos hbyte, dif_pos hbyte, htable, hwidth]
    rfl
  · rw [if_neg hbyte, dif_neg hbyte]
    rfl

/-- One round: both machines unpack the same, and do the same with a code. -/
theorem decompressWithin_succ
    (h : decompressor.Sound)
    (hopen : ¬decompressor.isDone = true)
    {bytes left : Bytes}
    {found : Option Nat}
    {pending : BitBuffer}
    (hcode : decompressor.pending.unpack decompressor.expander.width bytes =
      (found, pending, left))
    (rounds : Nat)
    (buffer : Array UInt8) :
    decompressor.registers.decompressWithin (rounds + 1) bytes buffer =
      match found with
      | none => some (none, registers { decompressor with pending }, buffer)
      | some code =>
          match decompressor.expander.step code with
          | .error cause => some (some cause, registers { decompressor with pending }, buffer)
          | .ok (expander, indices) =>
              (registers ⟨expander, pending⟩).decompressWithin rounds left (buffer ++ indices) := by
  have hfinished : ¬decompressor.registers.finished = true := hopen
  obtain ⟨count, hcount, hleft, hunpack⟩ := unpack_registers h.clean hcode
  rw [Registers.decompressWithin, if_neg hfinished, hunpack]
  cases found with
  | none => rfl
  | some code =>
      have hboth := step_registers h.expander (h.lt_maxEntries hcode) pending
      simp only [Option.bind_eq_bind, Option.bind_some, hboth]
      cases decompressor.expander.step code with
      | error cause => rfl
      | ok taken => simp only [Except.map, if_pos hcount, hleft]

/-- Both machines do the same with a piece of input, if there are more rounds than bits. -/
theorem decompressWithin_registers
    (h : decompressor.Sound)
    {rounds : Nat}
    {bytes : Bytes}
    (hrounds : decompressor.pending.size + 8 * bytes.length < rounds)
    (buffer : Array UInt8) :
    decompressor.registers.decompressWithin rounds bytes buffer =
      let outcome := decompressor.decompress bytes buffer
      some (outcome.failure, outcome.decompressor.registers, outcome.buffer) := by
  obtain ⟨rounds, rfl⟩ := Nat.exists_eq_succ_of_ne_zero (Nat.ne_zero_of_lt hrounds)
  fun_induction Decompressor.decompress decompressor bytes buffer generalizing rounds with
  | case1 decompressor bytes buffer hdone =>
      have hfinished : decompressor.registers.finished = true := hdone
      rw [Registers.decompressWithin, if_pos hfinished]
  | case2 decompressor bytes buffer hdone pending left hcode =>
      exact decompressWithin_succ h hdone hcode rounds buffer
  | case3 decompressor bytes buffer hdone code pending left hcode failure hstep =>
      have hround := decompressWithin_succ h hdone hcode rounds buffer
      simpa only [hstep] using hround
  | case4 decompressor bytes buffer hdone code pending left hcode expander indices hstep ih =>
      have hround := decompressWithin_succ h hdone hcode rounds buffer
      obtain ⟨hafter, -⟩ := h.code hcode hstep
      -- The code took its bits, so the rounds that remain are more than the bits that do.
      obtain ⟨hsize, -⟩ := BitBuffer.unpack_some_size hcode
      have hpos := decompressor.expander.width.pos
      obtain ⟨rest, rfl⟩ := Nat.exists_eq_succ_of_ne_zero (n := rounds) (by omega)
      have hrest := ih hafter rest (by dsimp only; omega)
      simp only [hstep] at hround
      exact hround.trans hrest

/-- Both machines do the same with a piece of input. -/
theorem decompress_registers
    (h : decompressor.Sound)
    (bytes : Bytes)
    (buffer : Array UInt8) :
    decompressor.registers.decompress bytes buffer =
      let outcome := decompressor.decompress bytes buffer
      some (outcome.failure, outcome.decompressor.registers, outcome.buffer) :=
  decompressWithin_registers h (Nat.lt_succ_self _) buffer

/-- In every state that input leads to, the length of the table is in its bounds, the entries
are linked, and the code before the next one stands for a phrase.  So assigned codes are
looked up by walks that end, a code that gets its own entry finds room for it, and the
machine of words starts and goes on with any input as this one does. -/
theorem safe_of_reachable
    {size : CodeSize}
    (h : Reachable size decompressor) :
    let expander := decompressor.expander
    let table := expander.table
    expander.size = size ∧
      table.Linked size ∧
      (∀ previous, expander.previous = some previous →
        previous < table.next ∧
          previous ≠ size.clearCode ∧
          previous ≠ size.endCode ∧
          (previous < size.clearCode → previous ≤ 255)) ∧
      (∀ code, code < table.next →
        table.first? code = some (table.first code) ∧
          table.phrase? code = some (table.phrase code)) ∧
      (∀ bytes code pending left,
        decompressor.pending.unpack expander.width bytes = (some code, pending, left) →
          code = table.next →
            table.isFull = false) ∧
      (∀ byte : UInt8, byte.toNat = size.bits →
        Registers.ofByte byte = some (.ok (initial size).registers)) ∧
      ∀ bytes buffer,
        let outcome := decompressor.decompress bytes buffer
        decompressor.registers.decompress bytes buffer =
          some (outcome.failure, outcome.decompressor.registers, outcome.buffer) := by
  intro expander table
  obtain ⟨hsound, hsize⟩ := h.sound
  have hlinked : table.Linked size := hsize ▸ hsound.expander.linked
  refine ⟨hsize, hlinked, ?_, ?_, ?_, ?_, ?_⟩
  · intro previous hprevious
    obtain ⟨hnames, hlt⟩ := hsound.expander.previous hprevious
    rw [hsize] at hnames
    unfold CodeSize.NamesPhrase CodeSize.firstFree at hnames
    unfold CodeSize.endCode
    exact ⟨hlt, by omega, by omega, by omega⟩
  · intro code hcode
    exact ⟨hlinked.first?_eq hcode, hlinked.phrase?_eq hcode⟩
  · intro bytes code pending left hunpack hfree
    obtain ⟨hlt, -⟩ := BitBuffer.unpack_some_bits hsound.clean hunpack
    have hroom : table.next < maxEntries := hfree ▸ Width.lt_maxEntries hlt
    exact decide_eq_false (Nat.not_le_of_lt hroom)
  · intro byte hbyte
    have hrange : 2 ≤ byte.toNat ∧ byte.toNat ≤ maxWidth := hbyte ▸ ⟨size.two_le, size.le_max⟩
    have hofByte : ofByte byte = .ok (initial size) := by
      unfold ofByte CodeSize.ofByte
      rw [dif_pos hrange]
      simp only [hbyte]
      rfl
    rw [registers_ofByte, hofByte]
    rfl
  · exact decompress_registers hsound

/-- A piece that fails, and behind it a piece with a code that gets its own entry. -/
theorem safe_of_reachable_behind_failure :
    let size : CodeSize := ⟨2, by decide, by decide⟩
    let failed := (initial size).decompress [0x07] #[]
    let outcome := failed.decompressor.decompress [0x0E] #[]
    failed.failure = some (.undefinedCode 7 6) ∧
      outcome.buffer = #[0, 0, 0, 0, 0] ∧
      outcome.decompressor.expander.table.next = 9 ∧
      outcome.decompressor.expander.table.phrase? 7 =
        some (outcome.decompressor.expander.table.phrase 7) ∧
      failed.decompressor.registers.decompress [0x0E] #[] =
        some (outcome.failure, outcome.decompressor.registers, outcome.buffer) := by
  dsimp only
  have hfailed : Reachable ⟨2, by decide, by decide⟩ _ :=
    Reachable.initial.decompress [0x07] #[]
  obtain ⟨-, -, -, hassigned, -⟩ := safe_of_reachable (hfailed.decompress [0x0E] #[])
  obtain ⟨-, -, -, -, -, -, hwords⟩ := safe_of_reachable hfailed
  refine ⟨by cbv, by cbv, by cbv, (hassigned 7 ?_).2, hwords [0x0E] #[]⟩
  cbv

end Decompressor
end Lzw
end GifBitmap

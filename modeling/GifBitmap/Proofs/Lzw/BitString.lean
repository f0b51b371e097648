import GifBitmap.Lzw.BitBuffer

/-!
# Bytes and bit buffers as bit strings

Codes are packed into bytes without regard to byte boundaries.  Here the bytes are
read as one flat string of bits, the least significant bit of each byte first, and a
bit buffer as the string of the bits that it holds.  Unpacking a code then takes that
many bits off the front of the string, no matter which of them stand in the buffer and
which in bytes not yet taken.

Main facts:
* `getElem?_bitsOf`: bit `i` of the string is bit `i % 8` of byte `i / 8`;
* `unpack_some_bits`, `unpack_none_bits`: unpacking in terms of bit strings.
-/

namespace GifBitmap
namespace Lzw

/-- Bits in the order in which they are taken from the input. -/
abbrev BitString := List Bool

/-- The lowest `count` bits of a number, least significant bit first. -/
def lowBits : (count value : Nat) → BitString
  | 0, _ => []
  | count + 1, value => value.testBit 0 :: lowBits count (value / 2)

/-- The number whose bits are given, least significant bit first. -/
def ofLowBits : BitString → Nat
  | [] => 0
  | bit :: bits => bit.toNat + 2 * ofLowBits bits

def bitsOf (bytes : Bytes) : BitString :=
  bytes.flatMap fun byte => lowBits 8 byte.toNat

@[simp]
theorem length_lowBits (count value : Nat) :
    (lowBits count value).length = count := by
  induction count generalizing value with
  | zero => rfl
  | succ count ih => simp [lowBits, ih]

/-- A number is read back up to the number of its bits. -/
theorem ofLowBits_lowBits (count value : Nat) :
    ofLowBits (lowBits count value) = value % 2 ^ count := by
  induction count generalizing value with
  | zero => simp [lowBits, ofLowBits, Nat.mod_one]
  | succ count ih =>
      have hsplit : value % (2 * 2 ^ count) = value % 2 + 2 * (value / 2 % 2 ^ count) :=
        Nat.mod_mul
      have hbit : (value.testBit 0).toNat = value % 2 := by
        rw [Nat.testBit_zero]
        rcases Nat.mod_two_eq_zero_or_one value with h | h <;> simp [h]
      rw [lowBits, ofLowBits, ih, hbit, Nat.pow_succ', hsplit]

theorem ofLowBits_lowBits_of_lt
    {count value : Nat}
    (h : value < 2 ^ count) :
    ofLowBits (lowBits count value) = value := by
  rw [ofLowBits_lowBits, Nat.mod_eq_of_lt h]

/-- The lowest bits of a number, and then those above them. -/
theorem lowBits_add (first second value : Nat) :
    lowBits (first + second) value =
      lowBits first value ++ lowBits second (value / 2 ^ first) := by
  induction first generalizing value with
  | zero => simp [lowBits]
  | succ first ih =>
      have hshift : value / 2 / 2 ^ first = value / 2 ^ (first + 1) := by
        rw [Nat.div_div_eq_div_mul, Nat.pow_succ']
      rw [Nat.succ_add, lowBits, lowBits, ih, hshift, List.cons_append]

/-- Bits above the lowest ones play no part. -/
theorem lowBits_add_mul (count value high : Nat) :
    lowBits count (value + 2 ^ count * high) = lowBits count value := by
  induction count generalizing value with
  | zero => rfl
  | succ count ih =>
      have hbit : (value + 2 ^ (count + 1) * high).testBit 0 = value.testBit 0 := by
        rw [Nat.testBit_zero, Nat.testBit_zero, Nat.pow_succ', Nat.mul_assoc,
          Nat.add_mul_mod_self_left]
      have hhalf : (value + 2 ^ (count + 1) * high) / 2 = value / 2 + 2 ^ count * high := by
        rw [Nat.pow_succ', Nat.mul_assoc, Nat.add_mul_div_left _ _ Nat.two_pos]
      rw [lowBits, lowBits, hbit, hhalf, ih]

theorem lowBits_ofLowBits (bits : BitString) :
    lowBits bits.length (ofLowBits bits) = bits := by
  induction bits with
  | nil => rfl
  | cons bit bits ih =>
      have hbit : (bit.toNat + 2 * ofLowBits bits).testBit 0 = bit := by
        rw [Nat.testBit_zero, Nat.add_mul_mod_self_left]
        cases bit <;> rfl
      have hhalf : (bit.toNat + 2 * ofLowBits bits) / 2 = ofLowBits bits := by
        have hlt := bit.toNat_lt
        omega
      rw [List.length_cons, ofLowBits, lowBits, hbit, hhalf, ih]

theorem lowBits_mod (count value : Nat) :
    lowBits count (value % 2 ^ count) = lowBits count value := by
  have h := lowBits_add_mul count (value % 2 ^ count) (value / 2 ^ count)
  rw [Nat.mod_add_div] at h
  exact h.symm

theorem getElem?_lowBits
    {count index : Nat}
    (h : index < count)
    (value : Nat) :
    (lowBits count value)[index]? = some (value.testBit index) := by
  induction count generalizing index value with
  | zero => omega
  | succ count ih =>
      cases index with
      | zero => rfl
      | succ index =>
          rw [lowBits, List.getElem?_cons_succ, ih (by omega), Nat.testBit_div_two]

@[simp]
theorem bitsOf_nil : bitsOf [] = [] :=
  rfl

@[simp]
theorem bitsOf_cons (byte : UInt8) (bytes : Bytes) :
    bitsOf (byte :: bytes) = lowBits 8 byte.toNat ++ bitsOf bytes :=
  rfl

/-- Bit `index` of the string is a bit of byte `index / 8`. -/
theorem getElem?_bitsOf (bytes : Bytes) (index : Nat) :
    (bitsOf bytes)[index]? =
      bytes[index / 8]?.map fun byte => byte.toNat.testBit (index % 8) := by
  induction bytes generalizing index with
  | nil => simp
  | cons byte bytes ih =>
      rw [bitsOf_cons]
      by_cases h : index < 8
      · have hbyte : index / 8 = 0 := by omega
        have hbit : index % 8 = index := by omega
        rw [List.getElem?_append_left (by rw [length_lowBits]; exact h),
          getElem?_lowBits h, hbyte, hbit]
        rfl
      · have hbyte : index / 8 = (index - 8) / 8 + 1 := by omega
        have hbit : index % 8 = (index - 8) % 8 := by omega
        rw [List.getElem?_append_right (by rw [length_lowBits]; omega), length_lowBits, ih,
          hbyte, hbit, List.getElem?_cons_succ]

theorem exists_byte
    {bits : BitString}
    (h : bits.length = 8) :
    ∃ byte : UInt8, lowBits 8 byte.toNat = bits := by
  refine ⟨UInt8.ofNat (ofLowBits bits), ?_⟩
  have hvalue : (UInt8.ofNat (ofLowBits bits)).toNat = ofLowBits bits % 2 ^ 8 :=
    UInt8.toNat_ofNat'
  rw [hvalue, lowBits_mod, ← h, lowBits_ofLowBits]

/-- Every string of bits can be packed into bytes, with a few bits of padding. -/
theorem exists_bitsOf (bits : BitString) :
    ∃ bytes padding, bitsOf bytes = bits ++ padding ∧ padding.length < 8 := by
  induction hlength : bits.length using Nat.strongRecOn generalizing bits with
  | ind length ih =>
      by_cases hnil : bits = []
      · exact ⟨[], [], by rw [hnil]; rfl, by decide⟩
      · by_cases hshort : bits.length < 8
        · have hpositive : 0 < bits.length := List.length_pos_iff.mpr hnil
          have hfilled : (bits ++ List.replicate (8 - bits.length) false).length = 8 := by
            rw [List.length_append, List.length_replicate]
            omega
          obtain ⟨byte, hbyte⟩ := exists_byte hfilled
          refine ⟨[byte], List.replicate (8 - bits.length) false, ?_, ?_⟩
          · rw [bitsOf_cons, hbyte, bitsOf_nil, List.append_nil]
          · rw [List.length_replicate]
            omega
        · have hfront : (bits.take 8).length = 8 := by
            rw [List.length_take]
            omega
          obtain ⟨byte, hbyte⟩ := exists_byte hfront
          obtain ⟨bytes, padding, hbytes, hpadding⟩ :=
            ih (bits.drop 8).length (by rw [List.length_drop]; omega) (bits.drop 8) rfl
          refine ⟨byte :: bytes, padding, ?_, hpadding⟩
          rw [bitsOf_cons, hbyte, hbytes, ← List.append_assoc, List.take_append_drop]

namespace BitBuffer

def bits (buffer : BitBuffer) : BitString :=
  lowBits buffer.size buffer.value

@[simp]
theorem length_bits (buffer : BitBuffer) : buffer.bits.length = buffer.size :=
  length_lowBits _ _

theorem bits_push
    {buffer : BitBuffer}
    (h : buffer.Clean)
    (byte : UInt8) :
    (buffer.push byte).bits = buffer.bits ++ lowBits 8 byte.toNat := by
  have hquot :
      (buffer.value + byte.toNat * 2 ^ buffer.size) / 2 ^ buffer.size = byte.toNat := by
    rw [Nat.add_mul_div_right _ _ (Nat.two_pow_pos _), Nat.div_eq_of_lt h, Nat.zero_add]
  have hlow :
      lowBits buffer.size (buffer.value + byte.toNat * 2 ^ buffer.size) = buffer.bits := by
    rw [Nat.mul_comm, lowBits_add_mul]
    rfl
  unfold bits push
  rw [lowBits_add, hquot, hlow]
  rfl

/-- The front of a buffer and what is left behind it are its bits. -/
theorem bits_eq_front_append_drop
    {buffer : BitBuffer}
    {count : Nat}
    (h : count ≤ buffer.size) :
    buffer.bits = lowBits count (buffer.front count) ++ (buffer.drop count).bits := by
  have hsize : buffer.size = count + (buffer.size - count) := by omega
  unfold front drop bits
  rw [lowBits_mod]
  conv => lhs; rw [hsize]
  exact lowBits_add _ _ _

/-- A code that is found is the number whose bits stood in front. -/
theorem unpack_some_bits
    {buffer rest : BitBuffer}
    {width : Width}
    {bytes left : Bytes}
    {code : Nat}
    (hclean : buffer.Clean)
    (h : buffer.unpack width bytes = (some code, rest, left)) :
    code < 2 ^ width.bits ∧
      buffer.bits ++ bitsOf bytes =
        lowBits width.bits code ++ (rest.bits ++ bitsOf left) := by
  induction bytes generalizing buffer with
  | nil =>
      unfold unpack at h
      split at h
      · rename_i hsize
        simp only [Prod.mk.injEq, Option.some.injEq] at h
        obtain ⟨rfl, rfl, rfl⟩ := h
        refine ⟨Nat.mod_lt _ (Nat.two_pow_pos _), ?_⟩
        rw [bits_eq_front_append_drop hsize, List.append_assoc]
      · simp at h
  | cons byte bytes ih =>
      unfold unpack at h
      split at h
      · rename_i hsize
        simp only [Prod.mk.injEq, Option.some.injEq] at h
        obtain ⟨rfl, rfl, rfl⟩ := h
        refine ⟨Nat.mod_lt _ (Nat.two_pow_pos _), ?_⟩
        rw [bits_eq_front_append_drop hsize, List.append_assoc]
      · obtain ⟨hlt, hbits⟩ := ih (hclean.push byte) h
        refine ⟨hlt, ?_⟩
        rw [bits_push hclean, List.append_assoc] at hbits
        exact hbits

/-- Without a code, the buffer holds all bits there were, and they are too few. -/
theorem unpack_none_bits
    {buffer rest : BitBuffer}
    {width : Width}
    {bytes left : Bytes}
    (hclean : buffer.Clean)
    (h : buffer.unpack width bytes = (none, rest, left)) :
    rest.bits = buffer.bits ++ bitsOf bytes ∧
      (buffer.bits ++ bitsOf bytes).length < width.bits := by
  have hbits : rest.bits = buffer.bits ++ bitsOf bytes := by
    induction bytes generalizing buffer with
    | nil =>
        unfold unpack at h
        split at h
        · simp at h
        · simp only [Prod.mk.injEq] at h
          obtain ⟨-, rfl, -⟩ := h
          rw [bitsOf_nil, List.append_nil]
    | cons byte bytes ih =>
        unfold unpack at h
        split at h
        · simp at h
        · rw [ih (hclean.push byte) h, bits_push hclean, List.append_assoc]
          rfl
  obtain ⟨-, -, hlt⟩ := unpack_none h
  refine ⟨hbits, ?_⟩
  rw [← hbits, length_bits]
  exact hlt

end BitBuffer
end Lzw
end GifBitmap

import GifBitmap.Bytes
import GifBitmap.Lzw.CodeSize

/-!
# Unpacking codes from bytes

Codes are packed least significant bit first, without regard to byte boundaries.
`BitBuffer` holds the bits that were taken from the input and not yet used, as a
number and a count: the bit taken first is the lowest one.  A byte is taken only
when the next code needs it.

Main facts:
* `unpack_some_size`, `unpack_none`: a code is found exactly when enough bits are at
  hand, and what is left shrinks by its width;
* `unpack_append_of_some`, `unpack_append_of_none`: where the input is cut makes no
  difference;
* `Clean.unpack`: no stray bit ever stands above the count.
-/

namespace GifBitmap
namespace Lzw

/-- Bits that wait to be used. -/
structure BitBuffer where
  value : Nat
  size : Nat
  deriving Repr, DecidableEq

namespace BitBuffer

def empty : BitBuffer :=
  ⟨0, 0⟩

/-- The buffer with the eight bits of a byte behind its own. -/
def push (buffer : BitBuffer) (byte : UInt8) : BitBuffer :=
  ⟨buffer.value + byte.toNat * 2 ^ buffer.size, buffer.size + 8⟩

/-- The number that the first `count` bits make up. -/
def front (buffer : BitBuffer) (count : Nat) : Nat :=
  buffer.value % 2 ^ count

/-- The buffer without its first `count` bits. -/
def drop (buffer : BitBuffer) (count : Nat) : BitBuffer :=
  ⟨buffer.value / 2 ^ count, buffer.size - count⟩

/-- The next code of the given width, if the buffer and the bytes together hold
enough bits, with what is left of both.  Bytes move into the buffer one by one and
only while it holds too few bits. -/
def unpack (buffer : BitBuffer) (width : Width) :
    Bytes → Option Nat × BitBuffer × Bytes
  | [] =>
      if width.bits ≤ buffer.size then
        (some (buffer.front width.bits), buffer.drop width.bits, [])
      else
        (none, buffer, [])
  | byte :: bytes =>
      if width.bits ≤ buffer.size then
        (some (buffer.front width.bits), buffer.drop width.bits, byte :: bytes)
      else
        (buffer.push byte).unpack width bytes

/-- When the buffer holds a code, no byte is taken. -/
theorem unpack_of_le
    {buffer : BitBuffer}
    {width : Width}
    (bytes : Bytes)
    (h : width.bits ≤ buffer.size) :
    buffer.unpack width bytes =
      (some (buffer.front width.bits), buffer.drop width.bits, bytes) := by
  cases bytes <;> simp [unpack, h]

@[simp]
theorem size_push (buffer : BitBuffer) (byte : UInt8) :
    (buffer.push byte).size = buffer.size + 8 :=
  rfl

/-- A code uses up as many bits as it is wide.  It takes them from those at hand or from so few
bytes that less than a byte is left of them. -/
theorem unpack_some_size
    {buffer rest : BitBuffer}
    {width : Width}
    {bytes left : Bytes}
    {code : Nat}
    (h : buffer.unpack width bytes = (some code, rest, left)) :
    rest.size + 8 * left.length + width.bits = buffer.size + 8 * bytes.length ∧
      rest.size + width.bits ≤ max buffer.size (width.bits + 7) := by
  induction bytes generalizing buffer with
  | nil =>
      unfold unpack at h
      split at h
      · simp only [Prod.mk.injEq] at h
        obtain ⟨-, rfl, rfl⟩ := h
        simp only [drop]
        omega
      · simp at h
  | cons byte bytes ih =>
      unfold unpack at h
      split at h
      · simp only [Prod.mk.injEq] at h
        obtain ⟨-, rfl, rfl⟩ := h
        simp only [drop]
        omega
      · have := ih h
        simp only [size_push, List.length_cons] at this ⊢
        omega

/-- Without a code, every byte has moved into the buffer. -/
theorem unpack_none
    {buffer rest : BitBuffer}
    {width : Width}
    {bytes left : Bytes}
    (h : buffer.unpack width bytes = (none, rest, left)) :
    left = [] ∧ rest.size = buffer.size + 8 * bytes.length ∧ rest.size < width.bits := by
  induction bytes generalizing buffer with
  | nil =>
      unfold unpack at h
      split at h
      · simp at h
      · simp only [Prod.mk.injEq] at h
        obtain ⟨-, rfl, rfl⟩ := h
        simp
        omega
  | cons byte bytes ih =>
      unfold unpack at h
      split at h
      · simp at h
      · obtain ⟨hleft, hsize, hlt⟩ := ih h
        refine ⟨hleft, ?_, hlt⟩
        simp only [size_push, List.length_cons] at hsize ⊢
        omega

/-- Bytes that were not needed for a code stay in front of further ones. -/
theorem unpack_append_of_some
    {buffer rest : BitBuffer}
    {width : Width}
    {bytes left : Bytes}
    {code : Nat}
    (h : buffer.unpack width bytes = (some code, rest, left))
    (more : Bytes) :
    buffer.unpack width (bytes ++ more) = (some code, rest, left ++ more) := by
  induction bytes generalizing buffer with
  | nil =>
      unfold unpack at h
      split at h
      · simp only [Prod.mk.injEq] at h
        obtain ⟨hcode, rfl, rfl⟩ := h
        rw [unpack_of_le _ ‹_›, hcode, List.nil_append]
      · simp at h
  | cons byte bytes ih =>
      unfold unpack at h
      split at h
      · simp only [Prod.mk.injEq] at h
        obtain ⟨hcode, rfl, rfl⟩ := h
        rw [unpack_of_le _ ‹_›, hcode]
      · rw [List.cons_append, unpack, if_neg ‹_›]
        exact ih h

/-- Bits that did not make up a code stand in front of further bytes. -/
theorem unpack_append_of_none
    {buffer rest : BitBuffer}
    {width : Width}
    {bytes left : Bytes}
    (h : buffer.unpack width bytes = (none, rest, left))
    (more : Bytes) :
    buffer.unpack width (bytes ++ more) = rest.unpack width more := by
  induction bytes generalizing buffer with
  | nil =>
      unfold unpack at h
      split at h
      · simp at h
      · simp only [Prod.mk.injEq] at h
        obtain ⟨-, rfl, -⟩ := h
        rfl
  | cons byte bytes ih =>
      unfold unpack at h
      split at h
      · simp at h
      · rw [List.cons_append, unpack, if_neg ‹_›]
        exact ih h

/-- No bit of the number stands above the count. -/
def Clean (buffer : BitBuffer) : Prop :=
  buffer.value < 2 ^ buffer.size

theorem clean_empty : empty.Clean := by
  simp [Clean, empty]

theorem Clean.push
    {buffer : BitBuffer}
    (h : buffer.Clean)
    (byte : UInt8) :
    (buffer.push byte).Clean := by
  have hbyte : byte.toNat + 1 ≤ 2 ^ 8 := byte.toNat_lt
  have hscaled := Nat.mul_le_mul_right (2 ^ buffer.size) hbyte
  simp only [Clean, BitBuffer.push, Nat.pow_add] at h ⊢
  rw [Nat.add_mul, Nat.one_mul] at hscaled
  rw [Nat.mul_comm (2 ^ buffer.size)]
  omega

theorem Clean.drop
    {buffer : BitBuffer}
    (h : buffer.Clean)
    {count : Nat}
    (hcount : count ≤ buffer.size) :
    (buffer.drop count).Clean := by
  simp only [Clean, BitBuffer.drop] at h ⊢
  rw [Nat.div_lt_iff_lt_mul (Nat.two_pow_pos count), ← Nat.pow_add,
    Nat.sub_add_cancel hcount]
  exact h

/-- Unpacking leaves no stray bit. -/
theorem Clean.unpack
    {buffer rest : BitBuffer}
    {width : Width}
    {bytes left : Bytes}
    {code : Option Nat}
    (hclean : buffer.Clean)
    (h : buffer.unpack width bytes = (code, rest, left)) :
    rest.Clean := by
  induction bytes generalizing buffer with
  | nil =>
      unfold BitBuffer.unpack at h
      split at h <;> simp only [Prod.mk.injEq] at h <;> obtain ⟨-, rfl, -⟩ := h
      · exact hclean.drop ‹_›
      · exact hclean
  | cons byte bytes ih =>
      unfold BitBuffer.unpack at h
      split at h
      · simp only [Prod.mk.injEq] at h
        obtain ⟨-, rfl, -⟩ := h
        exact hclean.drop ‹_›
      · exact ih (hclean.push byte) h

end BitBuffer
end Lzw
end GifBitmap

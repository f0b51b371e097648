import GifBitmap.Powers

/-!
# Byte strings and little-endian numbers

Both file formats of this library are byte strings in which numbers stand with
their least significant byte first.  This module fixes the type of byte strings
and the two directions of that number format.

Main facts:
* `length_littleEndian`: a number takes exactly as many bytes as asked for;
* `ofLittleEndian_littleEndian`: reading undoes writing, up to the number of
  bytes;
* `littleEndian_ofLittleEndian`: every byte string is the written form of the
  number it reads as.
-/

namespace GifBitmap

abbrev Bytes := List UInt8

/-- A buffer grows by the bytes that are put behind it. -/
theorem size_append_bytes (buffer : Array UInt8) (bytes : Bytes) :
    (buffer ++ bytes).size = buffer.size + bytes.length := by
  rw [← Array.length_toList, Array.toList_appendList, List.length_append, Array.length_toList]

/-- The lowest `count` bytes of a number, least significant byte first. -/
def littleEndian : (count value : Nat) → Bytes
  | 0, _ => []
  | count + 1, value => UInt8.ofNat value :: littleEndian count (value / 256)

/-- The number whose bytes are given, least significant byte first. -/
def ofLittleEndian : Bytes → Nat
  | [] => 0
  | byte :: bytes => byte.toNat + 256 * ofLittleEndian bytes

@[simp]
theorem length_littleEndian (count value : Nat) :
    (littleEndian count value).length = count := by
  induction count generalizing value with
  | zero => rfl
  | succ count ih => simp [littleEndian, ih]

/-- A number that fits its bytes is read back unchanged. -/
theorem ofLittleEndian_littleEndian (count value : Nat) :
    ofLittleEndian (littleEndian count value) = value % 256 ^ count := by
  induction count generalizing value with
  | zero => simp [littleEndian, ofLittleEndian, Nat.mod_one]
  | succ count ih =>
      have hsplit : value % (256 * 256 ^ count) =
          value % 256 + 256 * (value / 256 % 256 ^ count) :=
        Nat.mod_mul
      simp only [littleEndian, ofLittleEndian, ih, Nat.pow_succ', hsplit]
      rfl

theorem ofLittleEndian_lt (bytes : Bytes) :
    ofLittleEndian bytes < 256 ^ bytes.length := by
  induction bytes with
  | nil => simp [ofLittleEndian]
  | cons byte bytes ih =>
      have hbyte := byte.toNat_lt
      simp only [ofLittleEndian, List.length_cons, Nat.pow_succ']
      omega

/-- Every byte string is the written form of the number it stands for. -/
theorem littleEndian_ofLittleEndian (bytes : Bytes) :
    littleEndian bytes.length (ofLittleEndian bytes) = bytes := by
  induction bytes with
  | nil => rfl
  | cons byte bytes ih =>
      have hbyte := byte.toNat_lt
      have hquot : (byte.toNat + 256 * ofLittleEndian bytes) / 256 = ofLittleEndian bytes := by
        omega
      have hhead : UInt8.ofNat (byte.toNat + 256 * ofLittleEndian bytes) = byte := by
        apply UInt8.toNat_inj.mp
        rw [UInt8.toNat_ofNat']
        omega
      simp only [List.length_cons, ofLittleEndian, littleEndian, hquot, hhead, ih]

/-- Only the low bytes of a number are written. -/
theorem littleEndian_mod (count value : Nat) :
    littleEndian count (value % 256 ^ count) = littleEndian count value := by
  have hread := littleEndian_ofLittleEndian (littleEndian count value)
  rw [length_littleEndian, ofLittleEndian_littleEndian] at hread
  exact hread

end GifBitmap

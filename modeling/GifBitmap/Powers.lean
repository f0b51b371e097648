/-!
# Powers of numbers

Powers of natural numbers and of integers are those of core throughout this library.
Libraries of algebra reach the same powers by way of the structure they give to numbers.
The instances here stand in front of theirs inside of the namespace, so that a statement with
a power in it is the same in every module.
-/

namespace GifBitmap

scoped instance (priority := 2000) powNat : Pow Nat Nat :=
  @instPowNat Nat instNatPowNat

scoped instance (priority := 2000) powInt : Pow Int Nat :=
  @instPowNat Int Int.instNatPow

end GifBitmap

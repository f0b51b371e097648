import GifBitmap.Gif.ImageDescriptor

/-!
# The order of rows

The rows of an interlaced image are stored in four passes: every eighth row from row
0, every eighth from row 4, every fourth from row 2, and every second from row 1.
The rows of any other image are stored from top to bottom.

Main fact: `mem_everyFrom`: the rows of one pass.
-/

namespace GifBitmap
namespace RowOrder

/-- The rows below `height` at distances of `step` from row `start` on. -/
def everyFrom (height start step : Nat) : List Nat :=
  List.range' start ((height - start + (step - 1)) / step) step

/-- The rows of an interlaced image in the order in which they are stored. -/
def interlaced (height : Nat) : List Nat :=
  everyFrom height 0 8 ++ everyFrom height 4 8 ++ everyFrom height 2 4 ++ everyFrom height 1 2

/-- The rows of an image in the order in which they are stored. -/
def ofImage (image : Gif.ImageDescriptor) : List Nat :=
  if image.interlaced then
    interlaced image.height.toNat
  else
    List.range image.height.toNat

/-- A pass holds the rows that it says, and no others. -/
theorem mem_everyFrom
    {height start step row : Nat}
    (hstep : 0 < step) :
    row ∈ everyFrom height start step ↔
      row < height ∧ ∃ count, row = start + step * count := by
  simp only [everyFrom, List.mem_range']
  constructor
  · rintro ⟨count, hcount, rfl⟩
    refine ⟨?_, count, rfl⟩
    rw [Nat.lt_div_iff_mul_lt hstep, Nat.mul_comm] at hcount
    omega
  · rintro ⟨hrow, count, rfl⟩
    refine ⟨count, ?_, rfl⟩
    rw [Nat.lt_div_iff_mul_lt hstep, Nat.mul_comm]
    omega

end RowOrder
end GifBitmap

import GifBitmap.RowOrder
import GifBitmap.Gif.Picture

/-!
# Placing an image on the canvas

The canvas has the size of the screen and is filled with the background index.  The
rows of the image are painted on it at the image's position; what lies beyond the
right or lower edge is left out, and pixels for which there is no index keep the
background.

Main facts:
* `getElem?_overwrite`: what stands where after indices were written side by side;
* `index?_paintRow`: painting changes the visible pixels of the row, and no others.
-/

namespace GifBitmap

/-- Rows of color indices, from top to bottom. -/
structure Canvas where
  width : Nat
  height : Nat
  indices : Array UInt8
  deriving Repr, DecidableEq

namespace Canvas

/-- A canvas on which every pixel has the same index. -/
def filled (width height : Nat) (index : UInt8) : Canvas :=
  ⟨width, height, Array.replicate (width * height) index⟩

def index? (canvas : Canvas) (x y : Nat) : Option UInt8 :=
  if x < canvas.width ∧ y < canvas.height then
    canvas.indices[y * canvas.width + x]?
  else
    none

/-- Writes indices side by side from a position on. -/
def overwrite (indices : Array UInt8) (position : Nat) : List UInt8 → Array UInt8
  | [] => indices
  | index :: rest => overwrite (indices.setIfInBounds position index) (position + 1) rest

/-- Paints indices side by side from a pixel on, as far as the canvas reaches. -/
def paintRow (canvas : Canvas) (x y : Nat) (row : List UInt8) : Canvas :=
  if y < canvas.height then
    { canvas with
      indices :=
        overwrite canvas.indices (y * canvas.width + x) (row.take (canvas.width - x)) }
  else
    canvas

/-- The indices of the row stored at a place, fewer or none where the data end. -/
def storedRow (frame : Gif.Frame) (place : Nat) : List UInt8 :=
  let width := frame.image.width.toNat
  (frame.data.indices.extract (place * width) (place * width + width)).toList

/-- Paints the stored rows of a frame, each at its place on the screen. -/
def paintFrame (canvas : Canvas) (frame : Gif.Frame) : Canvas :=
  (RowOrder.ofImage frame.image).zipIdx.foldl
    (fun canvas (row, place) =>
      canvas.paintRow frame.image.left.toNat (frame.image.top.toNat + row)
        (storedRow frame place))
    canvas

/-- The canvas of a picture. -/
def compose (picture : Gif.Picture) : Canvas :=
  let screen := picture.preamble.screen
  (filled screen.width.toNat screen.height.toNat screen.background).paintFrame picture.frame

/-- Whether an image reaches beyond the right or lower edge of the screen. -/
def isClipped (screen : Gif.Screen) (image : Gif.ImageDescriptor) : Bool :=
  screen.width.toNat < image.left.toNat + image.width.toNat ||
    screen.height.toNat < image.top.toNat + image.height.toNat

@[simp]
theorem size_overwrite
    (indices : Array UInt8)
    (position : Nat)
    (row : List UInt8) :
    (overwrite indices position row).size = indices.size := by
  induction row generalizing indices position with
  | nil => rfl
  | cons index rest ih => simp [overwrite, ih]

/-- Indices that were written stand from their position on; all others are as before. -/
theorem getElem?_overwrite
    (indices : Array UInt8)
    (position : Nat)
    (row : List UInt8)
    (place : Nat)
    (hplace : place < indices.size) :
    (overwrite indices position row)[place]? =
      if position ≤ place ∧ place < position + row.length then
        row[place - position]?
      else
        indices[place]? := by
  induction row generalizing indices position with
  | nil => rw [overwrite, if_neg (by rw [List.length_nil]; omega)]
  | cons index rest ih =>
      rw [overwrite, ih _ _ (by simpa using hplace)]
      rcases Nat.lt_trichotomy place position with hlt | heq | hgt
      · rw [if_neg (by omega), if_neg (by omega),
          Array.getElem?_setIfInBounds_ne (by omega)]
      · subst heq
        rw [if_neg (by omega), if_pos (by simp), Array.getElem?_setIfInBounds_self,
          if_pos hplace]
        simp
      · have hsucc : place - position = (place - (position + 1)) + 1 := by omega
        by_cases hin : place < position + (rest.length + 1)
        · rw [if_pos (by omega), if_pos (by simp only [List.length_cons]; omega), hsucc,
            List.getElem?_cons_succ]
        · rw [if_neg (by omega), if_neg (by simp only [List.length_cons]; omega),
            Array.getElem?_setIfInBounds_ne (by omega)]

/-- Painting keeps the number of pixels. -/
@[simp]
theorem size_paintRow
    (canvas : Canvas)
    (x y : Nat)
    (row : List UInt8) :
    (canvas.paintRow x y row).indices.size = canvas.indices.size := by
  unfold paintRow
  split <;> simp

/-- Painting changes the pixels of the row that lie on the canvas, and no others. -/
theorem index?_paintRow
    (canvas : Canvas)
    (x y : Nat)
    (row : List UInt8)
    (hsize : canvas.indices.size = canvas.width * canvas.height)
    (column line : Nat) :
    (canvas.paintRow x y row).index? column line =
      if line = y ∧ x ≤ column ∧ column < x + row.length ∧
          column < canvas.width ∧ line < canvas.height then
        row[column - x]?
      else
        canvas.index? column line := by
  unfold paintRow
  split
  · rename_i hy
    simp only [index?]
    split
    · rename_i hpixel
      obtain ⟨hcolumn, hline⟩ := hpixel
      have hplace : line * canvas.width + column < canvas.indices.size := by
        have := Nat.mul_le_mul_left canvas.width (Nat.succ_le_of_lt hline)
        rw [hsize]
        rw [Nat.mul_comm line]
        rw [Nat.mul_succ] at this
        omega
      rw [getElem?_overwrite _ _ _ _ hplace, List.length_take]
      rcases Nat.lt_trichotomy line y with hlt | heq | hgt
      · have := Nat.mul_le_mul_right canvas.width (Nat.succ_le_of_lt hlt)
        rw [Nat.succ_mul] at this
        rw [if_neg (by omega), if_neg (by omega)]
      · subst heq
        by_cases hin : x ≤ column ∧ column < x + row.length
        · have hsub : line * canvas.width + column - (line * canvas.width + x) = column - x := by
            omega
          rw [if_pos (by omega), if_pos (by omega), hsub,
            List.getElem?_take_of_lt (by omega)]
        · rw [if_neg (by omega), if_neg (by omega)]
      · have := Nat.mul_le_mul_right canvas.width (Nat.succ_le_of_lt hgt)
        rw [Nat.succ_mul] at this
        rw [if_neg (by omega), if_neg (by omega)]
    · rename_i hpixel
      rw [if_neg (by omega)]
  · rename_i hy
    rw [if_neg (by omega)]

end Canvas
end GifBitmap

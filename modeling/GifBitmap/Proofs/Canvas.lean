import GifBitmap.Canvas
import GifBitmap.Proofs.RowOrder

/-!
# What is seen on the canvas

Every row of an image is painted once, so a pixel of the image that lies on the canvas
has the index that is stored for it, and keeps the one it had only where the data end.
-/

namespace GifBitmap
namespace Canvas

variable {canvas : Canvas} {frame : Gif.Frame} {row place x : Nat}

/-- Whether there is an index for every pixel. -/
def IsWhole (canvas : Canvas) : Prop :=
  canvas.indices.size = canvas.width * canvas.height

theorem isWhole_filled (width height : Nat) (index : UInt8) :
    (filled width height index).IsWhole :=
  Array.size_replicate

@[simp]
theorem width_paintRow (x y : Nat) (indices : List UInt8) :
    (canvas.paintRow x y indices).width = canvas.width := by
  rw [paintRow]
  split
  · rfl
  · rfl

@[simp]
theorem height_paintRow (x y : Nat) (indices : List UInt8) :
    (canvas.paintRow x y indices).height = canvas.height := by
  rw [paintRow]
  split
  · rfl
  · rfl

theorem IsWhole.paintRow
    (hwhole : canvas.IsWhole)
    (x y : Nat)
    (indices : List UInt8) :
    (canvas.paintRow x y indices).IsWhole := by
  rw [IsWhole, size_paintRow, width_paintRow, height_paintRow]
  exact hwhole

theorem getElem?_storedRow (hx : x < frame.image.width.toNat) :
    (storedRow frame place)[x]? =
      frame.data.indices[place * frame.image.width.toNat + x]? :=
  getElem?_toList_extract hx

/-- A row that is painted shows the indices stored for it. -/
theorem index?_paintRow_self
    (hwhole : canvas.IsWhole)
    (hx : x < frame.image.width.toNat)
    (hcolumn : frame.image.left.toNat + x < canvas.width)
    (hline : frame.image.top.toNat + row < canvas.height) :
    (canvas.paintRow frame.image.left.toNat (frame.image.top.toNat + row)
        (storedRow frame place)).index?
        (frame.image.left.toNat + x) (frame.image.top.toNat + row) =
      frame.data.indices[place * frame.image.width.toNat + x]?.or
        (canvas.index? (frame.image.left.toNat + x) (frame.image.top.toNat + row)) := by
  rw [index?_paintRow _ _ _ _ hwhole]
  split
  · rename_i hpainted
    have hlength : x < (storedRow frame place).length := by omega
    rw [Nat.add_sub_cancel_left, ← getElem?_storedRow hx, List.getElem?_eq_getElem hlength]
    rfl
  · rename_i hkept
    have hlength : (storedRow frame place).length ≤ x := by omega
    rw [← getElem?_storedRow hx, List.getElem?_eq_none hlength]
    rfl

/-- A pixel beside a row that is painted keeps its index. -/
theorem index?_paintRow_of_apart
    (hwhole : canvas.IsWhole)
    {y column line : Nat}
    {indices : List UInt8}
    (hapart : line = y → column < x ∨ x + indices.length ≤ column) :
    (canvas.paintRow x y indices).index? column line = canvas.index? column line := by
  rw [index?_paintRow _ _ _ _ hwhole, if_neg]
  rintro ⟨hline, hleft, hright, -⟩
  rcases hapart hline with hbefore | hbehind
  · exact absurd hleft (Nat.not_le_of_lt hbefore)
  · exact absurd hright (Nat.not_lt_of_le hbehind)

theorem length_storedRow_le (frame : Gif.Frame) (place : Nat) :
    (storedRow frame place).length ≤ frame.image.width.toNat := by
  rw [storedRow, Array.length_toList, Array.size_extract]
  omega

/-- Paints rows of a frame, each given with its place in the data. -/
def paintRows (frame : Gif.Frame) (canvas : Canvas) (rows : List (Nat × Nat)) : Canvas :=
  rows.foldl
    (fun canvas (row, place) =>
      canvas.paintRow frame.image.left.toNat (frame.image.top.toNat + row)
        (storedRow frame place))
    canvas

theorem paintFrame_eq (canvas : Canvas) (frame : Gif.Frame) :
    canvas.paintFrame frame = paintRows frame canvas (RowOrder.ofImage frame.image).zipIdx :=
  rfl

theorem paintRows_cons (frame : Gif.Frame) (canvas : Canvas) (rows : List (Nat × Nat)) :
    paintRows frame canvas ((row, place) :: rows) =
      paintRows frame
        (canvas.paintRow frame.image.left.toNat (frame.image.top.toNat + row)
          (storedRow frame place)) rows :=
  rfl

theorem width_paintRows (rows : List (Nat × Nat)) :
    (paintRows frame canvas rows).width = canvas.width := by
  induction rows generalizing canvas with
  | nil => rfl
  | cons first rest ih => rw [paintRows_cons, ih, width_paintRow]

theorem height_paintRows (rows : List (Nat × Nat)) :
    (paintRows frame canvas rows).height = canvas.height := by
  induction rows generalizing canvas with
  | nil => rfl
  | cons first rest ih => rw [paintRows_cons, ih, height_paintRow]

theorem IsWhole.paintRows
    (hwhole : canvas.IsWhole)
    (frame : Gif.Frame)
    (rows : List (Nat × Nat)) :
    (paintRows frame canvas rows).IsWhole := by
  induction rows generalizing canvas with
  | nil => exact hwhole
  | cons first rest ih => exact ih (hwhole.paintRow _ _ _)

/-- A pixel beside the rows that are painted keeps its index. -/
theorem index?_paintRows_of_apart
    (hwhole : canvas.IsWhole)
    {rows : List (Nat × Nat)}
    {column line : Nat}
    (hapart :
      ∀ row ∈ rows.map Prod.fst,
        line = frame.image.top.toNat + row →
          column < frame.image.left.toNat ∨
            frame.image.left.toNat + frame.image.width.toNat ≤ column) :
    (paintRows frame canvas rows).index? column line = canvas.index? column line := by
  induction rows generalizing canvas with
  | nil => rfl
  | cons first rest ih =>
      obtain ⟨row, place⟩ := first
      have hlength := length_storedRow_le frame place
      rw [paintRows_cons,
        ih (hwhole.paintRow _ _ _) fun row hrow => hapart row (List.mem_cons_of_mem _ hrow)]
      apply index?_paintRow_of_apart hwhole
      intro hline
      rcases hapart row List.mem_cons_self hline with hbefore | hbehind
      · exact .inl hbefore
      · exact .inr (Nat.le_trans (Nat.add_le_add_left hlength _) hbehind)

theorem index?_paintRows_of_notMem
    (hwhole : canvas.IsWhole)
    {rows : List (Nat × Nat)}
    (hrow : row ∉ rows.map Prod.fst)
    (column : Nat) :
    (paintRows frame canvas rows).index? column (frame.image.top.toNat + row) =
      canvas.index? column (frame.image.top.toNat + row) := by
  apply index?_paintRows_of_apart hwhole
  intro painted hpainted hline
  obtain rfl := Nat.add_left_cancel hline
  exact absurd hpainted hrow

/-- A row that is painted once shows the indices stored for it. -/
theorem index?_paintRows_of_mem
    (hwhole : canvas.IsWhole)
    {rows : List (Nat × Nat)}
    (hmem : (row, place) ∈ rows)
    (honce : (rows.map Prod.fst).Nodup)
    (hx : x < frame.image.width.toNat)
    (hcolumn : frame.image.left.toNat + x < canvas.width)
    (hline : frame.image.top.toNat + row < canvas.height) :
    (paintRows frame canvas rows).index?
        (frame.image.left.toNat + x) (frame.image.top.toNat + row) =
      frame.data.indices[place * frame.image.width.toNat + x]?.or
        (canvas.index? (frame.image.left.toNat + x) (frame.image.top.toNat + row)) := by
  induction rows generalizing canvas with
  | nil => exact absurd hmem List.not_mem_nil
  | cons first rest ih =>
      obtain ⟨painted, other⟩ := first
      rw [List.map_cons, List.nodup_cons] at honce
      rw [paintRows_cons]
      rcases List.mem_cons.mp hmem with hfirst | hrest
      · -- No later row is painted over this one.
        obtain ⟨rfl, rfl⟩ := Prod.mk.inj hfirst
        rw [index?_paintRows_of_notMem (hwhole.paintRow _ _ _) honce.1,
          index?_paintRow_self hwhole hx hcolumn hline]
      · have hne : row ≠ painted := by
          rintro rfl
          exact honce.1 (List.mem_map.mpr ⟨_, hrest, rfl⟩)
        rw [ih (hwhole.paintRow _ _ _) hrest honce.2 (by rwa [width_paintRow])
            (by rwa [height_paintRow]),
          index?_paintRow_of_apart hwhole (by omega)]

theorem index?_filled
    {width height x y : Nat}
    (index : UInt8)
    (hx : x < width)
    (hy : y < height) :
    (filled width height index).index? x y = some index := by
  have hplace : y * width + x < width * height :=
    Nat.lt_of_lt_of_le (Nat.add_lt_add_left hx _) (row_end_le hy)
  have hindex : (Array.replicate (width * height) index)[y * width + x]? = some index := by
    rw [Array.getElem?_replicate, if_pos hplace]
  rw [index?, filled, if_pos ⟨hx, hy⟩, hindex]

/-- A pixel of the image shows the index stored for it, if there is one. -/
theorem index?_paintFrame
    (hwhole : canvas.IsWhole)
    (hplace : (RowOrder.ofImage frame.image)[place]? = some row)
    (hx : x < frame.image.width.toNat)
    (hcolumn : frame.image.left.toNat + x < canvas.width)
    (hline : frame.image.top.toNat + row < canvas.height) :
    (canvas.paintFrame frame).index?
        (frame.image.left.toNat + x) (frame.image.top.toNat + row) =
      frame.data.indices[place * frame.image.width.toNat + x]?.or
        (canvas.index? (frame.image.left.toNat + x) (frame.image.top.toNat + row)) := by
  rw [paintFrame_eq]
  refine index?_paintRows_of_mem hwhole ?_ ?_ hx hcolumn hline
  · exact List.mk_mem_zipIdx_iff_getElem?.mpr hplace
  · rw [List.zipIdx_map_fst]
    exact RowOrder.nodup_ofImage frame.image

theorem isWhole_compose (picture : Gif.Picture) : (compose picture).IsWhole := by
  rw [compose, paintFrame_eq]
  exact (isWhole_filled _ _ _).paintRows _ _

theorem width_compose (picture : Gif.Picture) :
    (compose picture).width = picture.preamble.screen.width.toNat := by
  rw [compose, paintFrame_eq, width_paintRows]
  rfl

theorem height_compose (picture : Gif.Picture) :
    (compose picture).height = picture.preamble.screen.height.toNat := by
  rw [compose, paintFrame_eq, height_paintRows]
  rfl

/-- A pixel of the image that lies on the screen shows the index stored for it, or the
background where the data end. -/
theorem index?_compose
    {picture : Gif.Picture}
    (hplace : (RowOrder.ofImage picture.frame.image)[place]? = some row)
    (hx : x < picture.frame.image.width.toNat)
    (hcolumn : picture.frame.image.left.toNat + x < picture.preamble.screen.width.toNat)
    (hline : picture.frame.image.top.toNat + row < picture.preamble.screen.height.toNat) :
    (compose picture).index?
        (picture.frame.image.left.toNat + x) (picture.frame.image.top.toNat + row) =
      picture.frame.data.indices[place * picture.frame.image.width.toNat + x]?.or
        (some picture.preamble.screen.background) := by
  have hwhole := isWhole_filled picture.preamble.screen.width.toNat
    picture.preamble.screen.height.toNat picture.preamble.screen.background
  have hshown := index?_paintFrame hwhole hplace hx hcolumn hline
  rw [index?_filled _ hcolumn hline] at hshown
  exact hshown

end Canvas

/-- Whether an image takes up the whole screen. -/
structure Gif.ImageDescriptor.Covers (image : ImageDescriptor) (screen : Screen) : Prop where
  left_eq : image.left = 0
  top_eq : image.top = 0
  width_eq : image.width = screen.width
  height_eq : image.height = screen.height

/-- An image that takes up the screen, with an index for every pixel, shows the indices
that were stored, whatever the order of its rows. -/
theorem Canvas.index?_compose_of_covers
    {picture : Gif.Picture}
    {pixels : List UInt8}
    {x y : Nat}
    (hcovers : picture.frame.image.Covers picture.preamble.screen)
    (hpixels : pixels.length =
      picture.preamble.screen.width.toNat * picture.preamble.screen.height.toNat)
    (hdata : picture.frame.data.indices =
      (RowOrder.storedIndices picture.frame.image.interlaced
        picture.preamble.screen.width.toNat picture.preamble.screen.height.toNat
        pixels).toArray)
    (hx : x < picture.preamble.screen.width.toNat)
    (hy : y < picture.preamble.screen.height.toNat) :
    (compose picture).index? x y =
      pixels[y * picture.preamble.screen.width.toNat + x]? := by
  have hpixel : y * picture.preamble.screen.width.toNat + x < pixels.length := by
    rw [hpixels]
    exact Nat.lt_of_lt_of_le (Nat.add_lt_add_left hx _) (row_end_le hy)
  have hleft : picture.frame.image.left.toNat + x = x := by
    rw [hcovers.left_eq, UInt16.toNat_zero, Nat.zero_add]
  have htop : picture.frame.image.top.toNat + y = y := by
    rw [hcovers.top_eq, UInt16.toNat_zero, Nat.zero_add]
  rw [← hcovers.width_eq, ← hcovers.height_eq] at hpixels hdata
  have hmem : y ∈ RowOrder.ofImage picture.frame.image := by
    rw [RowOrder.mem_ofImage, hcovers.height_eq]
    exact hy
  obtain ⟨place, hplace⟩ := List.getElem?_of_mem hmem
  have hshown := index?_compose hplace (by rw [hcovers.width_eq]; exact hx)
    (by rw [hleft]; exact hx) (by rw [htop]; exact hy)
  rw [hleft, htop, hdata, List.getElem?_toArray,
    RowOrder.getElem?_storedIndices hpixels hplace (by rw [hcovers.width_eq]; exact hx),
    hcovers.width_eq] at hshown
  rw [hshown, List.getElem?_eq_getElem hpixel]
  rfl

end GifBitmap

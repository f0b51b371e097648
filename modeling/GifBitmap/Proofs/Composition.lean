import GifBitmap.Proofs.Canvas

/-!
# Every pixel of the canvas

Each pixel of a canvas is told from the fields of the picture: it lies in the image and the data
reach as far as its place in them, or it has the background index.

A program copies the rows of an image by slices of the data and of the canvas (`compose?`), which
have no value where they reach too far.  None of them does.

Main facts, for every picture:
* `compose?_eq`: copying slices gives the canvas;
* `compose_pixels`: the number of pixels, and what each of them shows.
-/

namespace GifBitmap

namespace RowOrder

/-- The place at which a row of an image is stored. -/
def placeOf (image : Gif.ImageDescriptor) (row : Nat) : Nat :=
  if image.interlaced then (interlaced image.height.toNat).idxOf row else row

theorem getElem?_placeOf
    {image : Gif.ImageDescriptor}
    {row : Nat}
    (hrow : row < image.height.toNat) :
    (ofImage image)[placeOf image row]? = some row := by
  have hmem := mem_ofImage.mpr hrow
  rw [ofImage] at hmem ⊢
  rw [placeOf]
  split
  · rename_i hinterlaced
    rw [if_pos hinterlaced] at hmem
    exact List.getElem?_idxOf hmem
  · rw [List.getElem?_range hrow]

end RowOrder

namespace Canvas

variable
  {canvas : Canvas}
  {picture : Gif.Picture}
  {frame : Gif.Frame}

/-- Copies the first `count` indices of a row over those from a position on.  There is no result
if there are not so many in the row, or not so many from that position on. -/
def copySlice?
    (indices : Array UInt8)
    (position count : Nat)
    (row : List UInt8) :
    Option (Array UInt8) :=
  if count ≤ row.length ∧ position + count ≤ indices.size then
    some (overwrite indices position (row.take count))
  else
    none

/-- Copies the rows of an image, given in the order in which they are stored, to the indices of a
canvas.  The data are taken up in parts of the image's width, of which the last may be shorter;
where they end, the rows end. -/
def copyRows?
    (screen : Gif.Screen)
    (image : Gif.ImageDescriptor) :
    (rows : List Nat) →
    (data : List UInt8) →
    (indices : Array UInt8) →
    Option (Array UInt8)
  | [], _, indices => some indices
  | _ :: _, [], indices => some indices
  | row :: rows, index :: data, indices => do
      let part := (index :: data).take image.width.toNat
      let line := image.top.toNat + row
      let columns := min image.width.toNat (screen.width.toNat - image.left.toNat)
      let next ←
        if line < screen.height.toNat then
          copySlice? indices (line * screen.width.toNat + image.left.toNat)
            (min columns part.length) part
        else
          some indices
      copyRows? screen image rows ((index :: data).drop image.width.toNat) next

/-- The indices of the canvas of a picture, made by copying slices. -/
def compose? (picture : Gif.Picture) : Option (Array UInt8) :=
  let screen := picture.preamble.screen
  let image := picture.frame.image
  let background :=
    Array.replicate (screen.width.toNat * screen.height.toNat) screen.background
  let columns := min image.width.toNat (screen.width.toNat - image.left.toNat)
  if 0 < image.width.toNat ∧ 0 < columns then
    copyRows? screen image (RowOrder.ofImage image) picture.frame.data.indices.toList background
  else
    some background

theorem copySlice?_of_le
    {indices : Array UInt8}
    {position count : Nat}
    {row : List UInt8}
    (hcount : count ≤ row.length)
    (hposition : position + count ≤ indices.size) :
    copySlice? indices position count row =
      some (overwrite indices position (row.take count)) :=
  if_pos ⟨hcount, hposition⟩

theorem storedRow_eq (frame : Gif.Frame) (place : Nat) :
    storedRow frame place =
      (frame.data.indices.toList.drop (place * frame.image.width.toNat)).take
        frame.image.width.toNat := by
  rw [storedRow, Array.toList_extract, List.extract_eq_take_drop, Nat.add_sub_cancel_left]

/-- A row without a visible index changes nothing. -/
theorem paintRow_of_take_eq_nil
    {x : Nat}
    {row : List UInt8}
    (h : row.take (canvas.width - x) = [])
    (y : Nat) :
    canvas.paintRow x y row = canvas := by
  rw [paintRow, h]
  split
  · rfl
  · rfl

/-- The slice that is copied for a row is in range, and what it holds is painted. -/
theorem copySlice?_eq
    (hwhole : canvas.IsWhole)
    {x y width : Nat}
    {row : List UInt8}
    (hx : x < canvas.width)
    (hy : y < canvas.height)
    (hrow : row.length ≤ width) :
    copySlice? canvas.indices (y * canvas.width + x)
        (min (min width (canvas.width - x)) row.length) row =
      some (canvas.paintRow x y row).indices := by
  have hend : y * canvas.width + canvas.width ≤ canvas.indices.size := by
    rw [hwhole]
    exact row_end_le hy
  have hvisible : row.take (min (min width (canvas.width - x)) row.length) =
      row.take (canvas.width - x) := by
    rw [List.take_eq_take_iff]
    omega
  rw [copySlice?_of_le (Nat.min_le_right ..) (by omega), hvisible, paintRow, if_pos hy]

/-- The rows from a place on, copied from the data from that place on, are the painted rows. -/
theorem copyRows?_eq
    {screen : Gif.Screen}
    (hwhole : canvas.IsWhole)
    (hwidth : canvas.width = screen.width.toNat)
    (hheight : canvas.height = screen.height.toNat)
    (hleft : frame.image.left.toNat < screen.width.toNat)
    (rows : List Nat)
    (place : Nat) :
    copyRows? screen frame.image rows
        (frame.data.indices.toList.drop (place * frame.image.width.toNat)) canvas.indices =
      some (paintRows frame canvas (rows.zipIdx place)).indices := by
  induction rows generalizing canvas place with
  | nil => rfl
  | cons row rows ih =>
      have hdrop : (frame.data.indices.toList.drop (place * frame.image.width.toNat)).drop
            frame.image.width.toNat =
          frame.data.indices.toList.drop ((place + 1) * frame.image.width.toNat) := by
        rw [List.drop_drop, Nat.succ_mul]
      have hpart := storedRow_eq frame place
      rw [List.zipIdx_cons, paintRows_cons]
      cases hdata : frame.data.indices.toList.drop (place * frame.image.width.toNat) with
      | nil =>
          -- There are no data from here on, so the rows that follow are all empty.
          have hrest := ih hwhole hwidth hheight (place + 1)
          rw [hdata, List.take_nil] at hpart
          rw [← hdrop, hdata, List.drop_nil] at hrest
          rw [hpart, paintRow_of_take_eq_nil List.take_nil, ← hrest]
          cases rows <;> rfl
      | cons index data =>
          rw [hdata] at hdrop hpart
          have hlength := length_storedRow_le frame place
          rw [copyRows?, ← hpart, hdrop, ← hwidth, ← hheight]
          dsimp only
          split
          · rename_i hline
            have hpainted := copySlice?_eq hwhole (hwidth ▸ hleft) hline hlength
            rw [hpainted]
            exact ih (hwhole.paintRow _ _ _) ((width_paintRow _ _ _).trans hwidth)
              ((height_paintRow _ _ _).trans hheight) (place + 1)
          · rename_i hline
            rw [paintRow, if_neg hline]
            exact ih hwhole hwidth hheight (place + 1)

/-- An image without a visible column changes nothing. -/
theorem paintRows_of_hidden
    (hhidden : frame.image.width.toNat = 0 ∨ canvas.width ≤ frame.image.left.toNat)
    (rows : List (Nat × Nat)) :
    paintRows frame canvas rows = canvas := by
  induction rows with
  | nil => rfl
  | cons first rest ih =>
      obtain ⟨row, place⟩ := first
      have hlength := length_storedRow_le frame place
      have hnone : (storedRow frame place).take (canvas.width - frame.image.left.toNat) = [] := by
        rw [List.take_eq_nil_iff, ← List.length_eq_zero_iff]
        omega
      rw [paintRows_cons, paintRow_of_take_eq_nil hnone, ih]

/-- Every slice that is copied is in range, and the indices are those of the canvas. -/
theorem compose?_eq (picture : Gif.Picture) :
    compose? picture = some (compose picture).indices := by
  have hwhole := isWhole_filled picture.preamble.screen.width.toNat
    picture.preamble.screen.height.toNat picture.preamble.screen.background
  rw [compose, paintFrame_eq, compose?]
  split
  · rename_i hvisible
    have hleft : picture.frame.image.left.toNat < picture.preamble.screen.width.toNat := by omega
    have hcopied := copyRows?_eq hwhole rfl rfl hleft (RowOrder.ofImage picture.frame.image) 0
    rw [Nat.zero_mul, List.drop_zero] at hcopied
    exact hcopied
  · rename_i hnone
    rw [paintRows_of_hidden]
    · rfl
    · change _ ∨ picture.preamble.screen.width.toNat ≤ _
      omega

theorem index?_compose_of_outside
    {x y : Nat}
    (hx : x < picture.preamble.screen.width.toNat)
    (hy : y < picture.preamble.screen.height.toNat)
    (houtside :
      ¬(picture.frame.image.left.toNat ≤ x ∧
        x < picture.frame.image.left.toNat + picture.frame.image.width.toNat ∧
        picture.frame.image.top.toNat ≤ y ∧
        y < picture.frame.image.top.toNat + picture.frame.image.height.toNat)) :
    (compose picture).index? x y = some picture.preamble.screen.background := by
  have hwhole := isWhole_filled picture.preamble.screen.width.toNat
    picture.preamble.screen.height.toNat picture.preamble.screen.background
  rw [compose, paintFrame_eq, index?_paintRows_of_apart hwhole, index?_filled _ hx hy]
  intro row hrow hline
  rw [List.zipIdx_map_fst, RowOrder.mem_ofImage] at hrow
  omega

theorem index?_compose_of_inside
    {x y : Nat}
    (hx : x < picture.preamble.screen.width.toNat)
    (hy : y < picture.preamble.screen.height.toNat)
    (hleft : picture.frame.image.left.toNat ≤ x)
    (hright : x < picture.frame.image.left.toNat + picture.frame.image.width.toNat)
    (htop : picture.frame.image.top.toNat ≤ y)
    (hbottom : y < picture.frame.image.top.toNat + picture.frame.image.height.toNat) :
    (compose picture).index? x y =
      picture.frame.data.indices[
          RowOrder.placeOf picture.frame.image (y - picture.frame.image.top.toNat) *
              picture.frame.image.width.toNat +
            (x - picture.frame.image.left.toNat)]?.or
        (some picture.preamble.screen.background) := by
  obtain ⟨column, rfl⟩ := Nat.exists_eq_add_of_le hleft
  obtain ⟨row, rfl⟩ := Nat.exists_eq_add_of_le htop
  rw [Nat.add_sub_cancel_left, Nat.add_sub_cancel_left]
  exact index?_compose (RowOrder.getElem?_placeOf (by omega)) (by omega) hx hy

/-- The canvas has an index for every pixel of the screen, and copying the slices of the rows gives
these indices without one out of range.

A pixel of the image shows the index stored at the pixel's place in the image, where the row is
looked up in the order of the passes if the image is interlaced.  A pixel for which there are no
data, and any other pixel, shows the background. -/
theorem compose_pixels (picture : Gif.Picture) :
    let screen := picture.preamble.screen
    let image := picture.frame.image
    let data := picture.frame.data.indices
    let indices := (compose picture).indices
    compose? picture = some indices ∧
      indices.size = screen.width.toNat * screen.height.toNat ∧
      ∀ x y,
        x < screen.width.toNat →
          y < screen.height.toNat →
            let row := y - image.top.toNat
            let place :=
              if image.interlaced then
                (RowOrder.interlaced image.height.toNat).idxOf row
              else
                row
            let position := place * image.width.toNat + (x - image.left.toNat)
            indices[y * screen.width.toNat + x]? =
              if image.left.toNat ≤ x ∧ x < image.left.toNat + image.width.toNat ∧
                  image.top.toNat ≤ y ∧ y < image.top.toNat + image.height.toNat ∧
                  position < data.size then
                data[position]?
              else
                some screen.background := by
  intro screen image data indices
  have hsize : indices.size = screen.width.toNat * screen.height.toNat := by
    rw [← width_compose picture, ← height_compose picture]
    exact isWhole_compose picture
  refine ⟨compose?_eq picture, hsize, ?_⟩
  intro x y hx hy row place position
  have hshown : (compose picture).index? x y = indices[y * screen.width.toNat + x]? := by
    rw [index?, width_compose, height_compose, if_pos ⟨hx, hy⟩]
  rw [← hshown]
  by_cases hinside : image.left.toNat ≤ x ∧ x < image.left.toNat + image.width.toNat ∧
      image.top.toNat ≤ y ∧ y < image.top.toNat + image.height.toNat
  · obtain ⟨hleft, hright, htop, hbottom⟩ := hinside
    have hstored : (compose picture).index? x y = data[position]?.or (some screen.background) :=
      index?_compose_of_inside hx hy hleft hright htop hbottom
    rw [hstored]
    split
    · rename_i hdata
      rw [Array.getElem?_eq_getElem hdata.2.2.2.2]
      rfl
    · rename_i hdata
      have hend : data.size ≤ position := by
        by_contra hwithin
        exact hdata ⟨hleft, hright, htop, hbottom, Nat.lt_of_not_le hwithin⟩
      rw [Array.getElem?_eq_none hend]
      rfl
  · rw [index?_compose_of_outside hx hy hinside, if_neg]
    rintro ⟨hleft, hright, htop, hbottom, -⟩
    exact hinside ⟨hleft, hright, htop, hbottom⟩

/-- An interlaced image of two columns and three rows, whose data end within the second of the rows
that are stored. -/
def tornPicture : Gif.Picture where
  preamble := ⟨[0x38, 0x39, 0x61], ⟨3, 3, 0, 9, 0⟩, none⟩
  frame := ⟨none, ⟨1, 0, 2, 3, 0x40⟩, none, ⟨2, #[1, 2, 3]⟩⟩

/-- The row in the middle is the last that is stored, so there are no data for it. -/
theorem compose_pixels_of_torn_picture :
    let indices := (compose tornPicture).indices
    compose? tornPicture = some indices ∧
      indices.size = 9 ∧
      indices[2]? = some 2 ∧
      indices[4]? = some 9 ∧
      indices[7]? = some 3 ∧
      indices[8]? = some 9 := by
  obtain ⟨hcopied, hsize, hpixel⟩ := compose_pixels tornPicture
  exact ⟨hcopied, hsize,
    (hpixel 2 0 (by decide) (by decide)).trans (by decide),
    (hpixel 1 1 (by decide) (by decide)).trans (by decide),
    (hpixel 1 2 (by decide) (by decide)).trans (by decide),
    (hpixel 2 2 (by decide) (by decide)).trans (by decide)⟩

end Canvas
end GifBitmap

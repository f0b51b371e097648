import Mathlib.Data.List.Sort
import GifBitmap.Bytes
import GifBitmap.RowOrder

/-!
# Rows in the order of the four passes

The passes of an interlaced image are stated here by the remainders of the rows in them
(`fourPasses`), and the indices of a picture are put in the order in which a file stores
them (`storedIndices`).  A stored row is found at its place in that order.

Main facts:
* `everyFrom_eq_filter`, `fourPasses_perm_range`: the passes hold every row once;
* `interlaced_places`: at which place a row is stored;
* `getElem?_storedIndices`: the indices of a row at that place.
-/

namespace GifBitmap

section Rows

variable {α β : Type} {row : α → List β} {length : Nat} {items : List α}

theorem length_flatMap_of_length (hlength : ∀ item ∈ items, (row item).length = length) :
    (items.flatMap row).length = items.length * length := by
  induction items with
  | nil => rw [List.flatMap_nil, List.length_nil, List.length_nil, Nat.zero_mul]
  | cons first rest ih =>
      rw [List.flatMap_cons, List.length_append, hlength first List.mem_cons_self,
        ih (fun item hitem => hlength item (List.mem_cons_of_mem _ hitem)), List.length_cons,
        Nat.succ_mul, Nat.add_comm]

theorem row_end_le
    {width height y : Nat}
    (hy : y < height) :
    y * width + width ≤ width * height := by
  rw [← Nat.succ_mul, Nat.mul_comm width]
  exact Nat.mul_le_mul_right width (Nat.succ_le_of_lt hy)

/-- Where rows stand one after another, each begins at a multiple of their length. -/
theorem getElem?_flatMap_of_length
    (hlength : ∀ item ∈ items, (row item).length = length)
    {place x : Nat}
    {item : α}
    (hitem : items[place]? = some item)
    (hx : x < length) :
    (items.flatMap row)[place * length + x]? = (row item)[x]? := by
  induction items generalizing place with
  | nil => simp at hitem
  | cons first rest ih =>
      have hfirst := hlength first List.mem_cons_self
      rw [List.flatMap_cons]
      cases place with
      | zero =>
          obtain rfl := Option.some.inj hitem
          rw [Nat.zero_mul, Nat.zero_add, List.getElem?_append_left (by omega)]
      | succ place =>
          have hrest := ih (fun item hitem => hlength item (List.mem_cons_of_mem _ hitem)) hitem
          rw [Nat.succ_mul, List.getElem?_append_right (by omega), hfirst, ← hrest]
          congr 1
          omega

theorem take_drop_flatMap_of_length
    (hlength : ∀ item ∈ items, (row item).length = length)
    {place : Nat}
    {item : α}
    (hitem : items[place]? = some item) :
    ((items.flatMap row).drop (place * length)).take length = row item := by
  apply List.ext_getElem?
  intro x
  by_cases hx : x < length
  · rw [List.getElem?_take_of_lt hx, List.getElem?_drop,
      getElem?_flatMap_of_length hlength hitem hx]
  · have hend := hlength item (List.mem_of_getElem? hitem)
    rw [List.getElem?_eq_none (by rw [List.length_take]; omega),
      List.getElem?_eq_none (by omega)]

/-- The same of a row of an array, which may be cut short at the end. -/
theorem getElem?_toList_extract
    {indices : Array β}
    {place x : Nat}
    (hx : x < length) :
    (indices.extract (place * length) (place * length + length)).toList[x]? =
      indices[place * length + x]? := by
  rw [Array.getElem?_toList, Array.getElem?_extract]
  split
  · rfl
  · rename_i hend
    rw [Array.getElem?_eq_none (by omega)]

end Rows

namespace RowOrder

/-- All rows: those that eight divides, those that four divides besides, the other even
ones, and the odd ones. -/
def fourPasses (height : Nat) : List Nat :=
  (List.range height).filter (· % 8 = 0) ++
    (List.range height).filter (· % 8 = 4) ++
    (List.range height).filter (· % 4 = 2) ++
    (List.range height).filter (· % 2 = 1)

/-- A pass holds the rows with one remainder, from top to bottom. -/
theorem everyFrom_eq_filter
    {height start step : Nat}
    (hstart : start < step) :
    everyFrom height start step = (List.range height).filter (· % step = start) := by
  have hstep : 0 < step := Nat.zero_lt_of_lt hstart
  -- Both lists increase, so it is enough that they have the same members.
  have hsorted : (everyFrom height start step).Pairwise (· < ·) :=
    List.pairwise_lt_range' step hstep
  refine hsorted.eq_of_mem_iff (List.pairwise_lt_range.filter _) ?_
  intro row
  rw [mem_everyFrom hstep, List.mem_filter, List.mem_range, decide_eq_true_iff]
  refine and_congr_right fun _ => ?_
  constructor
  · rintro ⟨count, rfl⟩
    rw [Nat.add_mul_mod_self_left, Nat.mod_eq_of_lt hstart]
  · intro hremainder
    exact ⟨row / step, by rw [← hremainder, Nat.mod_add_div]⟩

theorem interlaced_eq_fourPasses (height : Nat) : interlaced height = fourPasses height := by
  rw [interlaced, everyFrom_eq_filter (by decide), everyFrom_eq_filter (by decide),
    everyFrom_eq_filter (by decide), everyFrom_eq_filter (by decide), fourPasses]

@[simp]
theorem mem_fourPasses {height row : Nat} : row ∈ fourPasses height ↔ row < height := by
  simp only [fourPasses, List.mem_append, List.mem_filter, List.mem_range, decide_eq_true_eq]
  omega

theorem nodup_fourPasses (height : Nat) : (fourPasses height).Nodup := by
  simp only [fourPasses, List.nodup_append, List.mem_append, List.mem_filter, List.mem_range,
    decide_eq_true_eq]
  have hpass : ∀ keep : Nat → Bool, ((List.range height).filter keep).Nodup :=
    fun keep => List.nodup_range.filter keep
  refine ⟨⟨⟨hpass _, hpass _, ?_⟩, hpass _, ?_⟩, hpass _, ?_⟩
  · intro row hrow other hother
    omega
  · intro row hrow other hother
    omega
  · intro row hrow other hother
    omega

/-- Every row is in one pass, once. -/
theorem fourPasses_perm_range (height : Nat) :
    (fourPasses height).Perm (List.range height) := by
  rw [List.perm_ext_iff_of_nodup (nodup_fourPasses height) List.nodup_range]
  intro row
  rw [mem_fourPasses, List.mem_range]

theorem length_fourPasses (height : Nat) : (fourPasses height).length = height := by
  rw [(fourPasses_perm_range height).length_eq, List.length_range]

/-- The place at which a row of an interlaced image is stored.  The passes in front of a row
hold the rows of a multiple of eight, of four, or of two. -/
def storedPlace (height row : Nat) : Nat :=
  if row % 8 = 0 then
    row / 8
  else if row % 8 = 4 then
    (height + 7) / 8 + row / 8
  else if row % 4 = 2 then
    (height + 3) / 4 + row / 4
  else
    (height + 1) / 2 + row / 2

@[simp]
theorem length_everyFrom (height start step : Nat) :
    (everyFrom height start step).length = (height - start + (step - 1)) / step :=
  List.length_range'

/-- A pass holds its rows one behind the other, as far as the image reaches. -/
theorem getElem?_everyFrom
    {height start step count : Nat}
    (hstep : 0 < step)
    (hrow : start + step * count < height) :
    (everyFrom height start step)[count]? = some (start + step * count) := by
  have hcount : count < (height - start + (step - 1)) / step := by
    rw [Nat.lt_div_iff_mul_lt hstep, Nat.mul_comm]
    omega
  rw [everyFrom, List.getElem?_range' hcount]

/-- A row of the image is found at its place, in the pass of its remainder. -/
theorem getElem?_storedPlace
    {height row : Nat}
    (hrow : row < height) :
    (interlaced height)[storedPlace height row]? = some row := by
  have hpass (start step : Nat) (hstep : 0 < step) (h : start + step * (row / step) = row) :
      (everyFrom height start step)[row / step]? = some row := by
    have hfound := @getElem?_everyFrom height start step (row / step) hstep (by omega)
    rwa [h] at hfound
  -- The lengths of the passes in front, together, are what `storedPlace` adds.
  have hfront : (everyFrom height 0 8 ++ everyFrom height 4 8).length = (height + 3) / 4 := by
    rw [List.length_append, length_everyFrom, length_everyFrom]
    omega
  have hmost : (everyFrom height 0 8 ++ everyFrom height 4 8 ++ everyFrom height 2 4).length =
      (height + 1) / 2 := by
    rw [List.length_append, hfront, length_everyFrom]
    omega
  have hfirst : (everyFrom height 0 8).length = (height + 7) / 8 := by
    rw [length_everyFrom]
    omega
  unfold storedPlace interlaced
  split
  · rename_i hremainder
    rw [List.getElem?_append_left (by omega), List.getElem?_append_left (by omega),
      List.getElem?_append_left (by omega)]
    exact hpass 0 8 (by decide) (by omega)
  · split
    · rename_i hremainder
      rw [List.getElem?_append_left (by omega), List.getElem?_append_left (by omega),
        List.getElem?_append_right (by omega), hfirst, Nat.add_sub_cancel_left]
      exact hpass 4 8 (by decide) (by omega)
    · split
      · rename_i hremainder
        rw [List.getElem?_append_left (by omega), List.getElem?_append_right (by omega), hfront,
          Nat.add_sub_cancel_left]
        exact hpass 2 4 (by decide) (by omega)
      · rw [List.getElem?_append_right (by omega), hmost, Nat.add_sub_cancel_left]
        exact hpass 1 2 (by decide) (by omega)

/-- The order of an interlaced image holds every row once and nothing else, and a row stands at
its stored place only. -/
theorem interlaced_places (height : Nat) :
    (interlaced height).Perm (List.range height) ∧
      ∀ place row,
        (interlaced height)[place]? = some row ↔
          row < height ∧ place = storedPlace height row := by
  constructor
  · rw [interlaced_eq_fourPasses]
    exact fourPasses_perm_range height
  · intro place row
    constructor
    · intro hplace
      have hrow : row < height := by
        rw [← mem_fourPasses, ← interlaced_eq_fourPasses]
        exact List.mem_of_getElem? hplace
      have hnodup : (interlaced height).Nodup := by
        rw [interlaced_eq_fourPasses]
        exact nodup_fourPasses height
      obtain ⟨hlt, -⟩ := List.getElem?_eq_some_iff.mp hplace
      refine ⟨hrow, (List.getElem?_inj hlt hnodup).mp ?_⟩
      rw [hplace, getElem?_storedPlace hrow]
    · rintro ⟨hrow, rfl⟩
      exact getElem?_storedPlace hrow

/-- The first pass of ten rows has two of them, the second one, the third two. -/
example : interlaced 10 = [0, 8, 4, 2, 6, 1, 3, 5, 7, 9] ∧ storedPlace 10 6 = 4 := by
  decide

theorem ofImage_eq (image : Gif.ImageDescriptor) :
    ofImage image =
      if image.interlaced then
        fourPasses image.height.toNat
      else
        List.range image.height.toNat := by
  rw [ofImage, interlaced_eq_fourPasses]

theorem mem_ofImage {image : Gif.ImageDescriptor} {row : Nat} :
    row ∈ ofImage image ↔ row < image.height.toNat := by
  rw [ofImage_eq]
  split
  · exact mem_fourPasses
  · exact List.mem_range

theorem nodup_ofImage (image : Gif.ImageDescriptor) : (ofImage image).Nodup := by
  rw [ofImage_eq]
  split
  · exact nodup_fourPasses _
  · exact List.nodup_range

/-- The indices of a picture in the order in which they are stored: row by row in four
passes, or as they are. -/
def storedIndices
    (interlaced : Bool)
    (width height : Nat)
    (indices : List UInt8) :
    List UInt8 :=
  if interlaced then
    (fourPasses height).flatMap fun row => (indices.drop (row * width)).take width
  else
    indices

section Stored

variable {width height : Nat} {indices : List UInt8}

theorem length_row
    (hlength : indices.length = width * height)
    {row : Nat}
    (hrow : row < height) :
    ((indices.drop (row * width)).take width).length = width := by
  have hend : row * width + width ≤ width * height := row_end_le hrow
  rw [List.length_take, List.length_drop, hlength]
  omega

theorem length_storedIndices
    (interlaced : Bool)
    (hlength : indices.length = width * height) :
    (storedIndices interlaced width height indices).length = width * height := by
  rw [storedIndices]
  split
  · rw [length_flatMap_of_length (fun row hrow => length_row hlength (mem_fourPasses.mp hrow)),
      length_fourPasses, Nat.mul_comm]
  · exact hlength

/-- A row of a picture is stored at its place in the order of the rows. -/
theorem getElem?_storedIndices
    {image : Gif.ImageDescriptor}
    (hlength : indices.length = image.width.toNat * image.height.toNat)
    {place row x : Nat}
    (hplace : (ofImage image)[place]? = some row)
    (hx : x < image.width.toNat) :
    (storedIndices image.interlaced image.width.toNat image.height.toNat
      indices)[place * image.width.toNat + x]? = indices[row * image.width.toNat + x]? := by
  rw [ofImage_eq] at hplace
  rw [storedIndices]
  split
  · rename_i hinterlaced
    rw [if_pos hinterlaced] at hplace
    rw [getElem?_flatMap_of_length
      (fun row hrow => length_row hlength (mem_fourPasses.mp hrow)) hplace hx,
      List.getElem?_take_of_lt hx, List.getElem?_drop]
  · rename_i hplain
    rw [if_neg hplain] at hplace
    obtain ⟨_, hsame⟩ := List.getElem?_eq_some_iff.mp hplace
    rw [List.getElem_range] at hsame
    rw [hsame]

end Stored

end RowOrder
end GifBitmap

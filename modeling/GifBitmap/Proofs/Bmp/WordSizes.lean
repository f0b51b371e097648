import GifBitmap.Proofs.Bmp.Reuse

/-!
# Sizes computed in words

The sizes of a file are computed in words of fixed length: a row is filled up with a mask,
products and sums are checked one by one, and the headers are added to the size of the color
table without any check.  The last of these is the only one that can go wrong, and does so for
thirteen numbers of colors (`Layout.HeadersOverflow`).  All other sizes are the exact ones, or they
are refused because they do not fit.

Main facts:
* `map_pixelOffset`, `map_pixelArraySize`, `map_fileSize`: the sizes as numbers;
* `toNat_of_fileSize`, `le_of_fileSize_error`: a size is exact, or it does not fit;
* `sizes_exact_or_refused`: every size is exact or refused, and how it is refused.
-/

namespace GifBitmap
namespace Bmp
namespace Layout

variable {layout : Layout}

theorem map_field (failure : Error) (value : Nat) :
    (field failure value).map UInt32.toNat =
      if value < 2 ^ 32 then .ok value else .error failure := by
  by_cases hlt : value < 2 ^ 32
  · rw [field_of_lt _ hlt, if_pos hlt]
    exact congrArg Except.ok (UInt32.toNat_ofNat_of_lt' hlt)
  · rw [field_of_le _ (Nat.le_of_not_lt hlt), if_neg hlt]
    rfl

/-- A row is filled up beyond the greatest field only by the three greatest widths. -/
theorem rowStride_lt_iff : layout.rowStride < 2 ^ 32 ↔ layout.width.toNat ≤ 2 ^ 32 - 4 := by
  have hwidth := layout.width.toNat_lt
  rw [rowStride_eq]
  unfold roundUpToFour
  omega

theorem rowStride_least
    {multiple : Nat}
    (hdvd : 4 ∣ multiple)
    (hwidth : layout.width.toNat ≤ multiple) :
    layout.rowStride ≤ multiple := by
  obtain ⟨quarter, rfl⟩ := hdvd
  rw [rowStride_eq]
  exact roundUpToFour_le hwidth

theorem offset_lt
    (h : ¬HeadersOverflow layout.colors.toNat)
    (htable : 4 * layout.colors.toNat < 2 ^ 32) :
    54 + 4 * layout.colors.toNat < 2 ^ 32 := by
  rw [headersOverflow_iff, not_and, Nat.not_le] at h
  exact h htable

theorem map_pixelOffset
    (h : ¬HeadersOverflow layout.colors.toNat) :
    layout.pixelOffset.map UInt32.toNat =
      if 4 * layout.colors.toNat < 2 ^ 32 then .ok (54 + 4 * layout.colors.toNat)
      else .error .tooLarge := by
  by_cases htable : 4 * layout.colors.toNat < 2 ^ 32
  · rw [pixelOffset_eq_ok_iff.mpr ⟨htable, rfl⟩, if_pos htable]
    exact congrArg Except.ok (UInt32.toNat_ofNat_of_lt' (offset_lt h htable))
  · rw [if_neg htable, pixelOffset_eq]
    exact congrArg (Except.map UInt32.toNat) (if_neg htable)

/-- A stride that fits a field is that of a width below the three greatest. -/
theorem pixelArraySize_of_width (layout : Layout) :
    layout.pixelArraySize =
      if 2 ^ 32 - 4 < layout.width.toNat then .error .numberOutOfRange
      else field .tooLarge (layout.rowStride * layout.height.toNat) := by
  rw [pixelArraySize_eq]
  by_cases hwide : 2 ^ 32 - 4 < layout.width.toNat
  · have hlarge : ¬layout.rowStride < 2 ^ 32 := by
      rw [rowStride_lt_iff]
      exact Nat.not_le_of_lt hwide
    rw [if_pos hwide]
    exact if_neg hlarge
  · rw [if_neg hwide]
    exact if_pos (rowStride_lt_iff.mpr (Nat.le_of_not_lt hwide))

theorem map_pixelArraySize (layout : Layout) :
    layout.pixelArraySize.map UInt32.toNat =
      if 2 ^ 32 - 4 < layout.width.toNat then .error .numberOutOfRange
      else if layout.rowStride * layout.height.toNat < 2 ^ 32 then
        .ok (layout.rowStride * layout.height.toNat)
      else .error .tooLarge := by
  rw [pixelArraySize_of_width]
  split
  · rfl
  · exact map_field _ _

theorem map_fileSize (layout : Layout) :
    layout.fileSize.map UInt32.toNat = (do
      let offset ← layout.pixelOffset.map UInt32.toNat
      let rows ← layout.pixelArraySize.map UInt32.toNat
      if offset + rows < 2 ^ 32 then .ok (offset + rows) else .error .tooLarge) := by
  rw [fileSize]
  cases layout.pixelOffset with
  | error cause => rfl
  | ok offset =>
      cases layout.pixelArraySize with
      | error cause => rfl
      | ok rows =>
          change (sum .tooLarge offset rows).map UInt32.toNat = _
          rw [sum_eq]
          exact map_field .tooLarge (offset.toNat + rows.toNat)

theorem toNat_of_pixelOffset
    {offset : UInt32}
    (hexact : ¬HeadersOverflow layout.colors.toNat)
    (h : layout.pixelOffset = .ok offset) :
    offset.toNat = 54 + 4 * layout.colors.toNat := by
  obtain ⟨htable, rfl⟩ := pixelOffset_eq_ok_iff.mp h
  exact UInt32.toNat_ofNat_of_lt' (offset_lt hexact htable)

theorem le_of_pixelOffset_error
    {cause : Error}
    (h : layout.pixelOffset = .error cause) :
    2 ^ 32 ≤ 54 + 4 * layout.colors.toNat := by
  refine Nat.le_of_not_lt fun hlt => ?_
  rw [pixelOffset_eq_ok_iff.mpr ⟨by omega, rfl⟩] at h
  exact absurd h nofun

theorem toNat_of_pixelArraySize
    {rows : UInt32}
    (h : layout.pixelArraySize = .ok rows) :
    rows.toNat = layout.rowStride * layout.height.toNat := by
  obtain ⟨-, hrows, rfl⟩ := pixelArraySize_eq_ok_iff.mp h
  exact UInt32.toNat_ofNat_of_lt' hrows

theorem le_of_pixelArraySize_error
    {cause : Error}
    (h : layout.pixelArraySize = .error cause) :
    2 ^ 32 ≤ layout.rowStride ∨ 2 ^ 32 ≤ layout.rowStride * layout.height.toNat := by
  by_contra hsmall
  rw [not_or, Nat.not_le, Nat.not_le] at hsmall
  rw [pixelArraySize_eq_ok_iff.mpr ⟨hsmall.1, hsmall.2, rfl⟩] at h
  exact absurd h nofun

theorem toNat_of_fileSize
    {size : UInt32}
    (hexact : ¬HeadersOverflow layout.colors.toNat)
    (h : layout.fileSize = .ok size) :
    size.toNat = 54 + 4 * layout.colors.toNat + layout.rowStride * layout.height.toNat := by
  obtain ⟨offset, hoffset, h⟩ := bind_eq_ok_iff.mp h
  obtain ⟨rows, hrows, h⟩ := bind_eq_ok_iff.mp h
  rw [sum_eq] at h
  obtain ⟨hsize, rfl⟩ := field_eq_ok_iff.mp h
  rw [UInt32.toNat_ofNat_of_lt' hsize, toNat_of_pixelOffset hexact hoffset,
    toNat_of_pixelArraySize hrows]

theorem le_of_fileSize_error
    {cause : Error}
    (hexact : ¬HeadersOverflow layout.colors.toNat)
    (h : layout.fileSize = .error cause) :
    2 ^ 32 ≤ layout.rowStride ∨
      2 ^ 32 ≤ 54 + 4 * layout.colors.toNat + layout.rowStride * layout.height.toNat := by
  rcases cause_of_bind h with hoffset | ⟨offset, hoffset, h⟩
  · have hlarge := le_of_pixelOffset_error hoffset
    exact .inr (by omega)
  rcases cause_of_bind h with hrows | ⟨rows, hrows, h⟩
  · refine (le_of_pixelArraySize_error hrows).imp_right fun hlarge => ?_
    omega
  · rw [← toNat_of_pixelOffset hexact hoffset, ← toNat_of_pixelArraySize hrows]
    refine .inr (Nat.le_of_not_lt fun hlt => ?_)
    rw [sum_eq, field_of_lt _ hlt] at h
    exact absurd h nofun

/-- Whether all sizes of a layout are exact or refused, although they are computed in words. -/
structure ExactOrRefused (layout : Layout) : Prop where
  /-- A row is filled up to the least multiple of four. -/
  stride_least :
    4 ∣ layout.rowStride ∧
      layout.width.toNat ≤ layout.rowStride ∧
      ∀ multiple, 4 ∣ multiple → layout.width.toNat ≤ multiple → layout.rowStride ≤ multiple
  offset_eq :
    layout.pixelOffset.map UInt32.toNat =
      if 4 * layout.colors.toNat < 2 ^ 32 then .ok (54 + 4 * layout.colors.toNat)
      else .error .tooLarge
  rows_eq :
    layout.pixelArraySize.map UInt32.toNat =
      if 2 ^ 32 - 4 < layout.width.toNat then .error .numberOutOfRange
      else if layout.rowStride * layout.height.toNat < 2 ^ 32 then
        .ok (layout.rowStride * layout.height.toNat)
      else .error .tooLarge
  /-- The offset is checked first, then the rows, and then their sum. -/
  size_eq :
    layout.fileSize.map UInt32.toNat = (do
      let offset ← layout.pixelOffset.map UInt32.toNat
      let rows ← layout.pixelArraySize.map UInt32.toNat
      if offset + rows < 2 ^ 32 then .ok (offset + rows) else .error .tooLarge)
  /-- A size of the file that is given is the exact one. -/
  size_exact :
    ∀ size,
      layout.fileSize = .ok size →
        size.toNat = 54 + 4 * layout.colors.toNat + layout.rowStride * layout.height.toNat
  offset_refused :
    ∀ cause, layout.pixelOffset = .error cause → 2 ^ 32 ≤ 54 + 4 * layout.colors.toNat
  rows_refused :
    ∀ cause,
      layout.pixelArraySize = .error cause →
        2 ^ 32 ≤ layout.rowStride ∨ 2 ^ 32 ≤ layout.rowStride * layout.height.toNat
  size_refused :
    ∀ cause,
      layout.fileSize = .error cause →
        2 ^ 32 ≤ layout.rowStride ∨
          2 ^ 32 ≤ 54 + 4 * layout.colors.toNat + layout.rowStride * layout.height.toNat

theorem exactOrRefused_of_colors
    (h : ¬HeadersOverflow layout.colors.toNat) :
    layout.ExactOrRefused where
  stride_least :=
    ⟨four_dvd_rowStride layout, layout.width_le_rowStride, fun _ => rowStride_least⟩
  offset_eq := map_pixelOffset h
  rows_eq := map_pixelArraySize layout
  size_eq := map_fileSize layout
  size_exact _ := toNat_of_fileSize h
  offset_refused _ := le_of_pixelOffset_error
  rows_refused _ := le_of_pixelArraySize_error
  size_refused _ := le_of_fileSize_error h

/-- A layout is refused exactly if its number of colors does not fit a field.  The sizes of any
other are exact or refused, unless the number of colors is one of the thirteen for which the
headers overflow. -/
theorem sizes_exact_or_refused
    (width height : UInt32)
    (colors : UInt64)
    (h : ¬HeadersOverflow colors.toNat) :
    (2 ^ 32 ≤ colors.toNat →
      ofSizes width height colors.toNat = .error .numberOutOfRange) ∧
      (colors.toNat < 2 ^ 32 →
        ∃ layout,
          ofSizes width height colors.toNat = .ok layout ∧
            layout.width = width ∧
            layout.height = height ∧
            layout.colors.toNat = colors.toNat ∧
            layout.ExactOrRefused) := by
  refine ⟨fun hlarge => ?_, fun hsmall => ?_⟩
  · rw [ofSizes, field_of_le _ hlarge]
    rfl
  · have hcolors : (UInt32.ofNat colors.toNat).toNat = colors.toNat :=
      UInt32.toNat_ofNat_of_lt' hsmall
    refine ⟨⟨width, height, UInt32.ofNat colors.toNat⟩, ofSizes_eq_ok_iff.mpr ⟨hsmall, rfl⟩,
      rfl, rfl, hcolors, exactOrRefused_of_colors ?_⟩
    rw [hcolors]
    exact h

/-- The greatest number of colors whose offset fits, and the greatest row: only their sum is
refused. -/
theorem sizes_exact_or_refused_of_full_fields :
    ¬HeadersOverflow (0x3FFFFFF2 : UInt64).toNat ∧
      ∃ layout,
        ofSizes 0xFFFFFFFC 1 0x3FFFFFF2 = .ok layout ∧
          layout.pixelOffset.map UInt32.toNat = .ok 0xFFFFFFFE ∧
          layout.pixelArraySize.map UInt32.toNat = .ok 0xFFFFFFFC ∧
          layout.fileSize.map UInt32.toNat = .error .tooLarge := by
  have hcolors : ¬HeadersOverflow (0x3FFFFFF2 : UInt64).toNat := by
    decide
  obtain ⟨-, hsmall⟩ := sizes_exact_or_refused 0xFFFFFFFC 1 0x3FFFFFF2 hcolors
  obtain ⟨layout, hlayout, hwidth, hheight, hstored, hexact⟩ := hsmall (by decide)
  have hstride : layout.rowStride = 0xFFFFFFFC := by
    rw [rowStride_eq, hwidth]
    rfl
  have hoffset : layout.pixelOffset.map UInt32.toNat = .ok 0xFFFFFFFE := by
    rw [hexact.offset_eq, hstored]
    rfl
  have hrows : layout.pixelArraySize.map UInt32.toNat = .ok 0xFFFFFFFC := by
    rw [hexact.rows_eq, hstride, hwidth, hheight]
    rfl
  refine ⟨hcolors, layout, hlayout, hoffset, hrows, ?_⟩
  rw [hexact.size_eq, hoffset, hrows]
  rfl

end Layout
end Bmp
end GifBitmap

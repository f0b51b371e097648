import GifBitmap.Proofs.FieldScan

/-!
# Descriptions that begin further back

A description may ask how many bytes were read so far, and name that number in a failure.
Followed on the same bytes, but from a position further back, it reads the same fields and
ends in the same way; only the offsets that it names are larger by the distance.

`Translated` relates two descriptions that differ in such offsets.  It also says that they
fail for causes in the file only, so that every failure of the delivery comes from the source.

Main facts:
* `Translated.bind`, `Translated.rounds`: composed and repeated descriptions;
* `Translated.scan`: the scan from a position further back.
-/

namespace GifBitmap

namespace Error

/-- Whether a cause lies in the bytes of a file, and not in their delivery. -/
def LiesInFile : Error → Prop
  | .stream _ | .endOfInput _ => False
  | _ => True

/-- The cause with its offset, if it names one, further back by a distance. -/
def translate (distance : Nat) : Error → Error
  | endOfInput offset => .endOfInput (offset + distance)
  | unexpectedByte offset expected found => .unexpectedByte (offset + distance) expected found
  | repeatedGraphicControl offset => .repeatedGraphicControl (offset + distance)
  | cause => cause

/-- The failure of a source does not lie in the file. -/
theorem not_liesInFile_ofSource (offset : Nat) (failure : StreamError) :
    ¬(ofSource offset failure).LiesInFile := by
  unfold ofSource
  cases failure.kind <;> exact id

theorem ofSource_add (offset distance : Nat) (failure : StreamError) :
    ofSource (offset + distance) failure = (ofSource offset failure).translate distance := by
  unfold ofSource
  cases failure.kind <;> rfl

end Error

namespace FieldReader

variable {α β σ : Type}

/-- Whether two descriptions differ in the offsets that they name only, which are further back
in the second one by a distance. -/
inductive Translated (distance : Nat) : FieldReader α → FieldReader α → Prop
  | done (value : α) : Translated distance (.done value) (.done value)
  | fail
      {cause : Error}
      (h : cause.LiesInFile) :
      Translated distance (.fail cause) (.fail (cause.translate distance))
  | field
      {count : Nat}
      {positive : 0 < count}
      {near far : Bytes → FieldReader α}
      (h : ∀ bytes, Translated distance (near bytes) (far bytes)) :
      Translated distance (.field count positive near) (.field count positive far)
  | offset
      {near far : Nat → FieldReader α}
      (h : ∀ position, Translated distance (near position) (far (position + distance))) :
      Translated distance (.offset near) (.offset far)
  | note
      {event : Event}
      {near far : FieldReader α}
      (h : Translated distance near far) :
      Translated distance (.note event near) (.note event far)

namespace Scan

/-- The scan with the offset of its failure further back by a distance. -/
def translate (scan : Scan α) (distance : Nat) : Scan α :=
  match scan.ending with
  | .failure cause => { scan with ending := .failure (cause.translate distance) }
  | _ => scan

theorem fields_translate (scan : Scan α) (distance : Nat) :
    (scan.translate distance).fields = scan.fields := by
  unfold translate
  split <;> rfl

theorem events_translate (scan : Scan α) (distance : Nat) :
    (scan.translate distance).events = scan.events := by
  unfold translate
  split <;> rfl

theorem delivered_translate (scan : Scan α) (distance available : Nat) :
    (scan.translate distance).delivered available = scan.delivered available := by
  obtain ⟨ending, fields, events⟩ := scan
  cases ending <;> rfl

/-- A reader that stands further back names offsets that are further back. -/
theorem result_translate
    (scan : Scan α)
    (position distance : Nat)
    (shortage : StreamError) :
    (scan.translate distance).result (position + distance) shortage =
      (scan.result position shortage).mapError (Error.translate distance) := by
  obtain ⟨ending, fields, events⟩ := scan
  cases ending with
  | value => rfl
  | failure => rfl
  | short count =>
      have hoffset : position + distance + fields.sum = position + fields.sum + distance :=
        Nat.add_right_comm _ _ _
      exact congrArg Except.error (hoffset ▸ Error.ofSource_add _ distance shortage)

/-- What a reader gets that stands behind other bytes is what it would get at the start; only
the offset of a failure is moved behind what was consumed. -/
theorem outcome_translate (scan : Scan α) (input : Input) (interruptNext : Bool) :
    (scan.translate input.consumed).outcome input interruptNext =
      ((scan.result 0 input.source.shortage).mapError (Error.translate input.consumed),
        (scan.outcome input interruptNext).2) := by
  have hresult := scan.result_translate 0 input.consumed input.source.shortage
  rw [Nat.zero_add] at hresult
  rw [outcome, hresult, delivered_translate, fields_translate, events_translate]
  rfl

theorem translate_behindField (scan : Scan α) (count distance : Nat) :
    (scan.behindField count).translate distance = (scan.translate distance).behindField count := by
  obtain ⟨ending, fields, events⟩ := scan
  cases ending <;> rfl

theorem translate_behindEvent (scan : Scan α) (event : Event) (distance : Nat) :
    (scan.behindEvent event).translate distance = (scan.translate distance).behindEvent event := by
  obtain ⟨ending, fields, events⟩ := scan
  cases ending <;> rfl

end Scan

namespace Translated

variable {distance : Nat} {near far : FieldReader α}

theorem bind
    {next following : α → FieldReader β}
    (h : Translated distance near far)
    (hnext : ∀ value, Translated distance (next value) (following value)) :
    Translated distance (near >>= next) (far >>= following) := by
  induction h with
  | done value => exact hnext value
  | fail hcause => exact .fail hcause
  | field _ ih => exact .field ih
  | offset _ ih => exact .offset ih
  | note _ ih => exact .note ih

theorem rounds
    {body : σ → FieldReader (σ ⊕ α)}
    (hbody : ∀ state, Translated distance (body state) (body state))
    (most : Nat)
    (state : σ) :
    Translated distance (FieldReader.rounds body most state)
      (FieldReader.rounds body most state) := by
  induction most generalizing state with
  | zero => exact .fail trivial
  | succ most ih =>
      refine (hbody state).bind fun found => ?_
      cases found with
      | inl next => exact ih next
      | inr result => exact .done result

/-- Followed from a position further back, the second description does what the first one
does. -/
theorem scan
    (h : Translated distance near far)
    (position : Nat)
    (bytes : Bytes) :
    far.scan (position + distance) bytes = (near.scan position bytes).translate distance := by
  induction h generalizing position bytes with
  | done => rfl
  | fail => rfl
  | @field count positive near far _ ih =>
      by_cases hle : count ≤ bytes.length
      · have hposition : position + distance + count = position + count + distance :=
          Nat.add_right_comm _ _ _
        rw [scan_field_of_le positive near hle, scan_field_of_le positive far hle, hposition, ih,
          Scan.translate_behindField]
      · have hlt := Nat.lt_of_not_le hle
        rw [scan_field_of_lt positive near hlt, scan_field_of_lt positive far hlt]
        rfl
  | offset _ ih => exact ih position position bytes
  | @note event near far _ ih =>
      rw [FieldReader.scan, FieldReader.scan, ih, Scan.translate_behindEvent]

theorem failsOnly (h : Translated distance near far) : near.FailsOnly Error.LiesInFile := by
  induction h with
  | done => trivial
  | fail hcause => exact hcause
  | field _ ih => exact ih
  | offset _ ih => exact ih
  | note _ ih => exact ih

end Translated
end FieldReader
end GifBitmap

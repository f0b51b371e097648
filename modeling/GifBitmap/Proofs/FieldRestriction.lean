import GifBitmap.FieldReader

/-!
# Descriptions that fail early

A check that can be left out makes a description fail where it would have gone on.  `Restricts`
relates a description with such checks to the one without them.  As long as no check fails
the two do the same, on every input: they give the same result and leave the same input behind.

Main facts:
* `Restricts.bind`: composed descriptions;
* `Restricts.run`, `repeatUntil_of_restricts`: what such descriptions and repetitions do.
-/

namespace GifBitmap
namespace FieldReader

variable {α β σ : Type}

/-- Whether the first description is the second one, but for places where it fails for the
cause. -/
inductive Restricts (cause : Error) : FieldReader α → FieldReader α → Prop
  /-- Here the first description fails, whatever the second one goes on with. -/
  | cut (free : FieldReader α) : Restricts cause (.fail cause) free
  | done (value : α) : Restricts cause (.done value) (.done value)
  | fail (other : Error) : Restricts cause (.fail other) (.fail other)
  | field
      {count : Nat}
      {positive : 0 < count}
      {strict free : Bytes → FieldReader α}
      (h : ∀ bytes, Restricts cause (strict bytes) (free bytes)) :
      Restricts cause (.field count positive strict) (.field count positive free)
  | offset
      {strict free : Nat → FieldReader α}
      (h : ∀ position, Restricts cause (strict position) (free position)) :
      Restricts cause (.offset strict) (.offset free)
  | note
      {event : Event}
      {strict free : FieldReader α}
      (h : Restricts cause strict free) :
      Restricts cause (.note event strict) (.note event free)

namespace Restricts

variable {cause : Error} {strict free : FieldReader α}

theorem refl (cause : Error) (reader : FieldReader α) : Restricts cause reader reader := by
  induction reader with
  | done value => exact .done value
  | fail other => exact .fail other
  | field _ _ _ ih => exact .field ih
  | offset _ ih => exact .offset ih
  | note _ _ ih => exact .note ih

theorem bind
    {next following : α → FieldReader β}
    (h : Restricts cause strict free)
    (hnext : ∀ value, Restricts cause (next value) (following value)) :
    Restricts cause (strict >>= next) (free >>= following) := by
  induction h with
  | cut => exact .cut _
  | done value => exact hnext value
  | fail other => exact .fail other
  | field _ ih => exact .field ih
  | offset _ ih => exact .offset ih
  | note _ ih => exact .note ih

/-- The two do the same unless the first one fails for the cause. -/
theorem run
    (h : Restricts cause strict free)
    (input : Input) :
    strict.run input = free.run input ∨ (strict.run input).1 = .error cause := by
  induction h generalizing input with
  | cut => exact .inr rfl
  | done => exact .inl rfl
  | fail => exact .inl rfl
  | field _ ih =>
      simp only [FieldReader.run]
      split
      · exact ih _ _
      · exact .inl rfl
  | offset _ ih => exact ih _ _
  | note _ ih => exact ih _

end Restricts

/-- Two repetitions do the same unless the first one fails for the cause. -/
theorem repeatUntil_of_restricts
    {cause : Error}
    {strict free : σ → FieldReader (σ ⊕ α)}
    (h : ∀ state, Restricts cause (strict state) (free state))
    (strictProgress : ∀ state, (strict state).Progresses)
    (freeProgress : ∀ state, (free state).Progresses)
    (state : σ)
    (input : Input) :
    repeatUntil strict strictProgress state input = repeatUntil free freeProgress state input ∨
      (repeatUntil strict strictProgress state input).1 = .error cause := by
  fun_induction repeatUntil strict strictProgress state input with
  | case1 state input found rest hrun =>
      rcases (h state).run input with hsame | hcause
      · rw [repeatUntil_eq free, ← hsame, hrun]
        exact .inl rfl
      · rw [hrun] at hcause
        exact .inr (congrArg Except.error (Except.error.inj hcause))
  | case2 state input result rest hrun =>
      rcases (h state).run input with hsame | hcause
      · rw [repeatUntil_eq free, ← hsame, hrun]
        exact .inl rfl
      · rw [hrun] at hcause
        simp at hcause
  | case3 state input next rest hrun ih =>
      rcases (h state).run input with hsame | hcause
      · rw [repeatUntil_eq free, ← hsame, hrun]
        exact ih
      · rw [hrun] at hcause
        simp at hcause

end FieldReader
end GifBitmap

import GifBitmap.Proofs.FieldReading
import GifBitmap.Proofs.FieldTranslation

/-!
# Where a description fails

A description that fails by itself has taken some bytes off the front of its input, as one
that ends with a value has.  `Fails` says which bytes those may be, by way of the description
that ends with the failure as its value (`attempt`), so that all that is known of reading
carries over.  The only other failures are those of the source, and they never lie in the file.

A repetition passes through some states before one of its rounds gives the result or fails
(`Passes`).

Main facts:
* `run_of_fails`, `fails_of_run`: running a description that fails;
* `fails_bind_iff` and the lemmas after it: where composed descriptions fail;
* `repeatUntil_of_passes`, `passes_of_repeatUntil`: the rounds of a repetition.
-/

namespace GifBitmap
namespace FieldReader

variable {α β σ : Type}

/-- The description that ends with a failure instead of failing. -/
def attempt : FieldReader α → FieldReader (Except Error α)
  | done value => done (.ok value)
  | fail cause => done (.error cause)
  | field count positive next => .field count positive fun bytes => (next bytes).attempt
  | offset next => .offset fun consumed => (next consumed).attempt
  | note event next => .note event next.attempt

/-- Whether a description fails by itself behind exactly the given bytes, when `position` bytes
were read before them. -/
def Fails (reader : FieldReader α) (position : Nat) (taken : Bytes) (cause : Error) : Prop :=
  reader.attempt.Reads position taken (.error cause)

/-- The values of a description are read as before. -/
theorem reads_attempt_ok_iff
    {reader : FieldReader α}
    {position : Nat}
    {taken : Bytes}
    {value : α} :
    reader.attempt.Reads position taken (.ok value) ↔ reader.Reads position taken value := by
  induction reader generalizing position taken with
  | done found =>
      rw [attempt, Reads, Reads, Except.ok.injEq]
  | fail cause =>
      constructor
      · rintro ⟨-, h⟩
        exact absurd h nofun
      · exact False.elim
  | field count positive next ih =>
      simp only [attempt, Reads, ih]
  | offset next ih => exact ih position
  | note event next ih => exact ih

/-- What a description gives is what the one gives that ends with the failure, or else the
failure of the source. -/
theorem run_attempt (reader : FieldReader α) (input : Input) :
    reader.run input =
      match reader.attempt.run input with
      | (.ok result, rest) => (result, rest)
      | (.error cause, rest) => (.error cause, rest) := by
  induction reader generalizing input with
  | done => rfl
  | fail => rfl
  | field count positive next ih =>
      simp only [attempt, run]
      split
      · exact ih _ _
      · rfl
  | offset next ih => exact ih _ _
  | note event next ih => exact ih _

/-- A description that ends with its failures is failed by the source only. -/
theorem not_liesInFile_of_attempt
    {reader : FieldReader α}
    {input rest : Input}
    {cause : Error}
    (h : reader.attempt.run input = (.error cause, rest)) :
    ¬cause.LiesInFile := by
  induction reader generalizing input with
  | done => simp [attempt, run] at h
  | fail => simp [attempt, run] at h
  | field count positive next ih =>
      simp only [attempt, run] at h
      split at h
      · exact ih _ h
      · simp only [Prod.mk.injEq, Except.error.injEq] at h
        rw [← h.1]
        exact Error.not_liesInFile_ofSource _ _
  | offset next ih => exact ih _ h
  | note event next ih => exact ih h

/-- A description that fails behind the front of the pending bytes ends with the failure. -/
theorem run_of_fails
    {reader : FieldReader α}
    {input : Input}
    {taken left : Bytes}
    {cause : Error}
    (hsteady : input.source.Steady)
    (hpending : input.source.pending = taken ++ left)
    (h : reader.Fails input.consumed taken cause) :
    ∃ rest, reader.run input = (.error cause, rest) ∧ input.Advances taken rest := by
  obtain ⟨rest, hrun, hadvances⟩ := run_of_reads hsteady hpending h
  refine ⟨rest, ?_, hadvances⟩
  rw [run_attempt, hrun]

/-- A failure that lies in the file is one of the description itself, whatever the source. -/
theorem fails_of_run
    {reader : FieldReader α}
    {input rest : Input}
    {cause : Error}
    (h : reader.run input = (.error cause, rest))
    (hcause : cause.LiesInFile) :
    ∃ taken, input.Advances taken rest ∧ reader.Fails input.consumed taken cause := by
  rw [run_attempt] at h
  cases hattempt : reader.attempt.run input with
  | mk result last =>
      rw [hattempt] at h
      cases result with
      | error found =>
          obtain ⟨hfound, rfl⟩ := Prod.mk.inj h
          obtain rfl := Except.error.inj hfound
          exact absurd hcause (not_liesInFile_of_attempt hattempt)
      | ok found =>
          obtain ⟨rfl, rfl⟩ := Prod.mk.inj h
          exact advances_of_run hattempt

section Single

variable {position : Nat} {taken : Bytes} {cause : Error}

@[simp]
theorem not_fails_done {found : α} : ¬(done found).Fails position taken cause :=
  fun h => absurd h.2 nofun

@[simp]
theorem fails_fail_iff {found : Error} :
    (fail found : FieldReader α).Fails position taken cause ↔ taken = [] ∧ cause = found := by
  rw [Fails, attempt, Reads, Except.error.injEq]

theorem attempt_bind (reader : FieldReader α) (next : α → FieldReader β) :
    (reader >>= next).attempt =
      reader.attempt >>= fun
        | .ok value => (next value).attempt
        | .error cause => done (.error cause) := by
  induction reader with
  | done => rfl
  | fail => rfl
  | field count positive more ih => simp only [field_bind, attempt, ih]
  | offset more ih => simp only [offset_bind, attempt, ih]
  | note event more ih => simp only [note_bind, attempt, ih]

/-- The first description fails, or it reads something and the second one fails. -/
theorem fails_bind_iff
    {reader : FieldReader α}
    {next : α → FieldReader β} :
    (reader >>= next).Fails position taken cause ↔
      reader.Fails position taken cause ∨
        ∃ first rest found,
          taken = first ++ rest ∧
            reader.Reads position first found ∧
            (next found).Fails (position + first.length) rest cause := by
  rw [Fails, attempt_bind, reads_bind_iff]
  constructor
  · rintro ⟨first, rest, found, rfl, hfirst, hrest⟩
    cases found with
    | ok value => exact .inr ⟨first, rest, value, rfl, reads_attempt_ok_iff.mp hfirst, hrest⟩
    | error found =>
        obtain ⟨rfl, hfound⟩ := hrest
        obtain rfl := Except.error.inj hfound
        rw [List.append_nil]
        exact .inl hfirst
  · rintro (h | ⟨first, rest, value, rfl, hfirst, hrest⟩)
    · exact ⟨taken, [], .error cause, (List.append_nil taken).symm, h, rfl, rfl⟩
    · exact ⟨first, rest, .ok value, rfl, reads_attempt_ok_iff.mpr hfirst, hrest⟩

theorem fails_bytes_bind_iff
    {count : Nat}
    {positive : 0 < count}
    {next : Bytes → FieldReader β} :
    (bytes count positive >>= next).Fails position taken cause ↔
      ∃ front rest,
        taken = front ++ rest ∧
          front.length = count ∧
          (next front).Fails (position + count) rest cause :=
  Iff.rfl

theorem fails_byte_bind_iff {next : UInt8 → FieldReader β} :
    (byte >>= next).Fails position taken cause ↔
      ∃ found rest,
        taken = found :: rest ∧ (next found).Fails (position + 1) rest cause :=
  @reads_byte_bind_iff _ position taken (fun found => (next found).attempt) _

theorem fails_word_bind_iff {next : UInt16 → FieldReader β} :
    (word >>= next).Fails position taken cause ↔
      ∃ found rest,
        taken = littleEndian 2 found.toNat ++ rest ∧
          (next found).Fails (position + 2) rest cause :=
  @reads_word_bind_iff _ position taken (fun found => (next found).attempt) _

@[simp]
theorem fails_record_bind_iff
    {event : Event}
    {next : Unit → FieldReader β} :
    (record event >>= next).Fails position taken cause ↔ (next ()).Fails position taken cause :=
  Iff.rfl

@[simp]
theorem fails_position_bind_iff {next : Nat → FieldReader β} :
    (FieldReader.position >>= next).Fails position taken cause ↔
      (next position).Fails position taken cause :=
  Iff.rfl

end Single

/-- Whether a repetition comes from one state to another by reading exactly the given bytes. -/
inductive Passes (body : σ → FieldReader (σ ⊕ α)) : σ → Nat → Bytes → σ → Prop
  | refl (state : σ) (position : Nat) : Passes body state position [] state
  | next
      {state middle following : σ}
      {position : Nat}
      {first rest : Bytes}
      (h : (body state).Reads position first (.inl middle))
      (hrest : Passes body middle (position + first.length) rest following) :
      Passes body state position (first ++ rest) following

/-- A repetition goes on with the state that it comes to. -/
theorem repeatUntil_of_passes
    {body : σ → FieldReader (σ ⊕ α)}
    {progress : ∀ state, (body state).Progresses}
    {state following : σ}
    {position : Nat}
    {taken : Bytes}
    (h : Passes body state position taken following)
    {input : Input}
    {left : Bytes}
    (hsteady : input.source.Steady)
    (hposition : input.consumed = position)
    (hpending : input.source.pending = taken ++ left) :
    ∃ rest,
      repeatUntil body progress state input = repeatUntil body progress following rest ∧
        input.Advances taken rest := by
  induction h generalizing input with
  | refl => exact ⟨input, rfl, .refl input⟩
  | @next state middle following position first more h _ ih =>
      rw [← hposition] at h
      rw [List.append_assoc] at hpending
      obtain ⟨between, hrun, hbetween⟩ := run_of_reads hsteady hpending h
      have hmore : between.source.pending = more ++ left :=
        List.append_cancel_left (hbetween.pending_eq.symm.trans hpending)
      obtain ⟨rest, hrepeat, hrest⟩ :=
        ih (hbetween.steady hsteady) (by rw [hbetween.consumed_eq, hposition]) hmore
      refine ⟨rest, ?_, hbetween.trans hrest⟩
      rw [repeatUntil_eq, hrun]
      exact hrepeat

/-- A repetition fails if the round fails that it comes to. -/
theorem repeatUntil_of_fails
    {body : σ → FieldReader (σ ⊕ α)}
    {progress : ∀ state, (body state).Progresses}
    {state following : σ}
    {input : Input}
    {first last left : Bytes}
    {cause : Error}
    (hpasses : Passes body state input.consumed first following)
    (hfails : ∀ position, (body following).Fails position last cause)
    (hsteady : input.source.Steady)
    (hpending : input.source.pending = first ++ (last ++ left)) :
    ∃ rest,
      repeatUntil body progress state input = (.error cause, rest) ∧
        input.Advances (first ++ last) rest := by
  obtain ⟨middle, hrepeat, hmiddle⟩ := repeatUntil_of_passes hpasses hsteady rfl hpending
  have hlast : middle.source.pending = last ++ left :=
    List.append_cancel_left (hmiddle.pending_eq.symm.trans hpending)
  obtain ⟨rest, hrun, hrest⟩ := run_of_fails (hmiddle.steady hsteady) hlast (hfails _)
  refine ⟨rest, ?_, hmiddle.trans hrest⟩
  rw [hrepeat, repeatUntil_eq, hrun]

/-- A repetition fails in one of its rounds. -/
theorem passes_of_repeatUntil
    {body : σ → FieldReader (σ ⊕ α)}
    {progress : ∀ state, (body state).Progresses}
    {state : σ}
    {input rest : Input}
    {cause : Error}
    (h : repeatUntil body progress state input = (.error cause, rest)) :
    ∃ taken following middle,
      Passes body state input.consumed taken following ∧
        input.Advances taken middle ∧
        (body following).run middle = (.error cause, rest) := by
  fun_induction repeatUntil body progress state input with
  | case1 state input found last hrun =>
      obtain ⟨hfound, rfl⟩ := Prod.mk.inj h
      obtain rfl := Except.error.inj hfound
      exact ⟨[], state, input, .refl _ _, .refl _, hrun⟩
  | case2 state input found last hrun => simp at h
  | case3 state input found last hrun ih =>
      obtain ⟨first, hfirst, hreads⟩ := advances_of_run hrun
      obtain ⟨more, following, middle, hmore, hadvances, hfails⟩ := ih h
      exact ⟨first ++ more, following, middle, .next hreads (hfirst.consumed_eq ▸ hmore),
        hfirst.trans hadvances, hfails⟩

end FieldReader
end GifBitmap

import Mathlib.Algebra.Ring.Nat
import GifBitmap.FieldReader
import GifBitmap.Source.Availability

/-!
# Descriptions on byte strings

A description of what is read can be followed on a string of bytes, without any source
that delivers them.  Its `scan` says how it ends there, which fields it has taken from the
front, and which events it has noted.  Where a field is asked for that is longer than the
bytes that are left, it ends short.

Reading from a source is a scan of the bytes that the source can still deliver, so the
manner of delivery has no influence (`run_eq_scan`).  What a scan has found depends on the
bytes of its fields only, and where the bytes are cut inside a field it ends short there.

Main facts:
* `run_eq_scan`: reading from a source is a scan of its available bytes;
* `scan_bind`: the scan of a composed description, by those of its parts;
* `scan_take_append`, `scan_take_of_lt`: the scan of bytes that are cut;
* `repeatUntil_eq_run_rounds`: a repetition is a description with enough rounds.
-/

namespace GifBitmap
namespace FieldReader

variable {α β σ : Type}

/-- How a description ends on a byte string. -/
inductive Ending (α : Type)
  | value (value : α)
  | failure (cause : Error)
  /-- A field of `count` bytes is asked for, and fewer are left. -/
  | short (count : Nat)

/-- What a description makes of a byte string. -/
structure Scan (α : Type) where
  ending : Ending α
  /-- The lengths of the fields that were there, in order. -/
  fields : List Nat
  events : List Event

namespace Scan

/-- The lengths of all fields that were asked for. -/
def asked (scan : Scan α) : List Nat :=
  match scan.ending with
  | .short count => scan.fields ++ [count]
  | _ => scan.fields

def behindField (scan : Scan α) (count : Nat) : Scan α :=
  { scan with fields := count :: scan.fields }

def behindEvent (scan : Scan α) (event : Event) : Scan α :=
  { scan with events := event :: scan.events }

/-- The scan with another one in front. -/
def behind (scan : Scan α) (first : Scan β) : Scan α :=
  ⟨scan.ending, first.fields ++ scan.fields, first.events ++ scan.events⟩

/-- The result of a reader that stands at `position` and meets `shortage` behind the bytes. -/
def result (scan : Scan α) (position : Nat) (shortage : StreamError) : Except Error α :=
  match scan.ending with
  | .value value => .ok value
  | .failure cause => .error cause
  | .short _ => .error (.ofSource (position + scan.fields.sum) shortage)

/-- The number of bytes that are delivered out of `available` ones: all of them if the scan
ends short. -/
def delivered (scan : Scan α) (available : Nat) : Nat :=
  match scan.ending with
  | .short _ => available
  | _ => scan.fields.sum

/-- Whether all fields that were asked for were there. -/
def IsWhole (scan : Scan α) : Prop :=
  ∀ count, scan.ending ≠ .short count

theorem isWhole_or_short (scan : Scan α) :
    scan.IsWhole ∨ ∃ count, scan.ending = .short count := by
  cases h : scan.ending with
  | value => exact .inl fun count hshort => absurd (h.symm.trans hshort) nofun
  | failure => exact .inl fun count hshort => absurd (h.symm.trans hshort) nofun
  | short count => exact .inr ⟨count, rfl⟩

namespace IsWhole

variable {scan : Scan α}

theorem asked_eq (h : scan.IsWhole) : scan.asked = scan.fields := by
  unfold asked
  split
  · exact absurd ‹_› (h _)
  · rfl

theorem delivered_eq (h : scan.IsWhole) (available : Nat) :
    scan.delivered available = scan.fields.sum := by
  unfold delivered
  split
  · exact absurd ‹_› (h _)
  · rfl

theorem result_eq
    (h : scan.IsWhole)
    (position : Nat)
    (shortage other : StreamError) :
    scan.result position shortage = scan.result position other := by
  unfold result
  split
  · rfl
  · rfl
  · exact absurd ‹_› (h _)

end IsWhole

theorem asked_behindField (scan : Scan α) (count : Nat) :
    (scan.behindField count).asked = count :: scan.asked := by
  obtain ⟨ending, fields, events⟩ := scan
  cases ending <;> rfl

end Scan

/-- Follows a description on a byte string that begins at `position`. -/
def scan : FieldReader α → (position : Nat) → Bytes → Scan α
  | done value, _, _ => ⟨.value value, [], []⟩
  | fail cause, _, _ => ⟨.failure cause, [], []⟩
  | field count _ next, position, bytes =>
      if count ≤ bytes.length then
        ((next (bytes.take count)).scan (position + count) (bytes.drop count)).behindField count
      else
        ⟨.short count, [], []⟩
  | offset next, position, bytes => (next position).scan position bytes
  | note event next, position, bytes => (next.scan position bytes).behindEvent event

variable {position count : Nat} {bytes : Bytes}

theorem scan_field_of_le
    (positive : 0 < count)
    (next : Bytes → FieldReader α)
    (h : count ≤ bytes.length) :
    (field count positive next).scan position bytes =
      ((next (bytes.take count)).scan (position + count)
        (bytes.drop count)).behindField count :=
  if_pos h

theorem scan_field_of_lt
    (positive : 0 < count)
    (next : Bytes → FieldReader α)
    (h : bytes.length < count) :
    (field count positive next).scan position bytes = ⟨.short count, [], []⟩ :=
  if_neg (Nat.not_le_of_lt h)

/-- A field in front is the first one that is asked for. -/
theorem exists_asked_field
    (positive : 0 < count)
    (next : Bytes → FieldReader α) :
    ∃ back, ((field count positive next).scan position bytes).asked = count :: back := by
  by_cases hle : count ≤ bytes.length
  · rw [scan_field_of_le positive next hle, Scan.asked_behindField]
    exact ⟨_, rfl⟩
  · rw [scan_field_of_lt positive next (Nat.lt_of_not_le hle)]
    exact ⟨[], rfl⟩

/-- The fields lie within the bytes. -/
theorem sum_fields_le (reader : FieldReader α) (position : Nat) (bytes : Bytes) :
    (reader.scan position bytes).fields.sum ≤ bytes.length := by
  induction reader generalizing position bytes with
  | done => exact Nat.zero_le _
  | fail => exact Nat.zero_le _
  | field count positive next ih =>
      by_cases h : count ≤ bytes.length
      · have hrest := ih (bytes.take count) (position + count) (bytes.drop count)
        rw [List.length_drop] at hrest
        rw [scan_field_of_le positive next h, Scan.behindField, List.sum_cons]
        omega
      · rw [scan_field_of_lt positive next (Nat.lt_of_not_le h)]
        exact Nat.zero_le _
  | offset next ih => exact ih position position bytes
  | note event next ih => exact ih position bytes

/-- A field that is asked for and not there goes beyond the bytes. -/
theorem length_lt_of_short
    {reader : FieldReader α}
    (h : (reader.scan position bytes).ending = .short count) :
    bytes.length < (reader.scan position bytes).fields.sum + count := by
  induction reader generalizing position bytes with
  | done => simp [scan] at h
  | fail => simp [scan] at h
  | field first positive next ih =>
      by_cases hle : first ≤ bytes.length
      · rw [scan_field_of_le positive next hle] at h ⊢
        have hrest := ih _ h
        rw [List.length_drop] at hrest
        rw [Scan.behindField, List.sum_cons]
        omega
      · rw [scan_field_of_lt positive next (Nat.lt_of_not_le hle)] at h ⊢
        obtain rfl : first = count := by simpa using h
        simpa using Nat.lt_of_not_le hle
  | offset next ih => exact ih position h
  | note event next ih => exact ih h

/-- If all fields that were asked for lie within the bytes, they were there. -/
theorem isWhole_of_sum_asked_le
    {reader : FieldReader α}
    (h : (reader.scan position bytes).asked.sum ≤ bytes.length) :
    (reader.scan position bytes).IsWhole := by
  intro count hshort
  have hlong := length_lt_of_short hshort
  rw [Scan.asked, hshort, List.sum_append, List.sum_singleton] at h
  omega

/-- A description that progresses has taken a field when it gives a value. -/
theorem sum_fields_pos
    {reader : FieldReader α}
    (hprogress : reader.Progresses)
    {value : α}
    (h : (reader.scan position bytes).ending = .value value) :
    0 < (reader.scan position bytes).fields.sum := by
  induction reader generalizing position with
  | done => exact hprogress.elim
  | fail => simp [scan] at h
  | field count positive next =>
      by_cases hle : count ≤ bytes.length
      · rw [scan_field_of_le positive next hle, Scan.behindField, List.sum_cons]
        omega
      · rw [scan_field_of_lt positive next (Nat.lt_of_not_le hle)] at h
        simp at h
  | offset next ih => exact ih position (hprogress position) h
  | note event next ih => exact ih hprogress h

/-- The bytes that the source of an input can still deliver. -/
def atHand (input : Input) : Bytes :=
  input.source.pending.take input.source.available

theorem length_atHand (input : Input) : (atHand input).length = input.source.available := by
  rw [atHand, List.length_take, Nat.min_eq_left input.source.available_le]

namespace Scan

/-- What a reader of an input gets, up to whether the next request is interrupted. -/
def outcome
    (scan : Scan α)
    (input : Input)
    (interruptNext : Bool) :
    Except Error α × Input :=
  (scan.result input.consumed input.source.shortage,
    { source := input.source.advance (scan.delivered input.source.available) interruptNext
      consumed := input.consumed + scan.fields.sum
      events := input.events ++ scan.events })

theorem outcome_behindField
    (scan : Scan α)
    {input : Input}
    {count : Nat}
    (h : count ≤ input.source.available)
    (stopped interruptNext : Bool) :
    (scan.behindField count).outcome input interruptNext =
      scan.outcome
        { input with
          source := input.source.advance count stopped
          consumed := input.consumed + count }
        interruptNext := by
  have hpending : count ≤ input.source.pending.length :=
    Nat.le_trans h input.source.available_le
  have hconsumed : input.consumed + (count + scan.fields.sum) =
      input.consumed + count + scan.fields.sum :=
    (Nat.add_assoc _ _ _).symm
  have hdelivered : (scan.behindField count).delivered input.source.available =
      count + scan.delivered (input.source.available - count) := by
    obtain ⟨ending, fields, events⟩ := scan
    cases ending with
    | short => exact (Nat.add_sub_cancel' h).symm
    | value => rfl
    | failure => rfl
  have hresult : (scan.behindField count).result input.consumed input.source.shortage =
      scan.result (input.consumed + count) input.source.shortage := by
    obtain ⟨ending, fields, events⟩ := scan
    cases ending with
    | short =>
        exact congrArg (fun offset => Except.error (Error.ofSource offset input.source.shortage))
          hconsumed
    | value => rfl
    | failure => rfl
  simp only [outcome, hresult, hdelivered, Source.shortage_advance _ hpending,
    Source.available_advance _ h, Source.advance_advance]
  simp only [behindField, List.sum_cons, hconsumed]

theorem outcome_behindEvent
    (scan : Scan α)
    (input : Input)
    (event : Event)
    (interruptNext : Bool) :
    (scan.behindEvent event).outcome input interruptNext =
      scan.outcome (input.note event) interruptNext := by
  have hevents : input.events ++ event :: scan.events = input.events.push event ++ scan.events := by
    apply Array.toList_inj.mp
    simp
  simp only [outcome, behindEvent, Input.note, hevents]
  rfl

end Scan

/-- What a reader of a source gets is the scan of the bytes that the source can deliver. -/
theorem run_eq_scan
    (reader : FieldReader α)
    (input : Input)
    (hchunk : input.source.manner.chunk ≠ some 0) :
    ∃ interruptNext,
      reader.run input =
        (reader.scan input.consumed (atHand input)).outcome input interruptNext := by
  induction reader generalizing input with
  | done => exact ⟨input.source.interruptNext, rfl⟩
  | fail => exact ⟨input.source.interruptNext, rfl⟩
  | field count positive next ih =>
      have hlength := length_atHand input
      by_cases hle : count ≤ input.source.available
      · obtain ⟨stopped, hread⟩ := input.source.readExact_of_le count hchunk hle
        obtain ⟨following, hfollowing⟩ : ∃ following, following =
            { input with
              source := input.source.advance count stopped
              consumed := input.consumed + count } := ⟨_, rfl⟩
        have hfront : (atHand input).take count = input.source.pending.take count := by
          rw [atHand, List.take_take, Nat.min_eq_left hle]
        have hback : (atHand input).drop count = atHand following := by
          rw [hfollowing, atHand, atHand, Source.available_advance _ hle]
          exact List.drop_take
        obtain ⟨interruptNext, hrest⟩ := ih (input.source.pending.take count) following
          (by rw [hfollowing]; exact hchunk)
        refine ⟨interruptNext, ?_⟩
        rw [scan_field_of_le positive next (hlength ▸ hle),
          Scan.outcome_behindField _ hle stopped, ← hfollowing, hfront, hback, run, hread]
        rw [hfollowing] at hrest ⊢
        exact hrest
      · have hlt := Nat.lt_of_not_le hle
        obtain ⟨interruptNext, hread⟩ := input.source.readExact_of_lt count hchunk hlt
        refine ⟨interruptNext, ?_⟩
        rw [scan_field_of_lt positive next (hlength ▸ hlt), run, hread]
        rfl
  | offset next ih => exact ih input.consumed input hchunk
  | note event next ih =>
      obtain ⟨interruptNext, hrest⟩ := ih (input.note event) hchunk
      exact ⟨interruptNext, hrest.trans (Scan.outcome_behindEvent _ _ _ _).symm⟩

/-- A composed description goes on behind the fields of its first part, if that gave a
value. -/
theorem scan_bind
    (reader : FieldReader α)
    (next : α → FieldReader β)
    (position : Nat)
    (bytes : Bytes) :
    (reader >>= next).scan position bytes =
      let first := reader.scan position bytes
      match first.ending with
      | .value value =>
          ((next value).scan (position + first.fields.sum)
            (bytes.drop first.fields.sum)).behind first
      | .failure cause => ⟨.failure cause, first.fields, first.events⟩
      | .short count => ⟨.short count, first.fields, first.events⟩ := by
  induction reader generalizing position bytes with
  | done => rfl
  | fail => rfl
  | field count positive more ih =>
      by_cases hle : count ≤ bytes.length
      · have hrest := ih (bytes.take count) (position + count) (bytes.drop count)
        rw [field_bind, scan_field_of_le positive _ hle, scan_field_of_le positive _ hle, hrest]
        obtain ⟨ending, fields, events⟩ :=
          (more (bytes.take count)).scan (position + count) (bytes.drop count)
        cases ending with
        | value value =>
            simp only [Scan.behindField, Scan.behind, List.sum_cons, List.drop_drop,
              Nat.add_assoc, List.cons_append]
        | failure => rfl
        | short => rfl
      · have hlt := Nat.lt_of_not_le hle
        rw [field_bind, scan_field_of_lt positive _ hlt, scan_field_of_lt positive _ hlt]
  | offset more ih => exact ih position position bytes
  | note event more ih =>
      have hrest := ih position bytes
      simp only [note_bind, scan, hrest]
      obtain ⟨ending, fields, events⟩ := more.scan position bytes
      cases ending <;> rfl

/-- A number of rounds of a repetition as one description; a repetition that needs more of
them fails. -/
def rounds (body : σ → FieldReader (σ ⊕ α)) : Nat → σ → FieldReader α
  | 0, _ => fail .tooLarge
  | count + 1, state => do
      match ← body state with
      | .inl next => rounds body count next
      | .inr result => return result

section Rounds

variable {body : σ → FieldReader (σ ⊕ α)} (progress : ∀ state, (body state).Progresses)
include progress

/-- A repetition is a description with more rounds than there are bytes. -/
theorem repeatUntil_eq_run_rounds
    {most : Nat}
    (state : σ)
    (input : Input)
    (hmost : input.source.pending.length < most) :
    repeatUntil body progress state input = (rounds body most state).run input := by
  induction most generalizing state input with
  | zero => exact absurd hmost (Nat.not_lt_zero _)
  | succ most ih =>
      rw [repeatUntil_eq, rounds, run_bind]
      cases hrun : (body state).run input with
      | mk result rest =>
          cases result with
          | error cause => rfl
          | ok found =>
              cases found with
              | inr value => rfl
              | inl next =>
                  have hless := pending_lt_of_run (progress state) hrun
                  exact ih next rest (by omega)

/-- With more rounds than there are bytes, their number makes no difference. -/
theorem scan_rounds_eq
    {first second : Nat}
    (state : σ)
    (position : Nat)
    {bytes : Bytes}
    (hfirst : bytes.length < first)
    (hsecond : bytes.length < second) :
    (rounds body first state).scan position bytes =
      (rounds body second state).scan position bytes := by
  induction first generalizing second state position bytes with
  | zero => exact absurd hfirst (Nat.not_lt_zero _)
  | succ first ih =>
      obtain ⟨second, rfl⟩ := Nat.exists_eq_succ_of_ne_zero (Nat.ne_zero_of_lt hsecond)
      rw [rounds, rounds, scan_bind, scan_bind]
      have hpos := @sum_fields_pos _ position bytes _ (progress state)
      have hle := sum_fields_le (body state) position bytes
      generalize (body state).scan position bytes = found at hpos hle
      obtain ⟨ending, fields, events⟩ := found
      cases ending with
      | failure => rfl
      | short => rfl
      | value value =>
          have htaken := hpos rfl
          cases value with
          | inr result => rfl
          | inl next =>
              dsimp only at htaken hle
              have hrest := @ih second next (position + fields.sum) (bytes.drop fields.sum)
                (by rw [List.length_drop]; omega) (by rw [List.length_drop]; omega)
              dsimp only
              rw [hrest]

end Rounds

/-- What was found depends on no byte behind the fields that were asked for. -/
theorem scan_take_append
    {reader : FieldReader α}
    {cut : Nat}
    (hcut : cut ≤ bytes.length)
    (h : (reader.scan position bytes).asked.sum ≤ cut)
    (tail : Bytes) :
    reader.scan position (bytes.take cut ++ tail) = reader.scan position bytes := by
  induction reader generalizing position bytes cut with
  | done => rfl
  | fail => rfl
  | field count positive next ih =>
      by_cases hle : count ≤ bytes.length
      · rw [scan_field_of_le positive next hle, Scan.asked_behindField, List.sum_cons] at h
        have hlength : count ≤ (bytes.take cut ++ tail).length := by
          rw [List.length_append, List.length_take]
          omega
        have hlong : count ≤ (bytes.take cut).length := by
          rw [List.length_take]
          omega
        have hfront : (bytes.take cut ++ tail).take count = bytes.take count := by
          rw [List.take_append_of_le_length hlong, List.take_take, Nat.min_eq_left (by omega)]
        have hback : (bytes.take cut ++ tail).drop count =
            (bytes.drop count).take (cut - count) ++ tail := by
          rw [List.drop_append_of_le_length hlong, List.drop_take]
        rw [scan_field_of_le positive next hlength, scan_field_of_le positive next hle, hfront,
          hback, ih (bytes.take count) (by rw [List.length_drop]; omega) (by omega)]
      · rw [scan_field_of_lt positive next (Nat.lt_of_not_le hle)] at h
        have hsum : count ≤ cut := by simpa [Scan.asked] using h
        omega
  | offset next ih => exact ih position hcut h
  | note event next ih =>
      have hrest := ih hcut h
      rw [scan, scan, hrest]

/-- Bytes that are cut inside the fields that were asked for end short in the field that
stands on both sides of the cut. -/
theorem scan_take_of_lt
    {reader : FieldReader α}
    {cut : Nat}
    (hcut : cut ≤ bytes.length)
    (h : cut < (reader.scan position bytes).asked.sum) :
    ∃ front count back events,
      (reader.scan position bytes).asked = front ++ count :: back ∧
        front.sum ≤ cut ∧
        cut < front.sum + count ∧
        reader.scan position (bytes.take cut) = ⟨.short count, front, events⟩ := by
  induction reader generalizing position bytes cut with
  | done => exact absurd h (Nat.not_lt_zero _)
  | fail => exact absurd h (Nat.not_lt_zero _)
  | field count positive next ih =>
      have hlength : (bytes.take cut).length = cut := by
        rw [List.length_take, Nat.min_eq_left hcut]
      by_cases hshort : cut < count
      · obtain ⟨back, hasked⟩ := @exists_asked_field _ position count bytes positive next
        exact ⟨[], count, back, [], hasked, Nat.zero_le _, by simpa using hshort,
          scan_field_of_lt positive next (hlength.symm ▸ hshort)⟩
      · have hcount := Nat.le_of_not_lt hshort
        have hle := Nat.le_trans hcount hcut
        rw [scan_field_of_le positive next hle, Scan.asked_behindField, List.sum_cons] at h
        have hfront : (bytes.take cut).take count = bytes.take count := by
          rw [List.take_take, Nat.min_eq_left hcount]
        have hback : (bytes.take cut).drop count = (bytes.drop count).take (cut - count) :=
          List.drop_take
        obtain ⟨front, last, back, events, hasked, hsum, hlast, hscan⟩ :=
          @ih (bytes.take count) (position + count) (bytes.drop count) (cut - count)
            (by rw [List.length_drop]; omega) (by omega)
        refine ⟨count :: front, last, back, events, ?_, ?_, ?_, ?_⟩
        · rw [scan_field_of_le positive next hle, Scan.asked_behindField, hasked]
          rfl
        · rw [List.sum_cons]
          omega
        · rw [List.sum_cons]
          omega
        · rw [scan_field_of_le positive next (hlength.symm ▸ hcount), hfront, hback, hscan]
          rfl
  | offset next ih => exact ih position hcut h
  | note event next ih =>
      obtain ⟨front, count, back, events, hasked, hfront, hcount, hscan⟩ := ih hcut h
      refine ⟨front, count, back, event :: events, hasked, hfront, hcount, ?_⟩
      rw [scan, hscan]
      rfl

/-- Whether a description itself fails for allowed causes only. -/
def FailsOnly (allowed : Error → Prop) : FieldReader α → Prop
  | done _ => True
  | fail cause => allowed cause
  | field _ _ next => ∀ bytes, (next bytes).FailsOnly allowed
  | offset next => ∀ position, (next position).FailsOnly allowed
  | note _ next => next.FailsOnly allowed

namespace FailsOnly

variable {allowed : Error → Prop} {reader : FieldReader α}

theorem failure
    {cause : Error}
    (h : reader.FailsOnly allowed)
    (hscan : (reader.scan position bytes).ending = .failure cause) :
    allowed cause := by
  induction reader generalizing position bytes with
  | done => simp [scan] at hscan
  | fail =>
      simp only [scan, Ending.failure.injEq] at hscan
      exact hscan ▸ h
  | field count positive next ih =>
      by_cases hle : count ≤ bytes.length
      · rw [scan_field_of_le positive next hle] at hscan
        exact ih _ (h _) hscan
      · rw [scan_field_of_lt positive next (Nat.lt_of_not_le hle)] at hscan
        simp at hscan
  | offset next ih => exact ih _ (h position) hscan
  | note event next ih => exact ih h hscan

end FailsOnly
end FieldReader
end GifBitmap

import GifBitmap.Proofs.FieldFailure

/-!
# Bytes that a repetition passes

A repetition that has come to some state behind the front of its bytes goes on from there, and
what stands behind the front has no influence on the way.  `Crosses` says so of the scans, with
the events that are noted on the way.

Bytes that lead from a state back to the same one can be left out or put in at that place.  The
scan of what stands behind them is the same from a position further back, and that moves nothing
but the offset of a failure.

Main facts:
* `exists_scan_of_reads`: a description that reads the front of its bytes, as a scan;
* `Crosses.trans`, `crosses_of_passes`: repetitions that come to a state;
* `Insertion.result_eq` and the lemmas after it: bytes that are put in.
-/

namespace GifBitmap
namespace FieldReader

variable {α β σ : Type}

/-- A description that makes a value of some bytes makes it of them wherever they stand in
front. -/
theorem exists_scan_of_reads
    {reader : FieldReader α}
    {position : Nat}
    {taken : Bytes}
    {value : α}
    (h : reader.Reads position taken value) :
    ∃ fields events,
      fields.sum = taken.length ∧
        ∀ rest, reader.scan position (taken ++ rest) = ⟨.value value, fields, events⟩ := by
  induction reader generalizing position taken with
  | done found =>
      obtain ⟨rfl, rfl⟩ := h
      exact ⟨[], [], rfl, fun _ => rfl⟩
  | fail cause => exact h.elim
  | field count positive next ih =>
      obtain ⟨front, more, rfl, rfl, hmore⟩ := h
      obtain ⟨fields, events, hsum, hscan⟩ := ih front hmore
      refine ⟨front.length :: fields, events, ?_, fun rest => ?_⟩
      · rw [List.sum_cons, hsum, List.length_append]
      · have hlength : front.length ≤ (front ++ (more ++ rest)).length := by
          rw [List.length_append]
          exact Nat.le_add_right _ _
        rw [List.append_assoc, scan_field_of_le positive next hlength, List.take_left' rfl,
          List.drop_left' rfl, hscan]
        rfl
  | offset next ih => exact ih position h
  | note event next ih =>
      obtain ⟨fields, events, hsum, hscan⟩ := ih h
      refine ⟨fields, event :: events, hsum, fun rest => ?_⟩
      rw [scan, hscan]
      rfl

theorem scan_byte_bind
    {position : Nat}
    (next : UInt8 → FieldReader β)
    (found : UInt8)
    (rest : Bytes) :
    (byte >>= next).scan position (found :: rest) =
      ((next found).scan (position + 1) rest).behindField 1 :=
  scan_field_of_le _ _ (Nat.le_add_left 1 rest.length)

theorem scan_bytes_bind
    {position count : Nat}
    (positive : 0 < count)
    (next : Bytes → FieldReader β)
    {front : Bytes}
    (hlength : front.length = count)
    (rest : Bytes) :
    (bytes count positive >>= next).scan position (front ++ rest) =
      ((next front).scan (position + count) rest).behindField count := by
  have hle : count ≤ (front ++ rest).length := by
    rw [List.length_append]
    omega
  rw [bytes, field_bind, scan_field_of_le _ _ hle, List.take_left' hlength, List.drop_left' hlength]
  rfl

/-- The scan of a repetition: that of more rounds than there are bytes. -/
def scanUntil
    (body : σ → FieldReader (σ ⊕ α))
    (state : σ)
    (position : Nat)
    (bytes : Bytes) :
    Scan α :=
  (rounds body (bytes.length + 1) state).scan position bytes

/-- Whether a repetition comes from one state to another by reading exactly the given bytes,
whatever stands behind them, and notes the given events on the way. -/
def Crosses
    (body : σ → FieldReader (σ ⊕ α))
    (state : σ)
    (position : Nat)
    (taken : Bytes)
    (events : List Event)
    (following : σ) :
    Prop :=
  ∃ fields : List Nat,
    fields.sum = taken.length ∧
      ∀ rest,
        scanUntil body state position (taken ++ rest) =
          (scanUntil body following (position + taken.length) rest).behind
            (⟨.value following, fields, events⟩ : Scan σ)

section Crosses

variable {body : σ → FieldReader (σ ⊕ α)} {state middle following : σ} {position : Nat}
  {first second taken : Bytes} {events more : List Event}

theorem Passes.trans
    (h : Passes body state position first middle)
    (h' : Passes body middle (position + first.length) second following) :
    Passes body state position (first ++ second) following := by
  induction h with
  | refl => exact h'
  | next hreads _ ih =>
      rw [List.length_append, ← Nat.add_assoc] at h'
      rw [List.append_assoc]
      exact .next hreads (ih h')

theorem Crosses.refl (state : σ) (position : Nat) : Crosses body state position [] [] state :=
  ⟨[], rfl, fun _ => rfl⟩

theorem Crosses.trans
    (h : Crosses body state position first events middle)
    (h' : Crosses body middle (position + first.length) second more following) :
    Crosses body state position (first ++ second) (events ++ more) following := by
  obtain ⟨fields, hsum, hscan⟩ := h
  obtain ⟨fields', hsum', hscan'⟩ := h'
  refine ⟨fields ++ fields', ?_, fun rest => ?_⟩
  · rw [List.sum_append, hsum, hsum', List.length_append]
  · rw [List.append_assoc, hscan, hscan', List.length_append, Nat.add_assoc]
    simp only [Scan.behind, List.append_assoc]

/-- One round. -/
theorem crosses_of_scan
    (progress : ∀ state, (body state).Progresses)
    (fields : List Nat)
    (hsum : fields.sum = taken.length)
    (hscan : ∀ rest,
      (body state).scan position (taken ++ rest) = ⟨.value (.inl following), fields, events⟩) :
    Crosses body state position taken events following := by
  refine ⟨fields, hsum, fun rest => ?_⟩
  have htaken : 0 < fields.sum := by
    have hpos := @sum_fields_pos _ position (taken ++ rest) _ (progress state)
    rw [hscan rest] at hpos
    exact hpos rfl
  have hbehind : (rounds body (taken ++ rest).length following).scan (position + taken.length)
      rest = scanUntil body following (position + taken.length) rest := by
    refine scan_rounds_eq progress following _ ?_ (Nat.lt_succ_self _)
    rw [List.length_append]
    omega
  rw [scanUntil, rounds, scan_bind, hscan]
  dsimp only
  rw [hsum, List.drop_left' rfl, hbehind]
  rfl

theorem crosses_of_passes
    (progress : ∀ state, (body state).Progresses)
    (h : Passes body state position taken following) :
    ∃ events, Crosses body state position taken events following := by
  induction h with
  | refl state position => exact ⟨[], .refl state position⟩
  | next hreads _ ih =>
      obtain ⟨fields, events, hsum, hscan⟩ := exists_scan_of_reads hreads
      obtain ⟨more, hmore⟩ := ih
      exact ⟨events ++ more, (crosses_of_scan progress fields hsum hscan).trans hmore⟩

end Crosses

/-- Whether the second scan is the first one with a number of bytes put in at some place, and
the given events noted there. -/
structure Insertion (short long : Scan α) (count : Nat) (inserted : List Event) : Prop where
  result_eq : ∀ shortage,
    long.result 0 shortage = (short.result 0 shortage).mapError (Error.translate count)
  sum_eq : long.fields.sum = short.fields.sum + count
  delivered_eq : ∀ available,
    long.delivered (available + count) = short.delivered available + count
  events_eq : ∃ before after,
    short.events = before ++ after ∧ long.events = before ++ (inserted ++ after)

/-- Bytes that lead from a state back to it can be put in where the repetition has come to
that state. -/
theorem insertion_of_crosses
    {body : σ → FieldReader (σ ⊕ α)}
    {start state : σ}
    {front middle : Bytes}
    {before inserted : List Event}
    (hbody : ∀ state, Translated middle.length (body state) (body state))
    (hfront : Crosses body start 0 front before state)
    (hmiddle : Crosses body state front.length middle inserted state)
    (rest : Bytes) :
    Insertion (scanUntil body start 0 (front ++ rest))
      (scanUntil body start 0 (front ++ (middle ++ rest))) middle.length inserted := by
  obtain ⟨fields, hsum, hscan⟩ := hfront
  obtain ⟨fields', hsum', hscan'⟩ := hmiddle
  have hback : scanUntil body state (front.length + middle.length) rest =
      (scanUntil body state front.length rest).translate middle.length :=
    (Translated.rounds hbody _ state).scan front.length rest
  rw [hscan, hscan, Nat.zero_add, hscan', hback]
  obtain ⟨ending, back, after⟩ := scanUntil body state front.length rest
  have hfields : (fields ++ (fields' ++ back)).sum = (fields ++ back).sum + middle.length := by
    simp only [List.sum_append]
    omega
  have hevents : ∃ early late,
      before ++ after = early ++ late ∧
        before ++ (inserted ++ after) = early ++ (inserted ++ late) :=
    ⟨before, after, rfl, rfl⟩
  cases ending with
  | value value => exact ⟨fun _ => rfl, hfields, fun _ => hfields, hevents⟩
  | failure cause => exact ⟨fun _ => rfl, hfields, fun _ => hfields, hevents⟩
  | short count =>
      refine ⟨fun shortage => ?_, hfields, fun _ => rfl, hevents⟩
      change Except.error (Error.ofSource (0 + (fields ++ (fields' ++ back)).sum) shortage) =
        Except.error ((Error.ofSource (0 + (fields ++ back).sum) shortage).translate _)
      rw [hfields, ← Nat.add_assoc, Error.ofSource_add]

end FieldReader
end GifBitmap

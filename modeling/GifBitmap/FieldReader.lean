import GifBitmap.Event
import GifBitmap.Source

/-!
# Reading an input field by field

A `FieldReader` describes what is read from an input and what is made of it: which
field it asks for next, which events it notes, and with what it ends.  A field has at
least one byte and is read whole or not at all.  Nothing in the description depends
on how the bytes are delivered; that is left to `run`, which reads the fields from
the source of an `Input` and counts their bytes.

A format with parts of any number is read by `repeatUntil`, which runs one
description after another until one gives a result.  Each of them must read a field
before it ends (`Progresses`), so that the repetition ends with the input.

Main facts:
* `LawfulMonad FieldReader`: descriptions compose by `do`;
* `run_bind`: a composed description runs its parts one after the other;
* `Progresses.bind`: a description progresses if its first part does;
* `pending_lt_of_run`: a description that progresses uses up input.
-/

namespace GifBitmap

/-- A description of what is read and what is made of it. -/
inductive FieldReader (α : Type)
  /-- Ends with a value. -/
  | done (value : α)
  /-- Ends with a failure. -/
  | fail (cause : Error)
  /-- Reads a field of `count` bytes. -/
  | field (count : Nat) (positive : 0 < count) (next : Bytes → FieldReader α)
  /-- Asks for the number of bytes read so far. -/
  | offset (next : Nat → FieldReader α)
  /-- Notes an event. -/
  | note (event : Event) (next : FieldReader α)

/-- An input that is being read. -/
structure Input where
  source : Source
  /-- The number of bytes of the fields that were read whole. -/
  consumed : Nat
  /-- The events noted so far. -/
  events : Array Event
  deriving Repr, DecidableEq

namespace Input

def ofSource (source : Source) : Input :=
  ⟨source, 0, #[]⟩

def note (input : Input) (event : Event) : Input :=
  { input with events := input.events.push event }

end Input

namespace FieldReader

variable {α β σ : Type}

/-- One description after another, the second made from the value of the first. -/
def andThen (reader : FieldReader α) (next : α → FieldReader β) : FieldReader β :=
  match reader with
  | done value => next value
  | fail cause => .fail cause
  | field count positive rest => .field count positive fun bytes => (rest bytes).andThen next
  | offset rest => .offset fun consumed => (rest consumed).andThen next
  | note event rest => .note event (rest.andThen next)

instance : Monad FieldReader where
  pure := done
  bind := andThen

@[simp]
theorem pure_eq_done (value : α) : (pure value : FieldReader α) = done value :=
  rfl

@[simp]
theorem done_bind (value : α) (next : α → FieldReader β) :
    done value >>= next = next value :=
  rfl

@[simp]
theorem fail_bind (cause : Error) (next : α → FieldReader β) :
    (fail cause : FieldReader α) >>= next = fail cause :=
  rfl

@[simp]
theorem field_bind
    (count : Nat)
    (positive : 0 < count)
    (rest : Bytes → FieldReader α)
    (next : α → FieldReader β) :
    field count positive rest >>= next =
      field count positive fun bytes => rest bytes >>= next :=
  rfl

@[simp]
theorem offset_bind (rest : Nat → FieldReader α) (next : α → FieldReader β) :
    offset rest >>= next = offset fun consumed => rest consumed >>= next :=
  rfl

@[simp]
theorem note_bind
    (event : Event)
    (rest : FieldReader α)
    (next : α → FieldReader β) :
    note event rest >>= next = note event (rest >>= next) :=
  rfl

private theorem andThen_done (reader : FieldReader α) : reader.andThen done = reader := by
  induction reader with
  | done => rfl
  | fail => rfl
  | field _ _ _ ih => simp [andThen, ih]
  | offset _ ih => simp [andThen, ih]
  | note _ _ ih => simp [andThen, ih]

private theorem andThen_assoc
    {γ : Type}
    (reader : FieldReader α)
    (next : α → FieldReader β)
    (last : β → FieldReader γ) :
    (reader.andThen next).andThen last = reader.andThen fun a => (next a).andThen last := by
  induction reader with
  | done => rfl
  | fail => rfl
  | field _ _ _ ih => simp [andThen, ih]
  | offset _ ih => simp [andThen, ih]
  | note _ _ ih => simp [andThen, ih]

instance : LawfulMonad FieldReader :=
  LawfulMonad.mk' FieldReader andThen_done (fun _ _ => rfl) andThen_assoc

/-- A field of `count` bytes. -/
def bytes (count : Nat) (positive : 0 < count) : FieldReader Bytes :=
  .field count positive .done

def byte : FieldReader UInt8 :=
  .field 1 Nat.one_pos fun bytes => .done (bytes.headD 0)

/-- A field of two bytes, a little-endian number. -/
def word : FieldReader UInt16 :=
  .field 2 Nat.two_pos fun bytes => .done (UInt16.ofNat (ofLittleEndian bytes))

/-- The number of bytes read so far. -/
def position : FieldReader Nat :=
  .offset .done

/-- Notes an event and has no value. -/
def record (event : Event) : FieldReader Unit :=
  .note event (.done ())

/-- Reads what a description asks for from an input. -/
def run : FieldReader α → Input → Except Error α × Input
  | done value, input => (.ok value, input)
  | fail cause, input => (.error cause, input)
  | field count _ next, input =>
      match input.source.readExact count with
      | (.ok bytes, source) =>
          (next bytes).run { input with source, consumed := input.consumed + count }
      | (.error failure, source) =>
          (.error (.ofSource input.consumed failure), { input with source })
  | offset next, input => (next input.consumed).run input
  | note event next, input => next.run (input.note event)

/-- A composed description runs its parts one after the other; a failure ends it. -/
theorem run_bind
    (reader : FieldReader α)
    (next : α → FieldReader β)
    (input : Input) :
    (reader >>= next).run input =
      match reader.run input with
      | (.ok value, rest) => (next value).run rest
      | (.error cause, rest) => (.error cause, rest) := by
  induction reader generalizing input with
  | done => rfl
  | fail => rfl
  | field count positive more ih =>
      simp only [field_bind, run]
      split
      · exact ih _ _
      · rfl
  | offset more ih => exact ih _ _
  | note event more ih => exact ih _

/-- Whether a description reads a field before it ends with a value. -/
def Progresses : FieldReader α → Prop
  | done _ => False
  | fail _ => True
  | field .. => True
  | offset next => ∀ consumed, (next consumed).Progresses
  | note _ next => next.Progresses

/-- What begins with a description that progresses does so as well. -/
theorem Progresses.bind
    {reader : FieldReader α}
    (h : reader.Progresses)
    (next : α → FieldReader β) :
    (reader >>= next).Progresses := by
  induction reader with
  | done => exact h.elim
  | fail => trivial
  | field => trivial
  | offset _ ih => exact fun consumed => ih consumed (h consumed)
  | note _ _ ih => exact ih h

/-- Reading never brings bytes back. -/
theorem pending_le_of_run
    {reader : FieldReader α}
    {input rest : Input}
    {value : α}
    (h : reader.run input = (.ok value, rest)) :
    rest.source.pending.length ≤ input.source.pending.length := by
  induction reader generalizing input with
  | done =>
      simp only [run, Prod.mk.injEq] at h
      exact Nat.le_of_eq (by rw [h.2])
  | fail => simp [run] at h
  | field count positive next ih =>
      simp only [run] at h
      split at h
      · rename_i bytes source hread
        have hfield := congrArg List.length (Source.readExact_ok hread).2
        have hrest := ih bytes h
        simp only [List.length_append] at hfield hrest
        omega
      · simp at h
  | offset next ih => exact ih _ h
  | note event next ih =>
      simp only [run] at h
      have hnext := ih h
      exact hnext

/-- A description that progresses uses up at least one byte. -/
theorem pending_lt_of_run
    {reader : FieldReader α}
    {input rest : Input}
    {value : α}
    (hprogress : reader.Progresses)
    (h : reader.run input = (.ok value, rest)) :
    rest.source.pending.length < input.source.pending.length := by
  induction reader generalizing input with
  | done => exact hprogress.elim
  | fail => simp [run] at h
  | field count positive next ih =>
      simp only [run] at h
      split at h
      · rename_i bytes source hread
        obtain ⟨hlength, hpending⟩ := Source.readExact_ok hread
        have hfield := congrArg List.length hpending
        have hrest := pending_le_of_run h
        simp only [List.length_append] at hfield hrest
        omega
      · simp at h
  | offset next ih => exact ih _ (hprogress _) h
  | note event next ih =>
      simp only [run] at h
      have hnext := ih hprogress h
      exact hnext

/-- Runs one description after another, each made from the state that the one before
gave, until one gives a result. -/
def repeatUntil
    (body : σ → FieldReader (σ ⊕ α))
    (progress : ∀ state, (body state).Progresses)
    (state : σ)
    (input : Input) :
    Except Error α × Input :=
  match _hrun : (body state).run input with
  | (.error cause, rest) => (.error cause, rest)
  | (.ok (.inr result), rest) => (.ok result, rest)
  | (.ok (.inl next), rest) => repeatUntil body progress next rest
termination_by input.source.pending.length
decreasing_by exact pending_lt_of_run (progress state) _hrun

/-- A repetition is its first round, followed by the others if that gave no result. -/
theorem repeatUntil_eq
    (body : σ → FieldReader (σ ⊕ α))
    (progress : ∀ state, (body state).Progresses)
    (state : σ)
    (input : Input) :
    repeatUntil body progress state input =
      match (body state).run input with
      | (.error cause, rest) => (.error cause, rest)
      | (.ok (.inr result), rest) => (.ok result, rest)
      | (.ok (.inl next), rest) => repeatUntil body progress next rest := by
  rw [repeatUntil]
  split <;> rename_i hrun <;> rw [hrun]

end FieldReader
end GifBitmap

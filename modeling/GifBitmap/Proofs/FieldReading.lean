import GifBitmap.FieldReader
import GifBitmap.Source.Availability

/-!
# What a description reads

A description that ends with a value has taken some bytes off the front of its input.
`Reads` says which bytes those may be, without any mention of sources and of what
stands behind the bytes, and `ReadsUntil` says the same of a repetition.  On a source
that does not fail, running a description and reading in this sense are one and the
same.

Main facts:
* `run_of_reads`, `advances_of_run`: running a description, in terms of `Reads`;
* `repeatUntil_of_readsUntil`, `advances_of_repeatUntil`: the same of a repetition;
* `reads_bind_iff` and the lemmas after it: what composed descriptions and single fields
  read.
-/

namespace GifBitmap

/-- Whether a source delivers all its bytes to a reader that keeps asking. -/
structure Source.Steady (source : Source) : Prop where
  chunk_ne : source.manner.chunk ≠ some 0
  fault_eq : source.manner.fault = none

theorem Source.available_of_steady
    {source : Source}
    (h : source.Steady) :
    source.available = source.pending.length := by
  rw [available, beforeFault, h.fault_eq]

theorem Source.steady_plain (bytes : Bytes) : (ofBytes bytes .plain).Steady :=
  ⟨by simp [ofBytes, Manner.plain], rfl⟩

/-- A request counts the bytes that it delivers, and never changes the manner. -/
theorem Source.delivered_of_read
    {source rest : Source}
    {count : Nat}
    {reply : Reply}
    (h : source.read count = (reply, rest)) :
    rest.manner = source.manner ∧
      ∀ bytes, reply = .bytes bytes → rest.delivered = source.delivered + bytes.length := by
  unfold read at h
  split at h
  · obtain ⟨rfl, rfl⟩ := Prod.mk.inj h
    exact ⟨rfl, fun _ => nofun⟩
  · split at h
    · obtain ⟨rfl, rfl⟩ := Prod.mk.inj h
      exact ⟨rfl, fun _ => nofun⟩
    · obtain ⟨rfl, rfl⟩ := Prod.mk.inj h
      refine ⟨rfl, ?_⟩
      rintro _ ⟨⟩
      rfl

/-- A request that is interrupted delivers nothing. -/
theorem Source.delivered_of_interrupted
    {source rest : Source}
    {count : Nat}
    (h : source.read count = (.interrupted, rest)) :
    rest.delivered = source.delivered := by
  unfold read at h
  split at h
  · obtain ⟨-, rfl⟩ := Prod.mk.inj h
    rfl
  · split at h <;> simp at h

/-- A field that was read counts as delivered, however many requests it took. -/
theorem Source.delivered_of_readExact
    {source rest : Source}
    {count : Nat}
    {bytes : Bytes}
    (h : source.readExact count = (.ok bytes, rest)) :
    rest.manner = source.manner ∧ rest.delivered = source.delivered + count := by
  fun_induction readExact source count generalizing bytes rest with
  | case1 source =>
      obtain ⟨-, rfl⟩ := Prod.mk.inj h
      exact ⟨rfl, rfl⟩
  | case2 source count _ next hread ih =>
      obtain ⟨hmanner, hdelivered⟩ := ih h
      exact ⟨hmanner.trans (delivered_of_read hread).1,
        by rw [hdelivered, delivered_of_interrupted hread]⟩
  | case3 => simp at h
  | case4 => simp at h
  | case5 source count hcount next byte front hread more last hmore ih =>
      obtain ⟨-, rfl⟩ := Prod.mk.inj h
      obtain ⟨hmanner, hdelivered⟩ := ih hmore
      obtain ⟨hsame, hfront⟩ := delivered_of_read hread
      have hle := (pending_of_read hread).2
      refine ⟨hmanner.trans hsame, ?_⟩
      rw [hdelivered, hfront _ rfl]
      omega
  | case6 => simp at h

/-- Whether an input has moved on by some bytes. -/
structure Input.Advances (input : Input) (taken : Bytes) (rest : Input) : Prop where
  pending_eq : input.source.pending = taken ++ rest.source.pending
  consumed_eq : rest.consumed = input.consumed + taken.length
  delivered_eq : rest.source.delivered = input.source.delivered + taken.length
  manner_eq : rest.source.manner = input.source.manner

namespace Input.Advances

variable {input middle rest : Input} {first second taken : Bytes}

theorem refl (input : Input) : input.Advances [] input :=
  ⟨rfl, rfl, rfl, rfl⟩

theorem trans
    (h : input.Advances first middle)
    (h' : middle.Advances second rest) :
    input.Advances (first ++ second) rest where
  pending_eq := by
    rw [h.pending_eq, h'.pending_eq, List.append_assoc]
  consumed_eq := by
    rw [h'.consumed_eq, h.consumed_eq, List.length_append, Nat.add_assoc]
  delivered_eq := by
    rw [h'.delivered_eq, h.delivered_eq, List.length_append, Nat.add_assoc]
  manner_eq := h'.manner_eq.trans h.manner_eq

theorem steady
    (h : input.Advances taken rest)
    (hsteady : input.source.Steady) :
    rest.source.Steady :=
  ⟨h.manner_eq ▸ hsteady.chunk_ne, h.manner_eq ▸ hsteady.fault_eq⟩

end Input.Advances

namespace FieldReader

variable {α β σ : Type}

/-- Whether a description makes a value of exactly the given bytes, when `position` bytes
were read before them. -/
def Reads : FieldReader α → (position : Nat) → (taken : Bytes) → α → Prop
  | done found, _, taken, value => taken = [] ∧ value = found
  | fail _, _, _, _ => False
  | field count _ next, position, taken, value =>
      ∃ front rest,
        taken = front ++ rest ∧
          front.length = count ∧
          (next front).Reads (position + count) rest value
  | offset next, position, taken, value => (next position).Reads position taken value
  | note _ next, position, taken, value => next.Reads position taken value

theorem readExact_of_pending
    {source : Source}
    (hsteady : source.Steady)
    {front left : Bytes}
    (hpending : source.pending = front ++ left) :
    ∃ interruptNext,
      source.readExact front.length =
        (.ok front, source.advance front.length interruptNext) := by
  have havailable := Source.available_of_steady hsteady
  have hle : front.length ≤ source.available := by
    rw [havailable, hpending, List.length_append]
    omega
  obtain ⟨interruptNext, hread⟩ := source.readExact_of_le front.length hsteady.chunk_ne hle
  refine ⟨interruptNext, ?_⟩
  rw [hread, hpending, List.take_left' rfl]

/-- A description that reads the front of the pending bytes ends with the value. -/
theorem run_of_reads
    {reader : FieldReader α}
    {input : Input}
    {taken left : Bytes}
    {value : α}
    (hsteady : input.source.Steady)
    (hpending : input.source.pending = taken ++ left)
    (h : reader.Reads input.consumed taken value) :
    ∃ rest, reader.run input = (.ok value, rest) ∧ input.Advances taken rest := by
  induction reader generalizing input taken with
  | done found =>
      obtain ⟨rfl, rfl⟩ := h
      exact ⟨input, rfl, .refl input⟩
  | fail cause => exact h.elim
  | field count positive next ih =>
      obtain ⟨front, more, rfl, rfl, hnext⟩ := h
      rw [List.append_assoc] at hpending
      obtain ⟨interruptNext, hread⟩ := readExact_of_pending hsteady hpending
      let middle : Input :=
        { input with
          source := input.source.advance front.length interruptNext
          consumed := input.consumed + front.length }
      have hmiddle : input.Advances front middle := by
        refine ⟨?_, rfl, rfl, rfl⟩
        change input.source.pending = front ++ input.source.pending.drop front.length
        rw [hpending, List.drop_left' rfl]
      have hmore : middle.source.pending = more ++ left := by
        change input.source.pending.drop front.length = more ++ left
        rw [hpending, List.drop_left' rfl]
      obtain ⟨rest, hrun, hrest⟩ := ih front (hmiddle.steady hsteady) hmore hnext
      refine ⟨rest, ?_, hmiddle.trans hrest⟩
      rw [run, hread]
      exact hrun
  | offset next ih => exact ih input.consumed hsteady hpending h
  | note event next ih =>
      have hsame : input.Advances [] (input.note event) := ⟨rfl, rfl, rfl, rfl⟩
      obtain ⟨rest, hrun, hrest⟩ := ih (hsame.steady hsteady) hpending h
      exact ⟨rest, hrun, hsame.trans hrest⟩

/-- A description that ends with a value has read the bytes by which its input has moved on,
whatever the source. -/
theorem advances_of_run
    {reader : FieldReader α}
    {input rest : Input}
    {value : α}
    (h : reader.run input = (.ok value, rest)) :
    ∃ taken, input.Advances taken rest ∧ reader.Reads input.consumed taken value := by
  induction reader generalizing input with
  | done found =>
      simp only [run, Prod.mk.injEq, Except.ok.injEq] at h
      obtain ⟨rfl, rfl⟩ := h
      exact ⟨[], .refl input, rfl, rfl⟩
  | fail cause => simp [run] at h
  | field count positive next ih =>
      simp only [run] at h
      split at h
      · rename_i front source hread
        obtain ⟨hlength, hpending⟩ := Source.readExact_ok hread
        obtain ⟨hmanner, hdelivered⟩ := Source.delivered_of_readExact hread
        obtain ⟨taken, hrest, hreads⟩ := ih front h
        have hfront : input.Advances front
            { input with source, consumed := input.consumed + count } :=
          ⟨hpending, congrArg _ hlength.symm, hlength ▸ hdelivered, hmanner⟩
        exact ⟨front ++ taken, hfront.trans hrest, front, taken, rfl, hlength, hreads⟩
      · simp at h
  | offset next ih => exact ih input.consumed h
  | note event next ih =>
      simp only [run] at h
      obtain ⟨taken, hrest, hreads⟩ := ih h
      exact ⟨taken, ⟨hrest.pending_eq, hrest.consumed_eq, hrest.delivered_eq, hrest.manner_eq⟩,
        hreads⟩

/-- Whether a repetition makes a result of exactly the given bytes. -/
inductive ReadsUntil (body : σ → FieldReader (σ ⊕ α)) :
    (state : σ) → (position : Nat) → (taken : Bytes) → α → Prop
  /-- The first round gives the result. -/
  | stop
      {state : σ}
      {position : Nat}
      {taken : Bytes}
      {result : α}
      (h : (body state).Reads position taken (.inr result)) :
      ReadsUntil body state position taken result
  /-- The first round gives a state from which the rest is read. -/
  | next
      {state following : σ}
      {position : Nat}
      {first rest : Bytes}
      {result : α}
      (h : (body state).Reads position first (.inl following))
      (hrest : ReadsUntil body following (position + first.length) rest result) :
      ReadsUntil body state position (first ++ rest) result

theorem repeatUntil_of_readsUntil
    {body : σ → FieldReader (σ ⊕ α)}
    {progress : ∀ state, (body state).Progresses}
    {state : σ}
    {position : Nat}
    {taken : Bytes}
    {result : α}
    (h : ReadsUntil body state position taken result)
    {input : Input}
    {left : Bytes}
    (hsteady : input.source.Steady)
    (hposition : input.consumed = position)
    (hpending : input.source.pending = taken ++ left) :
    ∃ rest,
      repeatUntil body progress state input = (.ok result, rest) ∧
        input.Advances taken rest := by
  induction h generalizing input with
  | stop h =>
      rw [← hposition] at h
      obtain ⟨rest, hrun, hrest⟩ := run_of_reads hsteady hpending h
      refine ⟨rest, ?_, hrest⟩
      rw [repeatUntil_eq, hrun]
  | @next state following position first more result h _ ih =>
      rw [← hposition] at h
      rw [List.append_assoc] at hpending
      obtain ⟨middle, hrun, hmiddle⟩ := run_of_reads hsteady hpending h
      have hmore : middle.source.pending = more ++ left := by
        have hboth := hmiddle.pending_eq.symm.trans hpending
        exact List.append_cancel_left hboth
      obtain ⟨rest, hrepeat, hrest⟩ :=
        ih (hmiddle.steady hsteady) (by rw [hmiddle.consumed_eq, hposition]) hmore
      refine ⟨rest, ?_, hmiddle.trans hrest⟩
      rw [repeatUntil_eq, hrun]
      exact hrepeat

/-- A repetition that ends with a result has read the bytes by which its input has moved on. -/
theorem advances_of_repeatUntil
    {body : σ → FieldReader (σ ⊕ α)}
    {progress : ∀ state, (body state).Progresses}
    {state : σ}
    {input rest : Input}
    {result : α}
    (h : repeatUntil body progress state input = (.ok result, rest)) :
    ∃ taken, input.Advances taken rest ∧ ReadsUntil body state input.consumed taken result := by
  fun_induction repeatUntil body progress state input with
  | case1 => simp at h
  | case2 state input found middle hrun =>
      simp only [Prod.mk.injEq, Except.ok.injEq] at h
      obtain ⟨rfl, rfl⟩ := h
      obtain ⟨taken, hadvances, hreads⟩ := advances_of_run hrun
      exact ⟨taken, hadvances, .stop hreads⟩
  | case3 state input following middle hrun ih =>
      obtain ⟨first, hfirst, hreads⟩ := advances_of_run hrun
      obtain ⟨more, hmore, hrest⟩ := ih h
      exact ⟨first ++ more, hfirst.trans hmore, .next hreads (hfirst.consumed_eq ▸ hrest)⟩

section Single

variable {position : Nat} {taken : Bytes}

@[simp]
theorem reads_pure_iff {found value : α} :
    (pure found : FieldReader α).Reads position taken value ↔ taken = [] ∧ value = found :=
  Iff.rfl

@[simp]
theorem not_reads_fail {cause : Error} {value : α} :
    ¬(fail cause : FieldReader α).Reads position taken value :=
  id

/-- The second description reads what the first one leaves. -/
theorem reads_bind_iff
    {reader : FieldReader α}
    {next : α → FieldReader β}
    {value : β} :
    (reader >>= next).Reads position taken value ↔
      ∃ first rest found,
        taken = first ++ rest ∧
          reader.Reads position first found ∧
          (next found).Reads (position + first.length) rest value := by
  induction reader generalizing position taken with
  | done found =>
      constructor
      · intro h
        exact ⟨[], taken, found, rfl, ⟨rfl, rfl⟩, h⟩
      · rintro ⟨first, rest, same, rfl, ⟨rfl, rfl⟩, h⟩
        exact h
  | fail cause =>
      constructor
      · intro h
        exact h.elim
      · rintro ⟨first, rest, found, -, h, -⟩
        exact h.elim
  | field count positive more ih =>
      constructor
      · rintro ⟨front, back, rfl, hlength, h⟩
        obtain ⟨first, rest, found, rfl, hfirst, hrest⟩ := (ih front).mp h
        refine ⟨front ++ first, rest, found, (List.append_assoc _ _ _).symm,
          ⟨front, first, rfl, hlength, hfirst⟩, ?_⟩
        rw [List.length_append, hlength, ← Nat.add_assoc]
        exact hrest
      · rintro ⟨first, rest, found, rfl, ⟨front, back, rfl, hlength, hfirst⟩, hrest⟩
        refine ⟨front, back ++ rest, List.append_assoc _ _ _, hlength, (ih front).mpr ?_⟩
        refine ⟨back, rest, found, rfl, hfirst, ?_⟩
        rw [List.length_append, hlength, ← Nat.add_assoc] at hrest
        exact hrest
  | offset more ih => exact ih position
  | note event more ih => exact ih

theorem reads_bytes_bind_iff
    {count : Nat}
    {positive : 0 < count}
    {next : Bytes → FieldReader β}
    {value : β} :
    (bytes count positive >>= next).Reads position taken value ↔
      ∃ front rest,
        taken = front ++ rest ∧
          front.length = count ∧
          (next front).Reads (position + count) rest value :=
  Iff.rfl

theorem reads_byte_bind_iff
    {next : UInt8 → FieldReader β}
    {value : β} :
    (byte >>= next).Reads position taken value ↔
      ∃ found rest,
        taken = found :: rest ∧ (next found).Reads (position + 1) rest value := by
  constructor
  · rintro ⟨front, rest, rfl, hlength, h⟩
    obtain ⟨found, rfl⟩ := List.length_eq_one_iff.mp hlength
    exact ⟨found, rest, rfl, h⟩
  · rintro ⟨found, rest, rfl, h⟩
    exact ⟨[found], rest, rfl, rfl, h⟩

theorem reads_word_bind_iff
    {next : UInt16 → FieldReader β}
    {value : β} :
    (word >>= next).Reads position taken value ↔
      ∃ found rest,
        taken = littleEndian 2 found.toNat ++ rest ∧
          (next found).Reads (position + 2) rest value := by
  constructor
  · rintro ⟨front, rest, rfl, hlength, h⟩
    have hbound := ofLittleEndian_lt front
    rw [hlength] at hbound
    have hvalue : (UInt16.ofNat (ofLittleEndian front)).toNat = ofLittleEndian front :=
      UInt16.toNat_ofNat_of_lt' hbound
    have hfront : littleEndian 2 (ofLittleEndian front) = front := by
      rw [← hlength]
      exact littleEndian_ofLittleEndian front
    refine ⟨UInt16.ofNat (ofLittleEndian front), rest, ?_, h⟩
    rw [hvalue, hfront]
  · rintro ⟨found, rest, rfl, h⟩
    have hbound : found.toNat < 256 ^ 2 := found.toNat_lt
    have hvalue : UInt16.ofNat (ofLittleEndian (littleEndian 2 found.toNat)) = found := by
      rw [ofLittleEndian_littleEndian, Nat.mod_eq_of_lt hbound]
      exact UInt16.ofNat_toNat
    refine ⟨littleEndian 2 found.toNat, rest, rfl, length_littleEndian 2 _, ?_⟩
    rw [← hvalue] at h
    exact h

@[simp]
theorem reads_record_bind_iff
    {event : Event}
    {next : Unit → FieldReader β}
    {value : β} :
    (record event >>= next).Reads position taken value ↔
      (next ()).Reads position taken value :=
  Iff.rfl

@[simp]
theorem reads_position_bind_iff
    {next : Nat → FieldReader β}
    {value : β} :
    (FieldReader.position >>= next).Reads position taken value ↔
      (next position).Reads position taken value :=
  Iff.rfl

end Single

end FieldReader
end GifBitmap

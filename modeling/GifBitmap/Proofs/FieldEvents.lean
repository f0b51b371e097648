import GifBitmap.Proofs.FieldPassage

/-!
# Which events a description notes

The events that are noted while a source is read are those of the scan of the bytes that it
delivers, whatever the source (`exists_scan_of_run`).  `NotesOnly` says of a description that it
notes none but some events, wherever it ends.

A repetition stays among some of its states until it comes to the first one that is not among
them.  If the rounds before that note none but some events, these are all events up to there, and
if it never comes to such a state they are all events at all (`stays_or_leaves`).

Main facts:
* `reads_of_scan`: a scan that ends with a value, and what was read;
* `exists_scan_of_run`: the events of a run;
* `NotesOnly.bind`, `NotesOnly.of_mem_scan`: descriptions that note none but some events;
* `stays_or_leaves`: how a repetition leaves some of its states.
-/

namespace GifBitmap

namespace Source

variable {source : Source} {count : Nat}

theorem allowance_of_empty_chunk (hchunk : source.manner.chunk = some 0) :
    source.allowance count = 0 := by
  have hwithin : source.manner.withinChunk count = 0 := by
    simp [Manner.withinChunk, hchunk]
  have hle := source.beforeFault_le (source.manner.withinChunk count)
  rw [allowance]
  omega

/-- A source that delivers at most no byte at once delivers no field. -/
theorem readExact_of_empty_chunk
    (hchunk : source.manner.chunk = some 0)
    (hcount : 0 < count) :
    ∃ failure rest, source.readExact count = (.error failure, rest) := by
  have hnone (source : Source) (hchunk : source.manner.chunk = some 0) {byte bytes rest} :
      source.read count ≠ (.bytes (byte :: bytes), rest) := by
    intro hread
    rw [read, allowance_of_empty_chunk hchunk] at hread
    split at hread
    · simp at hread
    · split at hread <;> simp at hread
  fun_induction readExact source count with
  | case1 => exact absurd hcount (Nat.lt_irrefl 0)
  | case2 source count hpos rest hread ih =>
      exact ih ((delivered_of_read hread).1 ▸ hchunk) hcount hnone
  | case3 source count hpos failure rest hread => exact ⟨failure, rest, rfl⟩
  | case4 source count hpos rest hread => exact ⟨_, rest, rfl⟩
  | case5 source count hpos rest byte bytes hread => exact absurd hread (hnone source hchunk)
  | case6 source count hpos rest byte bytes hread => exact absurd hread (hnone source hchunk)

end Source

namespace FieldReader

variable {α β σ : Type}

section Scan

variable {reader : FieldReader α} {position : Nat} {bytes : Bytes} {value : α}

/-- A scan that ends with a value has read the bytes of its fields. -/
theorem reads_of_scan
    (h : (reader.scan position bytes).ending = .value value) :
    reader.Reads position (bytes.take (reader.scan position bytes).fields.sum) value := by
  induction reader generalizing position bytes with
  | done found =>
      obtain rfl := Ending.value.inj h
      exact ⟨List.take_zero, rfl⟩
  | fail cause => simp [scan] at h
  | field count positive next ih =>
      by_cases hle : count ≤ bytes.length
      · rw [scan_field_of_le positive next hle] at h ⊢
        refine ⟨bytes.take count, _, ?_, List.length_take_of_le hle, ih (bytes.take count) h⟩
        rw [Scan.behindField, List.sum_cons, List.take_add]
      · rw [scan_field_of_lt positive next (Nat.lt_of_not_le hle)] at h
        simp at h
  | offset next ih => exact ih position h
  | note event next ih => exact ih h

/-- What was read in front of some bytes is found by their scan. -/
theorem ending_of_reads
    {taken : Bytes}
    (h : reader.Reads position taken value)
    (hfront : taken <+: bytes) :
    (reader.scan position bytes).ending = .value value ∧
      (reader.scan position bytes).fields.sum = taken.length := by
  obtain ⟨rest, rfl⟩ := hfront
  obtain ⟨fields, events, hsum, hscan⟩ := exists_scan_of_reads h
  rw [hscan]
  exact ⟨rfl, hsum⟩

end Scan

/-- Whatever the source, the bytes that are delivered are a front of those that are pending, and
the fields and the events of a run are those of their scan. -/
theorem exists_scan_of_run (reader : FieldReader α) (input : Input) :
    ∃ bytes,
      bytes <+: input.source.pending ∧
        (reader.run input).2.consumed =
          input.consumed + (reader.scan input.consumed bytes).fields.sum ∧
        (reader.run input).2.events.toList =
          input.events.toList ++ (reader.scan input.consumed bytes).events := by
  by_cases hchunk : input.source.manner.chunk = some 0
  · refine ⟨[], List.nil_prefix, ?_⟩
    induction reader generalizing input with
    | done => exact ⟨rfl, (List.append_nil _).symm⟩
    | fail => exact ⟨rfl, (List.append_nil _).symm⟩
    | field count positive next =>
        obtain ⟨failure, rest, hread⟩ := Source.readExact_of_empty_chunk hchunk positive
        have hnone : ([] : Bytes).length < count := positive
        rw [scan_field_of_lt positive next hnone, run, hread]
        exact ⟨rfl, (List.append_nil _).symm⟩
    | offset next ih => exact ih input.consumed input hchunk
    | note event next ih =>
        obtain ⟨hconsumed, hevents⟩ := ih (input.note event) hchunk
        refine ⟨hconsumed, hevents.trans ?_⟩
        simp [Input.note, scan, Scan.behindEvent]
  · obtain ⟨interruptNext, hrun⟩ := run_eq_scan reader input hchunk
    refine ⟨atHand input, List.take_prefix _ _, ?_⟩
    rw [hrun]
    exact ⟨rfl, by simp [Scan.outcome]⟩

/-- Whether a description notes none but allowed events. -/
def NotesOnly (allowed : Event → Prop) : FieldReader α → Prop
  | done _ | fail _ => True
  | field _ _ next => ∀ bytes, (next bytes).NotesOnly allowed
  | offset next => ∀ position, (next position).NotesOnly allowed
  | note event next => allowed event ∧ next.NotesOnly allowed

namespace NotesOnly

variable {allowed : Event → Prop} {reader : FieldReader α}

theorem bind
    {next : α → FieldReader β}
    (h : reader.NotesOnly allowed)
    (hnext : ∀ value, (next value).NotesOnly allowed) :
    (reader >>= next).NotesOnly allowed := by
  induction reader with
  | done value => exact hnext value
  | fail => trivial
  | field count positive more ih => exact fun bytes => ih bytes (h bytes)
  | offset more ih => exact fun position => ih position (h position)
  | note event more ih => exact ⟨h.1, ih h.2⟩

theorem bytes (count : Nat) (positive : 0 < count) :
    (FieldReader.bytes count positive).NotesOnly allowed :=
  fun _ => trivial

theorem byte : FieldReader.byte.NotesOnly allowed :=
  fun _ => trivial

/-- All events of a scan are allowed. -/
theorem of_mem_scan
    {position : Nat}
    {bytes : Bytes}
    {event : Event}
    (h : reader.NotesOnly allowed)
    (hevent : event ∈ (reader.scan position bytes).events) :
    allowed event := by
  induction reader generalizing position bytes with
  | done => exact absurd hevent List.not_mem_nil
  | fail => exact absurd hevent List.not_mem_nil
  | field count positive next ih =>
      by_cases hle : count ≤ bytes.length
      · rw [scan_field_of_le positive next hle] at hevent
        exact ih _ (h _) hevent
      · rw [scan_field_of_lt positive next (Nat.lt_of_not_le hle)] at hevent
        exact absurd hevent List.not_mem_nil
  | offset next ih => exact ih _ (h position) hevent
  | note noted next ih =>
      rcases List.mem_cons.mp hevent with rfl | hlater
      · exact h.1
      · exact ih h.2 hlater

end NotesOnly

section Leaving

variable {body : σ → FieldReader (σ ⊕ α)} {Inside : σ → Prop} {allowed : Event → Prop}
  {state next : σ} {position : Nat} {bytes : Bytes}

/-- A round that leads to another state has read a front of the bytes, and is the front of the
scan of the repetition. -/
theorem exists_round
    (progress : ∀ state, (body state).Progresses)
    (hnotes : (body state).NotesOnly allowed)
    (hnext : ((body state).scan position bytes).ending = .value (.inl next)) :
    ∃ first rest events,
      bytes = first ++ rest ∧
        0 < first.length ∧
        (body state).Reads position first (.inl next) ∧
        Crosses body state position first events next ∧
        ∀ event ∈ events, allowed event := by
  have hreads := reads_of_scan hnext
  have hpos := sum_fields_pos (progress state) hnext
  have hbytes := (List.take_append_drop ((body state).scan position bytes).fields.sum bytes).symm
  generalize bytes.take ((body state).scan position bytes).fields.sum = first at hreads hbytes
  generalize bytes.drop ((body state).scan position bytes).fields.sum = rest at hbytes
  obtain ⟨fields, events, hsum, hscan⟩ := exists_scan_of_reads hreads
  have hwhole : (body state).scan position bytes = ⟨.value (.inl next), fields, events⟩ := by
    rw [hbytes]
    exact hscan rest
  refine ⟨first, rest, events, hbytes, ?_, hreads, crosses_of_scan progress fields hsum hscan, ?_⟩
  · rw [hwhole, hsum] at hpos
    exact hpos
  · intro event hevent
    have hmem : event ∈ ((body state).scan position bytes).events := by
      rw [hwhole]
      exact hevent
    exact hnotes.of_mem_scan hmem

/-- Any other round is all of it. -/
theorem scanUntil_of_last_round
    (h : ∀ next, ((body state).scan position bytes).ending ≠ .value (.inl next)) :
    (scanUntil body state position bytes).fields = ((body state).scan position bytes).fields ∧
      (scanUntil body state position bytes).events =
        ((body state).scan position bytes).events := by
  rw [scanUntil, rounds, scan_bind]
  generalize (body state).scan position bytes = found at h
  obtain ⟨ending, fields, events⟩ := found
  cases ending with
  | failure => exact ⟨rfl, rfl⟩
  | short => exact ⟨rfl, rfl⟩
  | value value =>
      cases value with
      | inl next => exact absurd rfl (h next)
      | inr result => exact ⟨List.append_nil fields, List.append_nil events⟩

/-- Whether a repetition stays among some states on the given bytes: it comes to none that is not
among them, and notes none but allowed events. -/
structure Stays
    (body : σ → FieldReader (σ ⊕ α))
    (Inside : σ → Prop)
    (allowed : Event → Prop)
    (state : σ)
    (position : Nat)
    (bytes : Bytes) : Prop where
  allowed : ∀ event ∈ (scanUntil body state position bytes).events, allowed event
  inside : ∀ {front following}, Passes body state position front following →
    front <+: bytes → Inside following

/-- Whether a repetition leaves some states on the given bytes: behind some rounds among them
comes one that leads out of them, and all rounds up to there note none but allowed events. -/
structure Leaves
    (body : σ → FieldReader (σ ⊕ α))
    (Inside : σ → Prop)
    (allowed : Event → Prop)
    (state : σ)
    (position : Nat)
    (front last : Bytes)
    (middle following : σ)
    (events : List Event) : Prop where
  passes : Passes body state position front middle
  inside : Inside middle
  reads : (body middle).Reads (position + front.length) last (.inl following)
  outside : ¬Inside following
  crosses : Crosses body state position (front ++ last) events following
  allowed : ∀ event ∈ events, allowed event

/-- A repetition that reads no further round stays where it is. -/
theorem Stays.of_last_round
    (hnotes : (body state).NotesOnly allowed)
    (hstate : Inside state)
    (h : ∀ next, ((body state).scan position bytes).ending ≠ .value (.inl next)) :
    Stays body Inside allowed state position bytes where
  allowed event hevent := by
    rw [(scanUntil_of_last_round h).2] at hevent
    exact hnotes.of_mem_scan hevent
  inside hpasses hfront := by
    cases hpasses with
    | refl => exact hstate
    | next hreads _ =>
        have hbefore := List.IsPrefix.trans (List.prefix_append _ _) hfront
        exact absurd (ending_of_reads hreads hbefore).1 (h _)

/-- If it stays among the states behind its first round, it does so at all. -/
theorem Stays.of_next
    {first rest : Bytes}
    {events : List Event}
    (hstate : Inside state)
    (hreads : (body state).Reads position first (.inl next))
    (hcrosses : Crosses body state position first events next)
    (hallowed : ∀ event ∈ events, allowed event)
    (h : Stays body Inside allowed next (position + first.length) rest) :
    Stays body Inside allowed state position (first ++ rest) where
  allowed event hevent := by
    obtain ⟨fields, -, hscan⟩ := hcrosses
    rw [hscan rest] at hevent
    rcases List.mem_append.mp hevent with hfirst | hlater
    · exact hallowed event hfirst
    · exact h.allowed event hlater
  inside hpasses hfront := by
    cases hpasses with
    | refl => exact hstate
    | @next _ middle _ _ same more hother hrest =>
        have hbefore : same <+: first ++ rest :=
          List.IsPrefix.trans (List.prefix_append same more) hfront
        -- Both rounds read the front of the same bytes.
        obtain ⟨hending, hsum⟩ := ending_of_reads hreads (List.prefix_append first rest)
        obtain ⟨hending', hsum'⟩ := ending_of_reads hother hbefore
        obtain rfl : next = middle :=
          Sum.inl.inj (Ending.value.inj (hending.symm.trans hending'))
        obtain rfl : first = same :=
          (List.prefix_of_prefix_length_le (List.prefix_append first rest) hbefore
            (by omega)).eq_of_length (by omega)
        exact h.inside hrest ((List.prefix_append_right_inj first).mp hfront)

/-- A repetition stays among some states, or it comes to a round that leads out of them. -/
theorem stays_or_leaves
    (progress : ∀ state, (body state).Progresses)
    (hnotes : ∀ state, Inside state → (body state).NotesOnly allowed)
    (hstate : Inside state)
    (position : Nat)
    (bytes : Bytes) :
    Stays body Inside allowed state position bytes ∨
      ∃ front last rest middle following events,
        bytes = front ++ (last ++ rest) ∧
          Leaves body Inside allowed state position front last middle following events := by
  induction hlength : bytes.length using Nat.strongRecOn generalizing state position bytes with
  | ind length ih =>
      subst hlength
      by_cases hlast : ∀ next, ((body state).scan position bytes).ending ≠ .value (.inl next)
      · exact .inl (.of_last_round (hnotes state hstate) hstate hlast)
      obtain ⟨next, hnext⟩ := not_forall_not.mp hlast
      obtain ⟨first, rest, events, rfl, hpos, hreads, hcrosses, hallowed⟩ :=
        exists_round progress (hnotes state hstate) hnext
      by_cases hinside : Inside next
      · have hless : rest.length < (first ++ rest).length := by
          rw [List.length_append]
          omega
        rcases ih _ hless hinside (position + first.length) rest rfl with
          hstays | ⟨front, last, behind, middle, following, more, rfl, hleaves⟩
        · exact .inl (.of_next hstate hreads hcrosses hallowed hstays)
        · refine .inr ⟨first ++ front, last, behind, middle, following, events ++ more,
            (List.append_assoc _ _ _).symm, .next hreads hleaves.passes, hleaves.inside, ?_,
            hleaves.outside, ?_, ?_⟩
          · rw [List.length_append, ← Nat.add_assoc]
            exact hleaves.reads
          · rw [List.append_assoc]
            exact hcrosses.trans hleaves.crosses
          · intro event hevent
            rcases List.mem_append.mp hevent with hfirst | hlater
            · exact hallowed event hfirst
            · exact hleaves.allowed event hlater
      · exact .inr ⟨[], first, rest, state, next, events, rfl, .refl state position, hstate,
          hreads, hinside, hcrosses, hallowed⟩

end Leaving

end FieldReader
end GifBitmap

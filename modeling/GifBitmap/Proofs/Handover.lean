import GifBitmap.Sink.Buffer

/-!
# What a buffer hands over

Whatever its sink is like, a buffer neither loses a byte nor adds one.  As long as no operation
fails, the bytes that the sink has accepted and those that wait behind them are the bytes that
were put into the buffer, in order (`Gains`).  An operation fails only with a failure that the
sink raises (`Sink.Raises`).

Main facts, for every sink:
* `ends_put`, `ends_putAll`: the parts of a file are taken, or the sink fails;
* `flush_cases`: at the end of a file nothing waits any more, or the sink fails.
-/

namespace GifBitmap

/-- Whether a failure is one that a sink can raise: its own beyond the limit, that it takes no
byte, or its own at the end. -/
def Sink.Raises (sink : Sink) (failure : StreamError) : Prop :=
  sink.manner.refusal = some failure ∨
    failure.kind = .writeZero ∨
    sink.manner.flushFailure = some failure

/-- A request fails only with the failure beyond the limit. -/
theorem Sink.refusal_of_write
    {sink next : Sink}
    {bytes : Bytes}
    {failure : StreamError}
    (h : sink.write bytes = (.error failure, next)) :
    sink.manner.refusal = some failure := by
  unfold write at h
  split at h
  · rename_i hrefusal
    obtain ⟨hfailure, -⟩ := Prod.mk.inj h
    rw [hrefusal, Except.error.inj hfailure]
  · simp at h

namespace BufferedSink

/-- What was put into a buffer and the bytes that its sink held before: those that the sink has
accepted, and behind them those that wait. -/
def contents (buffered : BufferedSink) : Bytes :=
  buffered.sink.accepted.toList ++ buffered.waiting

/-- Whether some bytes were put into a buffer, and all that the sink accepted was counted. -/
structure Gains (before : BufferedSink) (bytes : Bytes) (after : BufferedSink) : Prop where
  contents_eq : after.contents = before.contents ++ bytes
  manner_eq : after.sink.manner = before.sink.manner
  count_eq : after.count + before.sink.accepted.size = before.count + after.sink.accepted.size

/-- Whether an operation fails as the sink can fail, or some bytes were put into the buffer. -/
def Ends (before : BufferedSink) (bytes : Bytes) :
    Except StreamError Unit × BufferedSink → Prop
  | (.error failure, _) => before.sink.Raises failure
  | (.ok (), after) => before.Gains bytes after

variable {buffered next : BufferedSink} {bytes left part : Bytes} {silence : StreamError}

theorem Gains.refl (buffered : BufferedSink) : buffered.Gains [] buffered :=
  ⟨(List.append_nil _).symm, rfl, rfl⟩

theorem Gains.trans
    {middle after : BufferedSink}
    {more : Bytes}
    (hfirst : buffered.Gains bytes middle)
    (hsecond : middle.Gains more after) :
    buffered.Gains (bytes ++ more) after := by
  have hcount := hfirst.count_eq
  have hmore := hsecond.count_eq
  refine ⟨?_, hsecond.manner_eq.trans hfirst.manner_eq, by omega⟩
  rw [hsecond.contents_eq, hfirst.contents_eq, List.append_assoc]

/-- What follows an operation that succeeded ends as it does from the start. -/
theorem Gains.ends
    {middle : BufferedSink}
    {more : Bytes}
    {outcome : Except StreamError Unit × BufferedSink}
    (hfirst : buffered.Gains bytes middle)
    (hsecond : middle.Ends more outcome) :
    buffered.Ends (bytes ++ more) outcome := by
  obtain ⟨result, after⟩ := outcome
  cases result with
  | error failure =>
      have hraises : middle.sink.Raises failure := hsecond
      rw [Sink.Raises, hfirst.manner_eq] at hraises
      exact hraises
  | ok => exact hfirst.trans hsecond

theorem raises_of_offer
    {failure : StreamError}
    (h : buffered.offer bytes = (.error failure, next)) :
    buffered.sink.Raises failure := by
  rw [offer] at h
  split at h
  · rename_i found last hwrite
    obtain ⟨hfailure, -⟩ := Prod.mk.inj h
    obtain rfl := Except.error.inj hfailure
    exact .inl (Sink.refusal_of_write hwrite)
  · simp at h

/-- Whether some bytes went to the sink, past those that wait, and were counted. -/
structure Passes (before : BufferedSink) (bytes : Bytes) (after : BufferedSink) : Prop where
  waiting_eq : after.waiting = before.waiting
  accepted_eq : after.sink.accepted.toList = before.sink.accepted.toList ++ bytes
  manner_eq : after.sink.manner = before.sink.manner
  count_eq : after.count = before.count + bytes.length

/-- Of an offer that is answered the front went to the sink. -/
theorem passes_of_offer
    {taken : Nat}
    (h : buffered.offer bytes = (.ok taken, next)) :
    buffered.Passes (bytes.take taken) next := by
  rw [offer] at h
  split at h
  · simp at h
  · rename_i found last hwrite
    obtain ⟨htaken, rfl⟩ := Prod.mk.inj h
    obtain rfl := Except.ok.inj htaken
    obtain ⟨haccepted, hle, hmanner⟩ := Sink.accepted_of_write hwrite
    refine ⟨rfl, haccepted, hmanner, ?_⟩
    rw [List.length_take, Nat.min_eq_left hle]

theorem raises_of_pass
    {failure : StreamError}
    (hsilence : silence.kind = .writeZero)
    (h : buffered.pass silence bytes = (.error failure, left, next)) :
    buffered.sink.Raises failure := by
  fun_induction pass buffered silence bytes with
  | case1 => simp at h
  | case2 buffered byte rest found after hoffer =>
      obtain ⟨hfailure, -⟩ := Prod.mk.inj h
      obtain rfl := Except.error.inj hfailure
      exact raises_of_offer hoffer
  | case3 =>
      obtain ⟨hfailure, -⟩ := Prod.mk.inj h
      obtain rfl := Except.error.inj hfailure
      exact .inr (.inl hsilence)
  | case4 buffered byte rest taken after hoffer ih =>
      have hraises := ih h
      rw [Sink.Raises, (passes_of_offer hoffer).manner_eq] at hraises
      exact hraises

theorem passes_of_pass (h : buffered.pass silence bytes = (.ok (), left, next)) :
    left = [] ∧ buffered.Passes bytes next := by
  fun_induction pass buffered silence bytes with
  | case1 =>
      simp only [Prod.mk.injEq, true_and] at h
      obtain ⟨rfl, rfl⟩ := h
      exact ⟨rfl, rfl, (List.append_nil _).symm, rfl, rfl⟩
  | case2 => simp at h
  | case3 => simp at h
  | case4 buffered byte rest taken after hoffer ih =>
      obtain ⟨hleft, hrest⟩ := ih h
      have hfront := passes_of_offer hoffer
      have hsplit : (byte :: rest).take (taken + 1) ++ rest.drop taken = byte :: rest := by
        rw [List.take_succ_cons, List.cons_append, List.take_append_drop]
      have hlength := congrArg List.length hsplit
      rw [List.length_append] at hlength
      refine ⟨hleft, hrest.waiting_eq.trans hfront.waiting_eq, ?_,
        hrest.manner_eq.trans hfront.manner_eq, ?_⟩
      · rw [hrest.accepted_eq, hfront.accepted_eq, List.append_assoc, hsplit]
      · rw [hrest.count_eq, hfront.count_eq, Nat.add_assoc, hlength]

/-- Bytes that go to the sink are put into a buffer in which nothing waits. -/
theorem Passes.gains
    (h : buffered.Passes bytes next)
    (hempty : buffered.waiting = [] ∨ bytes = []) :
    buffered.Gains bytes next := by
  have hcount := h.count_eq
  have hsize := congrArg List.length h.accepted_eq
  rw [List.length_append, Array.length_toList, Array.length_toList] at hsize
  refine ⟨?_, h.manner_eq, by omega⟩
  rw [contents, contents, h.waiting_eq, h.accepted_eq, List.append_assoc, List.append_assoc]
  rcases hempty with hnone | rfl
  · rw [hnone, List.nil_append, List.append_nil]
  · rw [List.nil_append, List.append_nil]

theorem drain_cases (buffered : BufferedSink) :
    (∃ failure after,
      buffered.drain = (.error failure, after) ∧ buffered.sink.Raises failure) ∨
      ∃ after,
        buffered.drain = (.ok (), after) ∧ buffered.Gains [] after ∧ after.waiting = [] := by
  obtain ⟨⟨result, left, after⟩, hpass⟩ :
      ∃ passed, buffered.pass .bufferNotAccepted buffered.waiting = passed := ⟨_, rfl⟩
  rw [drain_of_pass hpass]
  cases result with
  | error failure => exact .inl ⟨failure, _, rfl, raises_of_pass rfl hpass⟩
  | ok =>
      obtain ⟨rfl, hpassed⟩ := passes_of_pass hpass
      have hcount := hpassed.count_eq
      have hsize := congrArg List.length hpassed.accepted_eq
      rw [List.length_append, Array.length_toList, Array.length_toList] at hsize
      refine .inr ⟨_, rfl, ⟨?_, hpassed.manner_eq, ?_⟩, rfl⟩
      · rw [contents, contents, List.append_nil, List.append_nil]
        exact hpassed.accepted_eq
      · dsimp only
        omega

/-- A part that is kept waits behind what waited before. -/
theorem gains_waiting (buffered : BufferedSink) (part : Bytes) :
    buffered.Gains part { buffered with waiting := buffered.waiting ++ part } :=
  ⟨(List.append_assoc _ _ _).symm, rfl, rfl⟩

theorem ends_store
    (hempty : buffered.capacity ≤ part.length → buffered.waiting = [] ∨ part = []) :
    buffered.Ends part (buffered.store part) := by
  rw [store]
  split
  · rename_i haround
    obtain ⟨⟨result, left, after⟩, hpass⟩ :
        ∃ passed, buffered.pass .nothingAccepted part = passed := ⟨_, rfl⟩
    rw [hpass]
    cases result with
    | error failure => exact raises_of_pass rfl hpass
    | ok => exact (passes_of_pass hpass).2.gains (hempty haround)
  · exact gains_waiting buffered part

/-- A part that is put into a buffer is taken, or the sink fails. -/
theorem ends_put (buffered : BufferedSink) (part : Bytes) :
    buffered.Ends part (buffered.put part) := by
  rw [put]
  split
  · exact gains_waiting buffered part
  · split
    · rcases buffered.drain_cases with ⟨failure, after, hdrain, hraises⟩ |
        ⟨after, hdrain, hgains, hempty⟩
      · rw [hdrain]
        exact hraises
      · rw [hdrain]
        exact hgains.ends (ends_store fun _ => .inl hempty)
    · -- The part takes up exactly the space that is left, if there is any.
      refine ends_store fun haround => ?_
      have hspace : buffered.space = buffered.capacity - buffered.waiting.length := rfl
      by_cases hnone : buffered.waiting = []
      · exact .inl hnone
      · have hwaiting := List.length_pos_iff.mpr hnone
        exact .inr (List.eq_nil_of_length_eq_zero (by omega))

/-- The parts of a file are taken, or the sink fails. -/
theorem ends_putAll (buffered : BufferedSink) (parts : List Bytes) :
    buffered.Ends parts.flatten (buffered.putAll parts) := by
  induction parts generalizing buffered with
  | nil => exact .refl buffered
  | cons part parts ih =>
      have hput := buffered.ends_put part
      rw [putAll, List.flatten_cons]
      obtain ⟨⟨result, after⟩, hafter⟩ : ∃ outcome, buffered.put part = outcome := ⟨_, rfl⟩
      rw [hafter] at hput ⊢
      cases result with
      | error failure => exact hput
      | ok => exact Gains.ends hput (ih after)

/-- At the end of a file nothing waits any more, or the sink fails. -/
theorem flush_cases (buffered : BufferedSink) :
    (∃ failure after,
      buffered.flush = (.error failure, after) ∧ buffered.sink.Raises failure) ∨
      ∃ after,
        buffered.flush = (.ok (), after) ∧ buffered.Gains [] after ∧ after.waiting = [] := by
  rw [flush]
  rcases buffered.drain_cases with ⟨failure, after, hdrain, hraises⟩ |
    ⟨after, hdrain, hgains, hempty⟩
  · rw [hdrain]
    exact .inl ⟨failure, after, rfl, hraises⟩
  · rw [hdrain]
    dsimp only
    rw [Sink.flush, hgains.manner_eq]
    cases hflush : buffered.sink.manner.flushFailure with
    | some failure => exact .inl ⟨failure, after, rfl, .inr (.inr hflush)⟩
    | none => exact .inr ⟨after, rfl, hgains, hempty⟩

/-- When nothing waits, giving up a buffer leaves the sink as it is. -/
theorem close_of_empty (hempty : buffered.waiting = []) : buffered.close = buffered.sink := by
  have hpass : buffered.pass .bufferNotAccepted buffered.waiting = (.ok (), [], buffered) := by
    rw [hempty, pass]
  rw [close, drain_of_pass hpass]

end BufferedSink
end GifBitmap

import GifBitmap.Proofs.Handover
import GifBitmap.Sink.Limit

/-!
# What gets through a buffer

A buffer changes when bytes are offered to the sink, and in which pieces, and nothing else.
As long as the sink accepts all that it is offered, every part that was put into the buffer is
accepted or waits, in the order in which the parts were put (`Follows`).  Once the sink refuses,
it holds just as much of those bytes as it has room for (`Stopped`), and no later offer changes
that.

Main facts, for a sink whose chunk is not zero:
* `pass_eq`: what is passed to the sink, in one equation;
* `put_cases`, `putAll_cases`: what one part leads to, and all parts of a file;
* `flush_of_follows`: what the end of a file leads to;
* `close_of_stopped`: giving up the buffer adds nothing after a refusal.
-/

namespace GifBitmap

namespace Sink

/-- The sink after it was offered bytes until it refused or had them all. -/
def fill (sink : Sink) (bytes : Bytes) : Sink :=
  sink.accept (bytes.take (sink.room bytes.length))

/-- Whether a failure is one with which a sink refuses bytes: its own if it has one, else that it
takes no byte. -/
def Manner.Refuses (manner : Manner) (failure : StreamError) : Prop :=
  match manner.refusal with
  | some found => failure = found
  | none => failure.kind = .writeZero

theorem Manner.refuses_getD
    (manner : Manner)
    {silence : StreamError}
    (h : silence.kind = .writeZero) :
    manner.Refuses (manner.refusal.getD silence) := by
  unfold Refuses
  cases manner.refusal with
  | some found => rfl
  | none => exact h

theorem size_fill (sink : Sink) (bytes : Bytes) :
    (sink.fill bytes).accepted.size = sink.accepted.size + sink.room bytes.length := by
  rw [fill, accept, size_append_bytes, List.length_take, Nat.min_eq_left (sink.room_le _)]

/-- How the offer of bytes to a sink ends, if `silence` is the failure when none of them is
accepted. -/
def verdict (sink : Sink) (silence : StreamError) (bytes : Bytes) : Except StreamError Unit :=
  if bytes.length ≤ sink.room bytes.length then
    .ok ()
  else
    .error (sink.manner.refusal.getD silence)

theorem verdict_of_le
    {sink : Sink}
    {silence : StreamError}
    {bytes : Bytes}
    (h : bytes.length ≤ sink.room bytes.length) :
    sink.verdict silence bytes = .ok () :=
  if_pos h

theorem verdict_of_lt
    {sink : Sink}
    {silence : StreamError}
    {bytes : Bytes}
    (h : sink.room bytes.length < bytes.length) :
    sink.verdict silence bytes = .error (sink.manner.refusal.getD silence) :=
  if_neg (Nat.not_le_of_lt h)

/-- Bytes for which there is room are accepted as a whole. -/
theorem fill_of_le
    {sink : Sink}
    {bytes : Bytes}
    (h : bytes.length ≤ sink.room bytes.length) :
    sink.fill bytes = sink.accept bytes := by
  rw [fill, List.take_of_length_le h]

theorem room_mono (sink : Sink) {fewer most : Nat} (h : fewer ≤ most) :
    sink.room fewer ≤ sink.room most := by
  unfold room
  split <;> omega

/-- What finds room with others finds room alone. -/
theorem le_room
    {sink : Sink}
    {count most : Nat}
    (h : count ≤ sink.room most) :
    count ≤ sink.room count := by
  unfold room at h ⊢
  split at h <;> omega

/-- Where there is no room for some bytes, there is none for more. -/
theorem room_eq_of_lt
    {sink : Sink}
    {most more : Nat}
    (hle : most ≤ more)
    (hroom : sink.room most < most) :
    sink.room more = sink.room most := by
  unfold room at hroom ⊢
  split at hroom <;> omega

/-- Behind bytes that were accepted there is that much less room. -/
theorem room_accept_append (sink : Sink) (first second : Bytes) :
    (sink.accept first).room second.length =
      sink.room (first ++ second).length - first.length := by
  have hlength := (List.prefix_append first second).length_le
  have hroom := sink.room_accept (first ++ second) hlength
  rwa [List.take_left' rfl, List.drop_left' rfl] at hroom

/-- Bytes are accepted the same if the front of them was accepted before. -/
theorem fill_accept
    {sink : Sink}
    {first : Bytes}
    (hfirst : first.length ≤ sink.room first.length)
    (second : Bytes) :
    (sink.accept first).fill second = sink.fill (first ++ second) := by
  have hlength := (List.prefix_append first second).length_le
  have hroom : first.length ≤ sink.room (first ++ second).length :=
    Nat.le_trans hfirst (sink.room_mono hlength)
  rw [fill, fill, room_accept_append, accept_accept, List.take_append,
    List.take_of_length_le hroom]

/-- The offer of bytes ends the same if the front of them was accepted before. -/
theorem verdict_accept
    {sink : Sink}
    {first : Bytes}
    (hfirst : first.length ≤ sink.room first.length)
    (silence : StreamError)
    (second : Bytes) :
    (sink.accept first).verdict silence second = sink.verdict silence (first ++ second) := by
  have hroom := sink.room_accept_append first second
  have hlength : (first ++ second).length = first.length + second.length := List.length_append
  have hmono := sink.room_mono (List.prefix_append first second).length_le
  rcases Nat.lt_or_ge (sink.room (first ++ second).length) (first ++ second).length with
    hlt | hle
  · have hlt' : (sink.accept first).room second.length < second.length := by omega
    rw [verdict_of_lt hlt, verdict_of_lt hlt']
    rfl
  · have hle' : second.length ≤ (sink.accept first).room second.length := by omega
    rw [verdict_of_le hle, verdict_of_le hle']

/-- After a refusal nothing that stands behind is accepted. -/
theorem fill_append_of_lt
    {sink : Sink}
    {first : Bytes}
    (hfirst : sink.room first.length < first.length)
    (second : Bytes) :
    sink.fill (first ++ second) = sink.fill first := by
  have hlength := (List.prefix_append first second).length_le
  rw [fill, fill, room_eq_of_lt hlength hfirst,
    List.take_append_of_le_length (Nat.le_of_lt hfirst)]

/-- Without room nothing is accepted. -/
theorem fill_eq_self
    {sink : Sink}
    {bytes : Bytes}
    (h : sink.room bytes.length = 0) :
    sink.fill bytes = sink := by
  rw [fill, h, List.take_zero, accept_nil]

/-- After a refusal there is no room. -/
theorem room_fill_of_lt
    {sink : Sink}
    {bytes : Bytes}
    (h : sink.room bytes.length < bytes.length)
    (most : Nat) :
    (sink.fill bytes).room most = 0 := by
  have hsize := sink.size_fill bytes
  have hmanner : (sink.fill bytes).manner = sink.manner := rfl
  unfold room at h hsize ⊢
  rw [hmanner, hsize]
  split at h
  · simp only
    omega
  · omega

end Sink

namespace BufferedSink

/-- After a part of the bytes the rest of them is passed. -/
theorem pass_of_part
    {buffered next : BufferedSink}
    {bytes : Bytes}
    {taken : Nat}
    (hbytes : bytes ≠ [])
    (htaken : 0 < taken)
    (hoffer : buffered.offer bytes = (.ok taken, next))
    (silence : StreamError) :
    buffered.pass silence bytes = next.pass silence (bytes.drop taken) := by
  cases bytes with
  | nil => exact absurd rfl hbytes
  | cons byte rest =>
      cases taken with
      | zero => omega
      | succ count => rw [pass, hoffer, List.drop_succ_cons]

/-- What is passed to the sink is accepted as far as there is room, and the rest is left. -/
theorem pass_eq
    (buffered : BufferedSink)
    (silence : StreamError)
    (bytes : Bytes)
    (hchunk : buffered.sink.manner.chunk ≠ some 0) :
    buffered.pass silence bytes =
      (buffered.sink.verdict silence bytes, bytes.drop (buffered.sink.room bytes.length),
        { buffered with
          sink := buffered.sink.fill bytes
          count := buffered.count + buffered.sink.room bytes.length }) := by
  by_cases hbytes : bytes = []
  · have hroom : buffered.sink.room 0 = 0 := Nat.le_zero.mp (buffered.sink.room_le 0)
    rw [hbytes, pass, Sink.verdict_of_le (Nat.zero_le _), Sink.fill_of_le (Nat.zero_le _),
      Sink.accept_nil, List.length_nil, hroom]
    rfl
  · have hpositive := List.length_pos_iff.mpr hbytes
    rcases buffered.sink.write_cases hbytes hchunk with
      ⟨hzero, hrefused⟩ | ⟨taken, htaken, hroom, hwrite⟩
    · -- The sink is full.
      have hlt : buffered.sink.room bytes.length < bytes.length := by omega
      rw [Sink.verdict_of_lt hlt, Sink.fill_eq_self hzero, hzero]
      obtain ⟨byte, rest, rfl⟩ := List.exists_cons_of_ne_nil hbytes
      rcases hrefused with ⟨failure, hrefusal, hwrite⟩ | ⟨hrefusal, hwrite⟩
      · rw [pass, offer, hwrite, hrefusal]
        rfl
      · rw [pass, offer, hwrite, hrefusal]
        rfl
    · -- The front is accepted, and the rest passed after it.
      have hle : taken ≤ bytes.length := Nat.le_trans hroom (buffered.sink.room_le _)
      have hfirst : (bytes.take taken).length ≤ buffered.sink.room (bytes.take taken).length := by
        rw [List.length_take, Nat.min_eq_left hle]
        exact Sink.le_room hroom
      have hoffer : buffered.offer bytes =
          (.ok taken,
            { buffered with
              sink := buffered.sink.accept (bytes.take taken)
              count := buffered.count + taken }) := by
        rw [offer, hwrite]
      have hrest := pass_eq
        { buffered with
          sink := buffered.sink.accept (bytes.take taken)
          count := buffered.count + taken }
        silence (bytes.drop taken) hchunk
      dsimp only at hrest
      rw [Sink.verdict_accept hfirst, Sink.fill_accept hfirst, List.take_append_drop,
        buffered.sink.room_accept bytes hle, List.drop_drop, Nat.add_assoc,
        Nat.add_sub_cancel' hroom] at hrest
      rw [pass_of_part hbytes htaken hoffer, hrest]
termination_by bytes.length
decreasing_by rw [List.length_drop]; omega

/-- The buffer at `start`, after its sink has accepted `passed` while `waiting` was kept. -/
def passing (start : BufferedSink) (passed waiting : Bytes) : BufferedSink :=
  { start with
    sink := start.sink.accept passed
    count := start.count + passed.length
    waiting }

/-- Whether, after `given` was put into the buffer at `start`, the sink has accepted the front
of it and the rest waits, within the space of the buffer. -/
def Follows (start : BufferedSink) (given : Bytes) (buffered : BufferedSink) : Prop :=
  ∃ passed waiting,
    given = passed ++ waiting ∧
      passed.length ≤ start.sink.room passed.length ∧
      waiting.length ≤ start.capacity ∧
      buffered = start.passing passed waiting

/-- Whether the sink has refused, after `given` was put into the buffer at `start`, and holds as
much of it as it has room for. -/
def Stopped (start : BufferedSink) (given : Bytes) (buffered : BufferedSink) : Prop :=
  start.sink.room given.length < given.length ∧ buffered.sink = start.sink.fill given

/-- Whether an operation fails because the sink refuses, after `given` was put into the buffer at
`start`. -/
def Refused
    (start : BufferedSink)
    (given : Bytes)
    (outcome : Except StreamError Unit × BufferedSink) : Prop :=
  ∃ failure next,
    outcome = (.error failure, next) ∧
      start.sink.manner.Refuses failure ∧
      Stopped start given next

/-- Whether an operation succeeds, after `given` was put into the buffer at `start`. -/
def Taken
    (start : BufferedSink)
    (given : Bytes)
    (outcome : Except StreamError Unit × BufferedSink) : Prop :=
  ∃ next, outcome = (.ok (), next) ∧ Follows start given next

variable {start buffered : BufferedSink} {given : Bytes}

theorem follows_self (hempty : start.waiting = []) : Follows start [] start := by
  obtain ⟨sink, count, waiting, capacity⟩ := start
  obtain rfl : waiting = [] := hempty
  exact ⟨[], [], rfl, Nat.zero_le _, Nat.zero_le _, rfl⟩

/-- Bytes behind those that the sink refused make no difference. -/
theorem Stopped.append (h : Stopped start given buffered) (more : Bytes) :
    Stopped start (given ++ more) buffered := by
  obtain ⟨hroom, hsink⟩ := h
  have hlength := (List.prefix_append given more).length_le
  constructor
  · rw [Sink.room_eq_of_lt hlength hroom]
    omega
  · rw [hsink, Sink.fill_append_of_lt hroom]

/-- Giving up the buffer adds nothing after a refusal. -/
theorem close_of_stopped
    (hchunk : start.sink.manner.chunk ≠ some 0)
    (h : Stopped start given buffered) :
    buffered.close = start.sink.fill given := by
  obtain ⟨hroom, hsink⟩ := h
  have hmanner : buffered.sink.manner.chunk ≠ some 0 := by
    rw [hsink]
    exact hchunk
  have hfull : buffered.sink.room buffered.waiting.length = 0 := by
    rw [hsink]
    exact Sink.room_fill_of_lt hroom _
  rw [close, drain_of_pass (pass_eq _ _ _ hmanner)]
  exact (Sink.fill_eq_self hfull).trans hsink

section Put

variable (hchunk : start.sink.manner.chunk ≠ some 0)
include hchunk

/-- Bytes that are passed to the sink behind those that it has accepted. -/
theorem pass_passing
    {passed : Bytes}
    {silence : StreamError}
    (hpassed : passed.length ≤ start.sink.room passed.length)
    (hsilence : silence.kind = .writeZero)
    (waiting bytes : Bytes) :
    (start.sink.room (passed ++ bytes).length < (passed ++ bytes).length →
      ∃ failure left next,
        (start.passing passed waiting).pass silence bytes = (.error failure, left, next) ∧
          start.sink.manner.Refuses failure ∧
          next.sink = start.sink.fill (passed ++ bytes)) ∧
      ((passed ++ bytes).length ≤ start.sink.room (passed ++ bytes).length →
        (start.passing passed waiting).pass silence bytes =
          (.ok (), [], start.passing (passed ++ bytes) waiting)) := by
  have hpass := (start.passing passed waiting).pass_eq silence bytes hchunk
  have hsink : (start.passing passed waiting).sink = start.sink.accept passed := rfl
  rw [hsink, Sink.verdict_accept hpassed, Sink.fill_accept hpassed] at hpass
  constructor
  · intro hlt
    rw [Sink.verdict_of_lt hlt] at hpass
    exact ⟨_, _, _, hpass, start.sink.manner.refuses_getD hsilence, rfl⟩
  · intro hle
    have hroom := start.sink.room_accept_append passed bytes
    have hlength : (passed ++ bytes).length = passed.length + bytes.length := List.length_append
    have htaken : (start.sink.accept passed).room bytes.length = bytes.length :=
      Nat.le_antisymm (Sink.room_le _ _) (by omega)
    rw [hpass, Sink.verdict_of_le hle, Sink.fill_of_le hle, htaken, List.drop_length]
    simp only [passing, hlength, Nat.add_assoc]

/-- The waiting bytes are handed over, if the sink has room for all that was given. -/
theorem drain_of_follows (h : Follows start given buffered) :
    (start.sink.room given.length < given.length → Refused start given buffered.drain) ∧
      (given.length ≤ start.sink.room given.length →
        buffered.drain = (.ok (), start.passing given [])) := by
  obtain ⟨passed, waiting, rfl, hpassed, -, rfl⟩ := h
  obtain ⟨hrefused, haccepted⟩ :=
    @pass_passing start hchunk _ .bufferNotAccepted hpassed rfl waiting waiting
  constructor
  · intro hlt
    obtain ⟨failure, left, next, hpass, hfailure, hsink⟩ := hrefused hlt
    exact ⟨failure, _, drain_of_pass hpass, hfailure, hlt, hsink⟩
  · intro hle
    exact drain_of_pass (haccepted hle)

/-- A part is taken when nothing waits, or when there is space for it behind what waits. -/
theorem store_passing
    {passed waiting part : Bytes}
    (hpassed : passed.length ≤ start.sink.room passed.length)
    (hspace : waiting = [] ∨ waiting.length + part.length ≤ start.capacity) :
    Refused start (passed ++ waiting ++ part) ((start.passing passed waiting).store part) ∨
      Taken start (passed ++ waiting ++ part) ((start.passing passed waiting).store part) := by
  by_cases haround : start.capacity ≤ part.length
  · obtain rfl : waiting = [] :=
      hspace.elim id fun hle => List.eq_nil_of_length_eq_zero (by omega)
    have hcapacity : (start.passing passed []).capacity ≤ part.length := haround
    obtain ⟨hrefused, haccepted⟩ :=
      @pass_passing start hchunk _ .nothingAccepted hpassed rfl [] part
    rw [List.append_nil, store, if_pos hcapacity]
    rcases Nat.lt_or_ge (start.sink.room (passed ++ part).length) (passed ++ part).length with
      hlt | hle
    · obtain ⟨failure, left, next, hpass, hfailure, hsink⟩ := hrefused hlt
      rw [hpass]
      exact .inl ⟨failure, next, rfl, hfailure, hlt, hsink⟩
    · rw [haccepted hle]
      exact .inr ⟨_, rfl, passed ++ part, [], (List.append_nil _).symm, hle, Nat.zero_le _, rfl⟩
  · have hstore : (start.passing passed waiting).store part =
        (.ok (), start.passing passed (waiting ++ part)) :=
      if_neg haround
    have hlength : (waiting ++ part).length ≤ start.capacity := by
      rw [List.length_append]
      rcases hspace with rfl | hle
      · rw [List.length_nil]
        omega
      · exact hle
    exact .inr
      ⟨_, hstore, passed, waiting ++ part, List.append_assoc _ _ _, hpassed, hlength, rfl⟩

/-- A part that is put into the buffer is accepted or waits, or the sink refuses. -/
theorem put_cases (h : Follows start given buffered) (part : Bytes) :
    Refused start (given ++ part) (buffered.put part) ∨
      Taken start (given ++ part) (buffered.put part) := by
  obtain ⟨hrefused, haccepted⟩ := drain_of_follows hchunk h
  obtain ⟨passed, waiting, rfl, hpassed, hwaiting, rfl⟩ := h
  have hspace : (start.passing passed waiting).space = start.capacity - waiting.length := rfl
  rw [put, hspace]
  split
  · -- The part waits with the others.
    have hlength : (waiting ++ part).length ≤ start.capacity := by
      rw [List.length_append]
      omega
    exact .inr ⟨_, rfl, passed, waiting ++ part, List.append_assoc _ _ _, hpassed, hlength, rfl⟩
  · split
    · -- What waits is handed over first.
      rcases Nat.lt_or_ge (start.sink.room (passed ++ waiting).length)
        (passed ++ waiting).length with hlt | hle
      · obtain ⟨failure, next, hdrain, hfailure, hstopped⟩ := hrefused hlt
        rw [hdrain]
        exact .inl ⟨failure, next, rfl, hfailure, hstopped.append part⟩
      · rw [haccepted hle]
        have hstore := @store_passing start hchunk _ [] part hle (.inl rfl)
        rw [List.append_nil] at hstore
        exact hstore
    · -- The part takes up exactly the space that is left.
      exact store_passing hchunk hpassed (.inr (by omega))

/-- Of the parts of a file, the sink accepts what it has room for, or they are accepted or
wait. -/
theorem putAll_cases (h : Follows start given buffered) (parts : List Bytes) :
    Refused start (given ++ parts.flatten) (buffered.putAll parts) ∨
      Taken start (given ++ parts.flatten) (buffered.putAll parts) := by
  induction parts generalizing given buffered with
  | nil =>
      refine .inr ⟨buffered, rfl, ?_⟩
      rw [List.flatten_nil, List.append_nil]
      exact h
  | cons part parts ih =>
      rw [putAll, List.flatten_cons, ← List.append_assoc]
      rcases put_cases hchunk h part with
        ⟨failure, next, hput, hfailure, hstopped⟩ | ⟨next, hput, hfollows⟩
      · rw [hput]
        exact .inl ⟨failure, next, rfl, hfailure, hstopped.append parts.flatten⟩
      · rw [hput]
        exact ih hfollows

/-- At the end of a file the sink has accepted all that was given, or it refuses. -/
theorem flush_of_follows (h : Follows start given buffered) :
    (start.sink.room given.length < given.length → Refused start given buffered.flush) ∧
      (given.length ≤ start.sink.room given.length →
        buffered.flush = (start.sink.flush, start.passing given [])) := by
  obtain ⟨hrefused, haccepted⟩ := drain_of_follows hchunk h
  rw [flush]
  constructor
  · intro hlt
    obtain ⟨failure, next, hdrain, hfailure, hstopped⟩ := hrefused hlt
    rw [hdrain]
    exact ⟨failure, next, rfl, hfailure, hstopped⟩
  · intro hle
    rw [haccepted hle]
    rfl

end Put

end BufferedSink
end GifBitmap

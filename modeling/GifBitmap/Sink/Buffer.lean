import GifBitmap.Sink

/-!
# A buffer in front of a sink

Parts of a file that are smaller than a buffer wait in it until there are enough of them,
and are then offered to the sink together.  A part that would fill the buffer by itself goes
around it, behind the bytes that wait.  Whatever the sink accepts is counted.

When the sink refuses, the bytes that it has not accepted keep waiting.  They are offered
once more when the buffer is given up (`close`), and nobody hears of a failure then.
-/

namespace GifBitmap

/-- A sink behind a buffer. -/
structure BufferedSink where
  sink : Sink
  /-- The number of bytes that the sink has accepted from this buffer. -/
  count : Nat
  /-- The bytes that the sink has not accepted yet. -/
  waiting : Bytes
  /-- The number of bytes for which the buffer has space. -/
  capacity : Nat
  deriving Repr, DecidableEq

namespace BufferedSink

/-- The space of a buffer when none is chosen. -/
def standardCapacity : Nat := 8192

def ofSink (sink : Sink) : BufferedSink :=
  ⟨sink, 0, [], standardCapacity⟩

/-- The number of bytes that still find space in the buffer. -/
def space (buffered : BufferedSink) : Nat :=
  buffered.capacity - buffered.waiting.length

/-- Offers bytes to the sink once, and counts those that it accepts. -/
def offer (buffered : BufferedSink) (bytes : Bytes) : Except StreamError Nat × BufferedSink :=
  match buffered.sink.write bytes with
  | (.error failure, next) => (.error failure, { buffered with sink := next })
  | (.ok taken, next) =>
      (.ok taken, { buffered with sink := next, count := buffered.count + taken })

/-- Offers bytes to the sink until all of them are accepted, and gives those that were not.
`silence` is the failure when an offer is answered, but no byte of it accepted. -/
def pass (buffered : BufferedSink) (silence : StreamError) (bytes : Bytes) :
    Except StreamError Unit × Bytes × BufferedSink :=
  match bytes with
  | [] => (.ok (), [], buffered)
  | byte :: rest =>
      match buffered.offer (byte :: rest) with
      | (.error failure, next) => (.error failure, byte :: rest, next)
      | (.ok 0, next) => (.error silence, byte :: rest, next)
      | (.ok (taken + 1), next) => next.pass silence (rest.drop taken)
termination_by bytes.length
decreasing_by simp only [List.length_drop, List.length_cons]; omega

/-- Hands the waiting bytes to the sink; those that it does not accept keep waiting. -/
def drain (buffered : BufferedSink) : Except StreamError Unit × BufferedSink :=
  match buffered.pass .bufferNotAccepted buffered.waiting with
  | (result, left, next) => (result, { next with waiting := left })

/-- Takes one more part, when there is nothing to hand to the sink before it. -/
def store (buffered : BufferedSink) (part : Bytes) : Except StreamError Unit × BufferedSink :=
  if buffered.capacity ≤ part.length then
    match buffered.pass .nothingAccepted part with
    | (result, _, next) => (result, next)
  else
    (.ok (), { buffered with waiting := buffered.waiting ++ part })

def put (buffered : BufferedSink) (part : Bytes) : Except StreamError Unit × BufferedSink :=
  if part.length < buffered.space then
    (.ok (), { buffered with waiting := buffered.waiting ++ part })
  else if buffered.space < part.length then
    match buffered.drain with
    | (.error failure, next) => (.error failure, next)
    | (.ok (), next) => next.store part
  else
    buffered.store part

/-- Takes parts one after the other, as long as none fails. -/
def putAll (buffered : BufferedSink) : List Bytes → Except StreamError Unit × BufferedSink
  | [] => (.ok (), buffered)
  | part :: parts =>
      match buffered.put part with
      | (.error failure, next) => (.error failure, next)
      | (.ok (), next) => next.putAll parts

/-- Hands all that waits to the sink, and tells it that all was written. -/
def flush (buffered : BufferedSink) : Except StreamError Unit × BufferedSink :=
  match buffered.drain with
  | (.error failure, next) => (.error failure, next)
  | (.ok (), next) => (next.sink.flush, next)

/-- The sink after the buffer was given up: what waits is offered once more. -/
def close (buffered : BufferedSink) : Sink :=
  buffered.drain.2.sink

/-- What is handed over is passed to the sink, and what is left waits. -/
theorem drain_of_pass
    {buffered next : BufferedSink}
    {left : Bytes}
    {result : Except StreamError Unit}
    (h : buffered.pass .bufferNotAccepted buffered.waiting = (result, left, next)) :
    buffered.drain = (result, { next with waiting := left }) := by
  rw [drain, h]

end BufferedSink
end GifBitmap

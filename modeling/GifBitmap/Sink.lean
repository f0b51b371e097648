import GifBitmap.Error

/-!
# Sinks of bytes

A sink accepts bytes on request.  It may accept fewer bytes than offered, stop after
a number of bytes, and fail when it is told that the last byte was written; all of
that is part of its state.

Main fact:
* `accepted_of_write`: a request adds the front of what was offered, and says how much.
-/

namespace GifBitmap

/-- How a sink behaves. -/
structure Sink.Manner where
  /-- The greatest number of bytes accepted at once, if there is one. -/
  chunk : Option Nat
  /-- The number of bytes accepted in all, if there is a limit. -/
  limit : Option Nat
  /-- The failure beyond the limit; without one, no further byte is accepted. -/
  refusal : Option StreamError
  /-- The failure after the last byte, if there is one. -/
  flushFailure : Option StreamError
  deriving Repr, DecidableEq

/-- A sink in the midst of acceptance. -/
structure Sink where
  /-- The bytes accepted so far. -/
  accepted : Array UInt8
  manner : Sink.Manner
  deriving Repr, DecidableEq

namespace Sink

/-- The manner of a sink that accepts all that is offered. -/
def Manner.plain : Manner :=
  ⟨none, none, none, none⟩

def empty (manner : Manner) : Sink :=
  ⟨#[], manner⟩

def isFull (sink : Sink) : Bool :=
  match sink.manner.limit with
  | some limit => limit ≤ sink.accepted.size
  | none => false

/-- The front of some bytes that fits the chunk of a sink. -/
def Manner.withinChunk (manner : Manner) (bytes : Bytes) : Bytes :=
  match manner.chunk with
  | some chunk => bytes.take chunk
  | none => bytes

/-- The front of some bytes that fits below the limit. -/
def belowLimit (sink : Sink) (bytes : Bytes) : Bytes :=
  match sink.manner.limit with
  | some limit => bytes.take (limit - sink.accepted.size)
  | none => bytes

/-- The bytes that are accepted when some are offered. -/
def portion (sink : Sink) (bytes : Bytes) : Bytes :=
  sink.belowLimit (sink.manner.withinChunk bytes)

/-- Offers bytes once, and gives the number of those accepted. -/
def write (sink : Sink) (bytes : Bytes) : Except StreamError Nat × Sink :=
  match sink.isFull, sink.manner.refusal with
  | true, some failure => (.error failure, sink)
  | _, _ =>
      let taken := sink.portion bytes
      (.ok taken.length, { sink with accepted := sink.accepted ++ taken })

/-- Tells the sink that all was written. -/
def flush (sink : Sink) : Except StreamError Unit :=
  match sink.manner.flushFailure with
  | some failure => .error failure
  | none => .ok ()

theorem portion_isFront (sink : Sink) (bytes : Bytes) :
    sink.portion bytes <+: bytes := by
  unfold portion belowLimit Manner.withinChunk
  split <;> split
  · exact (List.take_prefix _ _).trans (List.take_prefix _ _)
  · exact List.take_prefix _ _
  · exact List.take_prefix _ _
  · exact List.prefix_refl _

/-- A request adds the front of what was offered, and says how much. -/
theorem accepted_of_write
    {sink next : Sink}
    {bytes : Bytes}
    {count : Nat}
    (h : sink.write bytes = (.ok count, next)) :
    next.accepted.toList = sink.accepted.toList ++ bytes.take count ∧
      count ≤ bytes.length ∧
      next.manner = sink.manner := by
  unfold write at h
  split at h
  · simp at h
  · simp only [Prod.mk.injEq, Except.ok.injEq] at h
    obtain ⟨rfl, rfl⟩ := h
    have hfront := sink.portion_isFront bytes
    refine ⟨?_, hfront.length_le, rfl⟩
    rw [Array.toList_appendList]
    exact congrArg _ (List.prefix_iff_eq_take.mp hfront)

end Sink
end GifBitmap

import GifBitmap.Error

/-!
# Sources of bytes

A source delivers the bytes of a file on request.  It may deliver fewer bytes than
asked for, refuse every other request, and fail once a number of bytes was
delivered; all of that is part of its state, so that a reader can be studied on
every kind of source.

`readExact` is how fields are read: it asks again until all bytes of the field are
there.

Main facts:
* `pending_of_read`: a request takes its answer from the front of the bytes not yet
  delivered;
* `readExact_ok`: a field that was read has the length asked for, and leaves exactly
  the bytes behind it.
-/

namespace GifBitmap

/-- How a source behaves apart from the bytes it holds. -/
structure Source.Manner where
  /-- The greatest number of bytes delivered at once, if there is one. -/
  chunk : Option Nat
  /-- Whether every other request, from the first on, is interrupted. -/
  interrupts : Bool
  /-- The position at which the source fails, and the failure. -/
  fault : Option (Nat × StreamError)
  deriving Repr, DecidableEq

/-- A source in the midst of delivery. -/
structure Source where
  /-- The bytes not yet delivered. -/
  pending : Bytes
  /-- The number of bytes delivered. -/
  delivered : Nat
  /-- Whether the next request is interrupted. -/
  interruptNext : Bool
  manner : Source.Manner
  deriving Repr, DecidableEq

namespace Source

/-- The manner of a source that delivers all that is asked for. -/
def Manner.plain : Manner :=
  ⟨none, false, none⟩

def ofBytes (bytes : Bytes) (manner : Manner) : Source :=
  ⟨bytes, 0, manner.interrupts, manner⟩

/-- The answer to one request. -/
inductive Reply
  /-- The request has to be made again. -/
  | interrupted
  | failed (failure : StreamError)
  /-- The bytes delivered: none at the end. -/
  | bytes (delivered : Bytes)
  deriving Repr, DecidableEq

/-- The failure that awaits any further request, if the source stands where it fails. -/
def fault? (source : Source) : Option StreamError :=
  match source.manner.fault with
  | some (position, failure) =>
      if position ≤ source.delivered then some failure else none
  | none => none

/-- A number of bytes asked for, cut down to the chunk of a source. -/
def Manner.withinChunk (manner : Manner) (count : Nat) : Nat :=
  match manner.chunk with
  | some chunk => min count chunk
  | none => count

/-- A number of bytes, cut down to what lies before the position of the fault. -/
def beforeFault (source : Source) (count : Nat) : Nat :=
  match source.manner.fault with
  | some (position, _) => min count (position - source.delivered)
  | none => count

/-- The greatest number of bytes that a request for `count` bytes delivers. -/
def allowance (source : Source) (count : Nat) : Nat :=
  source.beforeFault (source.manner.withinChunk count)

theorem Manner.withinChunk_le (manner : Manner) (count : Nat) :
    manner.withinChunk count ≤ count := by
  unfold withinChunk
  split
  · exact Nat.min_le_left _ _
  · exact Nat.le_refl _

theorem beforeFault_le (source : Source) (count : Nat) :
    source.beforeFault count ≤ count := by
  unfold beforeFault
  split
  · exact Nat.min_le_left _ _
  · exact Nat.le_refl _

theorem allowance_le (source : Source) (count : Nat) :
    source.allowance count ≤ count :=
  Nat.le_trans (source.beforeFault_le _) (source.manner.withinChunk_le count)

/-- Makes one request for at most `count` bytes. -/
def read (source : Source) (count : Nat) : Reply × Source :=
  if source.interruptNext then
    (.interrupted, { source with interruptNext := false })
  else
    let resting := { source with interruptNext := source.manner.interrupts }
    match source.fault? with
    | some failure => (.failed failure, resting)
    | none =>
        let taken := source.pending.take (source.allowance count)
        (.bytes taken,
          { resting with
            pending := source.pending.drop (source.allowance count)
            delivered := source.delivered + taken.length })

/-- The requests that may still be interrupted before the next one is answered. -/
def reluctance (source : Source) : Nat :=
  if source.interruptNext then 1 else 0

theorem reluctance_of_interrupted
    {source rest : Source}
    {count : Nat}
    (h : source.read count = (.interrupted, rest)) :
    rest.reluctance < source.reluctance := by
  unfold read at h
  split at h
  · simp only [Prod.mk.injEq, true_and] at h
    subst h
    simp_all [reluctance]
  · split at h <;> simp at h

/-- Reads exactly `count` bytes.  Bytes delivered before a failure are gone. -/
def readExact (source : Source) (count : Nat) : Except StreamError Bytes × Source :=
  if count = 0 then
    (.ok [], source)
  else
    match _hreply : source.read count with
    | (.interrupted, rest) => rest.readExact count
    | (.failed failure, rest) => (.error failure, rest)
    | (.bytes [], rest) => (.error .endOfSource, rest)
    | (.bytes (byte :: bytes), rest) =>
        match rest.readExact (count - (byte :: bytes).length) with
        | (.ok more, last) => (.ok (byte :: bytes ++ more), last)
        | (.error failure, last) => (.error failure, last)
termination_by (count, source.reluctance)
decreasing_by
  · exact Prod.Lex.right _ (reluctance_of_interrupted _hreply)
  · exact Prod.Lex.left _ _ (by simp only [List.length_cons]; omega)

/-- A request takes its answer from the front of the pending bytes. -/
theorem pending_of_read
    {source rest : Source}
    {count : Nat}
    {bytes : Bytes}
    (h : source.read count = (.bytes bytes, rest)) :
    source.pending = bytes ++ rest.pending ∧ bytes.length ≤ count := by
  unfold read at h
  split at h
  · simp at h
  · split at h
    · simp at h
    · simp only [Prod.mk.injEq, Reply.bytes.injEq] at h
      obtain ⟨rfl, rfl⟩ := h
      have hallow := source.allowance_le count
      refine ⟨by simp, ?_⟩
      simp only [List.length_take]
      omega

/-- A request that delivers nothing leaves the pending bytes alone. -/
theorem pending_of_read_ne
    {source rest : Source}
    {count : Nat}
    {reply : Reply}
    (h : source.read count = (reply, rest))
    (hreply : ∀ bytes, reply ≠ .bytes bytes) :
    rest.pending = source.pending := by
  unfold read at h
  split at h
  · simp only [Prod.mk.injEq] at h
    obtain ⟨-, rfl⟩ := h
    rfl
  · split at h
    · simp only [Prod.mk.injEq] at h
      obtain ⟨-, rfl⟩ := h
      rfl
    · simp only [Prod.mk.injEq] at h
      exact absurd h.1.symm (hreply _)

/-- A field that was read has the length asked for and stood at the front. -/
theorem readExact_ok
    {source rest : Source}
    {count : Nat}
    {bytes : Bytes}
    (h : source.readExact count = (.ok bytes, rest)) :
    bytes.length = count ∧ source.pending = bytes ++ rest.pending := by
  fun_induction readExact source count generalizing bytes rest with
  | case1 source =>
      simp only [Prod.mk.injEq, Except.ok.injEq] at h
      obtain ⟨rfl, rfl⟩ := h
      simp
  | case2 source count _ next hread ih =>
      obtain ⟨hlength, hpending⟩ := ih h
      exact ⟨hlength, pending_of_read_ne hread (by simp) ▸ hpending⟩
  | case3 => simp at h
  | case4 => simp at h
  | case5 source count hcount next byte front hread more last hmore ih =>
      simp only [Prod.mk.injEq, Except.ok.injEq] at h
      obtain ⟨rfl, rfl⟩ := h
      obtain ⟨hlength, hpending⟩ := ih hmore
      obtain ⟨hfront, hle⟩ := pending_of_read hread
      refine ⟨?_, ?_⟩
      · simp only [List.length_append, List.length_cons] at hlength hle ⊢
        omega
      · rw [hfront, hpending, List.append_assoc]
  | case6 => simp at h

end Source
end GifBitmap

import GifBitmap.Sink

/-!
# How much a sink accepts

How a sink cuts what it is offered into pieces has no influence on what it has
accepted in the end.  All that matters is the number of bytes up to the limit (`room`).

Main facts:
* `write_cases`: a sink whose chunk is not zero accepts some of what it is offered, as long as
  there is room;
* `room_accept`: accepted bytes take up room.
-/

namespace GifBitmap
namespace Sink

/-- The number of bytes up to the limit, cut off at a number that is asked about. -/
def room (sink : Sink) (most : Nat) : Nat :=
  match sink.manner.limit with
  | some limit => min most (limit - sink.accepted.size)
  | none => most

theorem room_le (sink : Sink) (most : Nat) : sink.room most ≤ most := by
  unfold room
  split
  · exact Nat.min_le_left _ _
  · exact Nat.le_refl _

/-- The sink after the acceptance of some bytes. -/
def accept (sink : Sink) (bytes : Bytes) : Sink :=
  { sink with accepted := sink.accepted ++ bytes }

/-- A request on a sink whose chunk is not zero is refused, or accepts a front part that is
not empty. -/
theorem write_cases
    (sink : Sink)
    {bytes : Bytes}
    (hbytes : bytes ≠ [])
    (hchunk : sink.manner.chunk ≠ some 0) :
    (sink.room bytes.length = 0 ∧
      ((∃ failure, sink.manner.refusal = some failure ∧
          sink.write bytes = (.error failure, sink)) ∨
        (sink.manner.refusal = none ∧ sink.write bytes = (.ok 0, sink)))) ∨
      ∃ taken, 0 < taken ∧ taken ≤ sink.room bytes.length ∧
        sink.write bytes = (.ok taken, sink.accept (bytes.take taken)) := by
  have hfront := sink.portion_isFront bytes
  have htake := List.prefix_iff_eq_take.mp hfront
  have haccept : { sink with accepted := sink.accepted ++ sink.portion bytes } =
      sink.accept (bytes.take (sink.portion bytes).length) := by
    rw [← htake]
    rfl
  cases hfull : sink.isFull with
  | true =>
      left
      unfold isFull at hfull
      split at hfull
      · rename_i limit hlimit
        have hnone : limit - sink.accepted.size = 0 := by
          have := of_decide_eq_true hfull
          omega
        refine ⟨by simp [room, hlimit, hnone], ?_⟩
        cases hrefusal : sink.manner.refusal with
        | some failure =>
            exact .inl ⟨failure, rfl, by simp [write, isFull, hlimit, hfull, hrefusal]⟩
        | none =>
            right
            refine ⟨rfl, ?_⟩
            have hportion : sink.portion bytes = [] := by
              simp [portion, belowLimit, hlimit, hnone]
            simp [write, hrefusal, hportion]
      · simp at hfull
  | false =>
      right
      have hwithin : 0 < (sink.manner.withinChunk bytes).length ∧
          (sink.manner.withinChunk bytes).length ≤ bytes.length := by
        have hlength := List.length_pos_iff.mpr hbytes
        unfold Manner.withinChunk
        split
        · rename_i chunk hsome
          have hne : chunk ≠ 0 := fun h => hchunk (h ▸ hsome)
          rw [List.length_take]
          omega
        · omega
      refine ⟨(sink.portion bytes).length, ?_, ?_, by simp only [write, hfull, haccept]⟩
      · unfold portion belowLimit
        unfold isFull at hfull
        split
        · rename_i limit hlimit
          have hbelow : sink.accepted.size < limit := by simpa [hlimit] using hfull
          rw [List.length_take]
          omega
        · exact hwithin.1
      · unfold portion belowLimit room
        cases hlimit : sink.manner.limit with
        | some limit =>
            simp only [List.length_take]
            omega
        | none => exact hwithin.2

/-- Accepted bytes take up room. -/
theorem room_accept
    (sink : Sink)
    (bytes : Bytes)
    {taken : Nat}
    (htaken : taken ≤ bytes.length) :
    (sink.accept (bytes.take taken)).room (bytes.drop taken).length =
      sink.room bytes.length - taken := by
  have hsize : (sink.accept (bytes.take taken)).accepted.size = sink.accepted.size + taken := by
    rw [accept, size_append_bytes, List.length_take, Nat.min_eq_left htaken]
  unfold room
  rw [hsize, List.length_drop]
  simp only [accept]
  split <;> omega

@[simp]
theorem accept_nil (sink : Sink) : sink.accept [] = sink :=
  rfl

@[simp]
theorem accept_accept (sink : Sink) (first second : Bytes) :
    (sink.accept first).accept second = sink.accept (first ++ second) := by
  simp only [accept, Sink.mk.injEq, and_true]
  apply Array.toList_inj.mp
  simp only [Array.toList_appendList, List.append_assoc]

theorem toList_accept_empty (manner : Manner) (bytes : Bytes) :
    ((empty manner).accept bytes).accepted.toList = bytes := by
  rw [accept, Array.toList_appendList]
  rfl

end Sink
end GifBitmap

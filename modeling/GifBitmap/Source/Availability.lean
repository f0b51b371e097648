import GifBitmap.Source

/-!
# What a source can still deliver

How a source cuts its bytes into pieces, and which requests it interrupts, has no
influence on what a reader of whole fields gets.  All that matters is the number of
bytes that lie before the end or the fault (`available`) and the failure that stands
behind them (`shortage`).

Main facts, for a source whose chunk is not zero:
* `readExact_of_le`: a field within the available bytes is read whole;
* `readExact_of_lt`: a longer field fails with the shortage, and all available bytes
  are gone.
-/

namespace GifBitmap
namespace Source

/-- The number of bytes that can still be delivered. -/
def available (source : Source) : Nat :=
  source.beforeFault source.pending.length

/-- The failure of a request that goes beyond what can be delivered. -/
def shortage (source : Source) : StreamError :=
  match source.manner.fault with
  | some (position, failure) =>
      if position ≤ source.delivered + source.pending.length then failure else .endOfSource
  | none => .endOfSource

/-- The source after the delivery of `count` more bytes, up to whether the next request
is interrupted. -/
def advance (source : Source) (count : Nat) (interruptNext : Bool) : Source :=
  { source with
    pending := source.pending.drop count
    delivered := source.delivered + count
    interruptNext }

@[simp]
theorem advance_advance
    (source : Source)
    (first second : Nat)
    (before after : Bool) :
    (source.advance first before).advance second after = source.advance (first + second) after := by
  simp [advance, Nat.add_assoc]

theorem available_le (source : Source) : source.available ≤ source.pending.length :=
  source.beforeFault_le _

theorem available_advance
    (source : Source)
    {count : Nat}
    (h : count ≤ source.available)
    (interruptNext : Bool) :
    (source.advance count interruptNext).available = source.available - count := by
  have hle := source.available_le
  unfold available beforeFault at *
  simp only [advance, List.length_drop]
  cases source.manner.fault with
  | none => simp at h ⊢
  | some fault => simp only at h ⊢; omega

theorem shortage_advance
    (source : Source)
    {count : Nat}
    (h : count ≤ source.pending.length)
    (interruptNext : Bool) :
    (source.advance count interruptNext).shortage = source.shortage := by
  unfold shortage
  simp only [advance, List.length_drop]
  have hsum : source.delivered + count + (source.pending.length - count) =
      source.delivered + source.pending.length := by
    omega
  rw [hsum]

/-- One request, if it is not interrupted, fails or delivers a front part of the available
bytes that is empty only if nothing is available. -/
theorem read_cases
    (source : Source)
    {count : Nat}
    (hcount : 0 < count)
    (hchunk : source.manner.chunk ≠ some 0) :
    (source.read count = (.interrupted, source.advance 0 false)) ∨
      (source.available = 0 ∧
        (source.read count = (.failed source.shortage, source.advance 0 source.manner.interrupts) ∨
          (source.shortage = .endOfSource ∧
            source.read count = (.bytes [], source.advance 0 source.manner.interrupts)))) ∨
      ∃ taken, 0 < taken ∧ taken ≤ count ∧ taken ≤ source.available ∧
        source.read count =
          (.bytes (source.pending.take taken), source.advance taken source.manner.interrupts) := by
  cases hnext : source.interruptNext with
  | true =>
      left
      simp [read, hnext, advance]
  | false =>
      right
      cases hfault : source.fault? with
      | some failure =>
          left
          have hread : source.read count =
              (.failed failure, source.advance 0 source.manner.interrupts) := by
            simp [read, hnext, hfault, advance]
          unfold fault? at hfault
          split at hfault
          · rename_i position found hmanner
            split at hfault
            · simp only [Option.some.injEq] at hfault
              subst hfault
              have havailable : source.available = 0 := by
                simp only [available, beforeFault, hmanner]
                omega
              have hshortage : source.shortage = found := by
                simp only [shortage, hmanner]
                rw [if_pos (by omega)]
              rw [hshortage]
              exact ⟨havailable, .inl hread⟩
            · simp at hfault
          · simp at hfault
      | none =>
          have hread : source.read count =
              (.bytes (source.pending.take (source.allowance count)),
                source.advance (min (source.allowance count) source.pending.length)
                  source.manner.interrupts) := by
            simp only [read, hnext, hfault, advance, List.length_take]
            simp only [Bool.false_eq_true, if_false, Prod.mk.injEq, true_and]
            congr 1
            rw [List.drop_eq_drop_iff]
            omega
          have hallowance : 0 < source.allowance count ∧
              (source.manner.fault = none ∨
                ∃ position failure, source.manner.fault = some (position, failure) ∧
                  source.delivered < position ∧
                  source.allowance count ≤ position - source.delivered) := by
            have hwithin : 0 < source.manner.withinChunk count := by
              unfold Manner.withinChunk
              split
              · rename_i chunk hsome
                have : chunk ≠ 0 := fun h => hchunk (h ▸ hsome)
                omega
              · exact hcount
            unfold fault? at hfault
            unfold allowance beforeFault
            cases hmanner : source.manner.fault with
            | none => simpa [hmanner] using hwithin
            | some fault =>
                obtain ⟨position, failure⟩ := fault
                simp only [hmanner] at hfault ⊢
                split at hfault
                · simp at hfault
                · refine ⟨by omega, .inr ⟨position, failure, rfl, by omega, ?_⟩⟩
                  exact Nat.min_le_right _ _
          obtain ⟨hpositive, hmanner⟩ := hallowance
          have hcount := source.allowance_le count
          by_cases hempty : source.pending = []
          · left
            have havailable := source.available_le
            rw [hempty] at hread havailable
            refine ⟨Nat.le_zero.mp havailable, .inr ⟨?_, by simpa using hread⟩⟩
            rcases hmanner with hnone | ⟨position, failure, hsome, hbefore, -⟩
            · simp [shortage, hnone]
            · simp only [shortage, hsome, hempty, List.length_nil]
              exact if_neg (by omega)
          · right
            have hlength := List.length_pos_iff.mpr hempty
            refine ⟨min (source.allowance count) source.pending.length,
              by omega, by omega, ?_, by rw [hread, ← List.take_eq_take_min]⟩
            unfold available beforeFault
            rcases hmanner with hnone | ⟨position, failure, hsome, -, hbefore⟩
            · simp only [hnone]
              omega
            · simp only [hsome]
              omega

/-- An interrupted request is made again. -/
theorem readExact_of_interrupted
    {source rest : Source}
    {count : Nat}
    (hcount : 0 < count)
    (hread : source.read count = (.interrupted, rest)) :
    source.readExact count = rest.readExact count := by
  rw [readExact, if_neg (Nat.ne_of_gt hcount)]
  split <;> simp_all

/-- A failed request ends the reading. -/
theorem readExact_of_failed
    {source rest : Source}
    {count : Nat}
    {failure : StreamError}
    (hcount : 0 < count)
    (hread : source.read count = (.failed failure, rest)) :
    source.readExact count = (.error failure, rest) := by
  rw [readExact, if_neg (Nat.ne_of_gt hcount)]
  split <;> simp_all

/-- A request that delivers nothing has met the end. -/
theorem readExact_of_end
    {source rest : Source}
    {count : Nat}
    (hcount : 0 < count)
    (hread : source.read count = (.bytes [], rest)) :
    source.readExact count = (.error .endOfSource, rest) := by
  rw [readExact, if_neg (Nat.ne_of_gt hcount)]
  split <;> simp_all

/-- After a part of a field the rest of it is read. -/
theorem readExact_of_part
    {source rest : Source}
    {count : Nat}
    {part : Bytes}
    (hcount : 0 < count)
    (hpart : part ≠ [])
    (hread : source.read count = (.bytes part, rest)) :
    source.readExact count =
      match rest.readExact (count - part.length) with
      | (.ok more, last) => (.ok (part ++ more), last)
      | (.error failure, last) => (.error failure, last) := by
  rw [readExact, if_neg (Nat.ne_of_gt hcount)]
  split
  · simp_all
  · simp_all
  · simp_all
  · rename_i heq
    rw [hread] at heq
    simp only [Prod.mk.injEq, Reply.bytes.injEq] at heq
    obtain ⟨rfl, rfl⟩ := heq
    rfl

/-- A field that lies within the available bytes is read whole. -/
theorem readExact_of_le
    (source : Source)
    (count : Nat)
    (hchunk : source.manner.chunk ≠ some 0)
    (h : count ≤ source.available) :
    ∃ interruptNext,
      source.readExact count =
        (.ok (source.pending.take count), source.advance count interruptNext) := by
  by_cases hzero : count = 0
  · subst hzero
    rw [readExact]
    exact ⟨source.interruptNext, by simp [advance]⟩
  · have hcount := Nat.pos_of_ne_zero hzero
    rcases source.read_cases hcount hchunk with
      hread | ⟨hnone, -⟩ | ⟨taken, hpositive, htaken, havailable, hread⟩
    · obtain ⟨interruptNext, hrest⟩ :=
        readExact_of_le (source.advance 0 false) count hchunk
          (by rw [source.available_advance (Nat.zero_le _)]; exact h)
      refine ⟨interruptNext, ?_⟩
      rw [readExact_of_interrupted hcount hread, hrest, advance_advance, Nat.zero_add]
      rfl
    · omega
    · obtain ⟨interruptNext, hrest⟩ :=
        readExact_of_le (source.advance taken source.manner.interrupts) (count - taken) hchunk
          (by rw [source.available_advance havailable]; omega)
      have hlength : (source.pending.take taken).length = taken := by
        have := source.available_le
        rw [List.length_take]
        omega
      refine ⟨interruptNext, ?_⟩
      rw [readExact_of_part hcount (List.ne_nil_of_length_pos (by omega)) hread, hlength, hrest,
        advance_advance, Nat.add_sub_cancel' htaken]
      simp only [advance, Prod.mk.injEq, Except.ok.injEq, and_true]
      rw [← List.take_add, Nat.add_sub_cancel' htaken]
termination_by (count, source.reluctance)
decreasing_by
  · exact Prod.Lex.right _ (reluctance_of_interrupted hread)
  · exact Prod.Lex.left _ _ (by omega)

/-- A field that goes beyond the available bytes fails, and those bytes are gone. -/
theorem readExact_of_lt
    (source : Source)
    (count : Nat)
    (hchunk : source.manner.chunk ≠ some 0)
    (h : source.available < count) :
    ∃ interruptNext,
      source.readExact count =
        (.error source.shortage, source.advance source.available interruptNext) := by
  have hcount : 0 < count := by omega
  rcases source.read_cases hcount hchunk with
    hread | ⟨hnone, hread | ⟨hshortage, hread⟩⟩ | ⟨taken, hpositive, htaken, havailable, hread⟩
  · have hsame := source.available_advance (Nat.zero_le _) false
    obtain ⟨interruptNext, hrest⟩ :=
      readExact_of_lt (source.advance 0 false) count hchunk (by rw [hsame]; exact h)
    refine ⟨interruptNext, ?_⟩
    rw [readExact_of_interrupted hcount hread, hrest, advance_advance, hsame,
      source.shortage_advance (Nat.zero_le _), Nat.zero_add, Nat.sub_zero]
  · exact ⟨_, by rw [readExact_of_failed hcount hread, hnone]⟩
  · exact ⟨_, by rw [readExact_of_end hcount hread, hshortage, hnone]⟩
  · have hbound := source.available_le
    have hless := source.available_advance havailable source.manner.interrupts
    have hlength : (source.pending.take taken).length = taken := by
      rw [List.length_take]
      omega
    obtain ⟨interruptNext, hrest⟩ :=
      readExact_of_lt (source.advance taken source.manner.interrupts) (count - taken) hchunk
        (by rw [hless]; omega)
    refine ⟨interruptNext, ?_⟩
    rw [readExact_of_part hcount (List.ne_nil_of_length_pos (by omega)) hread, hlength, hrest,
      advance_advance, hless, source.shortage_advance (by omega), Nat.add_sub_cancel' havailable]
termination_by (count, source.reluctance)
decreasing_by
  · exact Prod.Lex.right _ (reluctance_of_interrupted hread)
  · exact Prod.Lex.left _ _ (by omega)

end Source
end GifBitmap

import GifBitmap.Proofs.Lzw.FailedCode
import GifBitmap.Proofs.Lzw.IndexOrigin

/-!
# No bit is lost

A code reader keeps the bits that wait as a number and a count.  Bytes are put above the bits
that are there, and codes are cut off below them with a width that may be another one each time.
`BitBuffer.stages` are the buffers that one code goes through, and `BitBuffer.unpackAll` serves any
sequence of requests, each with a width and with bytes that have come in since the last one.

All bits are accounted for: those that waited and those of all bytes are, in this order, those of
the codes, those that wait, and those of the bytes that are left.

Main facts:
* `BitBuffer.unpack_eq_of_stages`: the bytes that move in, and the code that is cut off;
* `BitBuffer.size_le_of_mem_stages`: how many bits there are at most;
* `BitBuffer.bits_unpackAll`: the bits of any requests;
* `Decompressor.unpackAll_takenCodes`: decompression makes such requests;
* `Decompressor.bits_conserved`: what holds in all states that input leads to.
-/

namespace GifBitmap
namespace Lzw

namespace BitBuffer

variable {buffer rest : BitBuffer} {width : Width} {bytes left : Bytes} {found : Option Nat}

/-- The buffers that unpacking a code goes through: the one at the start, and another one behind
each byte that moves in. -/
def stages (buffer : BitBuffer) (width : Width) : Bytes → List BitBuffer
  | [] => [buffer]
  | byte :: bytes =>
      if width.bits ≤ buffer.size then
        [buffer]
      else
        buffer :: (buffer.push byte).stages width bytes

/-- The code is cut off the last stage, if that holds enough bits, and the bytes behind those that
moved in are left. -/
theorem unpack_eq_of_stages (buffer : BitBuffer) (width : Width) (bytes : Bytes) :
    ∃ front filled,
      buffer.stages width bytes = front ++ [filled] ∧
        buffer.unpack width bytes =
          if width.bits ≤ filled.size then
            (some (filled.front width.bits), filled.drop width.bits, bytes.drop front.length)
          else
            (none, filled, bytes.drop front.length) := by
  induction bytes generalizing buffer with
  | nil =>
      refine ⟨[], buffer, rfl, ?_⟩
      rw [unpack]
      rfl
  | cons byte bytes ih =>
      by_cases hready : width.bits ≤ buffer.size
      · refine ⟨[], buffer, by rw [stages, if_pos hready]; rfl, ?_⟩
        rw [unpack, if_pos hready, if_pos hready]
        rfl
      · obtain ⟨front, filled, hstages, hunpack⟩ := ih (buffer.push byte)
        refine ⟨buffer :: front, filled, ?_, ?_⟩
        · rw [stages, if_neg hready, hstages]
          rfl
        · rw [unpack, if_neg hready, hunpack]
          rfl

/-- No stage has a stray bit. -/
theorem Clean.of_mem_stages
    (h : buffer.Clean)
    {held : BitBuffer}
    (hheld : held ∈ buffer.stages width bytes) :
    held.Clean := by
  induction bytes generalizing buffer with
  | nil =>
      obtain rfl := List.mem_singleton.mp hheld
      exact h
  | cons byte bytes ih =>
      unfold stages at hheld
      split at hheld
      · obtain rfl := List.mem_singleton.mp hheld
        exact h
      · rcases List.mem_cons.mp hheld with rfl | hlater
        · exact h
        · exact ih (h.push byte) hlater

/-- A byte only moves in while less than a code is there, so there are never more bits than
eleven and those of one byte. -/
theorem size_le_of_mem_stages
    (h : buffer.size ≤ 19)
    {held : BitBuffer}
    (hheld : held ∈ buffer.stages width bytes) :
    held.size ≤ 19 := by
  induction bytes generalizing buffer with
  | nil =>
      obtain rfl := List.mem_singleton.mp hheld
      exact h
  | cons byte bytes ih =>
      unfold stages at hheld
      split at hheld
      · obtain rfl := List.mem_singleton.mp hheld
        exact h
      · rename_i hshort
        rcases List.mem_cons.mp hheld with rfl | hlater
        · exact h
        · have hmax : width.bits ≤ 12 := width.le_max
          exact ih (by rw [size_push]; omega) hlater

/-- A code is found exactly when the bits that wait and those of the bytes are enough. -/
theorem ne_none_iff_of_unpack
    (h : buffer.unpack width bytes = (found, rest, left)) :
    found ≠ none ↔ width.bits ≤ buffer.size + 8 * bytes.length := by
  cases found with
  | none =>
      obtain ⟨-, hsize, hshort⟩ := unpack_none h
      simp only [ne_eq, not_true_eq_false, false_iff]
      omega
  | some code =>
      obtain ⟨hsize, -⟩ := unpack_some_size h
      simp only [ne_eq, reduceCtorEq, not_false_eq_true, true_iff]
      omega

/-- The bytes that are left stand behind those that moved in. -/
theorem exists_append_of_unpack
    (h : buffer.unpack width bytes = (found, rest, left)) :
    ∃ taken, bytes = taken ++ left := by
  cases found with
  | none =>
      obtain ⟨rfl, -, -⟩ := unpack_none h
      exact ⟨bytes, (List.append_nil bytes).symm⟩
  | some code =>
      obtain ⟨taken, hbytes, -⟩ := exists_taken h
      exact ⟨taken, hbytes⟩

/-- The bits of codes, each as wide as it was asked for. -/
def bitsOfCodes (codes : List (Width × Nat)) : BitString :=
  codes.flatMap fun (width, code) => lowBits width.bits code

/-- The bits of a code that may not have been found, those that wait behind it, and those of the
bytes that are left are all that there were. -/
theorem bits_unpack
    (hclean : buffer.Clean)
    (h : buffer.unpack width bytes = (found, rest, left)) :
    buffer.bits ++ bitsOf bytes =
      bitsOfCodes (found.toList.map fun code => (width, code)) ++ (rest.bits ++ bitsOf left) := by
  cases found with
  | none =>
      obtain ⟨rfl, -, -⟩ := unpack_none h
      rw [(unpack_none_bits hclean h).1, bitsOf_nil, List.append_nil]
      rfl
  | some code =>
      rw [(unpack_some_bits hclean h).2, bitsOfCodes, Option.toList_some, List.map_singleton,
        List.flatMap_singleton]

/-- Serves requests one after the other.  Each has a width and bytes that come in with it; they
stand behind the bytes that the request before has left.  Gives the codes that were found, and the
bits and bytes that are left. -/
def unpackAll (buffer : BitBuffer) (left : Bytes) :
    List (Width × Bytes) → List (Width × Nat) × BitBuffer × Bytes
  | [] => ([], buffer, left)
  | (width, bytes) :: requests =>
      let (found, rest, behind) := buffer.unpack width (left ++ bytes)
      let (codes, last) := rest.unpackAll behind requests
      ((found.toList.map fun code => (width, code)) ++ codes, last)

theorem unpackAll_cons
    {behind : Bytes}
    (h : buffer.unpack width (left ++ bytes) = (found, rest, behind))
    (requests : List (Width × Bytes)) :
    buffer.unpackAll left ((width, bytes) :: requests) =
      ((found.toList.map fun code => (width, code)) ++ (rest.unpackAll behind requests).1,
        (rest.unpackAll behind requests).2) := by
  rw [unpackAll, h]

/-- A request without further bytes is served from those that are left. -/
theorem unpackAll_cons_nil
    (h : buffer.unpack width bytes = (found, rest, left))
    (requests : List (Width × Bytes)) :
    buffer.unpackAll bytes ((width, []) :: requests) =
      ((found.toList.map fun code => (width, code)) ++ (rest.unpackAll left requests).1,
        (rest.unpackAll left requests).2) :=
  unpackAll_cons (by rw [List.append_nil, h]) requests

/-- Whatever is asked for, no bit is lost, and all bits stay in order. -/
theorem bits_unpackAll
    (h : buffer.Clean)
    (left : Bytes)
    (requests : List (Width × Bytes)) :
    let served := buffer.unpackAll left requests
    buffer.bits ++ bitsOf (left ++ requests.flatMap Prod.snd) =
      bitsOfCodes served.1 ++ (served.2.1.bits ++ bitsOf served.2.2) := by
  induction requests generalizing buffer left with
  | nil =>
      simp only [List.flatMap_nil, List.append_nil, unpackAll]
      rfl
  | cons request requests ih =>
      obtain ⟨width, bytes⟩ := request
      obtain ⟨found, rest, behind, hunpack⟩ : ∃ found rest behind,
          buffer.unpack width (left ++ bytes) = (found, rest, behind) :=
        ⟨_, _, _, rfl⟩
      have hfirst := bits_unpack h hunpack
      have hrest := ih (h.unpack hunpack) behind
      simp only at hrest
      rw [unpackAll_cons hunpack]
      dsimp only
      calc buffer.bits ++ bitsOf (left ++ ((width, bytes) :: requests).flatMap Prod.snd)
          _ = buffer.bits ++ bitsOf (left ++ bytes) ++ bitsOf (requests.flatMap Prod.snd) := by
            simp only [List.flatMap_cons, bitsOf_append, List.append_assoc]
          _ = bitsOfCodes (found.toList.map fun code => (width, code)) ++
                (rest.bits ++ bitsOf (behind ++ requests.flatMap Prod.snd)) := by
            rw [hfirst]
            simp only [bitsOf_append, List.append_assoc]
          _ = _ := by
            rw [hrest, bitsOfCodes, bitsOfCodes, bitsOfCodes, List.flatMap_append,
              List.append_assoc]

end BitBuffer

namespace Decompressor

/-- A piece of input is decompressed by such requests, one for each code, with the width of the
state before it.  The codes that were taken are found by them, and at most one behind those,
which failed. -/
theorem unpackAll_takenCodes
    (decompressor : Decompressor)
    (bytes : Bytes)
    (buffer : Array UInt8) :
    let outcome := decompressor.decompress bytes buffer
    ∃ (widths : List Width) (codes : List (Width × Nat)) (left : Bytes),
      decompressor.pending.unpackAll bytes (widths.map fun width => (width, [])) =
          (codes, outcome.decompressor.pending, left) ∧
        (∃ failed,
          codes.map Prod.snd =
              (decompressor.takenCodes bytes).map TakenCode.code ++ failed ∧
            failed.length = if outcome.failure = none then 0 else 1) ∧
        (left = [] ∨ outcome.failure ≠ none ∨ outcome.decompressor.isDone = true) := by
  fun_induction Decompressor.decompress decompressor bytes buffer with
  | case1 decompressor bytes buffer hdone =>
      refine ⟨[], [], bytes, rfl, ⟨[], ?_, rfl⟩, .inr (.inr hdone)⟩
      rw [takenCodes_of_isDone hdone]
      rfl
  | case2 decompressor bytes buffer hdone pending left hunpack =>
      have hleft : left = [] := (BitBuffer.unpack_none hunpack).1
      refine ⟨[decompressor.expander.width], [], left, ?_, ⟨[], ?_, rfl⟩, .inl hleft⟩
      · rw [List.map_singleton, BitBuffer.unpackAll_cons_nil hunpack]
        rfl
      · rw [takenCodes_of_none hdone hunpack]
        rfl
  | case3 decompressor bytes buffer hdone code pending left hunpack cause hstep =>
      refine ⟨[decompressor.expander.width], [(decompressor.expander.width, code)], left, ?_,
        ⟨[code], ?_, rfl⟩, .inr (.inl (Option.some_ne_none cause))⟩
      · rw [List.map_singleton, BitBuffer.unpackAll_cons_nil hunpack]
        rfl
      · rw [takenCodes_of_error hdone hunpack hstep]
        rfl
  | case4 decompressor bytes buffer hdone code pending left hunpack expander indices hstep ih =>
      obtain ⟨widths, codes, behind, hserved, ⟨failed, hcodes, hfailed⟩, hend⟩ := ih
      refine ⟨decompressor.expander.width :: widths, (decompressor.expander.width, code) :: codes,
        behind, ?_, ⟨failed, ?_, hfailed⟩, hend⟩
      · rw [List.map_cons, BitBuffer.unpackAll_cons_nil hunpack, hserved]
        rfl
      · rw [takenCodes_of_ok hdone hunpack hstep, List.map_cons, hcodes]
        rfl

/-- In all states that input leads to, less than a code of the greatest width waits, with no
stray bit, and there are never more than nineteen bits while bytes move in.  A code is found
exactly when the bits that wait and those of the bytes are enough; then these bits are those of
the code, those that wait behind it and those of the bytes that are left.  Without a code all
bytes move in behind the bits that wait.  So any requests, and those of decompression among
them, keep all bits in order. -/
theorem bits_conserved
    {size : CodeSize}
    {decompressor : Decompressor}
    (h : Reachable size decompressor) :
    let pending := decompressor.pending
    (pending.value < 2 ^ pending.size ∧ pending.size < 12) ∧
      (∀ width bytes, ∀ held ∈ pending.stages width bytes,
        held.value < 2 ^ held.size ∧ held.size ≤ 19) ∧
      (∀ (width : Width) bytes found rest left,
        pending.unpack width bytes = (found, rest, left) →
          rest.value < 2 ^ rest.size ∧
            (found ≠ none ↔ width.bits ≤ pending.size + 8 * bytes.length) ∧
            (∃ taken, bytes = taken ++ left) ∧
            (∀ code, found = some code →
              code < 2 ^ width.bits ∧
                pending.bits ++ bitsOf bytes =
                  lowBits width.bits code ++ (rest.bits ++ bitsOf left)) ∧
            (found = none →
              left = [] ∧ rest.bits = pending.bits ++ bitsOf bytes ∧ rest.size < 12)) ∧
      (∀ left requests codes rest behind,
        pending.unpackAll left requests = (codes, rest, behind) →
          pending.bits ++ bitsOf (left ++ requests.flatMap Prod.snd) =
            BitBuffer.bitsOfCodes codes ++ (rest.bits ++ bitsOf behind)) ∧
      ∀ bytes buffer,
        let outcome := decompressor.decompress bytes buffer
        ∃ codes left,
          pending.bits ++ bitsOf bytes =
              BitBuffer.bitsOfCodes codes ++ (outcome.decompressor.pending.bits ++ bitsOf left) ∧
            (∃ failed,
              codes.map Prod.snd =
                  (decompressor.takenCodes bytes).map TakenCode.code ++ failed ∧
                failed.length = if outcome.failure = none then 0 else 1) ∧
            (left = [] ∨ outcome.failure ≠ none ∨ outcome.decompressor.isDone = true) := by
  intro pending
  obtain ⟨hsound, -⟩ := h.sound
  have hclean : pending.Clean := hsound.clean
  have hshort : pending.size < 12 := hsound.size_lt
  have hserved (left : Bytes) (requests : List (Width × Bytes)) :=
    BitBuffer.bits_unpackAll hclean left requests
  refine ⟨⟨hclean, hshort⟩, ?_, ?_, ?_, ?_⟩
  · intro width bytes held hheld
    exact ⟨hclean.of_mem_stages hheld, BitBuffer.size_le_of_mem_stages (by omega) hheld⟩
  · intro width bytes found rest left hunpack
    refine ⟨hclean.unpack hunpack, BitBuffer.ne_none_iff_of_unpack hunpack,
      BitBuffer.exists_append_of_unpack hunpack, ?_, ?_⟩
    · rintro code rfl
      exact BitBuffer.unpack_some_bits hclean hunpack
    · rintro rfl
      obtain ⟨hleft, -, hfew⟩ := BitBuffer.unpack_none hunpack
      exact ⟨hleft, (BitBuffer.unpack_none_bits hclean hunpack).1,
        Nat.lt_of_lt_of_le hfew width.le_max⟩
  · intro left requests codes rest behind hrequests
    have hbits := hserved left requests
    rw [hrequests] at hbits
    exact hbits
  · intro bytes buffer outcome
    obtain ⟨widths, codes, left, hwidths, hcodes, hend⟩ :=
      decompressor.unpackAll_takenCodes bytes buffer
    have hbits := hserved bytes (widths.map fun width => (width, []))
    have hnothing : (widths.map fun width => (width, ([] : Bytes))).flatMap Prod.snd = [] := by
      simp
    rw [hwidths, hnothing, List.append_nil] at hbits
    exact ⟨codes, left, hbits, hcodes, hend⟩

/-- Two bits that wait behind a code that failed, a code that needs one byte of two, and a width
that a byte is too few for. -/
theorem bits_conserved_behind_failure :
    let outcome := (initial ⟨2, by decide, by decide⟩).decompress [0xFC, 0xA0] #[]
    let pending := outcome.decompressor.pending
    outcome.failure = some (.undefinedCode 7 6) ∧
      pending = ⟨3, 2⟩ ∧
      pending.unpack ⟨5, by decide, by decide⟩ [0x62, 0x51] = (some 11, ⟨12, 5⟩, [0x51]) ∧
      pending.bits ++ bitsOf [0x62, 0x51] =
        lowBits 5 11 ++ ((⟨12, 5⟩ : BitBuffer).bits ++ bitsOf [0x51]) ∧
      pending.unpack ⟨12, by decide, by decide⟩ [0x62] = (none, ⟨395, 10⟩, []) ∧
      (⟨395, 10⟩ : BitBuffer).bits = pending.bits ++ bitsOf [0x62] := by
  intro outcome pending
  have hfailure : outcome.failure = some (.undefinedCode 7 6) := by
    unfold outcome
    cbv
  have hpending : pending = ⟨3, 2⟩ := by
    unfold pending outcome
    cbv
  have hsome : pending.unpack ⟨5, by decide, by decide⟩ [0x62, 0x51] =
      (some 11, ⟨12, 5⟩, [0x51]) := by
    rw [hpending]
    decide
  have hnone : pending.unpack ⟨12, by decide, by decide⟩ [0x62] = (none, ⟨395, 10⟩, []) := by
    rw [hpending]
    decide
  obtain ⟨-, -, hunpack, -⟩ := bits_conserved (.decompress .initial [0xFC, 0xA0] #[])
  obtain ⟨-, -, -, hcode, -⟩ := hunpack _ _ _ _ _ hsome
  obtain ⟨-, -, -, -, hwaits⟩ := hunpack _ _ _ _ _ hnone
  exact ⟨hfailure, hpending, hsome, (hcode 11 rfl).2, hnone, (hwaits rfl).2.1⟩

end Decompressor
end Lzw
end GifBitmap

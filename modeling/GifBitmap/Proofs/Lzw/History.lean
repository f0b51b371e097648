import GifBitmap.Lzw.Decompressor

/-!
# Input in pieces

A decompressor is given its input piece by piece, and a caller may go on after a piece
that failed and behind the end code.  `Reachable` collects the states that come about in
this way.

Where the input is cut makes no difference, from any state on.  A code may lie on both
sides of a cut, and bits of several codes may be pending there.

Main facts:
* `decompressAll_cons`: pieces that are decompressed one by one have the effect of the
  whole;
* `decompress_chunks`: the same with the two parts of a cut in detail.
-/

namespace GifBitmap
namespace Lzw
namespace Decompressor

/-- The states to which input leads: those behind pieces of input, failed ones and pieces
behind the end code among them, and those between two codes of a piece. -/
inductive Reachable (size : CodeSize) : Decompressor → Prop
  /-- Nothing was given yet. -/
  | initial : Reachable size (.initial size)
  /-- One more code of a piece was taken. -/
  | code
      {decompressor : Decompressor}
      (h : Reachable size decompressor)
      (hopen : decompressor.isDone = false)
      {bytes left : Bytes}
      {code : Nat}
      {pending : BitBuffer}
      {expander : Expander}
      {indices : List UInt8}
      (hunpack : decompressor.pending.unpack decompressor.expander.width bytes =
        (some code, pending, left))
      (hstep : decompressor.expander.step code = .ok (expander, indices)) :
      Reachable size ⟨expander, pending⟩
  /-- One more piece was given, with any buffer for its indices. -/
  | decompress
      {decompressor : Decompressor}
      (h : Reachable size decompressor)
      (bytes : Bytes)
      (buffer : Array UInt8) :
      Reachable size (decompressor.decompress bytes buffer).decompressor

/-- Decompression only adds indices to the buffer. -/
theorem exists_buffer_eq
    (decompressor : Decompressor)
    (bytes : Bytes)
    (buffer : Array UInt8) :
    ∃ indices : List UInt8,
      (decompressor.decompress bytes buffer).buffer = buffer ++ indices := by
  fun_induction decompress decompressor bytes buffer with
  | case1 => exact ⟨[], rfl⟩
  | case2 => exact ⟨[], rfl⟩
  | case3 => exact ⟨[], rfl⟩
  | case4 decompressor bytes buffer hdone code pending rest hcode expander indices hstep ih =>
      obtain ⟨more, hmore⟩ := ih
      refine ⟨indices ++ more, hmore.trans ?_⟩
      apply Array.ext'
      simp only [Array.toList_appendList, List.append_assoc]

/-- Decompresses pieces of input one after the other, up to the first one that fails. -/
def decompressAll
    (decompressor : Decompressor)
    (chunks : List Bytes)
    (buffer : Array UInt8) :
    Outcome :=
  match chunks with
  | [] => ⟨none, decompressor, buffer⟩
  | chunk :: chunks =>
      let outcome := decompressor.decompress chunk buffer
      match outcome.failure with
      | some _ => outcome
      | none => outcome.decompressor.decompressAll chunks outcome.buffer

/-- Pieces of input, at least one of them, have the effect of the whole. -/
theorem decompressAll_cons
    (decompressor : Decompressor)
    (chunk : Bytes)
    (chunks : List Bytes)
    (buffer : Array UInt8) :
    decompressor.decompressAll (chunk :: chunks) buffer =
      decompressor.decompress (chunk ++ chunks.flatten) buffer := by
  induction chunks generalizing decompressor chunk buffer with
  | nil =>
      rw [List.flatten_nil, List.append_nil, decompressAll]
      obtain ⟨failure, following, longer⟩ := decompressor.decompress chunk buffer
      cases failure <;> rfl
  | cons next chunks ih =>
      rw [decompressAll, decompress_append]
      obtain ⟨failure, following, longer⟩ := decompressor.decompress chunk buffer
      cases failure with
      | some cause => rfl
      | none => exact ih following next longer

/-- From any state on, a cut makes no difference: behind a first part without a failure the
second part goes on as if there were no cut, and a first part that fails decides alone.  So
pieces of any lengths, empty ones among them, have the effect of the whole. -/
theorem decompress_chunks (decompressor : Decompressor) (buffer : Array UInt8) :
    (∀ first second,
      let outcome := decompressor.decompress first buffer
      (outcome.failure = none →
        decompressor.decompress (first ++ second) buffer =
          outcome.decompressor.decompress second outcome.buffer) ∧
        ∀ cause, outcome.failure = some cause →
          decompressor.decompress (first ++ second) buffer = outcome) ∧
      ∀ chunks, chunks ≠ [] →
        decompressor.decompressAll chunks buffer =
          decompressor.decompress chunks.flatten buffer := by
  constructor
  · intro first second outcome
    have happend :
        decompressor.decompress (first ++ second) buffer =
          match outcome.failure with
          | some _ => outcome
          | none => outcome.decompressor.decompress second outcome.buffer :=
      decompressor.decompress_append first second buffer
    constructor
    · intro hnone
      rw [happend, hnone]
    · intro cause hsome
      rw [happend, hsome]
  · intro chunks hchunks
    cases chunks with
    | nil => exact absurd rfl hchunks
    | cons chunk chunks => exact decompressor.decompressAll_cons chunk chunks buffer

/-- A code that lies on both sides of a cut, and a code that fails with bytes behind it. -/
theorem decompress_chunks_of_cut_code :
    let start := initial ⟨2, by decide, by decide⟩
    (start.decompress [0x0C] #[]).failure = none ∧
      start.decompress [0x0C, 0x62, 0x51] #[] =
        (start.decompress [0x0C] #[]).decompressor.decompress [0x62, 0x51] #[1] ∧
      (start.decompress [0x07] #[]).failure = some (.undefinedCode 7 6) ∧
      start.decompress [0x07, 0x62] #[] = start.decompress [0x07] #[] ∧
      start.decompressAll [[0x0C], [], [0x62], [0x51]] #[] =
        start.decompress [0x0C, 0x62, 0x51] #[] := by
  intro start
  have hfirst : (start.decompress [0x0C] #[]).failure = none := by cbv
  have hbuffer : (start.decompress [0x0C] #[]).buffer = #[1] := by cbv
  have hfails : (start.decompress [0x07] #[]).failure = some (.undefinedCode 7 6) := by cbv
  obtain ⟨hcut, hchunks⟩ := start.decompress_chunks #[]
  refine ⟨hfirst, ?_, hfails, (hcut [0x07] [0x62]).2 _ hfails, ?_⟩
  · rw [← hbuffer]
    exact (hcut [0x0C] [0x62, 0x51]).1 hfirst
  · exact hchunks [[0x0C], [], [0x62], [0x51]] (by decide)

end Decompressor
end Lzw
end GifBitmap

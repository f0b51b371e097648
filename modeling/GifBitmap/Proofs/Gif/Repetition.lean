import GifBitmap.Proofs.Gif.Truncation

/-!
# Decoding again

An input can be decoded again, after a picture and after a failure of any kind.  The next
reading is the one that a new input over the rest of the bytes would give: what was consumed
before is added to the bytes consumed, and to the offset that a failure names.

So files that stand one behind the other are decoded one after the other.  And the bytes
consumed keep in step with the bytes delivered, until a field is cut off: from then on nothing is
left to be delivered (`InStep`).

Main facts:
* `decode_of_sameRest`: one reading, by that of a new input;
* `decodeTimes_files`: files one behind the other;
* `InStep.decode`, `consumed_decodeTimes`: bytes consumed and bytes delivered;
* `decode_repeatedly`: all of this.
-/

namespace GifBitmap

/-- Whether two sources have the same bytes left, and the same failure behind them. -/
structure Source.SameRest (first second : Source) : Prop where
  bytes_eq :
    first.pending.take first.available = second.pending.take second.available
  shortage_eq : first.shortage = second.shortage

namespace Source.SameRest

variable {first second : Source}

theorem available_eq (h : first.SameRest second) : first.available = second.available := by
  have hlength := congrArg List.length h.bytes_eq
  rwa [List.length_take, List.length_take, Nat.min_eq_left first.available_le,
    Nat.min_eq_left second.available_le] at hlength

/-- What is left stays the same when the same number of bytes is delivered. -/
theorem advance
    (h : first.SameRest second)
    {count : Nat}
    (hcount : count ≤ first.available)
    (before after : Bool) :
    (first.advance count before).SameRest (second.advance count after) := by
  have hcount' : count ≤ second.available := h.available_eq ▸ hcount
  constructor
  · rw [first.available_advance hcount, second.available_advance hcount']
    have hback := congrArg (List.drop count) h.bytes_eq
    rwa [List.drop_take, List.drop_take] at hback
  · rw [first.shortage_advance (Nat.le_trans hcount first.available_le),
      second.shortage_advance (Nat.le_trans hcount' second.available_le)]
    exact h.shortage_eq

end Source.SameRest

namespace Gif

open FieldReader

variable {limit : PixelLimit} {input : Input}

/-- Decoding is a scan of the bytes at hand as if they stood alone; only the offsets are moved
behind what was consumed. -/
theorem decode_eq_translate
    (limit : PixelLimit)
    (hchunk : input.source.manner.chunk ≠ some 0) :
    ∃ interruptNext,
      decode limit input =
        ((scanFile limit (atHand input)).translate input.consumed).outcome input
          interruptNext := by
  obtain ⟨interruptNext, hdecode⟩ := decode_eq_scan limit input hchunk
  have hscan :=
    (Translated.rounds (translated_step input.consumed limit) ((atHand input).length + 1)
      .start).scan 0 (atHand input)
  rw [Nat.zero_add] at hscan
  refine ⟨interruptNext, ?_⟩
  rw [hdecode, hscan, scanFile]

theorem sum_fields_scanFile_le (limit : PixelLimit) (bytes : Bytes) :
    (scanFile limit bytes).fields.sum ≤ bytes.length :=
  sum_fields_le _ 0 bytes

/-- No more bytes are delivered than there are. -/
theorem delivered_scanFile_le (limit : PixelLimit) (input : Input) :
    (scanFile limit (atHand input)).delivered input.source.available ≤
      input.source.available := by
  rw [← length_atHand]
  unfold Scan.delivered
  split
  · exact Nat.le_refl _
  · exact sum_fields_scanFile_le limit (atHand input)

/-- A reading is that of a new input over the same rest of the bytes, behind what was consumed
before. -/
theorem decode_of_sameRest
    (limit : PixelLimit)
    {source : Source}
    (hchunk : input.source.manner.chunk ≠ some 0)
    (hchunk' : source.manner.chunk ≠ some 0)
    (hrest : input.source.SameRest source) :
    let later := decode limit input
    let fresh := decode limit (.ofSource source)
    later.1 = fresh.1.mapError (Error.translate input.consumed) ∧
      later.2.consumed = input.consumed + fresh.2.consumed ∧
      later.2.source.delivered + source.delivered =
        input.source.delivered + fresh.2.source.delivered ∧
      later.2.events = input.events ++ fresh.2.events ∧
      later.2.source.SameRest fresh.2.source ∧
      later.2.source.manner = input.source.manner := by
  intro later fresh
  obtain ⟨laterNext, hlater⟩ : ∃ interruptNext, later = _ := decode_eq_translate limit hchunk
  obtain ⟨freshNext, hfresh⟩ : ∃ interruptNext, fresh = _ := decode_eq_scanFile limit hchunk'
  have hbytes : atHand (.ofSource source) = atHand input := hrest.bytes_eq.symm
  have hdelivered := delivered_scanFile_le limit input
  rw [hbytes] at hfresh
  generalize scanFile limit (atHand input) = scan at hlater hfresh hdelivered
  have hsame := congrArg scan.delivered hrest.available_eq
  have hadvance := hrest.advance hdelivered laterNext freshNext
  rw [hsame] at hadvance
  rw [hlater, hfresh, scan.outcome_translate, hrest.shortage_eq]
  refine ⟨rfl, ?_, ?_, ?_, ?_, rfl⟩
  · exact congrArg _ (Nat.zero_add _).symm
  · rw [Scan.outcome, hsame]
    exact (Nat.add_right_comm _ _ _).trans (Nat.add_assoc _ _ _)
  · apply Array.toList_inj.mp
    simp [Scan.outcome, Input.ofSource]
  · rw [Scan.outcome, hsame]
    exact hadvance

/-- Whether a file is read to its end and holds a picture. -/
def IsRead (limit : PixelLimit) (file : Bytes) : Prop :=
  let reading := decode limit (.ofSource (.ofBytes file .plain))
  (∃ picture, reading.1 = .ok picture) ∧ reading.2.consumed = file.length

/-- What follows a file that is read to its end has no influence on its scan. -/
theorem scanFile_of_isRead
    {file : Bytes}
    (h : IsRead limit file)
    (tail : Bytes) :
    scanFile limit (file ++ tail) = scanFile limit file ∧
      (scanFile limit file).fields.sum = file.length ∧
      ∃ picture,
        (scanFile limit file).ending = .value picture ∧
          (decode limit (.ofSource (.ofBytes file .plain))).1 = .ok picture := by
  obtain ⟨⟨picture, hpicture⟩, hconsumed⟩ := h
  have hended : ∀ offset, (decode limit (.ofSource (.ofBytes file .plain))).1 ≠
      .error (.endOfInput offset) := by
    intro offset
    simp [hpicture]
  obtain ⟨-, hfields, -⟩ := consumed_of_ended hended
  have hresult := result_decode_plain limit file
  have hsum := consumed_decode_plain limit file
  have happend := scanFile_take_append (Nat.le_refl _)
    (Nat.le_of_eq (hfields.symm.trans hconsumed)) tail
  rw [List.take_length] at happend
  refine ⟨happend, hsum.symm.trans hconsumed, picture, ?_, hpicture⟩
  cases hending : (scanFile limit file).ending with
  | value found =>
      rw [hpicture, Scan.result, hending] at hresult
      exact congrArg Ending.value (Except.ok.inj hresult).symm
  | failure cause =>
      rw [hpicture, Scan.result, hending] at hresult
      simp at hresult
  | short count =>
      rw [hpicture, Scan.result, hending] at hresult
      simp at hresult

/-- A file that stands in front is read as if it stood alone, and what follows it is left. -/
theorem decode_of_isRead
    {file tail : Bytes}
    (h : IsRead limit file)
    (hchunk : input.source.manner.chunk ≠ some 0)
    (hfault : input.source.manner.fault = none)
    (hpending : input.source.pending = file ++ tail) :
    let reading := decode limit input
    reading.1 = (decode limit (.ofSource (.ofBytes file .plain))).1 ∧
      reading.2.consumed = input.consumed + file.length ∧
      reading.2.source.delivered = input.source.delivered + file.length ∧
      reading.2.source.pending = tail ∧
      reading.2.source.manner = input.source.manner := by
  intro reading
  obtain ⟨interruptNext, hreading⟩ : ∃ interruptNext, reading = _ :=
    decode_eq_translate limit hchunk
  obtain ⟨happend, hsum, picture, hending, hpicture⟩ := scanFile_of_isRead h tail
  have hhand : atHand input = file ++ tail := by
    rw [atHand, Source.available, Source.beforeFault, hfault, List.take_length, hpending]
  rw [hhand, happend, Scan.outcome_translate] at hreading
  have hdelivered : (scanFile limit file).delivered input.source.available = file.length := by
    rw [Scan.delivered, hending]
    exact hsum
  rw [hreading, hpicture]
  refine ⟨?_, ?_, ?_, ?_, rfl⟩
  · rw [Scan.result, hending]
    rfl
  · exact congrArg _ hsum
  · exact congrArg _ hdelivered
  · have hdrop : (file ++ tail).drop file.length = tail := List.drop_left
    rw [Scan.outcome, hdelivered, Source.advance, hpending]
    exact hdrop

/-- Files that stand one behind the other are read one after the other, each as if it stood
alone. -/
theorem decodeTimes_files
    {files : List Bytes}
    {tail : Bytes}
    (hread : ∀ file ∈ files, IsRead limit file)
    (hchunk : input.source.manner.chunk ≠ some 0)
    (hfault : input.source.manner.fault = none)
    (hpending : input.source.pending = files.flatten ++ tail)
    {index : Nat}
    {file : Bytes}
    (hfile : files[index]? = some file) :
    ∃ reading,
      (decodeTimes limit files.length input)[index]? = some reading ∧
        reading.1 = (decode limit (.ofSource (.ofBytes file .plain))).1 ∧
        reading.2.consumed =
          input.consumed + ((files.take (index + 1)).map List.length).sum ∧
        reading.2.source.delivered =
          input.source.delivered + ((files.take (index + 1)).map List.length).sum := by
  induction files generalizing input index with
  | nil => simp at hfile
  | cons first files ih =>
      have hfront : input.source.pending = first ++ (files.flatten ++ tail) := by
        rw [hpending, List.flatten_cons, List.append_assoc]
      obtain ⟨hresult, hconsumed, hdelivered, hrest, hmanner⟩ :=
        decode_of_isRead (hread first List.mem_cons_self) hchunk hfault hfront
      cases index with
      | zero =>
          obtain rfl : first = file := Option.some.inj hfile
          exact ⟨decode limit input, rfl, hresult, by simpa using hconsumed,
            by simpa using hdelivered⟩
      | succ index =>
          have hread' : ∀ file ∈ files, IsRead limit file :=
            fun file hmem => hread file (List.mem_cons_of_mem first hmem)
          obtain ⟨reading, hreading, hresult', hconsumed', hdelivered'⟩ :=
            @ih (decode limit input).2 hread' (by rw [hmanner]; exact hchunk)
              (by rw [hmanner]; exact hfault) hrest index hfile
          refine ⟨reading, hreading, hresult', ?_, ?_⟩
          · rw [hconsumed', hconsumed, List.take_succ_cons, List.map_cons, List.sum_cons,
              Nat.add_assoc]
          · rw [hdelivered', hdelivered, List.take_succ_cons, List.map_cons, List.sum_cons,
              Nat.add_assoc]

/-- Whether all the bytes that were delivered are consumed, or nothing is left to be
delivered. -/
structure InStep (input : Input) : Prop where
  consumed_le : input.consumed ≤ input.source.delivered
  ended_or_eq : input.source.available = 0 ∨ input.consumed = input.source.delivered

theorem inStep_ofBytes (bytes : Bytes) (manner : Source.Manner) :
    InStep (.ofSource (.ofBytes bytes manner)) :=
  ⟨Nat.le_refl _, .inr rfl⟩

/-- Without a byte there is no other end than that of the first field. -/
theorem not_isWhole_scanFile_nil (limit : PixelLimit) : ¬(scanFile limit []).IsWhole :=
  fun h => h 3 rfl

/-- A reading keeps in step, and has consumed all that was delivered unless its failure comes
from the delivery. -/
theorem InStep.decode
    (h : InStep input)
    (limit : PixelLimit)
    (hchunk : input.source.manner.chunk ≠ some 0) :
    let reading := Gif.decode limit input
    InStep reading.2 ∧
      input.consumed ≤ reading.2.consumed ∧
      ((∀ cause, reading.1 = .error cause → cause.LiesInFile) →
        reading.2.consumed = reading.2.source.delivered) ∧
      reading.2.source.manner = input.source.manner := by
  intro reading
  obtain ⟨interruptNext, hreading⟩ : ∃ interruptNext, reading = _ :=
    decode_eq_translate limit hchunk
  have hle := sum_fields_scanFile_le limit (atHand input)
  rw [length_atHand] at hle
  have hconsumed := h.consumed_le
  rw [hreading, Scan.outcome_translate]
  rcases (scanFile limit (atHand input)).isWhole_or_short with hwhole | ⟨count, hshort⟩
  · have hsame : input.consumed = input.source.delivered := by
      rcases h.ended_or_eq with hended | hsame
      · rw [← length_atHand, List.length_eq_zero_iff] at hended
        rw [hended] at hwhole
        exact absurd hwhole (not_isWhole_scanFile_nil limit)
      · exact hsame
    have hstep : input.consumed + (scanFile limit (atHand input)).fields.sum =
        input.source.delivered +
          (scanFile limit (atHand input)).delivered input.source.available := by
      rw [hwhole.delivered_eq, hsame]
    exact ⟨⟨Nat.le_of_eq hstep, .inr hstep⟩, Nat.le_add_right _ _, fun _ => hstep, rfl⟩
  · have hdelivered : (scanFile limit (atHand input)).delivered input.source.available =
        input.source.available := by
      rw [Scan.delivered, hshort]
    rw [Scan.outcome, hdelivered]
    refine ⟨⟨?_, .inl ?_⟩, Nat.le_add_right _ _, ?_, rfl⟩
    · exact Nat.add_le_add hconsumed hle
    · rw [Source.available_advance _ (Nat.le_refl _), Nat.sub_self]
    · intro hlies
      rw [Scan.result, hshort] at hlies
      have hcause := hlies _ rfl
      rw [← Error.ofSource_add] at hcause
      exact absurd hcause (Error.not_liesInFile_ofSource _ _)

/-- Over a run the bytes consumed never become fewer, and keep in step with those delivered. -/
theorem consumed_decodeTimes
    (limit : PixelLimit)
    (count : Nat)
    (h : InStep input)
    (hchunk : input.source.manner.chunk ≠ some 0) :
    let readings := decodeTimes limit count input
    (readings.map fun reading => reading.2.consumed).Pairwise (· ≤ ·) ∧
      ∀ reading ∈ readings,
        input.consumed ≤ reading.2.consumed ∧
          reading.2.consumed ≤ reading.2.source.delivered ∧
          ((∀ cause, reading.1 = .error cause → cause.LiesInFile) →
            reading.2.consumed = reading.2.source.delivered) := by
  induction count generalizing input with
  | zero => exact ⟨.nil, fun reading hmem => absurd hmem List.not_mem_nil⟩
  | succ count ih =>
      obtain ⟨hstep, hle, hequal, hmanner⟩ := h.decode limit hchunk
      obtain ⟨hsorted, hall⟩ := ih hstep (by rw [hmanner]; exact hchunk)
      constructor
      · refine .cons ?_ hsorted
        intro consumed hmem
        obtain ⟨reading, hreading, rfl⟩ := List.mem_map.mp hmem
        exact (hall reading hreading).1
      · intro reading hmem
        rcases List.mem_cons.mp hmem with rfl | hmem
        · exact ⟨hle, hstep.consumed_le, hequal⟩
        · obtain ⟨hmore, hrest⟩ := hall reading hmem
          exact ⟨Nat.le_trans hle hmore, hrest⟩

/-- A reading is that of a new input over the same rest of the bytes, whatever was read before
and however it ended: what was consumed before is added to the bytes consumed, and to the
offset of a failure.  So files one behind the other are read one after the other.  Over any run the
bytes consumed never become fewer, are never more than those delivered, and are as many after
every reading but those that fail by the delivery. -/
theorem decode_repeatedly (limit : PixelLimit) :
    (∀ (input : Input) (source : Source),
      input.source.manner.chunk ≠ some 0 →
        source.manner.chunk ≠ some 0 →
          input.source.SameRest source →
            let later := decode limit input
            let fresh := decode limit (.ofSource source)
            later.1 = fresh.1.mapError (Error.translate input.consumed) ∧
              later.2.consumed = input.consumed + fresh.2.consumed ∧
              later.2.source.delivered + source.delivered =
                input.source.delivered + fresh.2.source.delivered ∧
              later.2.events = input.events ++ fresh.2.events ∧
              later.2.source.SameRest fresh.2.source ∧
              later.2.source.manner = input.source.manner) ∧
      (∀ (files : List Bytes) tail manner,
        manner.chunk ≠ some 0 →
          manner.fault = none →
            (∀ file ∈ files, IsRead limit file) →
              let readings := decodeTimes limit files.length
                (.ofSource (.ofBytes (files.flatten ++ tail) manner))
              ∀ index file,
                files[index]? = some file →
                  ∃ reading,
                    readings[index]? = some reading ∧
                      reading.1 = (decode limit (.ofSource (.ofBytes file .plain))).1 ∧
                      reading.2.consumed = ((files.take (index + 1)).map List.length).sum ∧
                      reading.2.source.delivered = reading.2.consumed) ∧
      ∀ bytes manner count,
        manner.chunk ≠ some 0 →
          let readings := decodeTimes limit count (.ofSource (.ofBytes bytes manner))
          (readings.map fun reading => reading.2.consumed).Pairwise (· ≤ ·) ∧
            ∀ reading ∈ readings,
              reading.2.consumed ≤ reading.2.source.delivered ∧
                ((∀ cause, reading.1 = .error cause → cause.LiesInFile) →
                  reading.2.consumed = reading.2.source.delivered) := by
  refine ⟨?_, ?_, ?_⟩
  · intro input source hchunk hchunk' hrest
    exact decode_of_sameRest limit hchunk hchunk' hrest
  · intro files tail manner hchunk hfault hread readings index file hfile
    obtain ⟨reading, hreading, hresult, hconsumed, hdelivered⟩ :=
      @decodeTimes_files limit (.ofSource (.ofBytes (files.flatten ++ tail) manner)) _ _ hread
        hchunk hfault rfl _ _ hfile
    refine ⟨reading, hreading, hresult, ?_, hdelivered.trans hconsumed.symm⟩
    exact hconsumed.trans (Nat.zero_add _)
  · intro bytes manner count hchunk readings
    obtain ⟨hsorted, hall⟩ :=
      consumed_decodeTimes limit count (inStep_ofBytes bytes manner) hchunk
    exact ⟨hsorted, fun reading hmem => (hall reading hmem).2⟩

theorem isRead_singlePixelFile : IsRead (some 1) (singlePixelFile.take 28) := by
  unfold IsRead
  simp only [result_decode_plain, consumed_decode_plain]
  exact ⟨⟨_, by cbv⟩, by cbv⟩

/-- A preamble behind which there is neither an image nor an extension. -/
def imagelessFile : Bytes :=
  [0x47, 0x49, 0x46, 0x38, 0x39, 0x61, 1, 0, 1, 0, 0, 0, 0, 0x3B]

/-- A file without an image behind 28 bytes, two files behind each other, and a source that
fails in the second of them. -/
theorem decode_repeatedly_of_two_files :
    let file := singlePixelFile.take 28
    let later := decode (some 1) ⟨⟨imagelessFile, 28, true, ⟨some 1, true, none⟩⟩, 28, #[]⟩
    let readings := decodeTimes (some 1) 2
      (.ofSource (.ofBytes ([file, file].flatten ++ imagelessFile) ⟨some 3, true, none⟩))
    let failing := decodeTimes (some 1) 3
      (.ofSource (.ofBytes (file ++ file) ⟨none, false, some (54, ⟨.other, "lost"⟩)⟩))
    later.1 = .error (.unexpectedByte 41 0x2C 0x3B) ∧
      later.2.consumed = 42 ∧
      (∃ reading,
        readings[1]? = some reading ∧
          reading.1 = (decode (some 1) (.ofSource (.ofBytes file .plain))).1 ∧
          reading.2.consumed = 56 ∧
          reading.2.source.delivered = 56) ∧
      ∀ reading ∈ failing, reading.2.consumed ≤ reading.2.source.delivered := by
  intro file later readings failing
  obtain ⟨hlater, hfiles, hrun⟩ := decode_repeatedly (some 1)
  have hcause : (scanFile (some 1) imagelessFile).result 0 .endOfSource =
      .error (.unexpectedByte 13 0x2C 0x3B) := by
    cbv
  have hsize : (scanFile (some 1) imagelessFile).fields.sum = 14 := by
    cbv
  obtain ⟨hresult, hmore, -⟩ :=
    hlater ⟨⟨imagelessFile, 28, true, ⟨some 1, true, none⟩⟩, 28, #[]⟩
      (.ofBytes imagelessFile .plain) (by simp) (by simp [Source.ofBytes, Source.Manner.plain])
      ⟨rfl, rfl⟩
  rw [result_decode_plain, hcause] at hresult
  rw [consumed_decode_plain, hsize] at hmore
  have hread : ∀ found ∈ [file, file], IsRead (some 1) found := by
    simpa using isRead_singlePixelFile
  obtain ⟨reading, hreading, hsame, hplace, hdelivered⟩ :=
    hfiles [file, file] imagelessFile ⟨some 3, true, none⟩ (by simp) rfl hread 1 file rfl
  have hsum : (([file, file].take 2).map List.length).sum = 56 := rfl
  rw [hsum] at hplace
  obtain ⟨-, hall⟩ := hrun (file ++ file) ⟨none, false, some (54, ⟨.other, "lost"⟩)⟩ 3 (by simp)
  exact ⟨hresult, hmore, ⟨reading, hreading, hsame, hplace, hdelivered.trans hplace⟩,
    fun reading hmem => (hall reading hmem).1⟩

end Gif
end GifBitmap

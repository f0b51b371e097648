import GifBitmap.Proofs.FieldEvents
import GifBitmap.Proofs.Gif.DataBlocks

/-!
# The events of image data

For each block of image data that is read whole there is one event with its size.  It tells
whether the block was fed or passed over.  Behind the last block that was fed it is noted once if
there are more indices than pixels, and at the end if the blocks were closed while there was still
something to be decompressed (`dataEvents`).

A string of bytes begins with some blocks and goes on with bytes that are no block: it has ended,
or the zero byte comes next, or the bytes behind a size are too few.  So at most one byte is read
behind the blocks.

Main facts:
* `scan_block_within` and the lemmas after it: one block, by what becomes of it;
* `crosses_fed`, `scanUntil_of_failure`, `crosses_passed`: blocks one by one;
* `exists_readsData`: what is read from the image data on, and the events of it.
-/

namespace GifBitmap
namespace Gif

open FieldReader

/-- Some bytes are blocks up to a rest that does not begin with a block. -/
theorem exists_blocks (bytes : Bytes) :
    ∃ (blocks : List SubBlock) (rest : Bytes),
      bytes = blocks.flatMap SubBlock.toBytes ++ rest ∧
        ∀ (block : SubBlock) (tail : Bytes), rest ≠ block.toBytes ++ tail := by
  induction hlength : bytes.length using Nat.strongRecOn generalizing bytes with
  | ind length ih =>
      subst hlength
      by_cases hblock : ∃ (block : SubBlock) (tail : Bytes), bytes = block.toBytes ++ tail
      · obtain ⟨block, tail, rfl⟩ := hblock
        have hless : tail.length < (block.toBytes ++ tail).length := by
          simp only [SubBlock.toBytes, List.cons_append, List.length_cons, List.length_append]
          omega
        obtain ⟨blocks, rest, rfl, hrest⟩ := ih _ hless tail rfl
        exact ⟨block :: blocks, rest, by rw [List.flatMap_cons, List.append_assoc], hrest⟩
      · refine ⟨[], bytes, rfl, fun block tail hbytes => hblock ⟨block, tail, hbytes⟩⟩

/-- Bytes that do not begin with a block have ended, or begin with the zero byte, or with a size
that the bytes behind it are too few for. -/
theorem rest_cases
    {rest : Bytes}
    (h : ∀ (block : SubBlock) (tail : Bytes), rest ≠ block.toBytes ++ tail) :
    rest = [] ∨
      (∃ tail, rest = 0 :: tail) ∨
      ∃ (size : UInt8) (tail : Bytes),
        rest = size :: tail ∧ 0 < size.toNat ∧ tail.length < size.toNat := by
  cases rest with
  | nil => exact .inl rfl
  | cons size tail =>
      by_cases hzero : size = 0
      · exact .inr (.inl ⟨tail, by rw [hzero]⟩)
      · have hpos : 0 < size.toNat :=
          Nat.pos_of_ne_zero fun hnone => hzero (UInt8.toNat_inj.mp hnone)
        refine .inr (.inr ⟨size, tail, rfl, hpos, Nat.lt_of_not_le fun hle => ?_⟩)
        have hlength : (tail.take size.toNat).length = size.toNat := List.length_take_of_le hle
        have hmax := size.toNat_lt
        refine h ⟨tail.take size.toNat, by omega, by omega⟩ (tail.drop size.toNat) ?_
        simp only [SubBlock.toBytes, hlength, UInt8.ofNat_toNat, List.cons_append,
          List.take_append_drop]

def SubBlock.fedEvent (block : SubBlock) : Event :=
  .imageData block.payload.length

def SubBlock.passedEvent (block : SubBlock) : Event :=
  .imageDataSkipped block.payload.length

def SubBlock.fields (block : SubBlock) : List Nat :=
  [1, block.payload.length]

theorem SubBlock.sum_fields (block : SubBlock) : block.fields.sum = block.toBytes.length := by
  simp [fields, toBytes, Nat.add_comm]

section Block

variable {outline : Outline} {stream : IndexStream} {position : Nat} {block : SubBlock}
  {decompressor following : Lzw.Decompressor} {buffer longer : Array UInt8}

/-- Both fields of a block are read before anything is made of it. -/
theorem scan_block (block : SubBlock) (rest : Bytes) :
    (readDataBlock outline stream).scan position (block.toBytes ++ rest) =
      ((if stream.isClosed then
          do
            record (.imageDataSkipped block.payload.length)
            return .inl (.imageData outline stream)
        else
          do
            record (.imageData block.payload.length)
            let fed ← stream.feed outline.image.pixels block.payload
            return .inl (.imageData outline fed) : FieldReader Progress).scan
        (position + 1 + block.payload.length) rest).behind
          (⟨.value (), block.fields, []⟩ : Scan Unit) := by
  have hsize := block.toNat_length
  rw [readDataBlock, SubBlock.toBytes, List.cons_append, scan_byte_bind,
    dif_pos (hsize.symm ▸ block.pos), scan_bytes_bind _ _ hsize.symm, hsize]
  rfl

/-- A block that leaves no more indices than there are pixels. -/
theorem scan_block_within
    (hopen : decompressor.isDone = false)
    (hblock : decompressor.decompress block.payload buffer = ⟨none, following, longer⟩)
    (hsize : longer.size ≤ outline.image.pixels)
    (rest : Bytes) :
    (readDataBlock outline ⟨decompressor, buffer, false⟩).scan position (block.toBytes ++ rest) =
      ⟨.value (.inl (.imageData outline ⟨following, longer, false⟩)), block.fields,
        [block.fedEvent]⟩ := by
  have hfits : ¬outline.image.pixels < longer.size := Nat.not_lt_of_le hsize
  simp only [scan_block, IndexStream.isClosed, hopen, IndexStream.feed, hblock, if_neg hfits]
  rfl

/-- A block with which there are more indices than pixels. -/
theorem scan_block_beyond
    (hopen : decompressor.isDone = false)
    (hblock : decompressor.decompress block.payload buffer = ⟨none, following, longer⟩)
    (hsize : outline.image.pixels < longer.size)
    (rest : Bytes) :
    (readDataBlock outline ⟨decompressor, buffer, false⟩).scan position (block.toBytes ++ rest) =
      ⟨.value (.inl (.imageData outline
          ⟨following, longer.take outline.image.pixels, true⟩)), block.fields,
        [block.fedEvent, .indicesTruncated outline.image.pixels]⟩ := by
  simp only [scan_block, IndexStream.isClosed, hopen, IndexStream.feed, hblock, if_pos hsize]
  rfl

/-- A block that cannot be decompressed. -/
theorem scan_block_of_failure
    {cause : Error}
    (hopen : decompressor.isDone = false)
    (hblock : (decompressor.decompress block.payload buffer).failure = some cause)
    (rest : Bytes) :
    (readDataBlock outline ⟨decompressor, buffer, false⟩).scan position (block.toBytes ++ rest) =
      ⟨.failure cause, block.fields, [block.fedEvent]⟩ := by
  simp only [scan_block, IndexStream.isClosed, hopen, IndexStream.feed, hblock]
  rfl

/-- A block of a stream that is closed. -/
theorem scan_block_of_isClosed
    (hclosed : stream.isClosed = true)
    (rest : Bytes) :
    (readDataBlock outline stream).scan position (block.toBytes ++ rest) =
      ⟨.value (.inl (.imageData outline stream)), block.fields, [block.passedEvent]⟩ := by
  rw [scan_block, if_pos hclosed]
  rfl

/-- Behind the blocks at most one byte is read, and no other phase follows.  The zero byte is
noted if the stream is still open there. -/
theorem scan_rest
    {rest : Bytes}
    (h : ∀ (block : SubBlock) (tail : Bytes), rest ≠ block.toBytes ++ tail) :
    let found := (readDataBlock outline stream).scan position rest
    (∀ next, found.ending ≠ .value (.inl next)) ∧
      ∃ last,
        last <+: rest ∧
          found.fields.sum = last.length ∧
          last.length ≤ 1 ∧
          found.events =
            if last = [0] ∧ stream.isClosed = false then [.endCodeMissing] else [] := by
  rcases rest_cases h with rfl | ⟨tail, rfl⟩ | ⟨size, tail, rfl, hpos, hshort⟩
  · refine ⟨?_, [], List.nil_prefix, rfl, Nat.zero_le 1, rfl⟩
    rintro next ⟨⟩
  · have hlast : ([0] : Bytes) <+: 0 :: tail := ⟨tail, rfl⟩
    rw [readDataBlock, scan_byte_bind, dif_neg (by decide)]
    cases hclosed : stream.isClosed with
    | true =>
        refine ⟨?_, [0], hlast, rfl, Nat.le_refl 1, by simp; rfl⟩
        rintro next ⟨⟩
    | false =>
        refine ⟨?_, [0], hlast, rfl, Nat.le_refl 1, by simp; rfl⟩
        rintro next ⟨⟩
  · have hlast : [size] <+: size :: tail := ⟨tail, rfl⟩
    have hother : [size] ≠ [0] := by
      rintro ⟨⟩
      exact absurd hpos (by decide)
    rw [readDataBlock, scan_byte_bind, dif_pos hpos, bytes, field_bind,
      scan_field_of_lt _ _ hshort]
    refine ⟨?_, [size], hlast, rfl, Nat.le_refl 1, ?_⟩
    · rintro next ⟨⟩
    · rw [if_neg fun hlast => hother hlast.1]
      rfl

end Block

section Blocks

variable {limit : PixelLimit} {outline : Outline} {stream : IndexStream} {position : Nat}
  {decompressor following : Lzw.Decompressor} {buffer longer : Array UInt8}

theorem crosses_block
    {next : IndexStream}
    {block : SubBlock}
    {events : List Event}
    (hscan : ∀ rest,
      (readDataBlock outline stream).scan position (block.toBytes ++ rest) =
        ⟨.value (.inl (.imageData outline next)), block.fields, events⟩) :
    Crosses (Phase.step limit) (.imageData outline stream) position block.toBytes events
      (.imageData outline next) :=
  crosses_of_scan (Phase.step_progresses limit) block.fields block.sum_fields hscan

/-- Blocks of a stream that is closed are passed over. -/
theorem crosses_passed
    (hclosed : stream.isClosed = true)
    (blocks : List SubBlock) :
    Crosses (Phase.step limit) (.imageData outline stream) position
      (blocks.flatMap SubBlock.toBytes) (blocks.map SubBlock.passedEvent)
      (.imageData outline stream) := by
  induction blocks generalizing position with
  | nil => exact .refl _ _
  | cons block blocks ih => exact (crosses_block (scan_block_of_isClosed hclosed)).trans ih

/-- Blocks are fed as long as all of them leave something to be decompressed, and there are no
more indices than pixels. -/
theorem crosses_keepsOn
    {blocks : List SubBlock}
    (hkeeps : ∀ count ≤ blocks.length,
      decompressor.KeepsOn outline.image.pixels (payloads (blocks.take count)) buffer)
    (hdrained : decompressor.IsDrained buffer) :
    ∃ following longer,
      decompressor.decompress (payloads blocks) buffer = ⟨none, following, longer⟩ ∧
        Crosses (Phase.step limit) (.imageData outline ⟨decompressor, buffer, false⟩) position
          (blocks.flatMap SubBlock.toBytes) (blocks.map SubBlock.fedEvent)
          (.imageData outline ⟨following, longer, false⟩) := by
  induction blocks generalizing decompressor buffer position with
  | nil => exact ⟨decompressor, buffer, hdrained, .refl _ _⟩
  | cons block blocks ih =>
      obtain ⟨hopen, -⟩ := (Lzw.Decompressor.keepsOn_nil_iff hdrained).mp (hkeeps 0 (Nat.zero_le _))
      have hfirst : decompressor.KeepsOn outline.image.pixels block.payload buffer := by
        have hone := hkeeps 1 (Nat.succ_le_succ (Nat.zero_le _))
        rwa [List.take_succ_cons, List.take_zero, payloads_singleton] at hone
      cases hblock : decompressor.decompress block.payload buffer with
      | mk failure between more =>
          obtain ⟨hnone, -, hsize⟩ := hfirst
          rw [hblock] at hnone hsize
          obtain rfl : failure = none := hnone
          have hrest : ∀ count ≤ blocks.length,
              between.KeepsOn outline.image.pixels (payloads (blocks.take count)) more := by
            intro count hcount
            have hlater := hkeeps (count + 1) (Nat.succ_le_succ hcount)
            rw [List.take_succ_cons, payloads_cons] at hlater
            exact (Lzw.Decompressor.keepsOn_append_iff hblock _).mp hlater
          obtain ⟨following, longer, hwhole, hcrosses⟩ :=
            ih hrest (Lzw.Decompressor.isDrained_of_decompress hblock)
          refine ⟨following, longer, ?_,
            (crosses_block (scan_block_within hopen hblock hsize)).trans hcrosses⟩
          rw [payloads_cons, Lzw.Decompressor.decompress_append, hblock]
          exact hwhole

/-- Blocks that are fed, the last of them apart. -/
theorem crosses_front
    {front : List SubBlock}
    {last : SubBlock}
    (hfed : Fed decompressor outline.image.pixels (front ++ [last]) buffer)
    (hdrained : decompressor.IsDrained buffer) :
    ∃ following longer,
      (following.isDone = false ∧ longer.size ≤ outline.image.pixels) ∧
        decompressor.decompress (payloads (front ++ [last])) buffer =
          following.decompress last.payload longer ∧
        Crosses (Phase.step limit) (.imageData outline ⟨decompressor, buffer, false⟩) position
          (front.flatMap SubBlock.toBytes) (front.map SubBlock.fedEvent)
          (.imageData outline ⟨following, longer, false⟩) := by
  have hkeeps : ∀ count ≤ front.length,
      decompressor.KeepsOn outline.image.pixels (payloads (front.take count)) buffer := by
    intro count hcount
    have hfront := hfed count (by rw [List.length_append, List.length_singleton]; omega)
    rwa [List.take_append_of_le_length hcount] at hfront
  obtain ⟨following, longer, hwhole, hcrosses⟩ := crosses_keepsOn hkeeps hdrained
  have hlast := hkeeps front.length (Nat.le_refl _)
  rw [List.take_length, Lzw.Decompressor.KeepsOn, hwhole] at hlast
  refine ⟨following, longer, hlast.2, ?_, hcrosses⟩
  have hpayloads : payloads (front ++ [last]) = payloads front ++ last.payload := by
    simp only [payloads, List.flatMap_append, List.flatMap_singleton]
  rw [hpayloads, Lzw.Decompressor.decompress_append, hwhole]

/-- The event that is noted behind the blocks that are fed, if they are decompressed without a
failure to more indices than there are pixels. -/
def truncationEvents (pixels : Nat) (outcome : Lzw.Decompressor.Outcome) : List Event :=
  if outcome.failure = none ∧ pixels < outcome.buffer.size then
    [.indicesTruncated pixels]
  else
    []

/-- Blocks that are fed and do not fail.  The stream is closed behind them unless they leave
something to be decompressed. -/
theorem crosses_fed
    {fed : List SubBlock}
    (hfed : Fed decompressor outline.image.pixels fed buffer)
    (hdrained : decompressor.IsDrained buffer)
    (hsize : buffer.size ≤ outline.image.pixels)
    (hnone : (decompressor.decompress (payloads fed) buffer).failure = none) :
    ∃ stream,
      (stream.isClosed = false ↔
          decompressor.KeepsOn outline.image.pixels (payloads fed) buffer) ∧
        Crosses (Phase.step limit) (.imageData outline ⟨decompressor, buffer, false⟩) position
          (fed.flatMap SubBlock.toBytes)
          (fed.map SubBlock.fedEvent ++
            truncationEvents outline.image.pixels
              (decompressor.decompress (payloads fed) buffer))
          (.imageData outline stream) := by
  rcases List.eq_nil_or_concat fed with rfl | ⟨front, last, rfl⟩
  · have hnothing : decompressor.decompress (payloads []) buffer = ⟨none, decompressor, buffer⟩ :=
      hdrained
    refine ⟨⟨decompressor, buffer, false⟩, ?_, ?_⟩
    · rw [Lzw.Decompressor.KeepsOn, hnothing]
      simp [IndexStream.isClosed, hsize]
    · rw [hnothing, truncationEvents, if_neg fun hmore => Nat.not_lt_of_le hsize hmore.2]
      exact .refl _ _
  · rw [List.concat_eq_append] at hfed hnone ⊢
    obtain ⟨between, more, ⟨hopen, hfew⟩, hwhole, hcrosses⟩ :=
      @crosses_front limit outline position _ _ _ _ hfed hdrained
    simp only [List.flatMap_append, List.flatMap_singleton, List.map_append, List.map_singleton,
      List.append_assoc, List.singleton_append]
    rw [Lzw.Decompressor.KeepsOn, hwhole]
    rw [hwhole] at hnone
    cases hlast : between.decompress last.payload more with
    | mk failure following longer =>
        rw [hlast] at hnone
        obtain rfl : failure = none := hnone
        by_cases hbeyond : outline.image.pixels < longer.size
        · refine ⟨⟨following, longer.take outline.image.pixels, true⟩, ?_, ?_⟩
          · simp [IndexStream.isClosed, Nat.not_le_of_lt hbeyond]
          · rw [truncationEvents, if_pos ⟨rfl, hbeyond⟩]
            exact hcrosses.trans (crosses_block (scan_block_beyond hopen hlast hbeyond))
        · refine ⟨⟨following, longer, false⟩, ?_, ?_⟩
          · simp [IndexStream.isClosed, Nat.le_of_not_lt hbeyond]
          · rw [truncationEvents, if_neg fun hmore => hbeyond hmore.2]
            exact hcrosses.trans
              (crosses_block (scan_block_within hopen hlast (Nat.le_of_not_lt hbeyond)))

/-- Blocks that are fed and do not fail, and others behind them if the stream is closed there. -/
theorem crosses_blocks
    {fed passed : List SubBlock}
    (hfed : Fed decompressor outline.image.pixels fed buffer)
    (hpassed : passed = [] ∨
      ¬decompressor.KeepsOn outline.image.pixels (payloads fed) buffer)
    (hdrained : decompressor.IsDrained buffer)
    (hsize : buffer.size ≤ outline.image.pixels)
    (hnone : (decompressor.decompress (payloads fed) buffer).failure = none) :
    ∃ stream,
      (stream.isClosed = false ↔
          decompressor.KeepsOn outline.image.pixels (payloads fed) buffer) ∧
        Crosses (Phase.step limit) (.imageData outline ⟨decompressor, buffer, false⟩) position
          ((fed ++ passed).flatMap SubBlock.toBytes)
          (fed.map SubBlock.fedEvent ++
            truncationEvents outline.image.pixels
              (decompressor.decompress (payloads fed) buffer) ++
            passed.map SubBlock.passedEvent)
          (.imageData outline stream) := by
  obtain ⟨stream, hopen, hcrosses⟩ :=
    @crosses_fed limit outline position _ _ _ hfed hdrained hsize hnone
  refine ⟨stream, hopen, ?_⟩
  rw [List.flatMap_append]
  refine hcrosses.trans ?_
  rcases hpassed with rfl | hstops
  · exact .refl _ _
  · refine crosses_passed ?_ passed
    rw [← Bool.not_eq_false, hopen]
    exact hstops

/-- Blocks that are fed and fail are read, and nothing behind them. -/
theorem scanUntil_of_failure
    {fed : List SubBlock}
    {cause : Error}
    (hfed : Fed decompressor outline.image.pixels fed buffer)
    (hdrained : decompressor.IsDrained buffer)
    (hfails : (decompressor.decompress (payloads fed) buffer).failure = some cause)
    (rest : Bytes) :
    let scan := scanUntil (Phase.step limit) (.imageData outline ⟨decompressor, buffer, false⟩)
      position (fed.flatMap SubBlock.toBytes ++ rest)
    scan.fields.sum = (fed.flatMap SubBlock.toBytes).length ∧
      scan.events = fed.map SubBlock.fedEvent := by
  rcases List.eq_nil_or_concat fed with rfl | ⟨front, last, rfl⟩
  · have hnothing : decompressor.decompress (payloads []) buffer = ⟨none, decompressor, buffer⟩ :=
      hdrained
    rw [hnothing] at hfails
    exact absurd hfails.symm (Option.some_ne_none cause)
  · rw [List.concat_eq_append] at hfed hfails ⊢
    obtain ⟨between, more, ⟨hopen, -⟩, hwhole, fields, hsum, hscan⟩ :=
      @crosses_front limit outline position _ _ _ _ hfed hdrained
    rw [hwhole] at hfails
    simp only [List.flatMap_append, List.flatMap_singleton, List.map_append, List.map_singleton,
      List.append_assoc]
    have hlast (position : Nat) :
        let scan := scanUntil (Phase.step limit) (.imageData outline ⟨between, more, false⟩)
          position (last.toBytes ++ rest)
        scan.fields = last.fields ∧ scan.events = [last.fedEvent] := by
      have hround : (Phase.step limit (.imageData outline ⟨between, more, false⟩)).scan position
          (last.toBytes ++ rest) = ⟨.failure cause, last.fields, [last.fedEvent]⟩ :=
        scan_block_of_failure hopen hfails rest
      have hstops : ∀ next, ((Phase.step limit (.imageData outline ⟨between, more, false⟩)).scan
          position (last.toBytes ++ rest)).ending ≠ .value (.inl next) := by
        rw [hround]
        exact fun _ => nofun
      have hends := scanUntil_of_last_round hstops
      rw [hround] at hends
      exact hends
    obtain ⟨hfields, hevents⟩ := hlast (position + (front.flatMap SubBlock.toBytes).length)
    rw [hscan, Scan.behind, hfields, hevents, List.sum_append, hsum, last.sum_fields,
      List.length_append]
    exact ⟨rfl, rfl⟩

/-- Behind the blocks the repetition ends. -/
theorem scanUntil_rest
    {rest : Bytes}
    (h : ∀ (block : SubBlock) (tail : Bytes), rest ≠ block.toBytes ++ tail) :
    let scan := scanUntil (Phase.step limit) (.imageData outline stream) position rest
    ∃ last,
      last <+: rest ∧
        scan.fields.sum = last.length ∧
        last.length ≤ 1 ∧
        scan.events =
          if last = [0] ∧ stream.isClosed = false then [.endCodeMissing] else [] := by
  obtain ⟨hstops, last, hlast, hsum, hlength, hevents⟩ := scan_rest h
  obtain ⟨hfields, hsame⟩ := @scanUntil_of_last_round _ _ (Phase.step limit)
    (.imageData outline stream) position rest hstops
  exact ⟨last, hlast, hfields ▸ hsum, hlength, hsame.trans hevents⟩

end Blocks

/-- Whether something is left to be decompressed can be computed. -/
instance decidableKeepsOn
    (decompressor : Lzw.Decompressor)
    (most : Nat)
    (bytes : Bytes)
    (buffer : Array UInt8) :
    Decidable (decompressor.KeepsOn most bytes buffer) :=
  inferInstanceAs (Decidable (_ ∧ _ ∧ _))

/-- Whether some bytes are the blocks that are fed, those that are passed over, and at most one
byte that is read behind them.  A block is passed over if the end code was met in a block in front
of it, or there were more indices than pixels, and nothing is read behind a block that fails. -/
structure ReadsData
    (start : Lzw.Decompressor)
    (pixels : Nat)
    (fed passed : List SubBlock)
    (last taken : Bytes) : Prop where
  taken_eq : taken = (fed ++ passed).flatMap SubBlock.toBytes ++ last
  feeds : Fed start pixels fed #[]
  closed : passed ≠ [] →
    let outcome := start.decompress (payloads fed) #[]
    outcome.decompressor.isDone = true ∨ pixels < outcome.buffer.size
  failed : (start.decompress (payloads fed) #[]).failure ≠ none → passed = [] ∧ last = []
  length_last : last.length ≤ 1

/-- The events of image data: one for each block, one for indices beyond the last pixel, and one
for the end of the blocks while there is something left to be decompressed. -/
def dataEvents
    (start : Lzw.Decompressor)
    (pixels : Nat)
    (fed passed : List SubBlock)
    (last : Bytes) :
    List Event :=
  fed.map SubBlock.fedEvent ++
    (truncationEvents pixels (start.decompress (payloads fed) #[]) ++
      (passed.map SubBlock.passedEvent ++
        if last = [0] ∧ start.KeepsOn pixels (payloads fed) #[] then [.endCodeMissing] else []))

/-- Whatever stands behind the front of an image, blocks are read up to one that fails, or up to
the bytes behind the last one, and each of them is told by an event. -/
theorem exists_readsData
    (limit : PixelLimit)
    (outline : Outline)
    (size : Lzw.CodeSize)
    (position : Nat)
    (bytes : Bytes) :
    let start := Lzw.Decompressor.initial size
    let pixels := outline.image.pixels
    let scan := scanUntil (Phase.step limit) (.imageData outline (.initial start)) position bytes
    ∃ fed passed last,
      ReadsData start pixels fed passed last (bytes.take scan.fields.sum) ∧
        scan.events = dataEvents start pixels fed passed last := by
  intro start pixels scan
  have hdrained : start.IsDrained #[] := Lzw.Decompressor.isDrained_initial size #[]
  obtain ⟨blocks, rest, hbytes, hrest⟩ := exists_blocks bytes
  obtain ⟨fed, passed, rfl, hfed, hpassed⟩ :=
    exists_fed (fun front => start.KeepsOn pixels (payloads front) #[]) blocks
  cases hfailure : (start.decompress (payloads fed) #[]).failure with
  | some cause =>
      have hsome : (start.decompress (payloads fed) #[]).failure ≠ none := by
        rw [hfailure]
        exact Option.some_ne_none cause
      rw [List.flatMap_append, List.append_assoc] at hbytes
      obtain ⟨hsum, hevents⟩ : scan.fields.sum = (fed.flatMap SubBlock.toBytes).length ∧
          scan.events = fed.map SubBlock.fedEvent := by
        unfold scan
        rw [hbytes]
        exact scanUntil_of_failure hfed hdrained hfailure _
      refine ⟨fed, [], [], ⟨?_, hfed, fun h => absurd rfl h, fun _ => ⟨rfl, rfl⟩, Nat.zero_le 1⟩,
        hevents.trans ?_⟩
      · rw [hsum, hbytes, List.take_left' rfl, List.append_nil, List.append_nil]
      · simp [dataEvents, truncationEvents, hsome]
  | none =>
      obtain ⟨stream, hopen, fields, hfields, hscan⟩ :=
        @crosses_blocks limit outline position start #[] fed passed hfed hpassed hdrained
          (Nat.zero_le _) hfailure
      obtain ⟨last, hprefix, hsum, hlength, hevents⟩ := @scanUntil_rest limit outline stream
        (position + ((fed ++ passed).flatMap SubBlock.toBytes).length) rest hrest
      have hwhole := hscan rest
      rw [← hbytes] at hwhole
      have htaken : scan.fields.sum =
          ((fed ++ passed).flatMap SubBlock.toBytes).length + last.length := by
        rw [← hfields, ← hsum, ← List.sum_append]
        exact congrArg (fun scan => scan.fields.sum) hwhole
      refine ⟨fed, passed, last, ⟨?_, hfed, ?_, fun hsome => absurd hfailure hsome, hlength⟩, ?_⟩
      · rw [htaken, hbytes, List.take_length_add_append, ← List.prefix_iff_eq_take.mp hprefix]
      · intro hsome outcome
        have hstops := hpassed.resolve_left hsome
        by_contra hneither
        rw [not_or, Bool.not_eq_true, Nat.not_lt] at hneither
        exact hstops ⟨hfailure, hneither⟩
      · rw [dataEvents, ← List.append_assoc, ← List.append_assoc]
        simp only [hopen] at hevents
        rw [← hevents]
        exact congrArg Scan.events hwhole

end Gif
end GifBitmap

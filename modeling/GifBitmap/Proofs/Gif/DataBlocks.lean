import GifBitmap.Proofs.Gif.Acceptance
import GifBitmap.Proofs.Gif.Failing
import GifBitmap.Proofs.Gif.ImageData

/-!
# Which blocks of image data are fed

The blocks of image data are fed to one decompressor, until a block has been fed with which it
met the end code or gave more indices than there are pixels, or which failed
(`Decompressor.KeepsOn`).  All that comes of an image is told by what the bytes of the fed
blocks decompress to when they are given at once (`Body.ComesOf`); the blocks behind them are
read, but their bytes play no part.

Main facts:
* `exists_fed`: how the blocks divide into those that are fed and those that are passed over;
* `absorb_of_keepsOn`, `decodeBlocks_append`: the blocks that are fed, one by one and at once;
* `Body.comesOf_fed`: what comes of an image;
* `Body.comesOf_blocks`: the whole rule.
-/

namespace GifBitmap

namespace Lzw
namespace Decompressor

/-- Whether some bytes are decompressed without a failure and in front of the end code, and the
buffer then holds no more than `most` indices. -/
def KeepsOn
    (decompressor : Decompressor)
    (most : Nat)
    (bytes : Bytes)
    (buffer : Array UInt8) :
    Prop :=
  let outcome := decompressor.decompress bytes buffer
  outcome.failure = none ∧ outcome.decompressor.isDone = false ∧ outcome.buffer.size ≤ most

theorem keepsOn_append_iff
    {decompressor following : Decompressor}
    {most : Nat}
    {first : Bytes}
    {buffer longer : Array UInt8}
    (h : decompressor.decompress first buffer = ⟨none, following, longer⟩)
    (second : Bytes) :
    decompressor.KeepsOn most (first ++ second) buffer ↔ following.KeepsOn most second longer := by
  unfold KeepsOn
  rw [decompress_append, h]

/-- Nothing more to decompress leaves the state as it is. -/
theorem keepsOn_nil_iff
    {decompressor : Decompressor}
    {most : Nat}
    {buffer : Array UInt8}
    (hdrained : decompressor.IsDrained buffer) :
    decompressor.KeepsOn most [] buffer ↔
      decompressor.isDone = false ∧ buffer.size ≤ most := by
  unfold KeepsOn
  rw [hdrained]
  exact ⟨And.right, fun h => ⟨rfl, h⟩⟩

end Decompressor
end Lzw

namespace Gif

open FieldReader

/-- A list has a front up to which something keeps on, and which is all of it or the first front
for which it does not. -/
theorem exists_fed
    {α : Type}
    (KeepsOn : List α → Prop)
    (blocks : List α) :
    ∃ fed passed,
      blocks = fed ++ passed ∧
        (∀ count < fed.length, KeepsOn (fed.take count)) ∧
        (passed = [] ∨ ¬KeepsOn fed) := by
  induction blocks generalizing KeepsOn with
  | nil => exact ⟨[], [], rfl, fun count hcount => absurd hcount (Nat.not_lt_zero count), .inl rfl⟩
  | cons block blocks ih =>
      by_cases hnone : KeepsOn []
      · obtain ⟨fed, passed, rfl, hfed, hpassed⟩ := ih fun front => KeepsOn (block :: front)
        refine ⟨block :: fed, passed, rfl, ?_, hpassed⟩
        intro count hcount
        cases count with
        | zero => exact hnone
        | succ count => exact hfed count (Nat.lt_of_succ_lt_succ hcount)
      · exact ⟨[], block :: blocks, rfl, fun count hcount => absurd hcount (Nat.not_lt_zero count),
          .inr hnone⟩

def payloads (blocks : List SubBlock) : Bytes :=
  blocks.flatMap SubBlock.payload

theorem payloads_cons (block : SubBlock) (blocks : List SubBlock) :
    payloads (block :: blocks) = block.payload ++ payloads blocks :=
  rfl

theorem payloads_singleton (block : SubBlock) : payloads [block] = block.payload :=
  List.append_nil _

/-- Whether the blocks are fed one after the other: before each of them, those in front leave
something to be decompressed. -/
def Fed
    (decompressor : Lzw.Decompressor)
    (pixels : Nat)
    (blocks : List SubBlock)
    (buffer : Array UInt8) :
    Prop :=
  ∀ count < blocks.length, decompressor.KeepsOn pixels (payloads (blocks.take count)) buffer

section Feeding

variable {pixels : Nat} {decompressor following : Lzw.Decompressor} {buffer longer : Array UInt8}

/-- A block that is fed finds the stream open. -/
theorem Fed.finds_open
    {block : SubBlock}
    {blocks : List SubBlock}
    (h : Fed decompressor pixels (block :: blocks) buffer)
    (hdrained : decompressor.IsDrained buffer) :
    decompressor.isDone = false ∧ buffer.size ≤ pixels :=
  (Lzw.Decompressor.keepsOn_nil_iff hdrained).mp (h 0 (Nat.succ_pos _))

/-- A block with another one behind it that is fed leaves something to be decompressed. -/
theorem Fed.keepsOn_head
    {block next : SubBlock}
    {blocks : List SubBlock}
    (h : Fed decompressor pixels (block :: next :: blocks) buffer) :
    decompressor.KeepsOn pixels block.payload buffer := by
  have hkeeps := h 1 (Nat.succ_lt_succ (Nat.succ_pos _))
  rwa [List.take_succ_cons, List.take_zero, payloads_singleton] at hkeeps

/-- The blocks behind a block that did not fail are fed to what it left. -/
theorem Fed.tail
    {block : SubBlock}
    {blocks : List SubBlock}
    (h : Fed decompressor pixels (block :: blocks) buffer)
    (hblock : decompressor.decompress block.payload buffer = ⟨none, following, longer⟩) :
    Fed following pixels blocks longer := by
  intro count hcount
  have hkeeps := h (count + 1) (Nat.succ_lt_succ hcount)
  rw [List.take_succ_cons, payloads_cons] at hkeeps
  exact (Lzw.Decompressor.keepsOn_append_iff hblock _).mp hkeeps

/-- The indices of blocks that are fed are those of their bytes given at once. -/
theorem decodeBlocks_append
    {fed : List SubBlock}
    (h : Fed decompressor pixels fed buffer)
    (hdrained : decompressor.IsDrained buffer)
    (others : List SubBlock) :
    decodeBlocks pixels decompressor buffer ((fed ++ others).map SubBlock.payload) =
      let outcome := decompressor.decompress (payloads fed) buffer
      match outcome.failure with
      | some cause => .error cause
      | none =>
          decodeBlocks pixels outcome.decompressor outcome.buffer
            (others.map SubBlock.payload) := by
  induction fed generalizing decompressor buffer with
  | nil =>
      have hnothing : decompressor.decompress (payloads []) buffer = ⟨none, decompressor, buffer⟩ :=
        hdrained
      rw [hnothing]
      rfl
  | cons block fed ih =>
      obtain ⟨hopen, hsize⟩ := h.finds_open hdrained
      have hmore : ¬(decompressor.isDone = true ∨ pixels < buffer.size) := by
        simp only [hopen, Bool.false_eq_true, false_or]
        omega
      rw [List.cons_append, List.map_cons, decodeBlocks, if_neg hmore, payloads_cons,
        Lzw.Decompressor.decompress_append]
      cases hblock : decompressor.decompress block.payload buffer with
      | mk failure following longer =>
          cases failure with
          | some cause => rfl
          | none =>
              exact ih (h.tail hblock) (Lzw.Decompressor.isDrained_of_decompress hblock)

/-- A block that leaves something to be decompressed is absorbed, and all its indices are kept. -/
theorem absorb_of_keepsOn
    {block : Bytes}
    (hopen : decompressor.isDone = false)
    (hkeeps : decompressor.KeepsOn pixels block buffer)
    (hblock : decompressor.decompress block buffer = ⟨none, following, longer⟩) :
    IndexStream.absorb ⟨decompressor, buffer, false⟩ pixels block =
      .ok ⟨following, longer, false⟩ := by
  have hsize := hkeeps.2.2
  rw [hblock] at hsize
  simp [IndexStream.absorb, IndexStream.isClosed, hopen, hblock, Nat.not_lt_of_le hsize]

/-- A block that fails is not absorbed. -/
theorem absorb_of_failure
    {block : Bytes}
    {cause : Error}
    (hopen : decompressor.isDone = false)
    (hfails : (decompressor.decompress block buffer).failure = some cause) :
    IndexStream.absorb ⟨decompressor, buffer, false⟩ pixels block = .error cause := by
  simp [IndexStream.absorb, IndexStream.isClosed, hopen, hfails]

/-- Blocks that are fed fail in the last of them, and the ones in front are passed through. -/
theorem passes_of_failure
    (limit : PixelLimit)
    (outline : Outline)
    {fed : List SubBlock}
    {cause : Error}
    (h : Fed decompressor outline.image.pixels fed buffer)
    (hdrained : decompressor.IsDrained buffer)
    (hfails : (decompressor.decompress (payloads fed) buffer).failure = some cause) :
    ∃ front last stream,
      fed = front ++ [last] ∧
        (∀ position,
          Passes (Phase.step limit) (.imageData outline ⟨decompressor, buffer, false⟩) position
            (front.flatMap SubBlock.toBytes) (.imageData outline stream)) ∧
        stream.absorb outline.image.pixels last.payload = .error cause := by
  induction fed generalizing decompressor buffer with
  | nil =>
      have hnothing : decompressor.decompress (payloads []) buffer = ⟨none, decompressor, buffer⟩ :=
        hdrained
      rw [hnothing] at hfails
      exact absurd hfails.symm (Option.some_ne_none cause)
  | cons block fed ih =>
      obtain ⟨hopen, -⟩ := h.finds_open hdrained
      cases fed with
      | nil =>
          rw [payloads_singleton] at hfails
          exact ⟨[], block, _, rfl, fun position => .refl _ _, absorb_of_failure hopen hfails⟩
      | cons next fed =>
          have hkeeps := h.keepsOn_head
          obtain ⟨following, longer, hblock⟩ : ∃ following longer,
              decompressor.decompress block.payload buffer = ⟨none, following, longer⟩ :=
            ⟨_, _, congrArg (fun failure => (⟨failure, _, _⟩ : Lzw.Decompressor.Outcome)) hkeeps.1⟩
          rw [payloads_cons, Lzw.Decompressor.decompress_append, hblock] at hfails
          obtain ⟨front, last, stream, hfront, hpasses, hlast⟩ :=
            ih (h.tail hblock) (Lzw.Decompressor.isDrained_of_decompress hblock) hfails
          refine ⟨block :: front, last, stream, congrArg (block :: ·) hfront, ?_, hlast⟩
          intro position
          have habsorb := absorb_of_keepsOn hopen hkeeps hblock
          refine .next ?_ (hpasses _)
          exact reads_readDataBlock_iff.mpr (.inl ⟨block, _, rfl, habsorb, rfl⟩)

end Feeding

namespace Body

variable {limit : PixelLimit} {preamble : Preamble} {control : Option GraphicControl}

/-- The stored form up to the blocks of image data. -/
def frontToBytes (body : Body) : Bytes :=
  imageFront body.image body.localTable (UInt8.ofNat body.codeSize.bits)

theorem imageToBytes_eq (body : Body) :
    body.imageToBytes = body.frontToBytes ++ SubBlock.listToBytes body.blocks := by
  simp only [imageToBytes, frontToBytes, imageFront, List.cons_append, List.append_assoc,
    List.nil_append]

/-- Whether an image leads to the result wherever it stands in an input, and exactly the given
bytes are read for it. -/
def LeadsTo
    (limit : PixelLimit)
    (preamble : Preamble)
    (control : Option GraphicControl)
    (body : Body)
    (result : Except Error Picture)
    (taken : Bytes) :
    Prop :=
  ∀ (input : Input) (tail : Bytes),
    input.source.Steady →
      input.source.pending = body.imageToBytes ++ tail →
        ∃ rest,
          decodeFrom limit (.blocks preamble control) input = (result, rest) ∧
            input.Advances taken rest

/-- Whether what comes of an image is told by some of its blocks: if their bytes cannot be
decompressed, decoding fails at the end of the last of them, and otherwise it ends behind the
whole image with as many of their indices as there are pixels. -/
def ComesOf
    (limit : PixelLimit)
    (preamble : Preamble)
    (control : Option GraphicControl)
    (body : Body)
    (fed : List SubBlock) :
    Prop :=
  let outcome := (Lzw.Decompressor.initial body.codeSize).decompress (payloads fed) #[]
  match outcome.failure with
  | some cause =>
      body.LeadsTo limit preamble control (.error cause)
        (body.frontToBytes ++ fed.flatMap SubBlock.toBytes)
  | none =>
      body.LeadsTo limit preamble control
        (.ok (body.picture preamble control (outcome.buffer.take body.image.pixels)))
        body.imageToBytes

theorem leadsTo_of_indices
    {body : Body}
    {indices : Array UInt8}
    (hallows : limit.allows body.image.pixels)
    (hindices : body.indices = .ok indices) :
    body.LeadsTo limit preamble control (.ok (body.picture preamble control indices))
      body.imageToBytes :=
  fun _ _ hsteady hpending =>
    repeatUntil_of_readsUntil (readsUntil_image body hallows hindices) hsteady rfl hpending

/-- The picture of an image of which only the indices are missing. -/
def outline (preamble : Preamble) (control : Option GraphicControl) (body : Body) : Outline :=
  ⟨preamble, control, body.image, body.localTable, UInt8.ofNat body.codeSize.bits⟩

/-- An image is read up to its blocks. -/
theorem reads_frontToBytes
    (body : Body)
    (hallows : limit.allows body.image.pixels)
    (position : Nat) :
    (Phase.step limit (.blocks preamble control)).Reads position body.frontToBytes
      (.inl (.imageData (body.outline preamble control) (.initial (.initial body.codeSize)))) :=
  reads_readBlock_iff.mpr
    (.inl ⟨body.image, body.localTable, body.codeSize, body.localTable_fits, hallows, rfl, rfl⟩)

section Fed

variable {body : Body} {fed passed : List SubBlock}

/-- If the blocks that are fed fail, the image is read up to the last of them. -/
theorem leadsTo_of_failure
    (hallows : limit.allows body.image.pixels)
    (hblocks : body.blocks = fed ++ passed)
    (hfed : Fed (.initial body.codeSize) body.image.pixels fed #[])
    {cause : Error}
    (hfails : ((Lzw.Decompressor.initial body.codeSize).decompress (payloads fed) #[]).failure =
      some cause) :
    body.LeadsTo limit preamble control (.error cause)
      (body.frontToBytes ++ fed.flatMap SubBlock.toBytes) := by
  obtain ⟨front, last, stream, rfl, hpasses, hlast⟩ :=
    passes_of_failure limit (body.outline preamble control) hfed
      (Lzw.Decompressor.isDrained_initial _ _) hfails
  intro input tail hsteady hpending
  have hfront := Passes.next (reads_frontToBytes body hallows input.consumed) (hpasses _)
  have hbytes : input.source.pending =
      body.frontToBytes ++ front.flatMap SubBlock.toBytes ++
        (last.toBytes ++ (SubBlock.listToBytes passed ++ tail)) := by
    rw [hpending, imageToBytes_eq, hblocks]
    simp only [SubBlock.listToBytes, List.flatMap_append, List.flatMap_singleton,
      List.append_assoc]
  obtain ⟨rest, hdecode, hadvances⟩ :=
    repeatUntil_of_fails hfront (fun _ => fails_readDataBlock_iff.mpr ⟨last, rfl, hlast⟩)
      hsteady hbytes
  refine ⟨rest, hdecode, ?_⟩
  rw [List.flatMap_append, List.flatMap_singleton, ← List.append_assoc]
  exact hadvances

/-- If they do not fail, and those behind them are passed over, the indices are theirs. -/
theorem indices_of_fed
    (hblocks : body.blocks = fed ++ passed)
    (hfed : Fed (.initial body.codeSize) body.image.pixels fed #[])
    (hpassed : passed = [] ∨
      ¬(Lzw.Decompressor.initial body.codeSize).KeepsOn body.image.pixels (payloads fed) #[])
    {following : Lzw.Decompressor}
    {indices : Array UInt8}
    (hwhole : (Lzw.Decompressor.initial body.codeSize).decompress (payloads fed) #[] =
      ⟨none, following, indices⟩) :
    body.indices = .ok (indices.take body.image.pixels) := by
  have hdecoded := decodeBlocks_append hfed (Lzw.Decompressor.isDrained_initial _ _) passed
  rw [← hblocks, hwhole] at hdecoded
  refine hdecoded.trans ?_
  change decodeBlocks _ following indices _ = _
  cases passed with
  | nil => rfl
  | cons block blocks =>
      have hstop : following.isDone = true ∨ body.image.pixels < indices.size := by
        rcases hpassed with hnil | hkeeps
        · exact absurd hnil (List.cons_ne_nil _ _)
        · unfold Lzw.Decompressor.KeepsOn at hkeeps
          rw [hwhole] at hkeeps
          by_cases hdone : following.isDone = true
          · exact .inl hdone
          · refine .inr (Nat.lt_of_not_le fun hle => hkeeps ⟨rfl, ?_, hle⟩)
            exact Bool.eq_false_iff.mpr hdone
      rw [List.map_cons, decodeBlocks, if_pos hstop]

/-- The blocks that are fed tell what comes of an image, if those behind them are passed over. -/
theorem comesOf_fed
    (hallows : limit.allows body.image.pixels)
    (hblocks : body.blocks = fed ++ passed)
    (hfed : Fed (.initial body.codeSize) body.image.pixels fed #[])
    (hpassed : passed = [] ∨
      ¬(Lzw.Decompressor.initial body.codeSize).KeepsOn body.image.pixels (payloads fed) #[]) :
    body.ComesOf limit preamble control fed := by
  unfold ComesOf
  cases hwhole : (Lzw.Decompressor.initial body.codeSize).decompress (payloads fed) #[] with
  | mk failure following indices =>
      cases failure with
      | some cause =>
          exact leadsTo_of_failure hallows hblocks hfed (congrArg (·.failure) hwhole)
      | none =>
          exact leadsTo_of_indices hallows (indices_of_fed hblocks hfed hpassed hwhole)

end Fed

/-- If the bytes of the blocks are decompressed without a failure, up to their end or to the end
code, the indices are theirs. -/
theorem indices_of_payloads
    {body : Body}
    {front behind : Bytes}
    {following : Lzw.Decompressor}
    {indices : Array UInt8}
    (hpayloads : payloads body.blocks = front ++ behind)
    (hfront : (Lzw.Decompressor.initial body.codeSize).decompress front #[] =
      ⟨none, following, indices⟩)
    (hbehind : behind = [] ∨ following.isDone = true) :
    body.indices = .ok (indices.take body.image.pixels) := by
  have hwhole : (Lzw.Decompressor.initial body.codeSize).decompress (payloads body.blocks) #[] =
      ⟨none, following, indices⟩ := by
    rw [hpayloads, Lzw.Decompressor.decompress_append, hfront]
    rcases hbehind with rfl | hdone
    · exact Lzw.Decompressor.isDrained_of_decompress hfront
    · exact Lzw.Decompressor.decompress_of_isDone hdone _ _
  rw [payloads, List.flatMap_def] at hwhole
  exact decodeBlocks_of_decompress (Lzw.Decompressor.isDrained_initial _ _) hwhole

/-- The rule of the blocks of image data.  They are fed up to one that leaves nothing to be
decompressed or gives more indices than there are pixels, and those that are fed tell what comes
of the image, whatever stands in the blocks behind them.

So if their bytes are decompressed without a failure, it makes no difference how they are
divided into blocks and what stands behind the end code. -/
theorem comesOf_blocks
    (body : Body)
    (hallows : limit.allows body.image.pixels) :
    let start := Lzw.Decompressor.initial body.codeSize
    (∃ fed passed,
      body.blocks = fed ++ passed ∧
        (∀ count < fed.length,
          start.KeepsOn body.image.pixels (payloads (fed.take count)) #[]) ∧
        (passed = [] ∨ ¬start.KeepsOn body.image.pixels (payloads fed) #[]) ∧
        body.ComesOf limit preamble control fed ∧
        (¬start.KeepsOn body.image.pixels (payloads fed) #[] →
          ∀ others,
            ({ body with blocks := fed ++ others } : Body).ComesOf limit preamble control fed)) ∧
      ∀ front behind blocks,
        let outcome := start.decompress front #[]
        let divided : Body := { body with blocks }
        outcome.failure = none →
          behind = [] ∨ outcome.decompressor.isDone = true →
            payloads blocks = front ++ behind →
              divided.LeadsTo limit preamble control
                (.ok (body.picture preamble control (outcome.buffer.take body.image.pixels)))
                divided.imageToBytes := by
  intro start
  constructor
  · obtain ⟨fed, passed, hblocks, hfed, hpassed⟩ :=
      exists_fed (fun front => start.KeepsOn body.image.pixels (payloads front) #[]) body.blocks
    refine ⟨fed, passed, hblocks, hfed, hpassed, comesOf_fed hallows hblocks hfed hpassed, ?_⟩
    intro hstop others
    exact comesOf_fed hallows rfl hfed (.inr hstop)
  · intro front behind blocks outcome divided hnone hbehind hpayloads
    have houtcome : start.decompress front #[] = ⟨none, outcome.decompressor, outcome.buffer⟩ :=
      congrArg (fun failure => (⟨failure, _, _⟩ : Lzw.Decompressor.Outcome)) hnone
    exact leadsTo_of_indices hallows (indices_of_payloads hpayloads houtcome hbehind)

/-- An image of a single pixel in two blocks, with a third one behind the end code. -/
theorem comesOf_blocks_of_single_pixel :
    let body : Body := {
      extensions := []
      image := ⟨0, 0, 1, 1, 0⟩
      localTable := none
      codeSize := ⟨2, by decide, by decide⟩
      blocks := [⟨[0x4C], by decide, by decide⟩, ⟨[0x01], by decide, by decide⟩,
        ⟨[0xFF, 0xFF], by decide, by decide⟩]
      localTable_fits := rfl }
    let preamble : Preamble := ⟨supportedVersion, ⟨1, 1, 0, 0, 0⟩, none⟩
    PixelLimit.allows (some 1) body.image.pixels ∧
      (∃ fed passed,
        body.blocks = fed ++ passed ∧ body.ComesOf (some 1) preamble none fed) ∧
      body.LeadsTo (some 1) preamble none (.ok (body.picture preamble none #[1]))
        body.imageToBytes := by
  intro body preamble
  have hallows : PixelLimit.allows (some 1) body.image.pixels := by decide
  obtain ⟨⟨fed, passed, hblocks, -, -, hcomes, -⟩, hdivided⟩ :=
    @comesOf_blocks (some 1) preamble none body hallows
  let outcome := (Lzw.Decompressor.initial body.codeSize).decompress [0x4C, 0x01] #[]
  have hnone : outcome.failure = none := by
    unfold outcome body
    cbv
  have hdone : outcome.decompressor.isDone = true := by
    unfold outcome body
    cbv
  have hbuffer : outcome.buffer.take body.image.pixels = #[1] := by
    unfold outcome body
    cbv
  have hwhole := hdivided [0x4C, 0x01] [0xFF, 0xFF] body.blocks hnone (.inr hdone) rfl
  rw [hbuffer] at hwhole
  exact ⟨hallows, ⟨fed, passed, hblocks, hcomes⟩, hwhole⟩

end Body
end Gif
end GifBitmap

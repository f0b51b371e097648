import Mathlib.Data.List.OfFn
import GifBitmap.Lzw.Decompressor
import GifBitmap.Proofs.Lzw.PhraseDecoder
import GifBitmap.Proofs.Lzw.Phrases

/-!
# Decompression refines the plain decoder

The expander keeps chains of entries where the plain decoder keeps whole phrases, and
the decompressor keeps a buffer of bits where the plain decoder has one flat string.
`Table.Represents` and `Simulates` say when the two states belong together; one code
keeps them together (`step_cases`), and so does a piece of input of any length
(`decompress_of_simulates`).

Codes from 256 on that stand for a single index are the one difference: the entry holds
only the lowest byte of the index.  No such code is ever taken, so `Represents` says
nothing about them.
-/

namespace GifBitmap
namespace Lzw

/-- Whether a code may stand for a phrase of bytes: it is neither the clear code nor the
end code, and no single index above 255. -/
def CodeSize.NamesPhrase (size : CodeSize) (code : Nat) : Prop :=
  (code < size.clearCode ∧ code ≤ 255) ∨ size.firstFree ≤ code

namespace Table

/-- Whether a table stands for a list of phrases. -/
structure Represents (table : Table) (size : CodeSize) (phrases : List (List Nat)) : Prop where
  next_eq : table.next = phrases.length
  firstFree_le : size.firstFree ≤ table.next
  reset_eq : table.reset size = initial size
  phrase_eq : ∀ {code : Nat}, size.NamesPhrase code → code < table.next →
    phrases[code]? = some ((table.phrase code).map UInt8.toNat)
  head_eq : ∀ {code : Nat}, size.NamesPhrase code → code < table.next →
    (table.phrase code).head? = some (table.first code)

namespace Represents

variable {table : Table} {size : CodeSize} {phrases : List (List Nat)}

theorem entries_eq
    (h : table.Represents size phrases)
    {code : Nat}
    (hcode : code < size.firstFree) :
    table.entries[code]? = (initial size).entries[code]? :=
  entries_of_reset h.firstFree_le h.reset_eq hcode

/-- The code of a single index stands for it as long as it fits a byte. -/
theorem phrase_of_literal
    (h : table.Represents size phrases)
    {code : Nat}
    (hcode : code < size.clearCode) :
    table.phrase code = [UInt8.ofNat code] := by
  rw [← phrase_initial_of_lt hcode]
  refine phraseBefore_congr (fun slot hslot => h.entries_eq ?_) []
  unfold CodeSize.firstFree
  omega

theorem initial (size : CodeSize) :
    (initial size).Represents size (PhraseDecoder.initialPhrases size.bits) where
  next_eq := by
    rw [next_initial, PhraseDecoder.length_initialPhrases]
    rfl
  firstFree_le := Nat.le_of_eq (next_initial size).symm
  reset_eq := reset_initial
  phrase_eq := by
    intro code hnames hcode
    rw [next_initial] at hcode
    rcases hnames with ⟨hclear, hbyte⟩ | hfree
    · have hvalue : (UInt8.ofNat code).toNat = code := by
        rw [UInt8.toNat_ofNat']
        omega
      rw [PhraseDecoder.getElem?_initialPhrases hclear, phrase_initial_of_lt hclear,
        List.map_singleton, hvalue]
    · omega
  head_eq := by
    intro code hnames hcode
    rw [next_initial] at hcode
    rcases hnames with ⟨hclear, -⟩ | hfree
    · rw [phrase_initial_of_lt hclear, first_initial_of_lt hclear]
      rfl
    · omega

theorem take_one_phrase
    (h : table.Represents size phrases)
    {code : Nat}
    (hnames : size.NamesPhrase code)
    (hcode : code < table.next) :
    ((table.phrase code).map UInt8.toNat).take 1 = [(table.first code).toNat] := by
  have hhead := h.head_eq hnames hcode
  cases hphrase : table.phrase code with
  | nil =>
      rw [hphrase] at hhead
      simp at hhead
  | cons index rest =>
      rw [hphrase] at hhead
      simp only [List.head?_cons, Option.some.injEq] at hhead
      simp [hhead]

/-- An assignment adds the phrase of one code, followed by the first index of another. -/
theorem push
    (h : table.Represents size phrases)
    {previous source : Nat}
    (hprevious : size.NamesPhrase previous)
    (hprevious_lt : previous < table.next)
    (hsource : size.NamesPhrase source)
    (hsource_lt : source < table.next)
    (hroom : table.next < maxEntries) :
    (table.push previous (table.first source)).Represents size
      (phrases ++
        [(table.phrase previous).map UInt8.toNat ++
          ((table.phrase source).map UInt8.toNat).take 1]) where
  next_eq := by
    rw [next_push_of_lt hroom, h.next_eq, List.length_append]
    rfl
  firstFree_le := by
    have hfree := h.firstFree_le
    rw [next_push_of_lt hroom]
    omega
  reset_eq := by
    rw [reset_push h.firstFree_le, h.reset_eq]
  phrase_eq := by
    intro code hnames hcode
    rw [next_push_of_lt hroom] at hcode
    by_cases hold : code < table.next
    · have hlength : code < phrases.length := h.next_eq ▸ hold
      rw [List.getElem?_append_left hlength, h.phrase_eq hnames hold, phrase_push_of_lt hold]
    · have hnew : code = table.next := by omega
      subst hnew
      rw [phrase_push_next hroom hprevious_lt, h.take_one_phrase hsource hsource_lt, h.next_eq,
        List.getElem?_concat_length, List.map_append, List.map_singleton]
  head_eq := by
    intro code hnames hcode
    rw [next_push_of_lt hroom] at hcode
    by_cases hold : code < table.next
    · rw [phrase_push_of_lt hold, first_push_of_lt hold, h.head_eq hnames hold]
    · have hnew : code = table.next := by omega
      subst hnew
      rw [phrase_push_next hroom hprevious_lt, first_push_next hroom, List.head?_append,
        h.head_eq hprevious hprevious_lt]
      rfl

end Represents
end Table

/-- Whether an expander and a plain decoder are in the same state. -/
structure Simulates (expander : Expander) (decoder : PhraseDecoder) : Prop where
  represents : expander.table.Represents expander.size decoder.phrases
  width_eq : expander.width.bits = decoder.width
  previous_eq : expander.previous = decoder.previous
  named : ∀ {code : Nat}, expander.previous = some code →
    expander.size.NamesPhrase code ∧ code < expander.table.next

namespace Simulates

variable {expander : Expander} {decoder : PhraseDecoder}

/-- Both decoders start in the same state. -/
theorem initial (size : CodeSize) :
    Simulates (.initial size) (.initial size.bits) where
  represents := .initial size
  width_eq := rfl
  previous_eq := rfl
  named := by simp [Expander.initial]

theorem clear (h : Simulates expander decoder) :
    Simulates expander.clear (.initial expander.size.bits) where
  represents := by
    simp only [Expander.clear]
    rw [h.represents.reset_eq]
    exact .initial expander.size
  width_eq := rfl
  previous_eq := rfl
  named := by simp [Expander.clear]

theorem phrase_eq
    (h : Simulates expander decoder)
    {code : Nat}
    (hnames : expander.size.NamesPhrase code)
    (hcode : code < expander.table.next) :
    decoder.phrase code = (expander.table.phrase code).map UInt8.toNat := by
  rw [PhraseDecoder.phrase, h.represents.phrase_eq hnames hcode]
  rfl

/-- Both sides make the same assignment, or none when the table is full. -/
theorem represents_push
    (h : Simulates expander decoder)
    {previous source : Nat}
    (hprevious : expander.previous = some previous)
    (hsource : expander.size.NamesPhrase source)
    (hsource_lt : source < expander.table.next) :
    (expander.table.push previous (expander.table.first source)).Represents expander.size
      (decoder.assign (decoder.phrase previous ++ (decoder.phrase source).take 1)).phrases := by
  obtain ⟨hnamed, hlt⟩ := h.named hprevious
  have hnext := h.represents.next_eq
  by_cases hroom : expander.table.next < maxEntries
  · rw [PhraseDecoder.phrases_assign_of_lt (by rw [← hnext]; exact hroom),
      h.phrase_eq hnamed hlt, h.phrase_eq hsource hsource_lt]
    exact h.represents.push hnamed hlt hsource hsource_lt hroom
  · have hfull : maxEntries ≤ expander.table.next := Nat.le_of_not_lt hroom
    rw [PhraseDecoder.assign_of_le (by rw [← hnext]; exact hfull),
      Table.push_of_isFull hfull]
    exact h.represents

/-- Both sides widen their codes at the same time. -/
theorem width_widthAfter
    (h : Simulates expander decoder)
    (entry : List Nat) :
    expander.widthAfter.bits = (decoder.assign entry).width := by
  have hnext := h.represents.next_eq
  have hwidth := h.width_eq
  have hmax : decoder.width ≤ 12 := by
    rw [← hwidth]
    exact expander.width.le_max
  have hcodes : 0 < 2 ^ decoder.width ∧ 2 ^ decoder.width ≤ 4096 :=
    ⟨Nat.two_pow_pos _, Nat.pow_le_pow_right Nat.two_pos hmax⟩
  unfold Expander.widthAfter Width.codes
  rw [hwidth, hnext]
  by_cases hroom : decoder.phrases.length < 4096
  · rw [PhraseDecoder.width_assign_of_lt hroom, PhraseDecoder.widthAfterEntry]
    by_cases hlast : decoder.phrases.length + 1 = 2 ^ decoder.width
    · rw [if_pos hlast]
      have hgrow : expander.width.grow.bits = min 12 (decoder.width + 1) := by
        rw [← hwidth]
        rfl
      rw [hgrow]
      split <;> omega
    · rw [if_neg hlast, if_neg (by omega), hwidth]
  · rw [PhraseDecoder.assign_of_le (by omega), if_neg (by omega), hwidth]

end Simulates

/-- Whether an expander does with a code what an action of the plain decoder says. -/
def Expander.Performs (expander : Expander) (code : Nat) : PhraseDecoder.Action → Prop
  | .emit next indices =>
      ∃ after appended,
        expander.step code = .ok (after, appended) ∧
          appended.map UInt8.toNat = indices ∧
          Simulates after next ∧
          after.size = expander.size ∧
          after.finished = expander.finished
  | .finish => expander.step code = .ok (expander.finish, [])
  | .fail cause => expander.step code = .error cause

namespace Simulates

variable {expander : Expander} {decoder : PhraseDecoder}

/-- A code after the start or a clear code has to stand for a single index. -/
theorem performs_first
    (h : Simulates expander decoder)
    {code : Nat}
    (hnone : expander.previous = none)
    (hclear : code ≠ expander.size.clearCode)
    (hend : code ≠ expander.size.endCode)
    (hbyte : ¬(256 ≤ code ∧ code < expander.size.clearCode)) :
    expander.Performs code
      (if code < expander.size.clearCode then
        .emit (decoder.remember code) [code]
      else
        .fail (.undefinedCode code decoder.phrases.length)) := by
  have hstep : expander.step code = expander.expand code := by
    rw [Expander.step, if_neg hclear, if_neg hend, if_neg (by omega)]
  by_cases hliteral : code < expander.size.clearCode
  · have hnames : expander.size.NamesPhrase code := .inl ⟨hliteral, by omega⟩
    have hfree := h.represents.firstFree_le
    have hlt : code < expander.table.next := by
      unfold CodeSize.firstFree at hfree
      omega
    have hvalue : (UInt8.ofNat code).toNat = code := by
      rw [UInt8.toNat_ofNat']
      omega
    rw [if_pos hliteral]
    refine ⟨{ expander with previous := some code }, expander.table.phrase code, ?_, ?_, ?_,
      rfl, rfl⟩
    · rw [hstep, Expander.expand, hnone]
      exact if_pos hliteral
    · rw [h.represents.phrase_of_literal hliteral, List.map_singleton, hvalue]
    · refine ⟨h.represents, h.width_eq, rfl, ?_⟩
      intro found hfound
      simp only [Option.some.injEq] at hfound
      subst hfound
      exact ⟨hnames, hlt⟩
  · rw [if_neg hliteral]
    change expander.step code = .error _
    rw [hstep, Expander.expand, hnone, ← h.represents.next_eq]
    exact if_neg hliteral

theorem after_expand
    (h : Simulates expander decoder)
    {previous code source : Nat}
    (hprevious : expander.previous = some previous)
    (hnames : expander.size.NamesPhrase code)
    (hcode : code ≤ expander.table.next)
    (hmax : code < maxEntries)
    (hsource : expander.size.NamesPhrase source)
    (hsource_lt : source < expander.table.next) :
    Simulates
      { expander with
        table := expander.table.push previous (expander.table.first source)
        width := expander.widthAfter
        previous := some code }
      ((decoder.assign
        (decoder.phrase previous ++ (decoder.phrase source).take 1)).remember code) where
  represents := h.represents_push hprevious hsource hsource_lt
  width_eq := h.width_widthAfter _
  previous_eq := rfl
  named := by
    intro found hfound
    simp only [Option.some.injEq] at hfound
    subst hfound
    refine ⟨hnames, ?_⟩
    by_cases hroom : expander.table.next < maxEntries
    · change code < (expander.table.push _ _).next
      rw [Table.next_push_of_lt hroom]
      omega
    · change code < (expander.table.push _ _).next
      rw [Table.push_of_isFull (Nat.le_of_not_lt hroom)]
      omega

/-- A code after another one stands for a phrase, or for the one that is just being
assigned. -/
theorem performs_next
    (h : Simulates expander decoder)
    {previous code : Nat}
    (hprevious : expander.previous = some previous)
    (hnames : expander.size.NamesPhrase code)
    (hclear : code ≠ expander.size.clearCode)
    (hend : code ≠ expander.size.endCode)
    (hbyte : ¬(256 ≤ code ∧ code < expander.size.clearCode))
    (hmax : code < maxEntries) :
    expander.Performs code
      (let before := decoder.phrase previous
      if code < decoder.phrases.length then
        let found := decoder.phrase code
        .emit ((decoder.assign (before ++ found.take 1)).remember code) found
      else if code = decoder.phrases.length then
        let found := before ++ before.take 1
        .emit ((decoder.assign found).remember code) found
      else
        .fail (.undefinedCode code decoder.phrases.length)) := by
  have hnext := h.represents.next_eq
  obtain ⟨hnamed, hlt⟩ := h.named hprevious
  have hstep : expander.step code = expander.expand code := by
    rw [Expander.step, if_neg hclear, if_neg hend, if_neg (by omega)]
  rw [← hnext]
  rcases Nat.lt_trichotomy code expander.table.next with hold | hfree | hbeyond
  · simp only [if_pos hold]
    refine ⟨_, (expander.table.push previous (expander.table.first code)).phrase code, ?_, ?_,
      h.after_expand hprevious hnames (Nat.le_of_lt hold) hmax hnames hold, rfl, rfl⟩
    · rw [hstep, Expander.expand, hprevious]
      simp only [if_pos (Nat.le_of_lt hold), Expander.tableAfter, if_pos hold]
    · rw [Table.phrase_push_of_lt hold, h.phrase_eq hnames hold]
  · -- the phrase is that of the entry which the same code makes
    have hroom : expander.table.next < maxEntries := hfree ▸ hmax
    rw [if_neg (by omega), if_pos hfree]
    refine ⟨_, (expander.table.push previous (expander.table.first previous)).phrase code,
      ?_, ?_,
      h.after_expand hprevious hnames (Nat.le_of_eq hfree) hmax hnamed hlt, rfl, rfl⟩
    · rw [hstep, Expander.expand, hprevious]
      simp only [if_pos (Nat.le_of_eq hfree), Expander.tableAfter,
        if_neg (Nat.not_lt_of_le (Nat.le_of_eq hfree.symm))]
    · rw [hfree, Table.phrase_push_next hroom hlt, List.map_append, h.phrase_eq hnamed hlt,
        h.represents.take_one_phrase hnamed hlt]
      rfl
  · rw [if_neg (by omega), if_neg (by omega)]
    change expander.step code = .error _
    rw [hstep, Expander.expand, hprevious]
    exact if_neg (by omega)

/-- One code keeps both sides together. -/
theorem performs_step
    (h : Simulates expander decoder)
    {code : Nat}
    (hmax : code < maxEntries) :
    expander.Performs code (decoder.step expander.size.bits code) := by
  have hclearCode : 2 ^ expander.size.bits = expander.size.clearCode := rfl
  have hendCode : expander.size.clearCode + 1 = expander.size.endCode := rfl
  rw [PhraseDecoder.step, hclearCode, hendCode]
  by_cases hclear : code = expander.size.clearCode
  · rw [if_pos hclear]
    refine ⟨expander.clear, [], ?_, rfl, h.clear, rfl, rfl⟩
    rw [Expander.step, if_pos hclear]
  · rw [if_neg hclear]
    by_cases hend : code = expander.size.endCode
    · rw [if_pos hend]
      change expander.step code = .ok (expander.finish, [])
      rw [Expander.step, if_neg hclear, if_pos hend]
    · rw [if_neg hend]
      by_cases hbyte : 256 ≤ code ∧ code < expander.size.clearCode
      · rw [if_pos hbyte]
        change expander.step code = .error (.indexOutOfRange code)
        rw [Expander.step, if_neg hclear, if_neg hend, if_pos (by omega)]
      · rw [if_neg hbyte, ← h.previous_eq]
        cases hprevious : expander.previous with
        | none => exact h.performs_first hprevious hclear hend hbyte
        | some previous =>
            have hnames : expander.size.NamesPhrase code := by
              unfold CodeSize.endCode at hend
              unfold CodeSize.NamesPhrase CodeSize.firstFree
              omega
            exact h.performs_next hprevious hnames hclear hend hbyte hmax

/-- A code that the expander cannot decode has no meaning for the plain decoder either. -/
theorem step_of_error
    (h : Simulates expander decoder)
    {code : Nat}
    (hmax : code < maxEntries)
    {failure : Error}
    (hstep : expander.step code = .error failure) :
    decoder.step expander.size.bits code = .fail failure := by
  have hperforms := h.performs_step hmax
  cases haction : decoder.step expander.size.bits code with
  | emit next indices =>
      rw [haction] at hperforms
      obtain ⟨after, appended, hok, -⟩ := hperforms
      exact absurd (hstep.symm.trans hok) (by simp)
  | finish =>
      rw [haction] at hperforms
      exact absurd (hstep.symm.trans hperforms) (by simp)
  | fail cause =>
      rw [haction] at hperforms
      rw [Except.error.inj (hstep.symm.trans hperforms)]

/-- A code that the expander decodes gives the plain decoder the same indices, or ends the
data for both. -/
theorem step_of_ok
    (h : Simulates expander decoder)
    {code : Nat}
    (hmax : code < maxEntries)
    {after : Expander}
    {appended : List UInt8}
    (hstep : expander.step code = .ok (after, appended)) :
    (∃ next,
      decoder.step expander.size.bits code = .emit next (appended.map UInt8.toNat) ∧
        Simulates after next ∧
        after.size = expander.size ∧
        after.finished = expander.finished) ∨
      decoder.step expander.size.bits code = .finish ∧
        after = expander.finish ∧
        appended = [] := by
  have hperforms := h.performs_step hmax
  cases haction : decoder.step expander.size.bits code with
  | emit next indices =>
      rw [haction] at hperforms
      obtain ⟨other, found, hok, hindices, hsimulates, hsize, hfinished⟩ := hperforms
      obtain ⟨rfl, rfl⟩ := Prod.mk.inj (Except.ok.inj (hstep.symm.trans hok))
      rw [hindices]
      exact .inl ⟨next, rfl, hsimulates, hsize, hfinished⟩
  | finish =>
      rw [haction] at hperforms
      obtain ⟨rfl, rfl⟩ := Prod.mk.inj (Except.ok.inj (hstep.symm.trans hperforms))
      exact .inr ⟨rfl, rfl, rfl⟩
  | fail cause =>
      rw [haction] at hperforms
      exact absurd (hstep.symm.trans hperforms) (by simp)

end Simulates

theorem Width.lt_maxEntries
    {width : Width}
    {code : Nat}
    (h : code < 2 ^ width.bits) :
    code < maxEntries :=
  Nat.lt_of_lt_of_le h (Nat.pow_le_pow_right Nat.two_pos width.le_max)

/-- A decompressor that is not done gives what the plain decoder gives for the bits that
are pending and those of the input. -/
theorem Decompressor.decompress_of_simulates
    {decompressor : Decompressor}
    {decoder : PhraseDecoder}
    (h : Simulates decompressor.expander decoder)
    (hclean : decompressor.pending.Clean)
    (hopen : decompressor.isDone = false)
    (bytes : Bytes)
    (buffer : Array UInt8) :
    let outcome := decompressor.decompress bytes buffer
    let output := decoder.run decompressor.expander.size.bits
      (decompressor.pending.bits ++ bitsOf bytes)
    outcome.failure = output.failure ∧
      outcome.decompressor.isDone = output.finished ∧
      ∃ appended : List UInt8,
        outcome.buffer = buffer ++ appended ∧ appended.map UInt8.toNat = output.indices := by
  fun_induction decompress decompressor bytes buffer generalizing decoder with
  | case1 decompressor bytes buffer hdone =>
      rw [hopen] at hdone
      exact absurd hdone (by decide)
  | case2 decompressor bytes buffer hdone pending left hcode =>
      obtain ⟨-, hshort⟩ := BitBuffer.unpack_none_bits hclean hcode
      rw [h.width_eq] at hshort
      rw [PhraseDecoder.run_of_lt hshort]
      exact ⟨rfl, hopen, [], by simp, rfl⟩
  | case3 decompressor bytes buffer hdone code pending left hcode failure hstep =>
      obtain ⟨hlt, hbits⟩ := BitBuffer.unpack_some_bits hclean hcode
      have hfail := h.step_of_error (Width.lt_maxEntries hlt) hstep
      rw [h.width_eq] at hlt hbits
      rw [hbits, PhraseDecoder.run_lowBits_append hlt, hfail]
      exact ⟨rfl, hopen, [], by simp, rfl⟩
  | case4 decompressor bytes buffer hdone code pending left hcode expander indices hstep ih =>
      obtain ⟨hlt, hbits⟩ := BitBuffer.unpack_some_bits hclean hcode
      have hrest := hclean.unpack hcode
      have hboth := h.step_of_ok (Width.lt_maxEntries hlt) hstep
      rw [h.width_eq] at hlt hbits
      rw [hbits, PhraseDecoder.run_lowBits_append hlt]
      rcases hboth with ⟨next, hemit, hsimulates, hsize, hfinished⟩ | ⟨hfinish, rfl, rfl⟩
      · obtain ⟨hfailure, hdone', rest, hbuffer, hmap⟩ :=
          ih hsimulates hrest (hfinished.trans hopen)
        rw [hsize] at hfailure hdone' hmap
        rw [hemit]
        refine ⟨hfailure, hdone', indices ++ rest, ?_, ?_⟩
        · rw [hbuffer]
          apply Array.toList_inj.mp
          simp only [Array.toList_appendList, List.append_assoc]
        · rw [List.map_append, hmap]
      · have hfinal : isDone ⟨decompressor.expander.finish, pending⟩ = true := rfl
        rw [hfinish, decompress_of_isDone hfinal]
        exact ⟨rfl, rfl, [], by simp, rfl⟩

/-- Each byte from two to twelve gives a decompressor that was given nothing yet. -/
theorem Decompressor.ofByte_of_le
    {byte : UInt8}
    (hlow : 2 ≤ byte.toNat)
    (hhigh : byte.toNat ≤ 12) :
    ofByte byte = .ok (initial ⟨byte.toNat, hlow, hhigh⟩) := by
  unfold ofByte CodeSize.ofByte
  rw [dif_pos ⟨hlow, hhigh⟩]
  rfl

/-- A new decompressor gives for a piece of input the indices, the end mark and the failure
that the plain decoder gives for its bits. -/
theorem decompress_refines_decode
    (byte : UInt8)
    (hlow : 2 ≤ byte.toNat)
    (hhigh : byte.toNat ≤ 12)
    (bytes : Bytes)
    (buffer : Array UInt8) :
    ∃ decompressor,
      Decompressor.ofByte byte = .ok decompressor ∧
        let outcome := decompressor.decompress bytes buffer
        let output := PhraseDecoder.decode byte.toNat (bitsOf bytes)
        outcome.failure = output.failure ∧
          outcome.decompressor.isDone = output.finished ∧
          ∃ appended : List UInt8,
            outcome.buffer = buffer ++ appended ∧
              appended.map UInt8.toNat = output.indices :=
  ⟨_, Decompressor.ofByte_of_le hlow hhigh,
    Decompressor.decompress_of_simulates (.initial _) BitBuffer.clean_empty rfl bytes buffer⟩

/-- A clear code, an index, two codes that are just being assigned, and the end code. -/
theorem decompress_refines_decode_of_unassigned_codes :
    2 ≤ (2 : UInt8).toNat ∧ (2 : UInt8).toNat ≤ 12 ∧
      ∃ decompressor,
        Decompressor.ofByte 2 = .ok decompressor ∧
          let outcome := decompressor.decompress [0x84, 0x5F] #[]
          outcome.failure = none ∧
            outcome.decompressor.isDone = true ∧
            ∃ appended : List UInt8,
              outcome.buffer = (#[] : Array UInt8) ++ appended ∧
                appended.map UInt8.toNat = [0, 0, 0, 0, 0, 0] := by
  have hnone : (PhraseDecoder.decode 2 (bitsOf [0x84, 0x5F])).failure = none := by cbv
  have hfinished : (PhraseDecoder.decode 2 (bitsOf [0x84, 0x5F])).finished = true := by cbv
  have hindices :
      (PhraseDecoder.decode 2 (bitsOf [0x84, 0x5F])).indices = [0, 0, 0, 0, 0, 0] := by
    cbv
  obtain ⟨decompressor, hnew, hfailure, hdone, appended, hbuffer, hmap⟩ :=
    decompress_refines_decode 2 (by decide) (by decide) [0x84, 0x5F] #[]
  exact ⟨by decide, by decide, decompressor, hnew, hfailure.trans hnone,
    hdone.trans hfinished, appended, hbuffer, hmap.trans hindices⟩

end Lzw
end GifBitmap

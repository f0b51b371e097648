import GifBitmap.Proofs.Lzw.PhraseDecoder

/-!
# Encodings of a list of indices

An encoder writes a list of indices as a sequence of phrases from a dictionary that it
enlarges by one phrase after each of them.  Which phrases it takes, and where it starts
afresh with a clear code, is its own choice, so `Encodes` is a relation: it holds of
every string of bits that some encoder may write.

The dictionary of a decoder lags behind by one phrase, because the last index of that
phrase is known only with the next code.  `Follows` states this lag, `Follows.step`
keeps it with each phrase, and `run_of_encodes` carries it through an encoding.
-/

namespace GifBitmap
namespace Lzw

/-- The least number of bits, up to twelve, in which the number of entries of a table
can be written. -/
def widthFor (entries : Nat) : Nat :=
  min 12 (entries.log2 + 1)

/-- A table with room for another entry is wide enough for all its codes and the next
one. -/
theorem lt_two_pow_widthFor
    {entries : Nat}
    (h : entries < 4096) :
    entries < 2 ^ widthFor entries := by
  have hlog : entries < 2 ^ (entries.log2 + 1) := Nat.lt_log2_self
  unfold widthFor
  rcases Nat.le_total 12 (entries.log2 + 1) with hmax | hmax
  · rw [Nat.min_eq_left hmax]
    exact h
  · rw [Nat.min_eq_right hmax]
    exact hlog

/-- The width changes only when the number of entries reaches a power of two. -/
theorem widthFor_succ
    {entries : Nat}
    (hpos : 0 < entries)
    (hlt : entries < 4096) :
    widthFor (entries + 1) =
      if entries = 2 ^ widthFor entries - 1 ∧ widthFor entries < 12 then
        widthFor entries + 1
      else
        widthFor entries := by
  have hne : entries ≠ 0 := Nat.ne_of_gt hpos
  have hlow : 2 ^ entries.log2 ≤ entries := Nat.log2_self_le hne
  have hhigh : entries < 2 ^ (entries.log2 + 1) := Nat.lt_log2_self
  have hlog : entries.log2 < 12 := (Nat.log2_lt hne).mpr hlt
  have hwidth : widthFor entries = entries.log2 + 1 := by
    unfold widthFor
    omega
  rw [hwidth]
  by_cases hlast : entries + 1 = 2 ^ (entries.log2 + 1)
  · have hnext : (entries + 1).log2 = entries.log2 + 1 := by
      conv => lhs; rw [hlast]
      exact Nat.log2_two_pow
    unfold widthFor
    rw [hnext]
    split <;> omega
  · have hnext : (entries + 1).log2 = entries.log2 :=
      (Nat.log2_eq_iff (Nat.succ_ne_zero _)).mpr ⟨by omega, by omega⟩
    unfold widthFor
    rw [hnext, if_neg (by omega)]
    omega

/-- The width of the first code is that of the entries that are there from the start. -/
theorem widthFor_two_pow_add_two
    {bits : Nat}
    (h : 2 ≤ bits) :
    widthFor (2 ^ bits + 2) = min 12 (bits + 1) := by
  have hmin : 2 ^ 2 ≤ 2 ^ bits := Nat.pow_le_pow_right Nat.two_pos h
  have hlog : (2 ^ bits + 2).log2 = bits := by
    refine (Nat.log2_eq_iff (Nat.succ_ne_zero _)).mpr ⟨by omega, ?_⟩
    rw [Nat.pow_succ]
    omega
  rw [widthFor, hlog]

/-- The number of entries that a decoder has after `count` phrases of one dictionary. -/
def entriesAfter (bits count : Nat) : Nat :=
  min 4096 (2 ^ bits + 2 + (count - 1))

/-- The width of the code behind `count` phrases of one dictionary. -/
def codeWidth (bits count : Nat) : Nat :=
  widthFor (entriesAfter bits count)

/-- The dictionary after a phrase was written: the phrase and the index behind it become
the next entry, unless no index is left or there are 4096 entries. -/
def enlarge (dictionary : List (List Nat)) (phrase : List Nat) :
    (left : List Nat) → List (List Nat)
  | [] => dictionary
  | index :: _ =>
      if dictionary.length < 4096 then dictionary ++ [phrase ++ [index]] else dictionary

/-- The strings of bits that encode a list of indices from a dictionary on, when `count`
phrases were written since it was begun. -/
inductive Encodes (bits : Nat) :
    (dictionary : List (List Nat)) →
    (count : Nat) →
    (indices : List Nat) →
    BitString →
    Prop
  /-- All indices are written, and the end code follows. -/
  | finish
      {dictionary : List (List Nat)}
      {count : Nat} :
      Encodes bits dictionary count []
        (lowBits (codeWidth bits count) (2 ^ bits + 1))
  /-- A clear code puts the first dictionary back. -/
  | clear
      {dictionary : List (List Nat)}
      {count : Nat}
      {indices : List Nat}
      {written : BitString}
      (rest : Encodes bits (PhraseDecoder.initialPhrases bits) 0 indices written) :
      Encodes bits dictionary count indices
        (lowBits (codeWidth bits count) (2 ^ bits) ++ written)
  /-- A code names a phrase with which the indices begin. -/
  | phrase
      {dictionary : List (List Nat)}
      {count code : Nat}
      {phrase left : List Nat}
      {written : BitString}
      (hphrase : dictionary[code]? = some phrase)
      (hne : phrase ≠ [])
      (rest : Encodes bits (enlarge dictionary phrase left) (count + 1) left written) :
      Encodes bits dictionary count (phrase ++ left)
        (lowBits (codeWidth bits count) code ++ written)

/-- The encodings of a list of indices. -/
def EncodesIndices (bits : Nat) (indices : List Nat) (written : BitString) : Prop :=
  Encodes bits (PhraseDecoder.initialPhrases bits) 0 indices written

theorem enlarge_cons
    (dictionary : List (List Nat))
    (phrase : List Nat)
    (index : Nat)
    (left : List Nat) :
    enlarge dictionary phrase (index :: left) =
      if dictionary.length < 4096 then dictionary ++ [phrase ++ [index]] else dictionary :=
  rfl

theorem prefix_enlarge
    (dictionary : List (List Nat))
    (phrase left : List Nat) :
    dictionary <+: enlarge dictionary phrase left := by
  cases left with
  | nil => exact List.prefix_refl _
  | cons index rest =>
      rw [enlarge_cons]
      split
      · exact List.prefix_append _ _
      · exact List.prefix_refl _

theorem getElem?_of_front
    {short long : List (List Nat)}
    (h : short <+: long)
    {code : Nat}
    (hcode : code < short.length) :
    long[code]? = short[code]? := by
  obtain ⟨more, rfl⟩ := h
  exact List.getElem?_append_left hcode

/-- Indices that have a code of their own can be written one by one. -/
theorem exists_encodes
    {bits : Nat}
    {dictionary : List (List Nat)}
    (hdictionary : PhraseDecoder.initialPhrases bits <+: dictionary)
    (count : Nat)
    {indices : List Nat}
    (hindices : ∀ index ∈ indices, index < 2 ^ bits) :
    ∃ written, Encodes bits dictionary count indices written := by
  induction indices generalizing dictionary count with
  | nil => exact ⟨_, .finish⟩
  | cons index left ih =>
      have hindex : index < 2 ^ bits := hindices index List.mem_cons_self
      have hlength : index < (PhraseDecoder.initialPhrases bits).length := by
        rw [PhraseDecoder.length_initialPhrases]
        omega
      have hphrase : dictionary[index]? = some [index] := by
        rw [getElem?_of_front hdictionary hlength,
          PhraseDecoder.getElem?_initialPhrases hindex]
      obtain ⟨written, hrest⟩ :=
        ih (hdictionary.trans (prefix_enlarge dictionary [index] left)) (count + 1)
          (fun other hother => hindices other (List.mem_cons_of_mem _ hother))
      exact ⟨_, .phrase hphrase (List.cons_ne_nil _ _) hrest⟩

/-- Whether a decoder stands where an encoder stands that has a dictionary, has written
`count` phrases since it was begun, and has some indices left. -/
structure Follows
    (bits : Nat)
    (decoder : PhraseDecoder)
    (dictionary : List (List Nat))
    (count : Nat)
    (left : List Nat) :
    Prop where
  initial_front : PhraseDecoder.initialPhrases bits <+: decoder.phrases
  length_eq : decoder.phrases.length = entriesAfter bits count
  width_eq : decoder.width = codeWidth bits count
  /-- Before the first phrase the dictionaries are equal. -/
  at_start : decoder.previous = none → count = 0 ∧ dictionary = decoder.phrases
  /-- Afterwards the decoder lacks the entry that the last phrase leads to. -/
  behind : ∀ {previous : Nat}, decoder.previous = some previous →
    0 < count ∧
      decoder.phrase previous ≠ [] ∧
      dictionary = enlarge decoder.phrases (decoder.phrase previous) left

namespace Follows

variable
  {bits : Nat}
  {decoder : PhraseDecoder}
  {dictionary : List (List Nat)}
  {count : Nat}
  {left : List Nat}

theorem initial
    (hlow : 2 ≤ bits)
    (hhigh : bits ≤ 11)
    (left : List Nat) :
    Follows bits (.initial bits) (PhraseDecoder.initialPhrases bits) 0 left where
  initial_front := List.prefix_refl _
  length_eq := by
    have hmax : 2 ^ bits ≤ 2 ^ 11 := Nat.pow_le_pow_right Nat.two_pos hhigh
    change (PhraseDecoder.initialPhrases bits).length = _
    rw [PhraseDecoder.length_initialPhrases, entriesAfter]
    omega
  width_eq := by
    have hmax : 2 ^ bits ≤ 2 ^ 11 := Nat.pow_le_pow_right Nat.two_pos hhigh
    have hentries : entriesAfter bits 0 = 2 ^ bits + 2 := by
      unfold entriesAfter
      omega
    change min 12 (bits + 1) = _
    rw [codeWidth, hentries, widthFor_two_pow_add_two hlow]
  at_start := fun _ => ⟨rfl, rfl⟩
  behind := by simp [PhraseDecoder.initial]

theorem width_eq_widthFor
    (h : Follows bits decoder dictionary count left) :
    decoder.width = widthFor decoder.phrases.length := by
  rw [h.width_eq, codeWidth, ← h.length_eq]

/-- The dictionary of the encoder has what the decoder has, and at most one entry more. -/
theorem dictionary_bounds
    (h : Follows bits decoder dictionary count left) :
    decoder.phrases <+: dictionary ∧
      dictionary.length ≤ decoder.phrases.length + 1 ∧
      dictionary.length ≤ 4096 := by
  have hlength : decoder.phrases.length ≤ 4096 := by
    rw [h.length_eq]
    exact Nat.min_le_left _ _
  cases hprevious : decoder.previous with
  | none =>
      obtain ⟨-, rfl⟩ := h.at_start hprevious
      exact ⟨List.prefix_refl _, by omega, hlength⟩
  | some previous =>
      obtain ⟨-, -, rfl⟩ := h.behind hprevious
      refine ⟨prefix_enlarge _ _ _, ?_⟩
      cases left with
      | nil => exact ⟨Nat.le_succ _, hlength⟩
      | cons index rest =>
          rw [enlarge_cons]
          split
          · rw [List.length_append, List.length_singleton]
            omega
          · omega

/-- The dictionary goes beyond the clear code and the end code. -/
theorem reserved_lt (h : Follows bits decoder dictionary count left) :
    2 ^ bits + 1 < dictionary.length := by
  obtain ⟨hfront, -, -⟩ := h.dictionary_bounds
  have hlength := (h.initial_front.trans hfront).length_le
  rw [PhraseDecoder.length_initialPhrases] at hlength
  omega

/-- Every code of the encoder fits the width of the next code. -/
theorem lt_two_pow_width
    (h : Follows bits decoder dictionary count left)
    {code : Nat}
    (hcode : code < dictionary.length) :
    code < 2 ^ decoder.width := by
  obtain ⟨-, hone, hmax⟩ := h.dictionary_bounds
  rw [h.width_eq_widthFor]
  by_cases hroom : decoder.phrases.length < 4096
  · have hlt := lt_two_pow_widthFor hroom
    omega
  · have hfull : decoder.phrases.length = 4096 := by
      have hle : decoder.phrases.length ≤ 4096 := by
        rw [h.length_eq]
        exact Nat.min_le_left _ _
      omega
    have hwide : widthFor 4096 = 12 := by decide
    rw [hfull, hwide]
    omega

/-- The first codes stand for the same phrases on both sides. -/
theorem getElem?_of_lt
    (h : Follows bits decoder dictionary count left)
    {code : Nat}
    (hcode : code < 2 ^ bits + 2) :
    dictionary[code]? = (PhraseDecoder.initialPhrases bits)[code]? := by
  obtain ⟨hfront, -, -⟩ := h.dictionary_bounds
  refine getElem?_of_front (h.initial_front.trans hfront) ?_
  rw [PhraseDecoder.length_initialPhrases]
  exact hcode

/-- The clear code and the end code are never names of a phrase. -/
theorem ne_reserved
    (h : Follows bits decoder dictionary count left)
    {code : Nat}
    {phrase : List Nat}
    (hphrase : dictionary[code]? = some phrase)
    (hne : phrase ≠ []) :
    code ≠ 2 ^ bits ∧ code ≠ 2 ^ bits + 1 := by
  have hslots :
      (PhraseDecoder.initialPhrases bits)[2 ^ bits]? = some [] ∧
        (PhraseDecoder.initialPhrases bits)[2 ^ bits + 1]? = some [] := by
    unfold PhraseDecoder.initialPhrases
    constructor
    · rw [List.getElem?_append_right (by simp)]
      simp
    · rw [List.getElem?_append_right (by simp)]
      simp
  constructor
  · rintro rfl
    rw [h.getElem?_of_lt (by omega), hslots.1] at hphrase
    simp only [Option.some.injEq] at hphrase
    exact hne hphrase.symm
  · rintro rfl
    rw [h.getElem?_of_lt (by omega), hslots.2] at hphrase
    simp only [Option.some.injEq] at hphrase
    exact hne hphrase.symm

/-- The entry that the last phrase leads to is the one that the decoder assigns next. -/
theorem phrases_assign
    (decoder : PhraseDecoder)
    (before : List Nat)
    (index : Nat)
    (rest : List Nat) :
    (decoder.assign (before ++ [index])).phrases =
      enlarge decoder.phrases before (index :: rest) := by
  rw [enlarge_cons]
  by_cases hroom : decoder.phrases.length < 4096
  · rw [PhraseDecoder.phrases_assign_of_lt hroom, if_pos hroom]
  · rw [PhraseDecoder.assign_of_le (Nat.le_of_not_lt hroom), if_neg hroom]

theorem width_assign
    (h : Follows bits decoder dictionary count left)
    (entry : List Nat) :
    (decoder.assign entry).width = widthFor (decoder.assign entry).phrases.length := by
  by_cases hroom : decoder.phrases.length < 4096
  · have hpos : 0 < decoder.phrases.length := by
      have hclear : 0 < 2 ^ bits := Nat.two_pow_pos bits
      rw [h.length_eq, entriesAfter]
      omega
    rw [PhraseDecoder.phrases_assign_of_lt hroom, PhraseDecoder.width_assign_of_lt hroom,
      List.length_append, List.length_singleton, widthFor_succ hpos hroom,
      PhraseDecoder.widthAfterEntry, h.width_eq_widthFor]
  · rw [PhraseDecoder.assign_of_le (Nat.le_of_not_lt hroom)]
    exact h.width_eq_widthFor

theorem length_assign
    (h : Follows bits decoder dictionary count left)
    (hcount : 0 < count)
    (entry : List Nat) :
    (decoder.assign entry).phrases.length = entriesAfter bits (count + 1) := by
  have hlength := h.length_eq
  unfold entriesAfter at hlength ⊢
  by_cases hroom : decoder.phrases.length < 4096
  · rw [PhraseDecoder.phrases_assign_of_lt hroom, List.length_append, List.length_singleton]
    omega
  · rw [PhraseDecoder.assign_of_le (Nat.le_of_not_lt hroom)]
    omega

/-- A decoder that has just taken the code of a phrase lacks the entry that the phrase
leads to. -/
theorem remember
    {decoder : PhraseDecoder}
    {code : Nat}
    {phrase : List Nat}
    (hfront : PhraseDecoder.initialPhrases bits <+: decoder.phrases)
    (hlength : decoder.phrases.length = entriesAfter bits (count + 1))
    (hwidth : decoder.width = widthFor decoder.phrases.length)
    (hphrase : decoder.phrases[code]? = some phrase)
    (hne : phrase ≠ [])
    (left : List Nat) :
    Follows bits (decoder.remember code) (enlarge decoder.phrases phrase left)
      (count + 1) left where
  initial_front := hfront
  length_eq := hlength
  width_eq := by
    rw [PhraseDecoder.width_remember, hwidth, hlength, codeWidth]
  at_start := by simp
  behind := by
    intro previous hprevious
    rw [PhraseDecoder.previous_remember, Option.some.injEq] at hprevious
    subst hprevious
    have hfound : (decoder.remember code).phrase code = phrase := by
      rw [PhraseDecoder.phrase, PhraseDecoder.phrases_remember, hphrase]
      rfl
    rw [hfound]
    exact ⟨Nat.succ_pos _, hne, rfl⟩

/-- The first phrase stands for itself. -/
theorem step_at_start
    {code : Nat}
    {phrase : List Nat}
    (h : Follows bits decoder dictionary count (phrase ++ left))
    (hprevious : decoder.previous = none)
    (hphrase : dictionary[code]? = some phrase)
    (hne : phrase ≠ [])
    (hbyte : ¬(256 ≤ code ∧ code < 2 ^ bits)) :
    ∃ next,
      decoder.step bits code = .emit next phrase ∧
        Follows bits next (enlarge dictionary phrase left) (count + 1) left := by
  obtain ⟨hclear, hend⟩ := h.ne_reserved hphrase hne
  obtain ⟨rfl, rfl⟩ := h.at_start hprevious
  have hlength := h.length_eq
  have hlt : code < decoder.phrases.length := by
    obtain ⟨hlt, -⟩ := List.getElem?_eq_some_iff.mp hphrase
    exact hlt
  have hliteral : code < 2 ^ bits := by
    unfold entriesAfter at hlength
    omega
  have hself : phrase = [code] := by
    rw [h.getElem?_of_lt (by omega), PhraseDecoder.getElem?_initialPhrases hliteral] at hphrase
    simp only [Option.some.injEq] at hphrase
    exact hphrase.symm
  refine ⟨decoder.remember code, ?_,
    remember h.initial_front hlength h.width_eq_widthFor hphrase hne left⟩
  rw [PhraseDecoder.step, if_neg hclear, if_neg hend, if_neg hbyte, hprevious, hself]
  exact if_pos hliteral

/-- Every other phrase is in the table of the decoder, or is the one that the decoder
assigns with its code. -/
theorem step_behind
    {previous code : Nat}
    {phrase : List Nat}
    (h : Follows bits decoder dictionary count (phrase ++ left))
    (hprevious : decoder.previous = some previous)
    (hphrase : dictionary[code]? = some phrase)
    (hne : phrase ≠ [])
    (hbyte : ¬(256 ≤ code ∧ code < 2 ^ bits)) :
    ∃ next,
      decoder.step bits code = .emit next phrase ∧
        Follows bits next (enlarge dictionary phrase left) (count + 1) left := by
  obtain ⟨hclear, hend⟩ := h.ne_reserved hphrase hne
  obtain ⟨hcount, hbefore, hdictionary⟩ := h.behind hprevious
  obtain ⟨hfront, hone, -⟩ := h.dictionary_bounds
  obtain ⟨index, rest, rfl⟩ := List.exists_cons_of_ne_nil hne
  obtain ⟨first, more, hfirst⟩ := List.exists_cons_of_ne_nil hbefore
  obtain ⟨hlt, -⟩ := List.getElem?_eq_some_iff.mp hphrase
  rw [List.cons_append] at hdictionary
  have hassign :
      (decoder.assign (decoder.phrase previous ++ [index])).phrases = dictionary := by
    rw [hdictionary]
    exact phrases_assign decoder _ index _
  have hfollows :
      Follows bits
        ((decoder.assign (decoder.phrase previous ++ [index])).remember code)
        (enlarge dictionary (index :: rest) left) (count + 1) left := by
    rw [← hassign] at hphrase ⊢
    exact remember (by rw [hassign]; exact h.initial_front.trans hfront)
      (h.length_assign hcount _) (h.width_assign _) hphrase hne left
  refine ⟨_, ?_, hfollows⟩
  rw [PhraseDecoder.step, if_neg hclear, if_neg hend, if_neg hbyte, hprevious]
  by_cases hold : code < decoder.phrases.length
  · have hfound : decoder.phrase code = index :: rest := by
      rw [PhraseDecoder.phrase, ← getElem?_of_front hfront hold, hphrase]
      rfl
    simp only [if_pos hold, hfound, List.take_succ_cons, List.take_zero]
  · -- the phrase is the entry which the decoder lacks, so it ends with its own first index
    have hcode : code = decoder.phrases.length := by omega
    have hroom : decoder.phrases.length < 4096 := by
      by_cases hroom : decoder.phrases.length < 4096
      · exact hroom
      · rw [enlarge_cons, if_neg hroom] at hdictionary
        rw [hdictionary] at hlt
        omega
    rw [enlarge_cons, if_pos hroom] at hdictionary
    have hentry : index :: rest = decoder.phrase previous ++ [index] := by
      rw [hdictionary, hcode, List.getElem?_concat_length, Option.some.injEq] at hphrase
      exact hphrase.symm
    have hsame : first = index := by
      rw [hfirst, List.cons_append] at hentry
      exact (List.cons.inj hentry).1.symm
    have htake : (decoder.phrase previous).take 1 = [index] := by
      rw [hfirst, hsame]
      rfl
    simp only [if_neg hold, if_pos hcode, htake, ← hentry]

/-- Each phrase keeps the decoder behind the encoder. -/
theorem step
    {code : Nat}
    {phrase : List Nat}
    (h : Follows bits decoder dictionary count (phrase ++ left))
    (hphrase : dictionary[code]? = some phrase)
    (hne : phrase ≠ [])
    (hbytes : ∀ index ∈ phrase, index < 256) :
    ∃ next,
      decoder.step bits code = .emit next phrase ∧
        Follows bits next (enlarge dictionary phrase left) (count + 1) left := by
  have hbyte : ¬(256 ≤ code ∧ code < 2 ^ bits) := by
    rintro ⟨hlow, hhigh⟩
    rw [h.getElem?_of_lt (by omega), PhraseDecoder.getElem?_initialPhrases hhigh] at hphrase
    simp only [Option.some.injEq] at hphrase
    have hlt := hbytes code (by rw [← hphrase]; exact List.mem_singleton_self code)
    omega
  cases hprevious : decoder.previous with
  | none => exact h.step_at_start hprevious hphrase hne hbyte
  | some previous => exact h.step_behind hprevious hphrase hne hbyte

end Follows

/-- Every encoding of some indices decodes to them, whatever bits stand behind it. -/
theorem run_of_encodes
    {bits : Nat}
    (hlow : 2 ≤ bits)
    (hhigh : bits ≤ 11)
    {dictionary : List (List Nat)}
    {count : Nat}
    {indices : List Nat}
    {written : BitString}
    (h : Encodes bits dictionary count indices written)
    (hbytes : ∀ index ∈ indices, index < 256)
    {decoder : PhraseDecoder}
    (hfollows : Follows bits decoder dictionary count indices)
    (tail : BitString) :
    decoder.run bits (written ++ tail) = ⟨indices, true, none⟩ := by
  -- Along the encoding the decoder stays where `Follows` says, one entry behind.
  induction h generalizing decoder with
  | @finish dictionary count =>
      rw [← hfollows.width_eq,
        PhraseDecoder.run_lowBits_append (hfollows.lt_two_pow_width hfollows.reserved_lt),
        PhraseDecoder.step, if_neg (by omega), if_pos rfl]
  | @clear dictionary count indices written rest ih =>
      have hreserved : 2 ^ bits < dictionary.length := Nat.lt_of_succ_lt hfollows.reserved_lt
      rw [← hfollows.width_eq, List.append_assoc,
        PhraseDecoder.run_lowBits_append (hfollows.lt_two_pow_width hreserved),
        PhraseDecoder.step, if_pos rfl]
      simp only [ih hbytes (.initial hlow hhigh indices), List.nil_append]
  | @phrase dictionary count code phrase left written hphrase hne rest ih =>
      obtain ⟨hlt, -⟩ := List.getElem?_eq_some_iff.mp hphrase
      obtain ⟨next, hstep, hnext⟩ :=
        hfollows.step hphrase hne
          (fun index hindex => hbytes index (List.mem_append_left _ hindex))
      have hrest := ih (fun index hindex => hbytes index (List.mem_append_right _ hindex)) hnext
      rw [← hfollows.width_eq, List.append_assoc,
        PhraseDecoder.run_lowBits_append (hfollows.lt_two_pow_width hlt), hstep]
      simp only [hrest]

end Lzw
end GifBitmap

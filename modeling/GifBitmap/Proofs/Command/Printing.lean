import GifBitmap.Command.LogFilter
import GifBitmap.Proofs.Pattern

/-!
# Which records are printed

The rule that decides about a record is found in one pass over all rules.  It is the one with the
longest name, and the last one of those (`LogRule.Decides`).

Main facts:
* `rule?_eq_some_iff`: which rule decides about an origin;
* `admits_iff`: which records a filter lets through.
-/

namespace GifBitmap
namespace Command

/-- Whether a rule decides among some: none in front of it names more, and all behind it name
less. -/
def LogRule.Decides (rules : List LogRule) (rule : LogRule) : Prop :=
  ∃ before behind,
    rules = before ++ rule :: behind ∧
      (∀ other ∈ before, other.reach ≤ rule.reach) ∧
      ∀ other ∈ behind, other.reach < rule.reach

namespace LogRule

variable
  {rules : List LogRule}
  {rule : LogRule}

theorem Decides.mem (h : Decides rules rule) : rule ∈ rules := by
  obtain ⟨before, behind, rfl, -⟩ := h
  exact List.mem_append_right _ List.mem_cons_self

theorem Decides.reach_le
    (h : Decides rules rule)
    {other : LogRule}
    (hother : other ∈ rules) :
    other.reach ≤ rule.reach := by
  obtain ⟨before, behind, rfl, hbefore, hbehind⟩ := h
  rcases List.mem_append.mp hother with hmem | hmem
  · exact hbefore other hmem
  · rcases List.mem_cons.mp hmem with rfl | hmem
    · exact Nat.le_refl _
    · exact Nat.le_of_lt (hbehind other hmem)

/-- A rule that names no more than the next one changes nothing. -/
theorem Decides.cons_of_le
    {first next : LogRule}
    (h : Decides (next :: rules) rule)
    (hle : first.reach ≤ next.reach) :
    Decides (first :: next :: rules) rule := by
  have hnext := h.reach_le List.mem_cons_self
  obtain ⟨before, behind, hsplit, hbefore, hbehind⟩ := h
  refine ⟨first :: before, behind, congrArg _ hsplit, ?_, hbehind⟩
  intro other hother
  rcases List.mem_cons.mp hother with rfl | hmem
  · exact Nat.le_trans hle hnext
  · exact hbefore other hmem

/-- A rule that names less than the one in front of it changes nothing. -/
theorem Decides.cons_of_lt
    {first next : LogRule}
    (h : Decides (first :: rules) rule)
    (hlt : next.reach < first.reach) :
    Decides (first :: next :: rules) rule := by
  have hfirst := h.reach_le List.mem_cons_self
  obtain ⟨before, behind, hsplit, hbefore, hbehind⟩ := h
  cases before with
  | nil =>
      obtain ⟨rfl, rfl⟩ := List.cons.inj hsplit
      refine ⟨[], next :: rules, rfl, nofun, ?_⟩
      intro other hother
      rcases List.mem_cons.mp hother with rfl | hmem
      · exact hlt
      · exact hbehind other hmem
  | cons head before =>
      obtain ⟨rfl, hrest⟩ := List.cons.inj hsplit
      refine ⟨first :: next :: before, behind, congrArg (first :: next :: ·) hrest, ?_, hbehind⟩
      intro other hother
      rcases List.mem_cons.mp hother with rfl | hmem
      · exact hfirst
      rcases List.mem_cons.mp hmem with rfl | hmem
      · exact Nat.le_trans (Nat.le_of_lt hlt) hfirst
      · exact hbefore other (List.mem_cons_of_mem _ hmem)

/-- From any rule on, the pass ends with one that decides. -/
theorem exists_foldl_preferred (first : LogRule) (rules : List LogRule) :
    ∃ last,
      rules.foldl preferred (some first) = some last ∧ Decides (first :: rules) last := by
  induction rules generalizing first with
  | nil => exact ⟨first, rfl, [], [], rfl, nofun, nofun⟩
  | cons next rules ih =>
      rw [List.foldl_cons, preferred]
      split
      · rename_i hle
        obtain ⟨last, hlast, hdecides⟩ := ih next
        exact ⟨last, hlast, hdecides.cons_of_le hle⟩
      · rename_i hlt
        obtain ⟨last, hlast, hdecides⟩ := ih first
        exact ⟨last, hlast, hdecides.cons_of_lt (Nat.lt_of_not_le hlt)⟩

/-- A rule is kept as long as the others name less. -/
theorem foldl_preferred_of_lt (h : ∀ other ∈ rules, other.reach < rule.reach) :
    rules.foldl preferred (some rule) = some rule := by
  induction rules with
  | nil => rfl
  | cons other rules ih =>
      have hother := h other List.mem_cons_self
      rw [List.foldl_cons, preferred, if_neg (Nat.not_le_of_lt hother)]
      exact ih fun next hnext => h next (List.mem_cons_of_mem _ hnext)

theorem foldl_preferred_eq_some_iff :
    rules.foldl preferred none = some rule ↔ Decides rules rule := by
  constructor
  · intro h
    cases rules with
    | nil => exact absurd h nofun
    | cons first rules =>
        obtain ⟨last, hlast, hdecides⟩ := exists_foldl_preferred first rules
        obtain rfl : last = rule := Option.some.inj (hlast.symm.trans h)
        exact hdecides
  · rintro ⟨before, behind, rfl, hbefore, hbehind⟩
    have htaken : preferred (before.foldl preferred none) rule = some rule := by
      cases before with
      | nil => rfl
      | cons first before =>
          obtain ⟨last, hlast, hdecides⟩ := exists_foldl_preferred first before
          have hle := hbefore last hdecides.mem
          rw [List.foldl_cons, preferred, hlast, preferred, if_pos hle]
    rw [List.foldl_append, List.foldl_cons, htaken]
    exact foldl_preferred_of_lt hbehind

end LogRule

namespace LogFilter

/-- Of the rules that speak about an origin the one with the longest name decides. -/
theorem rule?_eq_some_iff
    {filter : LogFilter}
    {origin : String}
    {rule : LogRule} :
    filter.rule? origin = some rule ↔ LogRule.Decides (filter.rulesFor origin) rule :=
  LogRule.foldl_preferred_eq_some_iff

/-- A filter lets those records through that are as severe as the deciding rule says, and in whose
text its pattern matches somewhere, if it has one. -/
theorem admits_iff {filter : LogFilter} {record : Record} :
    filter.admits record = true ↔
      ∃ rule level,
        LogRule.Decides (filter.rulesFor record.origin) rule ∧
          rule.threshold = some level ∧
          record.level.rank ≤ level.rank ∧
          ∀ pattern,
            filter.wanted = some pattern →
              ∃ start stop,
                start ≤ record.text.toList.length ∧
                  pattern.expression.Matches record.text.toList start stop := by
  have hwanted : ∀ level : Level,
      (record.level.rank ≤ level.rank && filter.wanted.all (·.occursIn record.text)) = true ↔
        record.level.rank ≤ level.rank ∧
          ∀ pattern,
            filter.wanted = some pattern →
              ∃ start stop,
                start ≤ record.text.toList.length ∧
                  pattern.expression.Matches record.text.toList start stop := by
    intro level
    simp only [Bool.and_eq_true, decide_eq_true_iff, Option.all_eq_true, Pattern.occursIn_iff]
  rw [admits]
  constructor
  · intro h
    split at h
    · rename_i name level hrule
      exact ⟨_, level, rule?_eq_some_iff.mp hrule, rfl, (hwanted level).mp h⟩
    · exact absurd h Bool.false_ne_true
  · rintro ⟨⟨name, threshold⟩, level, hdecides, rfl, hpasses⟩
    rw [rule?_eq_some_iff.mpr hdecides]
    exact (hwanted level).mpr hpasses

end LogFilter
end Command
end GifBitmap

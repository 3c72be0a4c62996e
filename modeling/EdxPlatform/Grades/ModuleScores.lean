import Mathlib.Algebra.Order.BigOperators.Group.List
import Mathlib.Data.List.ReduceOption
import Mathlib.Tactic.Linarith
import EdxPlatform.Grades.Grading

/-!
# Scores of a subsection

`_calculate_score_for_modules` averages over the modules with a stored score, not over all that count.
-/

namespace EdxPlatform.Grades

open ClientScore

variable {κ : Type} [DecidableEq κ]

/-- The parts of a usage key that the lookup of scores is about. -/
structure Locators (κ : Type) where
  hasVersion : κ → Bool
  withoutVersion : κ → κ

/-- A module below a subsection or an entrance exam. -/
structure ExamModule (κ : Type) where
  location : κ
  category : String
  graded : Bool
  hasScore : Bool

namespace ExamModule

def ignoreCategories : List String := ["course", "chapter", "sequential", "vertical", "randomize", "library_content"]

def counts (module : ExamModule κ) : Bool := module.category ∉ ignoreCategories && (module.graded || module.hasScore)

def scoreLocation (locators : Locators κ) (module : ExamModule κ) : κ :=
  if locators.hasVersion module.location then locators.withoutVersion module.location else module.location

end ExamModule

/-- `correct / total`, each with its default. -/
def ClientScore.percentage (score : ClientScore) : ℚ :=
  score.correct.getD 0 / (if score.total.getD 0 = 0 then 1 else score.total.getD 0)

variable (locators : Locators κ) (learner : Learner κ) (modules : List (ExamModule κ))

/-- `scores_client.get` for a module, after the scores of all modules have been fetched. -/
def storedScore (module : ExamModule κ) : Option ClientScore :=
  learner.scoresClient (modules.map (ExamModule.scoreLocation locators))
    (locators.withoutVersion (module.scoreLocation locators))

def calculateScoreForModules : ℚ :=
  let modulePercentages := (modules.filter ExamModule.counts).filterMap fun module =>
    (storedScore locators learner modules module).map percentage
  if modulePercentages = [] then 0 else modulePercentages.sum / modulePercentages.length

/-- The average over all modules that count, where one without a stored score counts zero. -/
def averagePercentage : ℚ :=
  let counted := modules.filter ExamModule.counts
  (counted.map fun module => ((storedScore locators learner modules module).map percentage).getD 0).sum /
    counted.length

def Learner.WellScored : Prop :=
  ∀ location score, learner.studentModules.lookup location = some score →
    0 ≤ score.correct.getD 0 ∧ score.correct.getD 0 ≤ score.total.getD 0

/-- The learner after a stored score has been raised. -/
structure Raised (after : Learner κ) : Prop where
  wellScored : after.WellScored
  raised : ∃ location old new, learner.studentModules.lookup location = some old ∧
    old.correct.getD 0 ≤ new.correct.getD 0 ∧ old.total = new.total ∧
    after = { learner with studentModules := learner.studentModules.insert location new }

/-- The score of the modules is the average over all that count, and so lies between zero and one, does not fall when
a stored score is raised, and is one only with full scores. -/
structure AveragesAll : Prop where
  average : calculateScoreForModules locators learner modules = averagePercentage locators learner modules
  nonneg : 0 ≤ calculateScoreForModules locators learner modules
  le_one : calculateScoreForModules locators learner modules ≤ 1
  mono : ∀ after, Raised learner after →
    calculateScoreForModules locators learner modules ≤ calculateScoreForModules locators after modules
  full : calculateScoreForModules locators learner modules = 1 → ∀ module ∈ modules, module.counts = true →
    ∃ score, storedScore locators learner modules module = some score ∧ score.correct = score.total

/-! ## Averages of optional values -/

section

variable {values : List (Option ℚ)}

theorem sum_getD (values : List (Option ℚ)) : (values.map (Option.getD · 0)).sum = values.reduceOption.sum := by
  induction values with
  | nil => rfl
  | cons value values ih => cases value <;> simp [List.reduceOption_cons_of_some, List.reduceOption_cons_of_none, ih]

def Fractions (values : List (Option ℚ)) : Prop := ∀ value ∈ values.reduceOption, 0 ≤ value ∧ value ≤ 1

theorem Fractions.sum_mem (hval : Fractions values) :
    0 ≤ values.reduceOption.sum ∧ values.reduceOption.sum ≤ values.reduceOption.length := by
  refine ⟨List.sum_nonneg fun value hvalue => (hval value hvalue).1, ?_⟩
  have hle := List.sum_le_card_nsmul values.reduceOption 1 fun value hvalue => (hval value hvalue).2
  rwa [nsmul_one] at hle

theorem Fractions.sum_eq_zero_iff (hval : Fractions values) :
    values.reduceOption.sum = 0 ↔ ∀ value ∈ values.reduceOption, value = 0 := by
  refine ⟨fun hzero value hvalue => ?_, fun hall => List.sum_eq_zero hall⟩
  have hle := List.single_le_sum (fun other hother => (hval other hother).1) value hvalue
  exact le_antisymm (hzero ▸ hle) (hval value hvalue).1

theorem eq_one_of_sum {fractions : List ℚ} (hle : ∀ value ∈ fractions, value ≤ 1)
    (hsum : fractions.sum = fractions.length) : ∀ value ∈ fractions, value = 1 := by
  induction fractions with
  | nil => exact fun _ hvalue => (List.not_mem_nil hvalue).elim
  | cons head rest ih =>
    obtain ⟨hhead, hrest⟩ := List.forall_mem_cons.mp hle
    have hbound := List.sum_le_card_nsmul rest 1 hrest
    rw [nsmul_one] at hbound
    rw [List.sum_cons, List.length_cons, Nat.cast_succ] at hsum
    exact List.forall_mem_cons.mpr ⟨by linarith, ih hrest (by linarith)⟩

theorem Fractions.average_iff (hval : Fractions values) :
    values.reduceOption.sum / values.reduceOption.length = values.reduceOption.sum / values.length ↔
      (∀ value ∈ values, value.isSome = true) ∨ ∀ value ∈ values.reduceOption, value = 0 := by
  rw [← List.reduceOption_length_eq_iff, ← hval.sum_eq_zero_iff]
  by_cases hzero : values.reduceOption.sum = 0
  · simp [hzero]
  · rw [or_iff_left hzero, div_eq_mul_inv, div_eq_mul_inv, mul_right_inj' hzero, inv_inj, Nat.cast_inj]

end

variable {locators learner modules}

theorem percentage_mem (hscor : learner.WellScored) {module : ExamModule κ} {score : ClientScore}
    (hscore : storedScore locators learner modules module = some score) :
    (0 ≤ score.percentage ∧ score.percentage ≤ 1) ∧ (score.percentage = 0 ↔ score.correct.getD 0 = 0) ∧
      (score.percentage = 1 → score.correct = score.total) := by
  obtain ⟨hnon, hle⟩ : 0 ≤ score.correct.getD 0 ∧ score.correct.getD 0 ≤ score.total.getD 0 := by
    unfold storedScore Learner.scoresClient at hscore
    split at hscore
    · exact hscor _ score hscore
    · cases hscore
  unfold percentage
  split
  · next hzero =>
    have hcor : score.correct.getD 0 = 0 := le_antisymm (hle.trans hzero.le) hnon
    simp [hcor]
  · next hne =>
    have hpos : 0 < score.total.getD 0 := lt_of_le_of_ne (hnon.trans hle) (Ne.symm hne)
    refine ⟨⟨div_nonneg hnon hpos.le, div_le_one_of_le₀ hle hpos.le⟩, by simp [hne], fun hone => ?_⟩
    have hsame := (div_eq_one_iff_eq hne).mp hone
    cases hcor : score.correct <;> cases htotal : score.total <;> simp_all

variable (locators learner modules) in
def percentages : List (Option ℚ) := (modules.filter ExamModule.counts).map fun module =>
  (storedScore locators learner modules module).map percentage

theorem calculateScoreForModules_eq : calculateScoreForModules locators learner modules =
    (percentages locators learner modules).reduceOption.sum /
    (percentages locators learner modules).reduceOption.length := by
  have hper : (modules.filter ExamModule.counts).filterMap (fun module =>
      (storedScore locators learner modules module).map percentage) =
        (percentages locators learner modules).reduceOption := by
    change _ = ((modules.filter ExamModule.counts).map _).filterMap id
    rw [List.filterMap_map]
    rfl
  unfold calculateScoreForModules
  dsimp only
  rw [hper]
  split_ifs with hnone
  · simp [hnone]
  · rfl

theorem averagePercentage_eq : averagePercentage locators learner modules =
    (percentages locators learner modules).reduceOption.sum / (percentages locators learner modules).length := by
  rw [← sum_getD]
  simp [averagePercentage, percentages, comp_def]

theorem fractions_percentages (hscor : learner.WellScored) : Fractions (percentages locators learner modules) := by
  intro value hvalue
  obtain ⟨module, -, hmod⟩ := List.mem_map.mp (List.reduceOption_mem_iff.mp hvalue)
  obtain ⟨score, hscore, rfl⟩ := Option.map_eq_some_iff.mp hmod
  exact (percentage_mem hscor hscore).1

variable (locators modules) in
theorem storedScore_raised (hscor : learner.WellScored) {after : Learner κ} (hrais : Raised learner after)
    (module : ExamModule κ) : storedScore locators after modules module = storedScore locators learner modules module ∨
      ∃ old new, storedScore locators learner modules module = some old ∧
        storedScore locators after modules module = some new ∧ old.percentage ≤ new.percentage := by
  obtain ⟨location, old, new, hold, hle, htotal, rfl⟩ := hrais.raised
  unfold storedScore Learner.scoresClient
  split
  · by_cases hloc : locators.withoutVersion (module.scoreLocation locators) = location
    · refine .inr ⟨old, new, hloc ▸ hold, hloc ▸ Dict.lookup_insert_self .., ?_⟩
      obtain ⟨hnon, hbound⟩ := hscor location old hold
      unfold percentage
      rw [← htotal]
      split
      · simpa using hle
      · exact div_le_div_of_nonneg_right hle (hnon.trans hbound)
    · exact .inl (Dict.lookup_insert_of_ne hloc ..)
  · exact .inl rfl

theorem calculateScore_mono (hscor : learner.WellScored) {after : Learner κ} (hrais : Raised learner after) :
    calculateScoreForModules locators learner modules ≤ calculateScoreForModules locators after modules := by
  have hlen : (percentages locators learner modules).reduceOption.length =
      (percentages locators after modules).reduceOption.length := by
    simp only [List.reduceOption_length_eq, percentages, List.filter_map, List.length_map]
    refine congrArg List.length (List.filter_congr fun module _ => ?_)
    rcases storedScore_raised locators modules hscor hrais module with heq | ⟨old, new, hold, hnew, -⟩
    · simp [heq]
    · simp [hold, hnew]
  have hsum : (percentages locators learner modules).reduceOption.sum ≤
      (percentages locators after modules).reduceOption.sum := by
    rw [← sum_getD, ← sum_getD, percentages, percentages, List.map_map, List.map_map]
    refine List.sum_le_sum fun module _ => ?_
    rcases storedScore_raised locators modules hscor hrais module with heq | ⟨old, new, hold, hnew, hle⟩
    · simp [heq]
    · simpa [hold, hnew] using hle
  rw [calculateScoreForModules_eq, calculateScoreForModules_eq, hlen]
  exact div_le_div_of_nonneg_right hsum (Nat.cast_nonneg _)

/-- The code averages over all that count exactly if each of them has a stored score, or none has any points. -/
theorem averagesAll_iff (locators : Locators κ) (learner : Learner κ) (modules : List (ExamModule κ))
    (hscored : learner.WellScored) : AveragesAll locators learner modules ↔
      (∀ module ∈ modules, module.counts = true → (storedScore locators learner modules module).isSome = true) ∨
        ∀ module ∈ modules, module.counts = true → ∀ score, storedScore locators learner modules module = some score →
          score.correct.getD 0 = 0 := by
  have hfractions := @fractions_percentages κ _ locators learner modules hscored
  have hstored : (∀ value ∈ percentages locators learner modules, value.isSome = true) ↔
      ∀ module ∈ modules, module.counts = true → (storedScore locators learner modules module).isSome = true := by
    simp only [percentages, List.forall_mem_map, isSome_map, List.mem_filter, and_imp]
  have hzero : (∀ value ∈ (percentages locators learner modules).reduceOption, value = 0) ↔
      ∀ module ∈ modules, module.counts = true → ∀ score, storedScore locators learner modules module = some score →
        score.correct.getD 0 = 0 := by
    simp only [percentages, List.reduceOption_mem_iff, List.mem_map, List.mem_filter, Option.map_eq_some_iff]
    constructor
    · exact fun hall module hmodule hcounts score hscore =>
        (percentage_mem hscored hscore).2.1.mp (hall _ ⟨module, ⟨hmodule, hcounts⟩, score, hscore, rfl⟩)
    · rintro hall value ⟨module, ⟨hmodule, hcounts⟩, score, hscore, rfl⟩
      exact (percentage_mem hscored hscore).2.1.mpr (hall module hmodule hcounts score hscore)
  rw [← hstored, ← hzero, ← hfractions.average_iff, ← calculateScoreForModules_eq, ← averagePercentage_eq]
  refine ⟨AveragesAll.average, fun haverage => ⟨haverage, ?_, ?_, fun _ => calculateScore_mono hscored, fun hone => ?_⟩⟩
  · rw [calculateScoreForModules_eq]
    exact div_nonneg hfractions.sum_mem.1 (Nat.cast_nonneg _)
  · rw [calculateScoreForModules_eq]
    exact div_le_one_of_le₀ hfractions.sum_mem.2 (Nat.cast_nonneg _)
  · rw [calculateScoreForModules_eq, averagePercentage_eq, hfractions.average_iff] at haverage
    rw [calculateScoreForModules_eq] at hone
    have hsum := eq_of_div_eq_one hone
    intro module hmodule hcounts
    rcases haverage with hall | hall
    · obtain ⟨score, hscore⟩ := Option.isSome_iff_exists.mp (hstored.mp hall module hmodule hcounts)
      refine ⟨score, hscore, (percentage_mem hscored hscore).2.2
        (eq_one_of_sum (fun _ hvalue => (hfractions _ hvalue).2)
        hsum _ (List.reduceOption_mem_iff.mpr (List.mem_map.mpr ⟨module, List.mem_filter.mpr ⟨hmodule, hcounts⟩, ?_⟩)))⟩
      rw [hscore, Option.map_some]
    · rw [List.sum_eq_zero hall, zero_div] at hone
      exact absurd hone zero_ne_one

def twoProblems : List (ExamModule String) := [⟨"first", "problem", true, true⟩, ⟨"second", "problem", true, true⟩]

def ownLocators : Locators String := ⟨fun _ => false, id⟩

def solved (problems : List String) : Learner String where
  studentModules := Dict.ofList (problems.map fun problem => (problem, ⟨some 1, some 1⟩))

theorem bothSolved_averagesAll : AveragesAll ownLocators (solved ["first", "second"]) twoProblems :=
  (averagesAll_iff ownLocators (solved ["first", "second"]) twoProblems (fun location score hscore => by
    have hscores : ∀ entry ∈ (solved ["first", "second"]).studentModules.entries, entry.2 =
      ⟨some 1, some 1⟩ := by decide
    obtain rfl := hscores ⟨location, score⟩ (mem_lookup_iff.mp hscore)
    decide)).mpr (.inl (by decide))

theorem firstSolved_not_averagesAll : ¬ AveragesAll ownLocators (solved ["first"]) twoProblems := by
  intro haverages
  exact absurd haverages.average (by decide +kernel)

end EdxPlatform.Grades

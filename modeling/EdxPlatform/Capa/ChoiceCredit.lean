import Mathlib.Tactic.FieldSimp
import Mathlib.Tactic.Linarith
import Mathlib.Tactic.Positivity
import EdxPlatform.Capa.Problem

/-!
# Partial credit for choices

The schemes by which a response with choices gives credit for a part of the right decisions.  The
grades are rounded by a function, which is the identity where grades are compared.
-/

namespace EdxPlatform.ChoiceCredit

inductive Scheme where
  | everyDecisionCounts
  | halves
  | withoutPartialCredit
  deriving DecidableEq, Repr

open Scheme

/-- The choices with their names and their `correct` attributes. -/
structure ChoiceResponse (ν : Type) where
  choices : List (ν × String)
  names_unique : (choices.map Prod.fst).Nodup
  points : Int
  hasPartialCredit : Bool
  creditType : List String

variable {ν : Type} [DecidableEq ν]

namespace ChoiceResponse

variable (round : Rat → Rat) (response : ChoiceResponse ν)

/-- The names of the choices with a `correct` attribute. -/
def marked (value : String) : Finset ν :=
  ((response.choices.filter fun choice => choice.2 = value).map Prod.fst).toFinset

def correctChoices : Finset ν := response.marked "true"

def incorrectChoices : Finset ν := response.marked "false"

def allChoices : Finset ν := response.correctChoices ∪ response.incorrectChoices

def result (correctness : Correctness) (npoints : Option Rat) : AnswerResult := ⟨correctness, npoints, some ""⟩

section

variable (studentAnswer : Finset ν)

/-- `grade_via_every_decision_counts`; without choices the grade is a division by zero. -/
def gradeViaEveryDecisionCounts : Except GradeError AnswerResult :=
  let studentNonAnswers := response.allChoices \ studentAnswer
  let edcMaxGrade := response.allChoices.card
  let goodAnswers := (studentAnswer.filter (· ∈ response.correctChoices)).card
  let goodNonAnswers := (studentNonAnswers.filter (· ∈ response.incorrectChoices)).card
  let edcCurrentGrade := goodAnswers + goodNonAnswers
  if edcMaxGrade = 0 then .error .unexpected
  else
    let returnGrade := round (response.points * edcCurrentGrade / edcMaxGrade)
    if edcCurrentGrade = edcMaxGrade then .ok (result .correct none)
    else if 0 < edcCurrentGrade then .ok (result .partiallyCorrect (some returnGrade))
    else .ok (result .incorrect (some 0))

/-- `grade_via_halves` -/
def gradeViaHalves : AnswerResult :=
  let studentNonAnswers := response.allChoices \ studentAnswer
  let incorrectAnswers := (studentAnswer.filter (· ∈ response.incorrectChoices)).card
  let missedAnswers := (studentNonAnswers.filter (· ∈ response.correctChoices)).card
  let halvesErrorCount := incorrectAnswers + missedAnswers
  if halvesErrorCount = 0 then result .correct (some response.points)
  else if halvesErrorCount = 1 ∧ 2 < response.allChoices.card then
    result .partiallyCorrect (some (round (response.points / 2)))
  else if halvesErrorCount = 2 ∧ 4 < response.allChoices.card then
    result .partiallyCorrect (some (round (response.points / 4)))
  else result .incorrect none

/-- `grade_without_partial_credit` -/
def gradeWithoutPartialCredit : AnswerResult :=
  let requiredSelected := (response.correctChoices \ studentAnswer).card = 0
  let noExtraSelected := (studentAnswer \ response.correctChoices).card = 0
  if requiredSelected ∧ noExtraSelected then result .correct none else result .incorrect none

end

/-- `get_score`, for a list of names. -/
def getScore (studentAnswer : List ν) : Except GradeError AnswerResult :=
  if studentAnswer = [] then .ok (result .incorrect none)
  else if !response.hasPartialCredit then .ok (response.gradeWithoutPartialCredit studentAnswer.toFinset)
  else
    match response.creditType with
    | [] => .error .unexpected
    | ["edc"] => response.gradeViaEveryDecisionCounts round studentAnswer.toFinset
    | ["halves"] => .ok (response.gradeViaHalves round studentAnswer.toFinset)
    | ["false"] => .ok (response.gradeWithoutPartialCredit studentAnswer.toFinset)
    | _ => .error .loncapaProblemError

def score (studentAnswer : List ν) : Except GradeError Rat :=
  (response.getScore round studentAnswer).map CorrectMap.npoints

/-- The scheme of a response whose `partial_credit` attribute is accepted. -/
def scheme : Option Scheme :=
  if !response.hasPartialCredit then some .withoutPartialCredit
  else
    match response.creditType with
    | ["edc"] => some .everyDecisionCounts
    | ["halves"] => some .halves
    | ["false"] => some .withoutPartialCredit
    | _ => none

/-- The wrong decisions: missed correct choices, and selected incorrect ones. -/
def wrongDecisions (selection : Finset ν) : Nat :=
  (response.correctChoices \ selection).card + (selection ∩ response.incorrectChoices).card

/-- Some of the choices are selected, and nothing else. -/
structure Selects (studentAnswer : List ν) : Prop where
  nonempty : studentAnswer ≠ []
  existing : studentAnswer.toFinset ⊆ response.allChoices

/-- Fewer wrong decisions never score less, and only no wrong decision scores all points. -/
structure GradesByDecisions : Prop where
  monotone : ∀ better worse, response.Selects better → response.Selects worse →
    response.wrongDecisions better.toFinset < response.wrongDecisions worse.toFinset →
    ∃ high low, response.score id better = .ok high ∧ response.score id worse = .ok low ∧ low ≤ high
  full : ∀ selection, response.Selects selection → ∃ score, response.score id selection = .ok score ∧
    (score = response.points ↔ response.wrongDecisions selection.toFinset = 0)

end ChoiceResponse

/-! ## Scores by the number of wrong decisions -/

/-- The score of an answer with so many wrong decisions of `count`. -/
def Scheme.value (points : Rat) (count wrong : Nat) : Scheme → Rat
  | .everyDecisionCounts => if wrong = 0 then 1 else points * (count - wrong) / count
  | .halves =>
    if wrong = 0 then points
    else if wrong = 1 ∧ 2 < count then points / 2
    else if wrong = 2 ∧ 4 < count then points / 4
    else 0
  | .withoutPartialCredit => if wrong = 0 then 1 else 0

/-- Some selection of the correct and incorrect choices has so many wrong decisions. -/
def Reachable (correct incorrect wrong : Nat) : Prop :=
  (0 < correct ∧ wrong < correct + incorrect) ∨ (0 < incorrect ∧ 0 < wrong ∧ wrong ≤ correct + incorrect)

/-- The scores by the numbers of wrong decisions fall, and only none of them scores all points. -/
structure Scheme.Falls (scheme : Scheme) (points : Rat) (correct incorrect : Nat) : Prop where
  monotone : ∀ better worse, Reachable correct incorrect better → Reachable correct incorrect worse → better < worse →
    scheme.value points (correct + incorrect) worse ≤ scheme.value points (correct + incorrect) better
  full : ∀ wrong, Reachable correct incorrect wrong →
    (scheme.value points (correct + incorrect) wrong = points ↔ wrong = 0)

/-- The points of a response with so many choices by which the scores fall. -/
def Scheme.Fair (points : Int) (correct incorrect : Nat) : Scheme → Prop
  | .everyDecisionCounts => (0 < correct → points = 1) ∧ (0 < incorrect → points ≠ 0) ∧
      (correct = 0 → 1 < incorrect → 0 < points)
  | .halves => 0 < points ∨ (incorrect = 0 ∧ correct ≤ 1) ∨ (points < 0 ∧ correct = 0 ∧ incorrect ≤ 2)
  | .withoutPartialCredit => (0 < correct → points = 1) ∧ (0 < incorrect → points ≠ 0)

section Falls

variable {points : Int} {correct incorrect : Nat}

theorem Scheme.Falls.points_eq {scheme : Scheme} (hfalls : scheme.Falls points correct incorrect)
    (hone : scheme.value points (correct + incorrect) 0 = 1)
    (hnone : 0 < correct + incorrect → scheme.value points (correct + incorrect) (correct + incorrect) = 0) :
    (0 < correct → points = 1) ∧ (0 < incorrect → points ≠ 0) := by
  constructor
  · intro hcorr
    have hfull := (hfalls.full 0 (.inl ⟨hcorr, by omega⟩)).mpr rfl
    rw [hone] at hfull
    exact_mod_cast hfull.symm
  · rintro hinc rfl
    have hfull := hfalls.full (correct + incorrect) (.inr ⟨hinc, by omega, le_refl _⟩)
    rw [hnone (by omega)] at hfull
    have hzero := hfull.mp (by norm_num)
    omega

theorem points_ne_zero (hone : 0 < correct → points = 1) (hnone : 0 < incorrect → points ≠ 0)
    {wrong : Nat} (hrble : Reachable correct incorrect wrong) : points ≠ 0 := by
  rcases hrble with ⟨hcorr, -⟩ | ⟨hinc, -⟩
  · rw [hone hcorr]
    exact one_ne_zero
  · exact hnone hinc

theorem falls_withoutPartialCredit_iff : withoutPartialCredit.Falls points correct incorrect ↔
      withoutPartialCredit.Fair points correct incorrect := by
  constructor
  · intro hfalls
    exact hfalls.points_eq rfl fun hpos => if_neg hpos.ne'
  · rintro ⟨hone, hnone⟩
    constructor
    · intro better worse _ _ hless
      rw [value, value, if_neg (by omega)]
      split
      · exact zero_le_one
      · exact le_refl 0
    · intro wrong hrble
      rw [value]
      by_cases hwrong : wrong = 0
      · rw [if_pos hwrong, hone (by rcases hrble with h | h <;> omega)]
        exact iff_of_true Int.cast_one.symm hwrong
      · rw [if_neg hwrong]
        exact iff_of_false (fun heq => points_ne_zero hone hnone hrble (by exact_mod_cast heq.symm)) hwrong

theorem everyDecision_le {points : Rat} (hpts : 0 ≤ points) {count better worse : Nat}
    (hless : better < worse) : points * (count - worse) / count ≤ points * (count - better) / count := by
  have hcnt : (0 : Rat) ≤ count := Nat.cast_nonneg count
  have hworse : (better : Rat) ≤ worse := by exact_mod_cast hless.le
  apply div_le_div_of_nonneg_right _ hcnt
  exact mul_le_mul_of_nonneg_left (by linarith) hpts

theorem falls_everyDecisionCounts_iff : everyDecisionCounts.Falls points correct incorrect ↔
      everyDecisionCounts.Fair points correct incorrect := by
  constructor
  · intro hfalls
    obtain ⟨hone, hnone⟩ := hfalls.points_eq rfl fun hpos => by
      rw [value, if_neg hpos.ne', sub_self, mul_zero, zero_div]
    refine ⟨hone, hnone, ?_⟩
    rintro rfl hmany
    have hfall := hfalls.monotone 1 2 (.inr ⟨by omega, by omega, by omega⟩)
      (.inr ⟨by omega, by omega, by omega⟩) (by omega)
    have hcnt : (0 : Rat) < ((0 + incorrect : Nat) : Rat) := by
      exact_mod_cast (show 0 < 0 + incorrect by omega)
    rw [value, value, if_neg (by omega), if_neg (by omega), div_le_div_iff_of_pos_right hcnt] at hfall
    have hnn : (0 : Rat) ≤ points := by
      push_cast at hfall
      linarith
    exact lt_of_le_of_ne (by exact_mod_cast hnn) (hnone (by omega)).symm
  · rintro ⟨hone, hnone, hmany⟩
    constructor
    · intro better worse hbet hworse hless
      have hpts : (0 : Rat) ≤ points := by
        rcases Nat.eq_zero_or_pos correct with hzero | hpos
        · have hpos := hmany hzero (by rcases hbet with h | h <;> rcases hworse with h' | h' <;> omega)
          exact_mod_cast hpos.le
        · rw [hone hpos]
          norm_num
      rw [value, value, if_neg (by omega)]
      split
      · next hzero =>
          have hcorr : 0 < correct := by rcases hbet with h | h <;> omega
          have hle := @everyDecision_le _ hpts (correct + incorrect) _ _ hless
          rw [hzero, hone hcorr] at hle
          rw [hone hcorr]
          refine hle.trans ?_
          have hcnt : ((correct + incorrect : Nat) : Rat) ≠ 0 := by
            exact_mod_cast (show correct + incorrect ≠ 0 by omega)
          rw [Nat.cast_zero, sub_zero, Int.cast_one, one_mul, div_self hcnt]
      · exact everyDecision_le hpts hless
    · intro wrong hrble
      rw [value]
      by_cases hwrong : wrong = 0
      · rw [if_pos hwrong, hone (by rcases hrble with h | h <;> omega)]
        exact iff_of_true Int.cast_one.symm hwrong
      · rw [if_neg hwrong]
        refine iff_of_false (fun heq => ?_) hwrong
        have hne : (points : Rat) ≠ 0 := by exact_mod_cast points_ne_zero hone hnone hrble
        have hcnt : ((correct + incorrect : Nat) : Rat) ≠ 0 := by
          exact_mod_cast (show correct + incorrect ≠ 0 by rcases hrble with h | h <;> omega)
        rw [div_eq_iff hcnt, mul_right_inj' hne] at heq
        have hzero : (wrong : Rat) = 0 := by linarith
        exact hwrong (by exact_mod_cast hzero)

theorem halves_le {points : Rat} (hpts : 0 < points) {count better worse : Nat} (hless : better < worse) :
    halves.value points count worse ≤ halves.value points count better := by
  have hhalf : points / 2 ≤ points := by linarith
  have hquar : points / 4 ≤ points / 2 := by linarith
  have hsome : 0 ≤ points / 4 := by linarith
  rw [value, value, if_neg (show ¬ worse = 0 by omega)]
  by_cases hzero : better = 0
  · rw [if_pos hzero]
    split
    · exact hhalf
    split
    · exact hquar.trans hhalf
    · exact hpts.le
  · rw [if_neg hzero, if_neg (show ¬ (worse = 1 ∧ 2 < count) by omega)]
    split
    · next htwo =>
        rw [if_pos (show better = 1 ∧ 2 < count by omega)]
        exact hquar
    · split
      · exact hsome.trans hquar
      split
      · exact hsome
      · exact le_refl 0

theorem halves_eq_iff {points : Rat} (hpts : 0 < points) (count wrong : Nat) :
    halves.value points count wrong = points ↔ wrong = 0 := by
  rw [value]
  by_cases hwrong : wrong = 0
  · rw [if_pos hwrong]
    exact iff_of_true rfl hwrong
  · rw [if_neg hwrong]
    refine iff_of_false (fun heq => ?_) hwrong
    split at heq
    · linarith
    split at heq <;> linarith

theorem falls_halves_of_pos (hpts : 0 < points) : halves.Falls points correct incorrect := by
  have hpts' : (0 : Rat) < points := by exact_mod_cast hpts
  exact ⟨fun _ _ _ _ hless => halves_le hpts' hless, fun wrong _ => halves_eq_iff hpts' _ wrong⟩

theorem falls_halves_of_right_only (hnone : incorrect = 0) (hone : correct ≤ 1) :
    halves.Falls points correct incorrect := by
  have hrgt : ∀ wrong, Reachable correct incorrect wrong → wrong = 0 := by
    rintro wrong (⟨-, hless⟩ | ⟨hpos, -⟩) <;> omega
  constructor
  · intro better worse _ hworse hless
    have := hrgt worse hworse
    omega
  · intro wrong hrble
    rw [hrgt wrong hrble]
    exact iff_of_true rfl rfl

theorem falls_halves_of_neg (hneg : points < 0) (hnone : correct = 0) (htwo : incorrect ≤ 2) :
    halves.Falls points correct incorrect := by
  have hsco : ∀ wrong, Reachable correct incorrect wrong →
      wrong ≠ 0 ∧ halves.value points (correct + incorrect) wrong = 0 := by
    rintro wrong (⟨hpos, -⟩ | ⟨-, hpos, -⟩)
    · omega
    · refine ⟨hpos.ne', ?_⟩
      rw [value, if_neg hpos.ne', if_neg (by omega), if_neg (by omega)]
  constructor
  · intro better worse hbet hworse _
    rw [(hsco worse hworse).2, (hsco better hbet).2]
  · intro wrong hrble
    obtain ⟨hne, hval⟩ := hsco wrong hrble
    rw [hval]
    refine iff_of_false (fun heq => ?_) hne
    have hzero : points = 0 := by exact_mod_cast heq.symm
    omega

theorem falls_halves_iff :
    halves.Falls points correct incorrect ↔ halves.Fair points correct incorrect := by
  constructor
  · rintro ⟨hmon, hfull⟩
    by_contra hunf
    simp only [Scheme.Fair, not_or, not_and, not_lt, not_le] at hunf
    obtain ⟨hpts, hmany, hnega⟩ := hunf
    have hpts' : (points : Rat) ≤ 0 := by exact_mod_cast hpts
    by_cases hzero : points = 0
    · -- any wrong decision scores all points
      have hwrong := hfull 1 (by
        rcases Nat.eq_zero_or_pos incorrect with hnone | hpos
        · exact .inl ⟨by have := hmany hnone; omega, by have := hmany hnone; omega⟩
        · exact .inr ⟨hpos, by omega, by omega⟩)
      refine absurd (hwrong.mp ?_) one_ne_zero
      rw [value, hzero, Int.cast_zero, zero_div, zero_div]
      simp
    · have hneg : points < 0 := by omega
      have hneg' : (points : Rat) < 0 := by exact_mod_cast hneg
      rcases Nat.eq_zero_or_pos correct with hnone | hcorr
      · -- a second wrong decision scores more than the first
        have hcnt : 2 < incorrect := hnega hneg hnone
        have hfall := hmon 1 2 (.inr ⟨by omega, by omega, by omega⟩) (.inr ⟨by omega, by omega, by omega⟩) (by omega)
        rw [value, value, if_neg (show ¬ 2 = 0 by omega),
          if_neg (show ¬ (2 = 1 ∧ 2 < correct + incorrect) by omega), if_neg (show ¬ 1 = 0 by omega),
          if_pos (show 1 = 1 ∧ 2 < correct + incorrect by omega)] at hfall
        split at hfall <;> linarith
      · -- a wrong decision scores more than none
        have hcnt : 1 < correct + incorrect := by
          rcases Nat.eq_zero_or_pos incorrect with hnone | hpos
          · have := hmany hnone
            omega
          · omega
        have hfall := hmon 0 1 (.inl ⟨hcorr, by omega⟩) (.inl ⟨hcorr, hcnt⟩) (by omega)
        rw [value, value, if_neg (by omega), if_pos rfl] at hfall
        split at hfall
        · linarith
        split at hfall <;> linarith
  · rintro (hpts | ⟨hnone, hone⟩ | ⟨hneg, hnone, htwo⟩)
    · exact falls_halves_of_pos hpts
    · exact falls_halves_of_right_only hnone hone
    · exact falls_halves_of_neg hneg hnone htwo

theorem falls_iff_fair (scheme : Scheme) :
    scheme.Falls points correct incorrect ↔ scheme.Fair points correct incorrect := by
  cases scheme with
  | everyDecisionCounts => exact falls_everyDecisionCounts_iff
  | halves => exact falls_halves_iff
  | withoutPartialCredit => exact falls_withoutPartialCredit_iff

end Falls

namespace ChoiceResponse

variable {response : ChoiceResponse ν}

theorem mem_marked {value : String} {name : ν} : name ∈ response.marked value ↔ (name, value) ∈ response.choices := by
  simp [marked]

section

variable (response : ChoiceResponse ν)

theorem disjoint_choices : Disjoint response.correctChoices response.incorrectChoices := by
  rw [Finset.disjoint_left]
  intro name hcorr hinc
  have heq := inj_on_of_nodup_map response.names_unique (mem_marked.mp hcorr) (mem_marked.mp hinc) rfl
  exact absurd (congrArg Prod.snd heq) (show ¬ "true" = "false" by decide)

theorem card_allChoices : response.allChoices.card = response.correctChoices.card + response.incorrectChoices.card :=
  Finset.card_union_of_disjoint response.disjoint_choices

section

variable (selection : Finset ν)

theorem rightDecisions_add_wrongDecisions : (selection.filter (· ∈ response.correctChoices)).card +
        ((response.allChoices \ selection).filter (· ∈ response.incorrectChoices)).card +
      response.wrongDecisions selection = response.allChoices.card := by
  have hblank : (response.allChoices \ selection).filter (· ∈ response.incorrectChoices) =
      response.incorrectChoices \ selection := by
    ext name
    simp only [allChoices, Finset.mem_filter, Finset.mem_sdiff, Finset.mem_union]
    tauto
  have hcorr := Finset.card_sdiff_add_card_inter response.correctChoices selection
  have hinc := Finset.card_sdiff_add_card_inter response.incorrectChoices selection
  rw [hblank, Finset.filter_mem_eq_inter, wrongDecisions, card_allChoices, Finset.inter_comm selection,
    Finset.inter_comm selection]
  omega

theorem wrongDecisions_le : response.wrongDecisions selection ≤ response.allChoices.card := by
  have hsum := response.rightDecisions_add_wrongDecisions selection
  omega

theorem halvesErrorCount_eq : (selection.filter (· ∈ response.incorrectChoices)).card +
        ((response.allChoices \ selection).filter (· ∈ response.correctChoices)).card =
      response.wrongDecisions selection := by
  have hmis : (response.allChoices \ selection).filter (· ∈ response.correctChoices) =
      response.correctChoices \ selection := by
    ext name
    simp only [allChoices, Finset.mem_filter, Finset.mem_sdiff, Finset.mem_union]
    tauto
  rw [hmis, Finset.filter_mem_eq_inter, wrongDecisions, Nat.add_comm]

end

end

variable {selection : Finset ν}

theorem wrongDecisions_eq_zero_iff (hexi : selection ⊆ response.allChoices) : response.wrongDecisions selection = 0 ↔
      (response.correctChoices \ selection).card = 0 ∧ (selection \ response.correctChoices).card = 0 := by
  have hextra : selection \ response.correctChoices = selection ∩ response.incorrectChoices := by
    ext name
    have hdisj : name ∈ response.correctChoices → name ∉ response.incorrectChoices :=
      fun hname => Finset.disjoint_left.mp response.disjoint_choices hname
    have hname : name ∈ selection → _ := fun hname => Finset.mem_union.mp (hexi hname)
    simp only [Finset.mem_sdiff, Finset.mem_inter]
    tauto
  rw [wrongDecisions, hextra, Nat.add_eq_zero_iff]

variable {studentAnswer : List ν}

theorem Selects.card_pos (hsels : response.Selects studentAnswer) : 0 < response.allChoices.card := by
  obtain ⟨name, hname⟩ := exists_mem_of_ne_nil studentAnswer hsels.nonempty
  exact Finset.card_pos.mpr ⟨name, hsels.existing (mem_toFinset.mpr hname)⟩

theorem score_everyDecisionCounts (hsels : response.Selects studentAnswer) :
    (response.gradeViaEveryDecisionCounts id studentAnswer.toFinset).map CorrectMap.npoints =
      .ok (everyDecisionCounts.value response.points response.allChoices.card
        (response.wrongDecisions studentAnswer.toFinset)) := by
  have hcnt := hsels.card_pos
  have hsum := response.rightDecisions_add_wrongDecisions studentAnswer.toFinset
  simp only [gradeViaEveryDecisionCounts, value, if_neg hcnt.ne', id]
  generalize response.wrongDecisions studentAnswer.toFinset = wrong at hsum ⊢
  generalize (studentAnswer.toFinset.filter (· ∈ response.correctChoices)).card +
    ((response.allChoices \ studentAnswer.toFinset).filter (· ∈ response.incorrectChoices)).card = right
    at hsum ⊢
  generalize response.allChoices.card = count at hcnt hsum ⊢
  subst hsum
  by_cases hwrong : wrong = 0
  · rw [if_pos hwrong, if_pos (by omega)]
    rfl
  · rw [if_neg hwrong, if_neg (by omega)]
    by_cases hrgt : right = 0
    · rw [if_neg (by omega), hrgt]
      simp [Except.map, CorrectMap.npoints, result]
    · rw [if_pos (by omega)]
      push_cast
      rw [add_sub_cancel_right]
      rfl

theorem npoints_gradeViaHalves (response : ChoiceResponse ν) (selection : Finset ν) :
    CorrectMap.npoints (response.gradeViaHalves id selection) =
      halves.value response.points response.allChoices.card (response.wrongDecisions selection) := by
  simp only [gradeViaHalves, halvesErrorCount_eq, value]
  split
  · rfl
  split
  · rfl
  split <;> rfl

theorem npoints_gradeWithoutPartialCredit (hexi : selection ⊆ response.allChoices) :
    CorrectMap.npoints (response.gradeWithoutPartialCredit selection) =
      withoutPartialCredit.value response.points response.allChoices.card
        (response.wrongDecisions selection) := by
  simp only [gradeWithoutPartialCredit, value, wrongDecisions_eq_zero_iff hexi]
  split <;> rfl

theorem score_of_selects {scheme : Scheme} (hscheme : response.scheme = some scheme)
    (hsels : response.Selects studentAnswer) :
    response.score id studentAnswer = .ok (scheme.value response.points response.allChoices.card
        (response.wrongDecisions studentAnswer.toFinset)) := by
  have hwit := npoints_gradeWithoutPartialCredit hsels.existing
  rw [score, getScore, if_neg hsels.nonempty]
  rw [ChoiceResponse.scheme] at hscheme
  split at hscheme
  · next hpar =>
      obtain rfl := some.inj hscheme
      rw [if_pos hpar, ← hwit]
      rfl
  · next hpar =>
      rw [if_neg hpar]
      split at hscheme
      · next hcred =>
          obtain rfl := some.inj hscheme
          rw [hcred]
          exact score_everyDecisionCounts hsels
      · next hcred =>
          obtain rfl := some.inj hscheme
          rw [hcred, ← npoints_gradeViaHalves]
          rfl
      · next hcred =>
          obtain rfl := some.inj hscheme
          rw [hcred, ← hwit]
          rfl
      · cases hscheme

variable {wrong : Finset ν}

theorem wrongDecisions_symmDiff (hwrong : wrong ⊆ response.allChoices) :
    response.wrongDecisions (symmDiff response.correctChoices wrong) = wrong.card := by
  have hmis : response.correctChoices \ symmDiff response.correctChoices wrong = wrong ∩ response.correctChoices := by
    ext name
    simp only [Finset.mem_sdiff, Finset.mem_symmDiff, Finset.mem_inter]
    tauto
  have hextra : symmDiff response.correctChoices wrong ∩ response.incorrectChoices =
      wrong \ response.correctChoices := by
    ext name
    have hdisj : name ∈ response.correctChoices → name ∉ response.incorrectChoices :=
      fun hname => Finset.disjoint_left.mp response.disjoint_choices hname
    have hname : name ∈ wrong → _ := fun hname => Finset.mem_union.mp (hwrong hname)
    simp only [Finset.mem_sdiff, Finset.mem_symmDiff, Finset.mem_inter]
    tauto
  rw [wrongDecisions, hmis, hextra, Nat.add_comm, Finset.card_sdiff_add_card_inter]

theorem exists_selects (hwrong : wrong ⊆ response.allChoices) {name : ν}
    (hname : name ∈ symmDiff response.correctChoices wrong) :
    ∃ selection, response.Selects selection ∧ response.wrongDecisions selection.toFinset = wrong.card := by
  refine ⟨(symmDiff response.correctChoices wrong).toList, ⟨?_, ?_⟩, ?_⟩
  · exact ne_nil_of_mem (Finset.mem_toList.mpr hname)
  · rw [Finset.toList_toFinset]
    intro other hoth
    rcases Finset.mem_symmDiff.mp hoth with ⟨hcorr, -⟩ | ⟨hoth, -⟩
    · exact Finset.mem_union_left _ hcorr
    · exact hwrong hoth
  · rw [Finset.toList_toFinset, wrongDecisions_symmDiff hwrong]

theorem exists_selects_iff (response : ChoiceResponse ν) (wrong : Nat) :
    (∃ selection, response.Selects selection ∧ response.wrongDecisions selection.toFinset = wrong) ↔
      Reachable response.correctChoices.card response.incorrectChoices.card wrong := by
  have hcnt := response.card_allChoices
  constructor
  · rintro ⟨selection, hsels, rfl⟩
    obtain ⟨name, hname⟩ := exists_mem_of_ne_nil selection hsels.nonempty
    have hmem := mem_toFinset.mpr hname
    have hle := response.wrongDecisions_le selection.toFinset
    rcases Finset.mem_union.mp (hsels.existing hmem) with hcorr | hinc
    · -- the name is a right decision
      have hrgt : 0 < (selection.toFinset.filter (· ∈ response.correctChoices)).card :=
        Finset.card_pos.mpr ⟨name, Finset.mem_filter.mpr ⟨hmem, hcorr⟩⟩
      have hsum := response.rightDecisions_add_wrongDecisions selection.toFinset
      exact .inl ⟨Finset.card_pos.mpr ⟨name, hcorr⟩, by omega⟩
    · have hextra := Finset.card_pos.mpr ⟨name, Finset.mem_inter.mpr ⟨hmem, hinc⟩⟩
      refine .inr ⟨Finset.card_pos.mpr ⟨name, hinc⟩, ?_, by omega⟩
      rw [wrongDecisions]
      omega
  · rintro (⟨hcorr, hless⟩ | ⟨hinc, hpos, hle⟩)
    · -- one correct choice is selected
      obtain ⟨name, hname⟩ := Finset.card_pos.mp hcorr
      have hall : name ∈ response.allChoices := Finset.mem_union_left _ hname
      obtain ⟨others, hoths, rfl⟩ := Finset.exists_subset_card_eq
        (show wrong ≤ (response.allChoices.erase name).card by
          rw [Finset.card_erase_of_mem hall]
          omega)
      have hnot : name ∉ others := fun hmem => Finset.notMem_erase name _ (hoths hmem)
      exact exists_selects (hoths.trans (Finset.erase_subset _ _)) (Finset.mem_symmDiff.mpr (.inl ⟨hname, hnot⟩))
    · -- one incorrect choice is selected
      obtain ⟨name, hname⟩ := Finset.card_pos.mp hinc
      have hall : {name} ⊆ response.allChoices := Finset.singleton_subset_iff.mpr (Finset.mem_union_right _ hname)
      obtain ⟨others, hmem, hoths, rfl⟩ := Finset.exists_subsuperset_card_eq hall
        (show ({name} : Finset ν).card ≤ wrong by
          rw [Finset.card_singleton]
          omega) (by omega)
      have hnot : name ∉ response.correctChoices := fun hcorr =>
        Finset.disjoint_left.mp response.disjoint_choices hcorr hname
      exact exists_selects hoths (Finset.mem_symmDiff.mpr (.inr ⟨Finset.singleton_subset_iff.mp hmem, hnot⟩))

theorem gradesByDecisions_iff_falls {scheme : Scheme} (hscheme : response.scheme = some scheme) :
    response.GradesByDecisions ↔
      scheme.Falls response.points response.correctChoices.card response.incorrectChoices.card := by
  have hsco := fun selection => @score_of_selects ν _ response selection scheme hscheme
  rw [card_allChoices] at hsco
  constructor
  · rintro ⟨hmon, hfull⟩
    constructor
    · intro better worse hbet hworse hless
      obtain ⟨best, hbest, rfl⟩ := (response.exists_selects_iff better).mpr hbet
      obtain ⟨worst, hworst, rfl⟩ := (response.exists_selects_iff worse).mpr hworse
      obtain ⟨high, low, hhigh, hlow, hle⟩ := hmon best worst hbest hworst hless
      obtain rfl := ok.inj ((hsco best hbest).symm.trans hhigh)
      obtain rfl := ok.inj ((hsco worst hworst).symm.trans hlow)
      exact hle
    · intro wrong hwrong
      obtain ⟨selection, hsels, rfl⟩ := (response.exists_selects_iff wrong).mpr hwrong
      obtain ⟨score, hfnd, hiff⟩ := hfull selection hsels
      obtain rfl := ok.inj ((hsco selection hsels).symm.trans hfnd)
      exact hiff
  · rintro ⟨hmon, hfull⟩
    have hrble := fun selection hsels =>
      (response.exists_selects_iff (response.wrongDecisions selection.toFinset)).mp ⟨selection, hsels, rfl⟩
    constructor
    · intro better worse hbet hworse hless
      exact ⟨_, _, hsco better hbet, hsco worse hworse, hmon _ _ (hrble better hbet) (hrble worse hworse) hless⟩
    · intro selection hsels
      exact ⟨_, hsco selection hsels, hfull _ (hrble selection hsels)⟩

/-- Selections are graded by their wrong decisions just if the points of the response are fair. -/
theorem gradesByDecisions_iff_fair {scheme : Scheme} (hscheme : response.scheme = some scheme) :
    response.GradesByDecisions ↔
      scheme.Fair response.points response.correctChoices.card response.incorrectChoices.card :=
  (gradesByDecisions_iff_falls hscheme).trans (falls_iff_fair scheme)

end ChoiceResponse

def fourChoices (points : Int) (creditType : String) : ChoiceResponse Nat where
  choices := [(0, "true"), (1, "true"), (2, "false"), (3, "false")]
  names_unique := by decide
  points := points
  hasPartialCredit := true
  creditType := [creditType]

theorem fourChoices_gradesByDecisions : (fourChoices 3 "halves").GradesByDecisions := by
  have hscheme : (fourChoices 3 "halves").scheme = some .halves := rfl
  exact (ChoiceResponse.gradesByDecisions_iff_fair hscheme).mpr (.inl (by decide))

/-- The right selection scores one point, and one with a wrong decision more than two. -/
theorem fourChoices_not_gradesByDecisions : (fourChoices 3 "edc").scheme = some .everyDecisionCounts ∧
      ¬ (fourChoices 3 "edc").GradesByDecisions := by
  refine ⟨rfl, fun hgrades => ?_⟩
  obtain ⟨high, low, hhigh, hlow, hle⟩ := hgrades.monotone [0, 1] [0]
    ⟨by decide, by decide⟩ ⟨by decide, by decide⟩ (by decide)
  obtain rfl := ok.inj hhigh
  obtain rfl := ok.inj hlow
  revert hle
  decide +kernel

end EdxPlatform.ChoiceCredit

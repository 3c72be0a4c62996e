import Mathlib.Tactic.Linarith
import EdxPlatform.Capa.Problem

/-!
# Credit for numbers

A response whose answer is a number has a range of right answers, or one answer with a tolerance
and perhaps alternative ones.  Numbers near a right answer may be worth a part of the credit.
-/

namespace EdxPlatform.NumericalCredit

abbrev Text := List Char

/-- The styles of partial credit of a response. -/
structure CreditStyles where
  hasPartialCredit : Bool
  creditType : List String

namespace CreditStyles

variable (styles : CreditStyles)

/-- Only the styles `list` and `close` are approved. -/
def approved : Bool := !styles.hasPartialCredit || styles.creditType.all fun style => style = "list" || style = "close"

def close : Bool := styles.hasPartialCredit && decide ("close" ∈ styles.creditType)

def list : Bool := styles.hasPartialCredit && decide ("list" ∈ styles.creditType)

end CreditStyles

open CreditStyles

def result (isCorrect : Correctness) (partialScore : Rat) : AnswerResult :=
  if isCorrect = .partiallyCorrect then ⟨isCorrect, some partialScore, some ""⟩
  else ⟨isCorrect, none, some ""⟩

/-! ## Ranges -/

/-- `compare_with_tolerance`, of numbers that are real and finite. -/
def compareWithTolerance (student instructor tolerance : Rat) (relativeTolerance : Bool) : Bool :=
  let tolerance := if relativeTolerance then tolerance * max |student| |instructor| else tolerance
  |student - instructor| ≤ tolerance

/-- Which of the boundaries are included, and their texts. -/
structure StaffRange where
  inclusion : Bool × Bool
  answerRange : List Text

/-- The part of `setup_response` for an answer that is a range. -/
def setupRange (contextualizeText : Text → Text) (answer : Text) : Except GradeError (Option StaffRange) :=
  if (answer.head? = some '[' ∨ answer.head? = some '(') ∧
      (answer.getLast? = some ']' ∨ answer.getLast? = some ')') then
    let answerRange := (((answer.drop 1).dropLast).splitOn ',').map contextualizeText
    if 2 ≤ answerRange.length then
      .ok (some ⟨(answer.head? = some '[', answer.getLast? = some ']'), answerRange⟩)
    else .error .studentInputError
  else .ok none

/-- The numbers of the boundaries that the staff gave, as far as they are real numbers. -/
structure RangeResponse where
  styles : CreditStyles
  range : StaffRange
  getStaffAns : Text → Option Rat
  partialRange : Rat := 2
  epsilon : Rat

namespace RangeResponse

variable (response : RangeResponse)

/-- The loop over the boundaries, which ends with a mark at a boundary that the value equals. -/
def checkBoundaries (student : Rat) : List (Bool × Text) → List Rat → Except GradeError (Correctness ⊕ List Rat)
  | [], boundaries => .ok (.inr boundaries)
  | (inclusion, answer) :: rest, boundaries =>
    match response.getStaffAns answer with
    | none => .error .studentInputError
    | some boundary =>
      if compareWithTolerance student boundary response.epsilon true then
        .ok (.inl (if inclusion then .correct else .incorrect))
      else checkBoundaries student rest (boundaries ++ [boundary])

def markBetween (student low high : Rat) : Correctness :=
  if low < student ∧ student < high then .correct
  else if !response.styles.hasPartialCredit then .incorrect
  else if "close" ∈ response.styles.creditType then
    let boundaryRange := high - low
    let extendedLow := low - response.partialRange * boundaryRange
    let extendedHigh := high + response.partialRange * boundaryRange
    if extendedLow < student ∧ student < extendedHigh then .partiallyCorrect else .incorrect
  else .incorrect

/-- `get_score` of a response with a range, for a value. -/
def getScore (student : Rat) : Except GradeError AnswerResult :=
  if !response.styles.approved then .error .loncapaProblemError
  else
    let inclusion := [response.range.inclusion.1, response.range.inclusion.2]
    match response.checkBoundaries student (inclusion.zip response.range.answerRange) [] with
    | .error err => .error err
    | .ok (.inl mark) => .ok (result mark (1 / 2))
    | .ok (.inr [low, high]) => .ok (result (response.markBetween student low high) (1 / 2))
    | .ok (.inr _) => .error .unexpected

def credit (student : Rat) : Except GradeError Rat := (response.getScore student).map CorrectMap.npoints

end RangeResponse

open RangeResponse

/-- A value lies in the interval, of which each boundary is included or not. -/
def InInterval (inclusion : Bool × Bool) (low high value : Rat) : Prop :=
  (low < value ∨ inclusion.1 = true ∧ value = low) ∧ (value < high ∨ inclusion.2 = true ∧ value = high)

/-- A value lies in the open interval, extended by so many times its length. -/
def InExtended (partialRange low high value : Rat) : Prop :=
  low - partialRange * (high - low) < value ∧ value < high + partialRange * (high - low)

instance (inclusion : Bool × Bool) (low high value : Rat) : Decidable (InInterval inclusion low high value) := by
  rw [InInterval]
  infer_instance

instance (partialRange low high value : Rat) : Decidable (InExtended partialRange low high value) := by
  rw [InExtended]
  infer_instance

def intervalCredit (response : RangeResponse) (low high student : Rat) : Rat :=
  if InInterval response.range.inclusion low high student then 1
  else if response.styles.close = true ∧ InExtended response.partialRange low high student then 1 / 2
  else 0

/-- The value is a boundary that is not included, and half credit would be given close to it. -/
def AtExcludedBoundary (response : RangeResponse) (low high student : Rat) : Prop :=
  response.styles.close = true ∧ 0 < response.partialRange ∧ (student = low ∧ response.range.inclusion.1 = false ∨
      student = high ∧ response.range.inclusion.2 = false)

theorem compareWithTolerance_zero (student instructor : Rat) :
    compareWithTolerance student instructor 0 true = decide (student = instructor) := by
  simp [compareWithTolerance, sub_eq_zero]

/-- The response has a range with the given boundaries, and compares exactly. -/
structure HasRange (response : RangeResponse) (low high : Rat) : Prop where
  approved : response.styles.approved = true
  boundaries : ∃ lowText highText rest, response.range.answerRange = lowText :: highText :: rest ∧
    response.getStaffAns lowText = some low ∧ response.getStaffAns highText = some high
  less : low < high
  partialRange : 0 ≤ response.partialRange
  exact : response.epsilon = 0

section Credit

variable {response : RangeResponse} {low high : Rat}

section

variable (hrange : HasRange response low high) (student : Rat)
include hrange

theorem checkBoundaries_eq : response.checkBoundaries student
        ([response.range.inclusion.1, response.range.inclusion.2].zip response.range.answerRange) [] =
      .ok (if student = low then .inl (if response.range.inclusion.1 then .correct else .incorrect)
        else if student = high then .inl (if response.range.inclusion.2 then .correct else .incorrect)
        else .inr [low, high]) := by
  obtain ⟨lowText, highText, rest, hans, hlow, hhigh⟩ := hrange.boundaries
  rw [hans, zip_cons_cons, zip_cons_cons, List.zip_nil_left]
  simp only [checkBoundaries, hlow, hhigh, hrange.exact, compareWithTolerance_zero, decide_eq_true_iff]
  split
  · rfl
  split <;> rfl

theorem credit_eq : response.credit student = .ok (if student = low then if response.range.inclusion.1 then 1 else 0
      else if student = high then if response.range.inclusion.2 then 1 else 0
      else CorrectMap.npoints (result (response.markBetween student low high) (1 / 2))) := by
  have happroved : ¬ (!response.styles.approved) = true := by
    rw [hrange.approved]
    decide
  rw [credit, getScore, if_neg happroved]
  simp only [checkBoundaries_eq hrange]
  by_cases hlow : student = low
  · rw [if_pos hlow, if_pos hlow]
    cases response.range.inclusion.1 <;> rfl
  · rw [if_neg hlow, if_neg hlow]
    by_cases hhigh : student = high
    · rw [if_pos hhigh, if_pos hhigh]
      cases response.range.inclusion.2 <;> rfl
    · rw [if_neg hhigh, if_neg hhigh]
      rfl

end

theorem npoints_markBetween {student : Rat} (hlow : student ≠ low) (hhigh : student ≠ high) :
    CorrectMap.npoints (result (response.markBetween student low high) (1 / 2)) =
      intervalCredit response low high student := by
  have hin : InInterval response.range.inclusion low high student ↔ low < student ∧ student < high := by
    simp [InInterval, hlow, hhigh]
  rw [markBetween, intervalCredit, close]
  by_cases hbet : low < student ∧ student < high
  · rw [if_pos hbet, if_pos (hin.mpr hbet)]
    rfl
  · rw [if_neg hbet, if_neg fun h => hbet (hin.mp h)]
    cases response.styles.hasPartialCredit with
    | false =>
      rw [if_pos (show (!false) = true from rfl), Bool.false_and, if_neg fun h => Bool.noConfusion h.1]
      rfl
    | true =>
      rw [if_neg (show ¬ (!true) = true by decide), Bool.true_and]
      by_cases hclose : "close" ∈ response.styles.creditType
      · rw [if_pos hclose]
        dsimp only
        by_cases hext : low - response.partialRange * (high - low) < student ∧
            student < high + response.partialRange * (high - low)
        · rw [if_pos hext, if_pos ⟨decide_eq_true hclose, hext⟩]
          rfl
        · rw [if_neg hext, if_neg fun h => hext h.2]
          rfl
      · rw [if_neg hclose, if_neg fun h => hclose (of_decide_eq_true h.1)]
        rfl

theorem inExtended_boundary (hless : low < high) (partialRange : Rat) :
    (InExtended partialRange low high low ↔ 0 < partialRange) ∧
      (InExtended partialRange low high high ↔ 0 < partialRange) := by
  have hlen : 0 < high - low := sub_pos.mpr hless
  have hexte : 0 < partialRange * (high - low) ↔ 0 < partialRange := mul_pos_iff_of_pos_right hlen
  rw [InExtended, InExtended, ← hexte]
  constructor
  · exact ⟨fun h => by linarith [h.1], fun h => ⟨by linarith, by linarith⟩⟩
  · exact ⟨fun h => by linarith [h.2], fun h => ⟨by linarith, by linarith⟩⟩

theorem inInterval_boundary (hless : low < high) (inclusion : Bool × Bool) :
    (InInterval inclusion low high low ↔ inclusion.1 = true) ∧
      (InInterval inclusion low high high ↔ inclusion.2 = true) := by
  rw [InInterval, InInterval]
  constructor <;> simp [hless]

theorem boundaryCredit_iff {included : Bool} {student : Rat}
    (hin : InInterval response.range.inclusion low high student ↔ included = true)
    (hext : InExtended response.partialRange low high student ↔ 0 < response.partialRange) :
    (if included then 1 else 0) = intervalCredit response low high student ↔
      ¬ (response.styles.close = true ∧ 0 < response.partialRange ∧ included = false) := by
  rw [intervalCredit]
  simp only [hin, hext]
  cases included with
  | true => simp
  | false =>
    by_cases hclose : response.styles.close = true ∧ 0 < response.partialRange
    · rw [if_pos hclose]
      exact iff_of_false (by norm_num) fun hnot => hnot ⟨hclose.1, hclose.2, rfl⟩
    · rw [if_neg hclose]
      exact iff_of_true rfl fun h => hclose ⟨h.1, h.2.1⟩

/-- The credit is that of the intervals but at a boundary that is not included, if there is credit
close to it. -/
theorem credit_eq_intervalCredit_iff (hrange : HasRange response low high) (student : Rat) :
    response.credit student = .ok (intervalCredit response low high student) ↔
      ¬ AtExcludedBoundary response low high student := by
  obtain ⟨hextendedLow, hextendedHigh⟩ := inExtended_boundary hrange.less response.partialRange
  obtain ⟨hinLow, hinHigh⟩ := inInterval_boundary hrange.less response.range.inclusion
  rw [credit_eq hrange, Except.ok.injEq, AtExcludedBoundary]
  by_cases hlow : student = low
  · rw [if_pos hlow, hlow, boundaryCredit_iff hinLow hextendedLow]
    simp [hrange.less.ne]
  · rw [if_neg hlow]
    by_cases hhigh : student = high
    · rw [if_pos hhigh, hhigh, boundaryCredit_iff hinHigh hextendedHigh]
      simp [hrange.less.ne']
    · rw [if_neg hhigh, npoints_markBetween hlow hhigh]
      simp [hlow, hhigh]

end Credit

/-- A response with the range `[1,3)` and credit close to it. -/
def oneToThree : RangeResponse where
  styles := ⟨true, ["close"]⟩
  range := ⟨(true, false), ["1".toList, "3".toList]⟩
  getStaffAns text := if text = "1".toList then some 1 else if text = "3".toList then some 3 else none
  epsilon := 0

example : (setupRange id "[1,3)".toList).toOption.join.map StaffRange.answerRange =
    some oneToThree.range.answerRange := by decide

theorem oneToThree_hasRange : HasRange oneToThree 1 3 where
  approved := rfl
  boundaries := ⟨_, _, [], rfl, rfl, rfl⟩
  less := by norm_num
  partialRange := by norm_num [oneToThree]
  exact := rfl

theorem oneToThree_credit_one : oneToThree.credit 1 = .ok (intervalCredit oneToThree 1 3 1) := by
  refine (credit_eq_intervalCredit_iff oneToThree_hasRange 1).mpr ?_
  rintro ⟨-, -, ⟨-, hexcluded⟩ | ⟨heq, -⟩⟩
  · cases hexcluded
  · norm_num at heq

/-- There is no credit for three, though there is half credit for four. -/
theorem oneToThree_credit_three :
    HasRange oneToThree 1 3 ∧ oneToThree.credit 3 ≠ .ok (intervalCredit oneToThree 1 3 3) := by
  refine ⟨oneToThree_hasRange, fun heq => ?_⟩
  have hnone : oneToThree.credit 3 = .ok 0 := by
    rw [credit_eq oneToThree_hasRange, if_neg (by norm_num), if_pos rfl]
    rfl
  have hhalf : intervalCredit oneToThree 1 3 3 = 1 / 2 := by decide +kernel
  rw [hnone, hhalf] at heq
  exact absurd (ok.inj heq) (by norm_num)

/-! ## Alternative answers -/

/-- The answer and the alternative answers, and which values are near them. -/
structure ToleranceResponse (ν : Type) where
  styles : CreditStyles
  correctFloat : ν
  partialAnswers : Option (List ν)
  /-- The student's value is within the tolerance of another one. -/
  within : ν → ν → Bool
  withinExpanded : ν → ν → Bool

variable {ν : Type}

namespace ToleranceResponse

variable (response : ToleranceResponse ν) (student : ν)

def listLoop : List ν → Correctness × Rat
  | [] => (.incorrect, 1 / 2)
  | value :: values =>
    if response.within student value then (.partiallyCorrect, 1 / 2)
    else if "close" ∈ response.styles.creditType then
      if response.withinExpanded student response.correctFloat then (.partiallyCorrect, 1 / 2)
      else if response.withinExpanded student value then (.partiallyCorrect, 1 / 2 * (1 / 2))
      else listLoop values
    else listLoop values

/-- The mark and the partial score; without alternative answers the loop is over `False`. -/
def mark : Except GradeError (Correctness × Rat) :=
  if response.within student response.correctFloat then .ok (.correct, 1 / 2)
  else if !response.styles.hasPartialCredit then .ok (.incorrect, 1 / 2)
  else if "list" ∈ response.styles.creditType then
    match response.partialAnswers with
    | none => .error .unexpected
    | some partialAnswers => .ok (response.listLoop student partialAnswers)
  else if "close" ∈ response.styles.creditType then
    if response.withinExpanded student response.correctFloat then .ok (.partiallyCorrect, 1 / 2)
    else .ok (.incorrect, 1 / 2)
  else .ok (.incorrect, 1 / 2)

/-- `get_score` of a response with a tolerance, for a value. -/
def getScore : Except GradeError AnswerResult :=
  if !response.styles.approved then .error .loncapaProblemError
  else (response.mark student).map fun mark => result mark.1 mark.2

def credit : Except GradeError Rat := (response.getScore student).map CorrectMap.npoints

def creditIf (applies : Bool) (credit : Rat) : Rat := if applies then credit else 0

def nearAlternative (near : ν → ν → Bool) : Bool := (response.partialAnswers.getD []).any (near student)

def largestCredit : Rat :=
  max (creditIf (response.within student response.correctFloat) 1)
    (max (creditIf (response.styles.close && response.withinExpanded student response.correctFloat) (1 / 2))
      (max (creditIf (response.styles.list && response.nearAlternative student response.within) (1 / 2))
        (creditIf (response.styles.list && response.styles.close &&
          response.nearAlternative student response.withinExpanded) (1 / 4))))

/-- The credit is the largest one, whatever the order of the alternative answers. -/
structure GivesLargest : Prop where
  largest : response.credit student = .ok (response.largestCredit student)
  order : ∀ alternatives others, response.partialAnswers = some alternatives → alternatives.Perm others →
    { response with partialAnswers := some others }.credit student = response.credit student

/-- No alternative answer comes in the way of another one or of the answer itself. -/
def Unambiguous : Prop :=
  response.within student response.correctFloat = true ∨ response.styles.list = false ∨
    ∃ alternatives, response.partialAnswers = some alternatives ∧ (response.styles.close = true →
        if response.withinExpanded student response.correctFloat then alternatives ≠ []
        else (∀ value ∈ alternatives, response.within student value = false) ∨
          ∀ value ∈ alternatives, response.withinExpanded student value = true → response.within student value = true)

variable {response student} (happroved : response.styles.approved = true)

def listPoints (response : ToleranceResponse ν) (student : ν) (alternatives : List ν) : Rat :=
  CorrectMap.npoints (result (response.listLoop student alternatives).1 (response.listLoop student alternatives).2)

theorem mem_of_close (hclose : response.styles.close = true) : "close" ∈ response.styles.creditType := by
  rw [close, and_eq_true, decide_eq_true_iff] at hclose
  exact hclose.2

theorem not_mem_of_list (hlist : response.styles.list = true) (hclose : response.styles.close = false) :
    "close" ∉ response.styles.creditType := by
  rw [list, and_eq_true] at hlist
  rw [close, hlist.1, Bool.true_and] at hclose
  exact of_decide_eq_false hclose

section

include happroved

theorem getScore_of_approved :
    response.getScore student = (response.mark student).map fun mark => result mark.1 mark.2 := by
  rw [getScore, happroved]
  rfl

theorem credit_of_within (hwithin : response.within student response.correctFloat = true) :
    response.credit student = .ok 1 := by
  rw [credit, getScore_of_approved happroved, mark, if_pos hwithin]
  rfl

section

variable (hwithin : response.within student response.correctFloat = false)
include hwithin

theorem credit_of_not_list (hlist : response.styles.list = false) : response.credit student =
      .ok (creditIf (response.styles.close && response.withinExpanded student response.correctFloat) (1 / 2)) := by
  rw [list] at hlist
  rw [credit, getScore_of_approved happroved, mark, hwithin, if_neg false_ne_true, close]
  cases hpar : response.styles.hasPartialCredit with
  | false => rfl
  | true =>
    rw [hpar, Bool.true_and] at hlist
    rw [if_neg (show ¬ (!true) = true by decide), if_neg (of_decide_eq_false hlist), Bool.true_and]
    by_cases hclose : "close" ∈ response.styles.creditType
    · rw [if_pos hclose, decide_eq_true hclose, Bool.true_and]
      cases response.withinExpanded student response.correctFloat <;> rfl
    · rw [if_neg hclose, decide_eq_false hclose, Bool.false_and]
      rfl

theorem credit_of_list (hlist : response.styles.list = true) :
    response.credit student = match response.partialAnswers with
      | none => .error .unexpected
      | some alternatives => .ok (response.listPoints student alternatives) := by
  rw [list, and_eq_true, decide_eq_true_iff] at hlist
  rw [credit, getScore_of_approved happroved, mark, hwithin, if_neg false_ne_true, hlist.1,
    if_neg (show ¬ (!true) = true by decide), if_pos hlist.2]
  cases response.partialAnswers <;> rfl

end

end

theorem listPoints_without_close (hclose : "close" ∉ response.styles.creditType) (alternatives : List ν) :
    response.listPoints student alternatives = creditIf (alternatives.any (response.within student)) (1 / 2) := by
  induction alternatives with
  | nil => rfl
  | cons value values ih =>
    rw [listPoints, listLoop, any_cons]
    cases response.within student value with
    | true => rfl
    | false =>
      rw [if_neg false_ne_true, if_neg hclose, Bool.false_or]
      exact ih

variable {alternatives : List ν}

theorem listPoints_near (hclose : "close" ∈ response.styles.creditType)
    (hnear : response.withinExpanded student response.correctFloat = true)
    (halt : alternatives ≠ []) : response.listPoints student alternatives = 1 / 2 := by
  cases alternatives with
  | nil => exact absurd rfl halt
  | cons value values =>
    rw [listPoints, listLoop, if_pos hclose, if_pos hnear]
    cases response.within student value <;> rfl

section

variable (hclose : "close" ∈ response.styles.creditType)
  (hfar : response.withinExpanded student response.correctFloat = false)
include hclose hfar

theorem listPoints_cons (value : ν) (values : List ν) :
    response.listPoints student (value :: values) = if response.within student value then 1 / 2
      else if response.withinExpanded student value then 1 / 4
      else response.listPoints student values := by
  rw [listPoints, listLoop, if_pos hclose, hfar, if_neg false_ne_true]
  cases response.within student value with
  | true => rfl
  | false =>
    cases response.withinExpanded student value with
    | true =>
      change (1 / 2 * (1 / 2) : Rat) = 1 / 4
      norm_num
    | false => rfl

theorem listPoints_none_within (hnone : ∀ value ∈ alternatives, response.within student value = false) :
    response.listPoints student alternatives =
      creditIf (alternatives.any (response.withinExpanded student)) (1 / 4) := by
  induction alternatives with
  | nil => rfl
  | cons value values ih =>
    obtain ⟨hval, hvals⟩ := forall_mem_cons.mp hnone
    rw [listPoints_cons hclose hfar, hval, if_neg false_ne_true, any_cons, ih hvals]
    cases response.withinExpanded student value <;> rfl

theorem listPoints_expanded_within (hall : ∀ value ∈ alternatives, response.withinExpanded student value = true →
      response.within student value = true) :
    response.listPoints student alternatives = creditIf (alternatives.any (response.within student)) (1 / 2) := by
  induction alternatives with
  | nil => rfl
  | cons value values ih =>
    obtain ⟨hval, hvals⟩ := forall_mem_cons.mp hall
    rw [listPoints_cons hclose hfar, any_cons]
    cases hwithin : response.within student value with
    | true => rfl
    | false =>
      have hexp : ¬ response.withinExpanded student value = true := fun hexp => by
        rw [hval hexp] at hwithin
        cases hwithin
      rw [if_neg false_ne_true, if_neg hexp, Bool.false_or]
      exact ih hvals

end

theorem largestCredit_eq : response.largestCredit student = if response.within student response.correctFloat then 1
      else if response.styles.close && response.withinExpanded student response.correctFloat ||
          response.styles.list && response.nearAlternative student response.within then 1 / 2
      else if response.styles.list && response.styles.close &&
          response.nearAlternative student response.withinExpanded then 1 / 4
      else 0 := by
  rw [largestCredit]
  generalize response.within student response.correctFloat = answer
  generalize (response.styles.close && response.withinExpanded student response.correctFloat) = near
  generalize (response.styles.list && response.nearAlternative student response.within) = alternative
  generalize (response.styles.list && response.styles.close &&
    response.nearAlternative student response.withinExpanded) = nearAlternative
  cases answer <;> cases near <;> cases alternative <;> cases nearAlternative <;> norm_num [creditIf]

theorem any_perm {near : ν → Bool} {others : List ν} (hperm : alternatives.Perm others) :
    alternatives.any near = others.any near := by
  rw [eq_iff_iff, any_eq_true, any_eq_true]
  exact exists_congr fun value => and_congr_left fun _ => hperm.mem_iff

theorem listLoop_other (response : ToleranceResponse ν) (student : ν) (others : Option (List ν))
    (alternatives : List ν) :
    { response with partialAnswers := others }.listLoop student alternatives =
      response.listLoop student alternatives := by
  induction alternatives with
  | nil => rfl
  | cons value values ih => rw [listLoop, listLoop, ih]

theorem credit_other (happroved : response.styles.approved = true)
    (hwithin : response.within student response.correctFloat = false)
    (hlist : response.styles.list = true) (others : List ν) :
    { response with partialAnswers := some others }.credit student = .ok (response.listPoints student others) := by
  have hoth := @credit_of_list ν { response with partialAnswers := some others } student happroved hwithin hlist
  refine hoth.trans (congrArg Except.ok ?_)
  simp only [listPoints, listLoop_other]

section Listed

variable (hwithin : response.within student response.correctFloat = false) (hlist : response.styles.list = true)
  {alternatives : List ν} (hanswers : response.partialAnswers = some alternatives)

include hwithin hlist hanswers in
theorem largestCredit_of_list : response.largestCredit student =
      if response.styles.close && response.withinExpanded student response.correctFloat ||
          alternatives.any (response.within student) then 1 / 2
      else if response.styles.close && alternatives.any (response.withinExpanded student) then 1 / 4
      else 0 := by
  rw [largestCredit_eq, hwithin, hlist, if_neg false_ne_true, Bool.true_and, Bool.true_and, nearAlternative,
    nearAlternative, hanswers, getD_some]

include happroved hwithin hlist hanswers

theorem givesLargest_of_list (hpts : ∀ others, alternatives.Perm others →
      response.listPoints student others = response.largestCredit student) :
    response.GivesLargest student := by
  have hcred : response.credit student = .ok (response.largestCredit student) := by
    rw [credit_of_list happroved hwithin hlist, hanswers]
    exact congrArg Except.ok (hpts alternatives (List.Perm.refl _))
  refine ⟨hcred, fun others permuted hoths hperm => ?_⟩
  obtain rfl := some_unique hanswers hoths
  rw [hcred]
  rw [credit_other happroved hwithin hlist, hpts permuted hperm]

theorem not_givesLargest_of_list (hclose : response.styles.close = true)
    (hfar : response.withinExpanded student response.correctFloat = false) {right near : ν}
    (hrgt : right ∈ alternatives) (hrig : response.within student right = true)
    (hnear : near ∈ alternatives) (hnearE : response.withinExpanded student near = true)
    (hnearW : response.within student near = false) : ¬ response.GivesLargest student := by
  intro hgives
  have hlarg := largestCredit_of_list hwithin hlist hanswers
  have hany : alternatives.any (response.within student) = true := any_eq_true.mpr ⟨right, hrgt, hrig⟩
  rw [hany, Bool.or_true, if_pos rfl] at hlarg
  obtain ⟨before, after, rfl⟩ := append_of_mem hnear
  -- in this order the loop ends at the near alternative
  have hord := hgives.order _ _ hanswers (List.perm_middle)
  rw [hgives.largest, hlarg, credit_other happroved hwithin hlist,
    listPoints_cons (mem_of_close hclose) hfar, hnearW, hnearE, if_neg false_ne_true,
    if_pos rfl] at hord
  norm_num at hord

theorem givesLargest_of_not_close (hclose : response.styles.close = false) : response.GivesLargest student := by
  refine givesLargest_of_list happroved hwithin hlist hanswers fun others hperm => ?_
  rw [listPoints_without_close (not_mem_of_list hlist hclose), ← any_perm hperm,
    largestCredit_of_list hwithin hlist hanswers, hclose]
  simp [creditIf]

theorem givesLargest_near_iff (hclose : response.styles.close = true)
    (hnear : response.withinExpanded student response.correctFloat = true) :
    response.GivesLargest student ↔ alternatives ≠ [] := by
  have hlarg := largestCredit_of_list hwithin hlist hanswers
  rw [hclose, hnear, Bool.true_and, Bool.true_or, if_pos rfl] at hlarg
  constructor
  · rintro hgives rfl
    have hnoth := hgives.largest
    rw [credit_of_list happroved hwithin hlist, hanswers, hlarg] at hnoth
    have hzero : (0 : Rat) = 1 / 2 := ok.inj hnoth
    norm_num at hzero
  · intro hsome
    refine givesLargest_of_list happroved hwithin hlist hanswers fun others hperm => ?_
    rw [hlarg]
    exact listPoints_near (mem_of_close hclose) hnear fun hnil => hsome (List.perm_nil.mp (hnil ▸ hperm))

theorem givesLargest_far_iff (hclose : response.styles.close = true)
    (hfar : response.withinExpanded student response.correctFloat = false) :
    response.GivesLargest student ↔ (∀ value ∈ alternatives, response.within student value = false) ∨
        ∀ value ∈ alternatives, response.withinExpanded student value = true →
          response.within student value = true := by
  have hlarg := largestCredit_of_list hwithin hlist hanswers
  rw [hclose, hfar, Bool.true_and, Bool.false_or, Bool.true_and] at hlarg
  constructor
  · intro hgives
    by_contra hamb
    simp only [not_or, not_forall, not_eq_false] at hamb
    obtain ⟨⟨right, hrgt, hrig⟩, near, hnear, hnearE, hnearW⟩ := hamb
    exact not_givesLargest_of_list happroved hwithin hlist hanswers hclose hfar hrgt hrig hnear
      hnearE (not_eq_true _ ▸ hnearW) hgives
  · intro huna
    refine givesLargest_of_list happroved hwithin hlist hanswers fun others hperm => ?_
    rw [hlarg]
    rcases huna with hnone | hall
    · have hany : alternatives.any (response.within student) = false := by
        rw [any_eq_false]
        exact fun value hval => by rw [hnone value hval]; decide
      rw [listPoints_none_within (mem_of_close hclose) hfar fun value hval =>
        hnone value (hperm.mem_iff.mpr hval), ← any_perm hperm, hany, if_neg false_ne_true, creditIf]
    · rw [listPoints_expanded_within (mem_of_close hclose) hfar fun value hval =>
        hall value (hperm.mem_iff.mpr hval), ← any_perm hperm, creditIf]
      cases hany : alternatives.any (response.within student) with
      | true => rfl
      | false =>
        have hnear : alternatives.any (response.withinExpanded student) = false := by
          rw [any_eq_false] at hany ⊢
          exact fun value hval hexp => hany value hval (hall value hval hexp)
        rw [hnear]
        simp

theorem givesLargest_iff_of_list : response.GivesLargest student ↔ (response.styles.close = true →
        if response.withinExpanded student response.correctFloat then alternatives ≠ []
        else (∀ value ∈ alternatives, response.within student value = false) ∨
          ∀ value ∈ alternatives, response.withinExpanded student value = true →
            response.within student value = true) := by
  cases hclose : response.styles.close with
  | false =>
    exact iff_of_true (givesLargest_of_not_close happroved hwithin hlist hanswers hclose) fun h => Bool.noConfusion h
  | true =>
    simp only [forall_const]
    cases hexp : response.withinExpanded student response.correctFloat with
    | true => exact givesLargest_near_iff happroved hwithin hlist hanswers hclose hexp
    | false =>
      rw [if_neg false_ne_true]
      exact givesLargest_far_iff happroved hwithin hlist hanswers hclose hexp

end Listed

/-- The credit is the largest one, whatever the order of the alternatives, just if the answers are
unambiguous for the value. -/
theorem givesLargest_iff (happroved : response.styles.approved = true) :
    response.GivesLargest student ↔ response.Unambiguous student := by
  cases hwithin : response.within student response.correctFloat with
  | true =>
    refine iff_of_true ⟨?_, fun alternatives others _ _ => ?_⟩ (.inl hwithin)
    · rw [credit_of_within happroved hwithin, largestCredit_eq, hwithin, if_pos rfl]
    · rw [credit_of_within happroved hwithin]
      exact @credit_of_within ν { response with partialAnswers := some others } student happroved hwithin
  | false =>
  cases hlist : response.styles.list with
  | false =>
    refine iff_of_true ⟨?_, fun alternatives others _ _ => ?_⟩ (.inr (.inl hlist))
    · rw [credit_of_not_list happroved hwithin hlist, largestCredit_eq, hwithin, hlist]
      simp [creditIf]
    · rw [credit_of_not_list happroved hwithin hlist]
      exact @credit_of_not_list ν { response with partialAnswers := some others } student happroved hwithin hlist
  | true =>
  cases hanswers : response.partialAnswers with
  | none =>
    refine iff_of_false (fun hgives => ?_) ?_
    · have hraised := hgives.largest
      rw [credit_of_list happroved hwithin hlist, hanswers] at hraised
      cases hraised
    · rintro (htrue | hfalse | ⟨alternatives, hsome, -⟩)
      · rw [hwithin] at htrue
        cases htrue
      · rw [hlist] at hfalse
        cases hfalse
      · rw [hanswers] at hsome
        cases hsome
  | some alternatives =>
    rw [givesLargest_iff_of_list happroved hwithin hlist hanswers, Unambiguous, hwithin, hlist, hanswers]
    simp

end ToleranceResponse

/-- A response to which the answer is ten, with tolerance one and expanded tolerance two. -/
def aboutTen (alternatives : List Int) : ToleranceResponse Int where
  styles := ⟨true, ["list", "close"]⟩
  correctFloat := 10
  partialAnswers := some alternatives
  within student instructor := decide (|student - instructor| ≤ 1)
  withinExpanded student instructor := decide (|student - instructor| ≤ 2)

theorem aboutTen_givesLargest : (aboutTen [20, 30]).GivesLargest 22 := by
  refine (ToleranceResponse.givesLargest_iff rfl).mpr (.inr (.inr ⟨_, rfl, fun _ => ?_⟩))
  exact .inl (by decide)

/-- The value is within the tolerance of 23, but near 20 comes first. -/
theorem aboutTen_not_givesLargest : ¬ (aboutTen [20, 23]).GivesLargest 22 := by
  intro hgives
  have hquarter : (aboutTen [20, 23]).credit 22 = .ok (1 / 2 * (1 / 2)) := rfl
  have hhalf : (aboutTen [20, 23]).largestCredit 22 = 1 / 2 := by decide +kernel
  have hlargest := hgives.largest
  rw [hquarter, hhalf] at hlargest
  exact absurd (ok.inj hlargest) (by norm_num)

end EdxPlatform.NumericalCredit

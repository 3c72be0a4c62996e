import Mathlib.Data.Finset.Card
import Mathlib.Data.Rat.Floor
import EdxPlatform.Capa.Problem

/-!
# Response types

How the response types that grade at once mark a learner's answers and what
points they store with the marks.  Each is modelled after its setup from the
XML of the problem.
-/

namespace EdxPlatform

/-- A submitted answer: a text, the names of the chosen choices, or the inputs of
a choice text group. -/
inductive Submitted where
  | text (value : String)
  | choices (names : List String)
  | inputs (values : Dict String String)

/-- `student_answers`. -/
abbrev StudentAnswers := Dict String Submitted

/-- An input field with its `points` attribute, which is 1 by default. -/
structure InputField where
  id : String
  points : Nat := 1
  points_pos : 0 < points := by exact Nat.one_pos

/-- A share of the points, as an author may give it. -/
structure Share where
  value : Rat
  nonneg : 0 ≤ value
  le_one : value ≤ 1

/-- What the response types use of the calculator and of the standard library:
numbers are those of `evaluator`, texts are unicode. -/
structure Libraries (ν : Type) where
  /-- `evaluator({}, {}, text)`, or an exception. -/
  evaluator : String → Option ν
  /-- `complex(text)`, or a `ValueError`. -/
  complex : String → Option ν
  zero : ν
  isComplex : ν → Bool
  hasImag : ν → Bool
  isnan : ν → Bool
  real : ν → ν
  less : ν → ν → Bool
  /-- The lower boundary and the upper one, moved outwards by so many ranges. -/
  extend : ν → ν → ν → ν × ν
  /-- `compare_with_tolerance(student, instructor, tolerance)`, or an exception. -/
  compareWithTolerance : ν → ν → String → Option Bool
  /-- The same with the relative tolerance `float_info.epsilon`. -/
  nearlyEqual : ν → ν → Bool
  float : String → Option ν
  /-- So many times the tolerance, or a `ValueError`. -/
  expandTolerance : ν → String → Option String
  strip : String → String
  lower : String → String
  /-- `re.search` with or without case, or an exception for the pattern. -/
  search : String → Bool → String → Option Bool
  loads : String → Option Json
  /-- The parser's cleaning of a message. -/
  cleanMarkup : String → String

/-- `round(value, 2)`, for values that are not negative. -/
def roundTwo (value : Rat) : Rat := ⌊value * 100 + 1 / 2⌋ / 100

def oneResult (answerId : String) (correctness : Correctness) (npoints : Option Rat) :
    CorrectMap :=
  ({} : CorrectMap).set answerId ⟨correctness, npoints, some ""⟩

theorem oneResult_inj {answerId : String} {correctness correctness' : Correctness} {npoints npoints' : Option Rat} :
    oneResult answerId correctness npoints = oneResult answerId correctness' npoints' ↔
      correctness = correctness' ∧ npoints = npoints' := by
  constructor
  · intro heq
    have hent := congrArg (fun map : CorrectMap => map.cmap.lookup answerId) heq
    simp only [oneResult, CorrectMap.set, lookup_insert_self, some_inj, AnswerResult.mk.injEq] at hent
    exact ⟨hent.1, hent.2.1⟩
  · rintro ⟨rfl, rfl⟩
    rfl

def defaultTolerance : String := "0.001%"

structure ChoiceResponse where
  field : InputField
  correctChoices : Finset String
  incorrectChoices : Finset String
  hasPartialCredit : Bool
  creditType : List String

namespace ChoiceResponse

variable (response : ChoiceResponse)

def allChoices : Finset String := response.correctChoices ∪ response.incorrectChoices

section

variable (studentAnswer : Finset String)

/-- `grade_via_every_decision_counts`. -/
def gradeViaEveryDecisionCounts : Except GradeError CorrectMap :=
  let studentNonAnswers := response.allChoices \ studentAnswer
  let edcMaxGrade := response.allChoices.card
  let goodAnswers := (studentAnswer.filter (· ∈ response.correctChoices)).card
  let goodNonAnswers := (studentNonAnswers.filter (· ∈ response.incorrectChoices)).card
  let edcCurrentGrade := goodAnswers + goodNonAnswers
  -- without choices the grade is a division by zero
  if edcMaxGrade = 0 then .error .unexpected
  else
    let returnGrade := roundTwo (response.field.points * edcCurrentGrade / edcMaxGrade)
    if edcCurrentGrade = edcMaxGrade then .ok (oneResult response.field.id .correct none)
    else if edcCurrentGrade > 0 then
      .ok (oneResult response.field.id .partiallyCorrect (some returnGrade))
    else .ok (oneResult response.field.id .incorrect (some 0))

/-- `grade_via_halves`. -/
def gradeViaHalves : CorrectMap :=
  let studentNonAnswers := response.allChoices \ studentAnswer
  let incorrectAnswers := (studentAnswer.filter (· ∈ response.incorrectChoices)).card
  let missedAnswers := (studentNonAnswers.filter (· ∈ response.correctChoices)).card
  let halvesErrorCount := incorrectAnswers + missedAnswers
  if halvesErrorCount = 0 then
    oneResult response.field.id .correct (some response.field.points)
  else if halvesErrorCount = 1 && decide (response.allChoices.card > 2) then
    oneResult response.field.id .partiallyCorrect (some (roundTwo (response.field.points / 2)))
  else if halvesErrorCount = 2 && decide (response.allChoices.card > 4) then
    oneResult response.field.id .partiallyCorrect (some (roundTwo (response.field.points / 4)))
  else oneResult response.field.id .incorrect none

/-- `grade_without_partial_credit`. -/
def gradeWithoutPartialCredit : CorrectMap :=
  let requiredSelected := (response.correctChoices \ studentAnswer).card = 0
  let noExtraSelected := (studentAnswer \ response.correctChoices).card = 0
  if requiredSelected ∧ noExtraSelected then oneResult response.field.id .correct none
  else oneResult response.field.id .incorrect none

end

/-- `get_score`. -/
def getScore (answers : StudentAnswers) : Except GradeError CorrectMap :=
  match (answers.lookup response.field.id).getD (.choices []) with
  -- a dictionary cannot be put into a set
  | .inputs _ => .error .unexpected
  | .choices [] => .ok (oneResult response.field.id .incorrect none)
  | .choices names => graded names.toFinset
  | .text name => graded {name}
where
  graded (studentAnswer : Finset String) : Except GradeError CorrectMap :=
    if response.hasPartialCredit then
      match response.creditType with
      | ["edc"] => response.gradeViaEveryDecisionCounts studentAnswer
      | ["halves"] => .ok (response.gradeViaHalves studentAnswer)
      | ["false"] => .ok (response.gradeWithoutPartialCredit studentAnswer)
      | [] => .error .unexpected
      | _ => .error .loncapaProblemError
    else .ok (response.gradeWithoutPartialCredit studentAnswer)

end ChoiceResponse

structure MultipleChoiceResponse where
  field : InputField
  correctChoices : List String
  /-- The partially correct choices, each with its `point_value`. -/
  partialChoices : List (String × Share)
  hasPartialCredit : Bool
  creditType : List String

namespace MultipleChoiceResponse

variable (response : MultipleChoiceResponse)

section

variable (answers : StudentAnswers)

/-- `grade_via_points`; an answer that is no text is none of the choices. -/
def gradeViaPoints : CorrectMap :=
  match answers.lookup response.field.id with
  | some (.text name) =>
    if name ∈ response.correctChoices then oneResult response.field.id .correct none
    else
      match response.partialChoices.lookup name with
      | some creditAmount => oneResult response.field.id .partiallyCorrect (some creditAmount.value)
      | none => oneResult response.field.id .incorrect none
  | _ => oneResult response.field.id .incorrect none

/-- `grade_without_partial_credit`. -/
def gradeWithoutPartialCredit : CorrectMap :=
  match answers.lookup response.field.id with
  | some (.text name) =>
    if name ∈ response.correctChoices then oneResult response.field.id .correct none
    else oneResult response.field.id .incorrect none
  | _ => oneResult response.field.id .incorrect none

/-- `get_score`. -/
def getScore : Except GradeError CorrectMap :=
  if response.hasPartialCredit then
    match response.creditType with
    | ["points"] => .ok (response.gradeViaPoints answers)
    | ["false"] => .ok (response.gradeWithoutPartialCredit answers)
    | [] => .error .unexpected
    | _ => .error .loncapaProblemError
  else .ok (response.gradeWithoutPartialCredit answers)

end

end MultipleChoiceResponse

structure TrueFalseResponse where
  field : InputField
  correctChoices : List String

/-- `get_score`, which compares sets. -/
def TrueFalseResponse.getScore (response : TrueFalseResponse) (answers : StudentAnswers) :
    Except GradeError CorrectMap :=
  match (answers.lookup response.field.id).getD (.choices []) with
  | .inputs _ => .error .unexpected
  | .choices names => .ok (graded names.toFinset)
  | .text name => .ok (graded {name})
where
  graded (names : Finset String) : CorrectMap :=
    if response.correctChoices.toFinset = names then oneResult response.field.id .correct none
    else oneResult response.field.id .incorrect none

/-- The fields with their `correct` attributes. -/
structure OptionResponse where
  answerFields : List (InputField × Option String)

namespace OptionResponse

def fieldResult (answers : StudentAnswers) (field : InputField × Option String) : AnswerResult :=
  match answers.lookup field.1.id, field.2 with
  | some (.text answer), some correct => ⟨if answer = correct then .correct else .incorrect, none, some ""⟩
  | _, _ => ⟨.incorrect, none, some ""⟩

/-- `get_score`. -/
def getScore (response : OptionResponse) (answers : StudentAnswers) : CorrectMap :=
  response.answerFields.foldl (fun cmap field => cmap.set field.1.id (fieldResult answers field)) {}

end OptionResponse

def orRaise {α : Type} (err : GradeError) : Option α → Except GradeError α
  | some value => .ok value
  | none => .error err

structure StringResponse where
  field : InputField
  correctAnswer : List String
  backward : Bool
  regexp : Bool
  caseInsensitive : Bool

variable {ν : Type}

namespace StringResponse

variable (libraries : Libraries ν) (response : StringResponse)

/-- `given in expected`, as the response treats case. -/
def isExpected (given : String) : Bool :=
  if response.caseInsensitive then
    decide (libraries.lower given ∈ response.correctAnswer.map libraries.lower)
  else decide (given ∈ response.correctAnswer)

/-- `check_string`; the `_or_` form takes no regular expressions. -/
def checkString (given : String) : Except GradeError Bool :=
  if given.isEmpty then .ok false
  else if response.backward then .ok (response.isExpected libraries given)
  else if response.regexp then
    orRaise .responseError (libraries.search ("^" ++ "|".intercalate response.correctAnswer ++ "$")
        response.caseInsensitive given)
  else .ok (response.isExpected libraries given)

/-- `get_score`. -/
def getScore (answers : StudentAnswers) : Except GradeError CorrectMap :=
  match answers.lookup response.field.id with
  | none => .ok (oneResult response.field.id .incorrect none)
  | some (.text answer) => do
    let correct ← response.checkString libraries (libraries.strip answer)
    return oneResult response.field.id (if correct then .correct else .incorrect) none
  -- only a text can be stripped
  | some _ => .error .unexpected

end StringResponse

structure NumericalResponse where
  field : InputField
  correctAnswer : String
  tolerance : String := defaultTolerance
  /-- In the range form, whether each boundary is included, and the boundaries. -/
  answerRange : Option ((Bool × String) × (Bool × String))
  hasPartialCredit : Bool
  creditType : List String
  partialRange : String := "2"
  partialAnswers : Option (List String)

namespace NumericalResponse

variable (libraries : Libraries ν) (response : NumericalResponse)

/-- `get_staff_ans`. -/
def getStaffAns (answer : String) : Except GradeError ν :=
  orRaise .studentInputError ((libraries.complex answer).or (libraries.evaluator answer))

def boundary (answer : String) : Except GradeError ν := do
  let boundary ← getStaffAns libraries answer
  if libraries.hasImag boundary || libraries.isnan boundary then .error .studentInputError
  else return boundary

def rangeMark (partialRange studentFloat : ν) (range : (Bool × String) × (Bool × String)) :
    Except GradeError Correctness := do
  if libraries.isComplex studentFloat then .error .studentInputError
  else
    let low ← boundary libraries range.1.2
    if libraries.nearlyEqual studentFloat low then
      return if range.1.1 then .correct else .incorrect
    else
      let high ← boundary libraries range.2.2
      if libraries.nearlyEqual studentFloat high then
        return if range.2.1 then .correct else .incorrect
      else
        let low := libraries.real low
        let high := libraries.real high
        if libraries.less low studentFloat && libraries.less studentFloat high then
          return .correct
        else if response.hasPartialCredit && decide ("close" ∈ response.creditType) then
          let extended := libraries.extend partialRange low high
          return if libraries.less extended.1 studentFloat &&
            libraries.less studentFloat extended.2 then .partiallyCorrect else .incorrect
        else return .incorrect

def compare (student instructor : ν) (tolerance : String) : Except GradeError Bool :=
  orRaise .unexpected (libraries.compareWithTolerance student instructor tolerance)

/-- The loop over the alternative answers, with the mark and the partial score. -/
def listMark (studentFloat correctFloat : ν) (expandedTolerance : String) :
    List ν → Except GradeError (Correctness × Rat)
  | [] => .ok (.incorrect, 1 / 2)
  | value :: values => do
    if ← compare libraries studentFloat value response.tolerance then
      return (.partiallyCorrect, 1 / 2)
    else if "close" ∈ response.creditType then
      if ← compare libraries studentFloat correctFloat expandedTolerance then
        return (.partiallyCorrect, 1 / 2)
      else if ← compare libraries studentFloat value expandedTolerance then
        return (.partiallyCorrect, 1 / 2 * (1 / 2))
      else listMark studentFloat correctFloat expandedTolerance values
    else listMark studentFloat correctFloat expandedTolerance values

/-- The mark of a number and the partial score, in the form with a tolerance. -/
def toleranceMark (partialRange studentFloat : ν) (partialAnswers : Option (List ν)) :
    Except GradeError (Correctness × Rat) := do
  let correctFloat ← getStaffAns libraries response.correctAnswer
  let expandedTolerance ← orRaise .unexpected (libraries.expandTolerance partialRange response.tolerance)
  if ← compare libraries studentFloat correctFloat response.tolerance then
    return (.correct, 1 / 2)
  else if !response.hasPartialCredit then return (.incorrect, 1 / 2)
  else if "list" ∈ response.creditType then
    match partialAnswers with
    -- without alternative answers the loop is over `False`
    | none => .error .unexpected
    | some values => response.listMark libraries studentFloat correctFloat expandedTolerance values
  else if "close" ∈ response.creditType then
    if ← compare libraries studentFloat correctFloat expandedTolerance then
      return (.partiallyCorrect, 1 / 2)
    else return (.incorrect, 1 / 2)
  else return (.incorrect, 1 / 2)

def mark (answer : String) : Except GradeError (Correctness × Rat) := do
  let studentFloat ← orRaise .studentInputError (libraries.evaluator answer)
  let partialRange ← orRaise .unexpected (libraries.float response.partialRange)
  let partialAnswers ← response.partialAnswers.mapM fun words =>
    words.mapM fun word => getStaffAns libraries (libraries.strip word)
  match response.answerRange with
  | some range => return (← response.rangeMark libraries partialRange studentFloat range, 1 / 2)
  | none => response.toleranceMark libraries partialRange studentFloat partialAnswers

/-- `get_score`. -/
def getScore (answers : StudentAnswers) : Except GradeError CorrectMap :=
  match answers.lookup response.field.id with
  | none => .ok (oneResult response.field.id .incorrect none)
  | some answer =>
    if response.hasPartialCredit && response.creditType.any (fun style => style ≠ "list" && style ≠ "close") then
      .error .loncapaProblemError
    else
      match answer with
      | .text answer => do
        let (isCorrect, partialScore) ← response.mark libraries answer
        if isCorrect = .partiallyCorrect then
          return oneResult response.field.id isCorrect (some partialScore)
        else return oneResult response.field.id isCorrect none
      -- only a text can be escaped for the messages
      | _ => .error .unexpected

end NumericalResponse

/-- `text.partition(separator)[0]`: the text before the separator, or the whole text. -/
def beforeSeparator (separator : List Char) : List Char → List Char
  | [] => []
  | c :: rest => if separator.isPrefixOf (c :: rest) then [] else c :: beforeSeparator separator rest

structure ChoiceTextResponse where
  field : InputField
  correctChoices : Finset String
  /-- The answer and the tolerance of each input of a correct choice. -/
  correctInputs : Dict String (String × String)

namespace ChoiceTextResponse

variable (libraries : Libraries ν) (response : ChoiceTextResponse)

/-- `key.partition('_numtolerance_input_')[0]`. -/
def choiceOf (key : String) : String := String.ofList (beforeSeparator "_numtolerance_input_".toList key.toList)

/-- `_split_answers_dict`: the names of the chosen choices, and the inputs in them. -/
def splitAnswersDict (answers : Dict String String) : List String × List (String × String) :=
  let selectedChoices := answers.keys.filter fun key => key.endsWith "bc"
  (selectedChoices, answers.entries.filterMap fun entry =>
    if choiceOf entry.1 ++ "bc" ∈ selectedChoices then some (entry.1, entry.2) else none)

/-- `_check_student_choices`. -/
def checkStudentChoices (choices : List String) : Bool :=
  decide ((response.correctChoices \ choices.toFinset).card = 0) &&
    decide ((choices.toFinset \ response.correctChoices).card = 0)

/-- The comparison of one input; those of other choices only have to be numbers. -/
def checkStudentInput (answerName answerValue : String) : Except GradeError Bool := do
  let correctAns ← match response.correctInputs.lookup answerName with
    | none => .ok libraries.zero
    | some params => orRaise .studentInputError (libraries.complex params.1)
  let tolerance := ((response.correctInputs.lookup answerName).map Prod.snd).getD defaultTolerance
  let value ← orRaise .studentInputError (libraries.evaluator answerValue)
  let partialCorrect ← orRaise .studentInputError (libraries.compareWithTolerance value correctAns tolerance)
  return partialCorrect || !decide (answerName ∈ response.correctInputs)

/-- `_check_student_inputs`. -/
def checkStudentInputs : List (String × String) → Except GradeError Bool
  | [] => .ok true
  | (answerName, answerValue) :: rest => do
    let correct ← response.checkStudentInput libraries answerName answerValue
    return correct && (← checkStudentInputs rest)

/-- `get_score`. -/
def getScore (answers : StudentAnswers) : Except GradeError CorrectMap :=
  match (answers.lookup response.field.id).getD (.text "") with
  | .inputs answerDict => graded answerDict
  -- the letters of a text are no keys
  | .text _ => graded ∅
  -- and the names in a list are no indices
  | .choices names => if names.any (·.endsWith "bc") then .error .unexpected else graded ∅
where
  graded (answerDict : Dict String String) : Except GradeError CorrectMap := do
    let (binaryChoices, numtoleranceInputs) := splitAnswersDict answerDict
    let inputsCorrect ← response.checkStudentInputs libraries numtoleranceInputs
    let correct := response.checkStudentChoices binaryChoices && inputsCorrect
    return oneResult response.field.id (if correct then .correct else .incorrect) none

end ChoiceTextResponse

/-- The options of the input with their `choice` attributes. -/
structure AnnotationResponse where
  field : InputField
  options : List (Option String)

namespace AnnotationResponse

variable (libraries : Libraries ν) (response : AnnotationResponse)

/-- `default_scoring`. -/
def defaultScoring : List (String × Correctness × Nat) :=
  [("incorrect", .incorrect, 0), ("partially-correct", .partiallyCorrect, 1), ("correct", .correct, 2)]

/-- `_get_max_points`, which no `points` attribute changes. -/
def maxPoints : Nat := 2

/-- `_get_submitted_option_id` of a text that is JSON. -/
def submittedOptionId (submitted : Json) : Option Json :=
  match submitted with
  | .object entries =>
    match entries.lookup "options" with
    | some (.array [option]) => some option
    | _ => none
  | _ => none

def optionIndex (value : Json) : Option Nat :=
  let number : Option Rat := match value with
    | .number value => some value
    | .bool value => some (if value then 1 else 0)
    | _ => none
  number.bind fun number =>
    if number.den = 1 ∧ 0 ≤ number.num then some number.num.toNat else none

/-- `get_score`; an option with a choice that is not scored has no mark. -/
def getScore (answers : StudentAnswers) : Except GradeError CorrectMap :=
  match answers.lookup response.field.id with
  | some (.text answer) => do
    let submitted ← orRaise .unexpected (libraries.loads answer)
    match ((submittedOptionId submitted).bind optionIndex).bind (response.options[·]?) with
    | none => return oneResult response.field.id .incorrect none
    | some choice =>
      match choice.bind fun choice => defaultScoring.lookup choice with
      | none => return oneResult response.field.id .unknown none
      | some (correctness, points) => return oneResult response.field.id correctness (some points)
  | _ => .error .unexpected

end AnnotationResponse

end EdxPlatform

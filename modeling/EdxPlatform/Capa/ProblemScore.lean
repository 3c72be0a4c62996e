import EdxPlatform.Capa.Responses

/-!
# The score of a problem

A problem of responses that grade at once: what its answers are worth at most,
and the score of a graded submission.
-/

namespace EdxPlatform

open CustomResponse

/-- What the check of a custom response comes to this time: an exception, a value
returned by a check function, or what a script leaves in the context. -/
inductive CheckOutcome where
  | raised
  | returned (cfnReturn : CfnReturn)
  | executed (correct : List Correctness) (messages : List (Option String))
      (overallMessage : String) (gradeDecimals : Option (List Rat))

namespace CheckOutcome

def authorDecimals (count : Nat) : CheckOutcome → List (Option Rat)
  | .returned (.okDict _ _ gradeDecimal) => List.replicate count gradeDecimal
  | .returned (.inputList _ inputs) => inputs.map InputDict.gradeDecimal
  | .executed _ _ _ (some decimals) => decimals.map some
  | _ => []

end CheckOutcome

/-- A custom response with its inputs in the order of their positions.  The grade
decimals that its author gives are shares. -/
structure ScriptResponse where
  inputs : List InputField
  emptyAnswerErr : Bool
  outcome : CheckOutcome
  decimals_share : ∀ decimal, some decimal ∈ outcome.authorDecimals inputs.length → 0 ≤ decimal ∧ decimal ≤ 1

namespace ScriptResponse

variable (cleanMarkup : String → String) (response : ScriptResponse)

/-- `not submission[0]`. -/
def isEmpty : Submitted → Bool
  | .text value => value.isEmpty
  | .choices names => names.isEmpty
  | .inputs values => values.entries.isEmpty

/-- The inputs as the last loop of `get_score` reads them, which is after the check
has used the submission. -/
def loopInputs : List Input := response.inputs.map fun field => ⟨field.id, field.points, ""⟩

/-- `execute_check_function`. -/
def executeCheckFunction (context : Context) : Except GradeError Context :=
  match response.outcome with
  | .raised => .error .responseError
  | .returned cfnReturn =>
    .ok (CustomResponse.executeCheckFunction cleanMarkup response.inputs.length cfnReturn context)
  | .executed correct messages overallMessage gradeDecimals =>
    .ok {
      correct
      messages
      overallMessage
      gradeDecimals := gradeDecimals.or context.gradeDecimals }

def skips : List Submitted → Bool
  | [submitted] => isEmpty submitted
  | _ => false

/-- `get_score`, with what it does to the shared context. -/
def getScore (answers : StudentAnswers) (context : Context) :
    Except GradeError (CorrectMap × Context) := do
  let submission ← response.inputs.mapM fun field => orRaise .unexpected (answers.lookup field.id)
  if skips submission then
    let msg := if response.emptyAnswerErr then
      "<span class=\"inline-error\">No answer entered!</span>" else ""
    return (response.inputs.foldl (fun map field => map.set field.id ⟨.incorrect, none, some msg⟩) {}, context)
  else
    let count := response.inputs.length
    let context ← response.executeCheckFunction cleanMarkup { context with
      correct := List.replicate count .unknown
      messages := List.replicate count (some "")
      overallMessage := "" }
    let correctMap : CorrectMap := { overallMessage := cleanMessageHtml cleanMarkup (some context.overallMessage) }
    match setResults response.loopInputs context.correct context.messages
        (usableDecimals context.gradeDecimals) correctMap with
    | .error _ => .error .unexpected
    | .ok correctMap => return (correctMap, context)

end ScriptResponse

/-- A response of the problem. -/
inductive Response where
  | choice (response : ChoiceResponse)
  | multipleChoice (response : MultipleChoiceResponse)
  | trueFalse (response : TrueFalseResponse)
  | option (response : OptionResponse)
  | string (response : StringResponse)
  | numerical (response : NumericalResponse)
  | choiceText (response : ChoiceTextResponse)
  | annotationResponse (response : AnnotationResponse)
  | custom (response : ScriptResponse)

variable (libraries : Libraries ν) {ν : Type}

namespace Response

/-- `maxpoints`, by answer id. -/
def maxpoints : Response → List (String × Nat)
  | .choice response => [(response.field.id, response.field.points)]
  | .multipleChoice response => [(response.field.id, response.field.points)]
  | .trueFalse response => [(response.field.id, response.field.points)]
  | .option response => response.answerFields.map fun field => (field.1.id, field.1.points)
  | .string response => [(response.field.id, response.field.points)]
  | .numerical response => [(response.field.id, response.field.points)]
  | .choiceText response => [(response.field.id, response.field.points)]
  | .annotationResponse response => [(response.field.id, AnnotationResponse.maxPoints)]
  | .custom response => response.inputs.map fun field => (field.id, field.points)

/-- `get_max_score`. -/
def getMaxScore (response : Response) : Nat := (response.maxpoints.map Prod.snd).sum

/-- `get_score`; only custom responses use the shared context. -/
def getScore (answers : StudentAnswers) (context : Context) : Response → Except GradeError (CorrectMap × Context)
  | .choice response => return (← response.getScore answers, context)
  | .multipleChoice response => return (← response.getScore answers, context)
  | .trueFalse response => return (← response.getScore answers, context)
  | .option response => return (response.getScore answers, context)
  | .string response => return (← response.getScore libraries answers, context)
  | .numerical response => return (← response.getScore libraries answers, context)
  | .choiceText response => return (← response.getScore libraries answers, context)
  | .annotationResponse response => return (← response.getScore libraries answers, context)
  | .custom response => response.getScore libraries.cleanMarkup answers context

end Response

/-- A problem object.  Its answer ids are unique, and the grade decimals that
earlier gradings left in its context are shares. -/
structure LoncapaProblem where
  responders : List Response
  context : Context := {}
  ids_unique : ((responders.flatMap Response.maxpoints).map Prod.fst).Nodup
  decimals_share : ∀ decimals, context.gradeDecimals = some decimals → ∀ decimal ∈ decimals, 0 ≤ decimal ∧ decimal ≤ 1

namespace LoncapaProblem

/-- The loop of `_grade_answers`. -/
def gradeFrom (answers : StudentAnswers) : List Response → CorrectMap → Context → Except GradeError CorrectMap
  | [], newcmap, _ => .ok newcmap
  | responder :: responders, newcmap, context => do
    let (results, context) ← responder.getScore libraries answers context
    gradeFrom answers responders (newcmap.update results) context

/-- `_grade_answers`. -/
def gradeAnswers (problem : LoncapaProblem) (answers : StudentAnswers) : Except GradeError CorrectMap :=
  gradeFrom libraries answers problem.responders {} problem.context

/-- `get_max_score`. -/
def getMaxScore (problem : LoncapaProblem) : Nat := (problem.responders.map Response.getMaxScore).sum

end LoncapaProblem

/-- A problem with graded answers. -/
structure GradedProblem {ν : Type} (libraries : Libraries ν) where
  problem : LoncapaProblem
  studentAnswers : StudentAnswers
  correctMap : CorrectMap
  graded : problem.gradeAnswers libraries studentAnswers = .ok correctMap

/-- The `score` of `get_score`. -/
def GradedProblem.getScore {ν : Type} {libraries : Libraries ν} (graded : GradedProblem libraries) : Rat :=
  if graded.studentAnswers.entries.isEmpty then 0 else graded.correctMap.points

end EdxPlatform

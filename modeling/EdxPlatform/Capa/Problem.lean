import Mathlib.Algebra.BigOperators.Group.List.Basic
import Mathlib.Algebra.Order.Ring.Rat
import EdxPlatform.Capa.CustomResponse

/-!
# Capa problems

The state of a learner's problem and the calls that change it.  Responses grade
synchronously, as functions of the answers; the answers hold no file objects.
-/

namespace EdxPlatform

abbrev Answers := Dict String String

/-- `StudentInputError`, `ResponseError` and `LoncapaProblemError` become a
message, any other exception is raised again. -/
inductive GradeError where
  | studentInputError
  | responseError
  | loncapaProblemError
  | unexpected
  deriving DecidableEq, Repr

/-- The values of the `rerandomize` field. -/
inductive Randomization where
  | always
  | onReset
  | never
  | perStudent
  deriving DecidableEq, Repr

/-- A response of the problem. -/
structure Responder where
  allowsFileSubmission : Bool
  evaluateAnswers : Answers → Except GradeError CorrectMap

/-- What the course says of a problem. -/
structure CapaDefinition where
  responders : List Responder
  rerandomize : Randomization
  maxAttempts : Option Nat

/-- The learner's problem, with the grade last published for it; without one
the learner's score is 0. -/
structure CapaProblem where
  studentAnswers : Answers := ∅
  correctMap : CorrectMap := {}
  done : Bool := false
  attempts : Nat := 0
  publishedGrade : Rat := 0

namespace CorrectMap

/-- `get_npoints`. -/
def npoints (result : AnswerResult) : Rat :=
  match result.npoints with
  | some npoints => npoints
  | none =>
    match result.correctness with
    | .correct | .partiallyCorrect => 1
    | _ => 0

def points (map : CorrectMap) : Rat := (map.cmap.entries.map fun entry => npoints entry.2).sum

end CorrectMap

variable (definition : CapaDefinition)

namespace CapaDefinition

/-- `supports_rescoring`. -/
def supportsRescoring : Bool := definition.responders.all fun responder => !responder.allowsFileSubmission

/-- `_grade_answers`; a rescoring cannot grade possible file submissions. -/
def gradeResponders (rescoring : Bool) (answers : Answers) : Except GradeError CorrectMap :=
  definition.responders.foldlM (fun newcmap responder =>
    if rescoring && responder.allowsFileSubmission then .error .unexpected
    else
      match responder.evaluateAnswers answers with
      | .error err => .error err
      | .ok results => .ok (newcmap.update results)) {}

/-- The score of a correct map, which is 0 as long as there are no answers. -/
def scoreOf (map : CorrectMap) (answers : Answers) : Rat :=
  if answers.entries.isEmpty then 0 else map.points

end CapaDefinition

open CapaDefinition

namespace CapaProblem

section

variable (problem : CapaProblem)

/-- `get_score`. -/
def getScore : Rat := scoreOf problem.correctMap problem.studentAnswers

def publishGrade : CapaProblem := { problem with publishedGrade := problem.getScore }

/-- `closed`, given whether the due date has passed. -/
def closed (pastDue : Bool) : Bool :=
  (match definition.maxAttempts with
    | some maxAttempts => decide (maxAttempts ≤ problem.attempts)
    | none => false) || pastDue

/-- How a call ends. -/
inductive Outcome where
  | success
  | failure
  | mustWait
  | errorMessage (err : GradeError)
  | raised (err : GradeError)
  | notFoundError
  | notImplementedError
  deriving DecidableEq, Repr

def gradingFailed : GradeError → Outcome
  | .unexpected => .raised .unexpected
  | err => .errorMessage err

/-- `check_problem`; `tooSoon` says that the wait between submissions is not over. -/
def checkProblem (answers : Answers) (pastDue tooSoon : Bool) : CapaProblem × Outcome :=
  if problem.closed definition pastDue then (problem, .notFoundError)
  else if problem.done && decide (definition.rerandomize = .always) then (problem, .notFoundError)
  else if tooSoon then (problem, .mustWait)
  else
    -- the answers are stored before they are graded
    let problem := { problem with studentAnswers := answers }
    match definition.gradeResponders false answers with
    | .error err => (problem, gradingFailed err)
    | .ok correctMap =>
      ({ problem with correctMap := correctMap, attempts := problem.attempts + 1, done := true
          }.publishGrade, .success)

/-- `save_problem`. -/
def saveProblem (answers : Answers) (pastDue : Bool) : CapaProblem × Outcome :=
  if problem.closed definition pastDue && !decide (definition.maxAttempts = some 0) then
    (problem, .failure)
  else if problem.done && decide (definition.rerandomize = .always) then (problem, .failure)
  else ({ problem with studentAnswers := answers }, .success)

/-- `reset_problem`; a new seed makes no difference to how answers are graded. -/
def resetProblem (pastDue : Bool) : CapaProblem × Outcome :=
  if problem.closed definition pastDue then (problem, .failure)
  else if !problem.done then (problem, .failure)
  else ({ problem with studentAnswers := ∅, correctMap := {}, done := false }, .success)

/-- `update_score`: no response of the problem takes the grader's message. -/
def updateScore : CapaProblem × Outcome :=
  ({ problem with correctMap := { cmap := problem.correctMap.cmap } }.publishGrade, .success)

/-- `rescore_problem`. -/
def rescoreProblem : CapaProblem × Outcome :=
  if !definition.supportsRescoring then (problem, .notImplementedError)
  else if !problem.done then (problem, .notFoundError)
  else
    match definition.gradeResponders true problem.studentAnswers with
    | .error err => (problem, gradingFailed err)
    | .ok correctMap => ({ problem with correctMap := correctMap }.publishGrade, .success)

/-- A call, with what the clock says when it is made. -/
inductive Call where
  | check (answers : Answers) (pastDue tooSoon : Bool)
  | save (answers : Answers) (pastDue : Bool)
  | reset (pastDue : Bool)
  | updateScore
  | rescore

def step : Call → CapaProblem × Outcome
  | .check answers pastDue tooSoon => problem.checkProblem definition answers pastDue tooSoon
  | .save answers pastDue => problem.saveProblem definition answers pastDue
  | .reset pastDue => problem.resetProblem definition pastDue
  | .updateScore => problem.updateScore
  | .rescore => problem.rescoreProblem definition

end

end CapaProblem

end EdxPlatform

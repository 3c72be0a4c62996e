import EdxPlatform.Lib.Runs
import EdxPlatform.Capa.Problem

/-!
# Rescoring and the last graded submission

A rescoring grades the answers that the problem holds.  They are those of the
last graded submission, unless answers were saved over them while the problem
was done.
-/

namespace EdxPlatform

variable {definition : CapaDefinition}

namespace CapaDefinition

theorem gradeResponders_rescoring (hsup : definition.supportsRescoring = true) (answers : Answers) :
    definition.gradeResponders true answers = definition.gradeResponders false answers := by
  unfold supportsRescoring at hsup
  unfold gradeResponders
  generalize definition.responders = responders at hsup ⊢
  generalize ({} : CorrectMap) = newcmap
  induction responders generalizing newcmap with
  | nil => rfl
  | cons responder responders ih =>
    rw [List.all_cons, and_eq_true, not_eq_true'] at hsup
    rw [foldlM_cons, foldlM_cons, hsup.1]
    simp only [Bool.and_false, Bool.false_and]
    congr 1
    funext updated
    exact ih hsup.2 updated

def submissionScore (definition : CapaDefinition) (submission : Option Answers) : Rat :=
  match submission with
  | none => 0
  | some answers =>
    match definition.gradeResponders false answers with
    | .error _ => 0
    | .ok correctMap => scoreOf correctMap answers

end CapaDefinition

namespace CapaProblem

open CapaDefinition

abbrev Graded := CapaProblem × Option Answers

section

variable (definition : CapaDefinition) (current : Graded)

def stepGraded (call : Call) : Graded :=
  let next := current.1.step definition call
  (next.1, match call, next.2 with
    | .check answers _ _, .success => some answers
    | _, _ => current.2)

/-- The learner's score is that of the last graded submission, and a rescoring
would leave it so. -/
def ScoreStands : Prop :=
  current.1.publishedGrade = definition.submissionScore current.2 ∧
    (current.1.rescoreProblem definition).1.publishedGrade = current.1.publishedGrade

/-- Saved answers replace those of a problem that is done: the problem is open
(or gives no attempts at all) and need not be reset first. -/
def SavesOverDone (definition : CapaDefinition) (problem : CapaProblem) (pastDue : Bool) : Prop :=
  problem.done = true ∧ definition.supportsRescoring = true ∧ definition.rerandomize ≠ .always ∧
    (problem.closed definition pastDue = false ∨ definition.maxAttempts = some 0)

/-- Answers saved over a graded submission raise when graded or score the same;
a grader's message comes when the problem still has the score of that submission. -/
def LeavesScore : Call → Prop
  | .save answers pastDue => SavesOverDone definition current.1 pastDue →
    ∀ correctMap, definition.gradeResponders false answers = .ok correctMap →
      scoreOf correctMap answers = definition.submissionScore current.2
  | .updateScore => current.1.getScore = definition.submissionScore current.2
  | _ => True

end

section

variable (definition : CapaDefinition) (problem : CapaProblem)

theorem rescoreProblem_cases : ((problem.rescoreProblem definition).1 = problem ∧
      (definition.supportsRescoring = true → problem.done = true →
        ∃ err, definition.gradeResponders false problem.studentAnswers = .error err)) ∨
    (definition.supportsRescoring = true ∧ problem.done = true ∧
      ∃ correctMap, definition.gradeResponders false problem.studentAnswers = .ok correctMap ∧
        (problem.rescoreProblem definition).1 = { problem with
            correctMap := correctMap
            publishedGrade := scoreOf correctMap problem.studentAnswers }) := by
  unfold rescoreProblem
  cases hsup : definition.supportsRescoring with
  | false => exact .inl ⟨rfl, fun h => Bool.noConfusion h⟩
  | true =>
    cases hdone : problem.done with
    | false => exact .inl ⟨rfl, fun _ h => Bool.noConfusion h⟩
    | true =>
      simp only [Bool.not_true, false_eq_true, if_false, gradeResponders_rescoring hsup]
      cases hgrd : definition.gradeResponders false problem.studentAnswers with
      | error err => exact .inl ⟨rfl, fun _ _ => ⟨err, rfl⟩⟩
      | ok correctMap => exact .inr ⟨trivial, trivial, correctMap, rfl, rfl⟩

/-- A rescoring would keep the published grade: it does not take place, or the
answers held are worth that grade. -/
theorem rescore_keeps_iff : (problem.rescoreProblem definition).1.publishedGrade = problem.publishedGrade ↔
      (definition.supportsRescoring = true → problem.done = true →
        ∀ correctMap, definition.gradeResponders false problem.studentAnswers = .ok correctMap →
          scoreOf correctMap problem.studentAnswers = problem.publishedGrade) := by
  rcases rescoreProblem_cases definition problem with
    ⟨hsame, hfails⟩ | ⟨hsup, hdone, correctMap, hgrd, hres⟩
  · rw [hsame]
    refine iff_of_true rfl fun hsup hdone correctMap hgrd => ?_
    obtain ⟨err, herr⟩ := hfails hsup hdone
    cases herr.symm.trans hgrd
  · rw [hres, hgrd]
    simp [hsup, hdone]

theorem checkProblem_cases (answers : Answers) (pastDue tooSoon : Bool) : (∃ outcome, outcome ≠ .success ∧
      problem.checkProblem definition answers pastDue tooSoon = (problem, outcome)) ∨
    (∃ err outcome, outcome ≠ .success ∧ definition.gradeResponders false answers = .error err ∧
      problem.checkProblem definition answers pastDue tooSoon =
        ({ problem with studentAnswers := answers }, outcome)) ∨
    (∃ correctMap, definition.gradeResponders false answers = .ok correctMap ∧
      problem.checkProblem definition answers pastDue tooSoon = ({ problem with
            studentAnswers := answers
            correctMap := correctMap
            attempts := problem.attempts + 1
            done := true
            publishedGrade := scoreOf correctMap answers }, .success)) := by
  unfold checkProblem
  split
  · exact .inl ⟨_, by decide, rfl⟩
  split
  · exact .inl ⟨_, by decide, rfl⟩
  split
  · exact .inl ⟨_, by decide, rfl⟩
  refine .inr ?_
  cases hgrd : definition.gradeResponders false answers with
  | error err =>
    refine .inl ⟨err, gradingFailed err, ?_, rfl, rfl⟩
    cases err <;> decide
  | ok correctMap => exact .inr ⟨correctMap, rfl, rfl⟩

theorem saveProblem_cases (answers : Answers) (pastDue : Bool) :
    ((problem.saveProblem definition answers pastDue).1 = problem ∧ ¬ SavesOverDone definition problem pastDue) ∨
    ((problem.saveProblem definition answers pastDue).1 = { problem with studentAnswers := answers } ∧
      (SavesOverDone definition problem pastDue ↔ problem.done = true ∧ definition.supportsRescoring = true)) := by
  unfold saveProblem SavesOverDone
  cases hcl : problem.closed definition pastDue <;> by_cases hatt : definition.maxAttempts = some 0 <;>
    cases hdone : problem.done <;>
    by_cases halw : definition.rerandomize = .always <;>
    simp [hatt, halw]

end

theorem scoreStands_iff {definition : CapaDefinition} {problem : CapaProblem} {submission : Option Answers} :
    ScoreStands definition (problem, submission) ↔ problem.publishedGrade = definition.submissionScore submission ∧
        (definition.supportsRescoring = true → problem.done = true →
          ∀ correctMap, definition.gradeResponders false problem.studentAnswers = .ok correctMap →
            scoreOf correctMap problem.studentAnswers = problem.publishedGrade) := by
  rw [ScoreStands, rescore_keeps_iff]

section Calls

variable {problem : CapaProblem} {submission : Option Answers} (hstd : ScoreStands definition (problem, submission))

theorem scoreStands_of_graded {answers : Answers} {correctMap : CorrectMap}
    (hgrd : definition.gradeResponders false answers = .ok correctMap)
    (hans : problem.studentAnswers = answers) (hpub : problem.publishedGrade = scoreOf correctMap answers)
    (hsubm : definition.submissionScore submission = scoreOf correctMap answers) :
    ScoreStands definition (problem, submission) := by
  refine scoreStands_iff.mpr ⟨hpub.trans hsubm.symm, fun _ _ other hoth => ?_⟩
  rw [hans] at hoth ⊢
  obtain rfl := ok.inj (hgrd.symm.trans hoth)
  exact hpub.symm

include hstd

theorem scoreStands_check (answers : Answers) (pastDue tooSoon : Bool) :
    ScoreStands definition (stepGraded definition (problem, submission) (.check answers pastDue tooSoon)) := by
  unfold stepGraded step
  dsimp only
  rcases checkProblem_cases definition problem answers pastDue tooSoon with
    ⟨outcome, hout, hcheck⟩ | ⟨err, outcome, hout, hgrd, hcheck⟩ | ⟨correctMap, hgrd, hcheck⟩
  · rw [hcheck]
    cases outcome <;> first | exact absurd rfl hout | exact hstd
  · rw [hcheck]
    -- answers that raise are not rescored
    have hrais : ScoreStands definition ({ problem with studentAnswers := answers }, submission) := by
      refine scoreStands_iff.mpr ⟨hstd.1, fun _ _ correctMap hok => ?_⟩
      cases hgrd.symm.trans hok
    cases outcome <;> first | exact absurd rfl hout | exact hrais
  · rw [hcheck]
    refine scoreStands_of_graded hgrd rfl rfl ?_
    simp only [submissionScore, hgrd]

theorem scoreStands_save_iff (answers : Answers) (pastDue : Bool) :
    ScoreStands definition ((problem.saveProblem definition answers pastDue).1, submission) ↔
      (SavesOverDone definition problem pastDue →
        ∀ correctMap, definition.gradeResponders false answers = .ok correctMap →
          scoreOf correctMap answers = definition.submissionScore submission) := by
  rcases saveProblem_cases definition problem answers pastDue with ⟨hsave, hnot⟩ | ⟨hsave, hover⟩
  · rw [hsave]
    exact iff_of_true hstd fun hsaves => absurd hsaves hnot
  · obtain ⟨hsco, -⟩ := scoreStands_iff.mp hstd
    rw [hsave, hover, scoreStands_iff]
    dsimp only
    rw [hsco]
    constructor
    · rintro ⟨-, hkeep⟩ ⟨hdone, hsup⟩
      exact hkeep hsup hdone
    · exact fun hlvs => ⟨rfl, fun hsup hdone => hlvs ⟨hdone, hsup⟩⟩

theorem scoreStands_reset (pastDue : Bool) :
    ScoreStands definition ((problem.resetProblem definition pastDue).1, submission) := by
  unfold resetProblem
  split
  · exact hstd
  split
  · exact hstd
  · refine scoreStands_iff.mpr ⟨hstd.1, fun _ hdone => ?_⟩
    cases hdone

theorem scoreStands_updateScore_iff : ScoreStands definition (problem.updateScore.1, submission) ↔
      problem.getScore = definition.submissionScore submission := by
  obtain ⟨hsco, hresc⟩ := scoreStands_iff.mp hstd
  have hpub : problem.updateScore.1.publishedGrade = problem.getScore := rfl
  rw [scoreStands_iff, hpub]
  refine ⟨And.left, fun hlvs => ⟨hlvs, fun hsup hdone correctMap hgrd => ?_⟩⟩
  rw [hlvs, ← hsco]
  exact hresc hsup hdone correctMap hgrd

theorem scoreStands_rescore : ScoreStands definition ((problem.rescoreProblem definition).1, submission) := by
  obtain ⟨hsco, hresc⟩ := scoreStands_iff.mp hstd
  rcases rescoreProblem_cases definition problem with
    ⟨hres, -⟩ | ⟨hsup, hdone, correctMap, hgrd, hres⟩
  · rw [hres]
    exact hstd
  · rw [hres]
    have hworth := hresc hsup hdone correctMap hgrd
    exact scoreStands_of_graded hgrd rfl rfl (hsco.symm.trans hworth.symm)

end Calls

theorem scoreStands_step (definition : CapaDefinition) (current : Graded) (call : Call)
    (hbef : ScoreStands definition current) :
    ScoreStands definition (stepGraded definition current call) ↔ LeavesScore definition current call := by
  cases call with
  | check answers pastDue tooSoon => exact iff_of_true (scoreStands_check hbef answers pastDue tooSoon) trivial
  | save answers pastDue => exact scoreStands_save_iff hbef answers pastDue
  | reset pastDue => exact iff_of_true (scoreStands_reset hbef pastDue) trivial
  | updateScore => exact scoreStands_updateScore_iff hbef
  | rescore => exact iff_of_true (scoreStands_rescore hbef) trivial

/-- A response with one input, which is correct for the answer `a`. -/
def answerA : Responder where
  allowsFileSubmission := false
  evaluateAnswers := fun answers =>
    .ok (CorrectMap.set {} "i4x_1_2_1"
      ⟨if answers.lookup "i4x_1_2_1" = some "a" then .correct else .incorrect, none, some ""⟩)

def answerAProblem : CapaDefinition where
  responders := [answerA]
  rerandomize := .never
  maxAttempts := none

/-- A right answer is graded, a wrong one saved but not graded, and the problem
rescored: the learner loses the point. -/
def saveThenRescore : List Call :=
  [.check (Dict.ofList [("i4x_1_2_1", "a")]) false false, .save (Dict.ofList [("i4x_1_2_1", "b")]) false, .rescore]

end CapaProblem

end EdxPlatform

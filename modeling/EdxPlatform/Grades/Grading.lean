import EdxPlatform.BlockStructure.GraphTraversals
import EdxPlatform.BlockStructure.Relations
import EdxPlatform.Grades.Graders

/-!
# Grading a course

Which sections of a course are graded, what their scored blocks are worth to a learner,
and the grade that follows from it.
-/

namespace EdxPlatform.Grades

/-- The collected data of a block that grading reads.  A `format` that was not collected
is the empty text, but one may be stored as `None`. -/
structure BlockData (κ : Type) where
  location : κ
  urlName : String
  displayName : Option String := none
  format : Option String := some ""
  graded : Bool := false
  hasScore : Bool := false
  weight : Option ℚ := none
  maxScore : Option ℚ := none
  deriving DecidableEq, Repr

variable {κ : Type}

namespace BlockData

def displayNameWithDefault (block : BlockData κ) : String :=
  match block.displayName with
  | some displayName => displayName
  | none => block.urlName.replace "_" " "

def displayNameWithDefaultEscaped (block : BlockData κ) : String :=
  (block.displayNameWithDefault.replace "<" "&lt;").replace ">" "&gt;"

end BlockData

/-- The exceptions of grading: one of a traversal, or an attribute read of a block
that is not there. -/
inductive GradingError where
  | attributeError
  | traversal (err : PyError)
  deriving DecidableEq, Repr

/-- What the code uses of usage keys: their texts, and whether blocks of their type
can have scores or children. -/
structure UsageKeys (κ : Type) where
  unicode : κ → String
  possiblyScored : κ → Bool

/-- A graded section with its blocks that have scores. -/
structure SectionInfo (κ : Type) where
  sectionBlock : BlockData κ
  scoredDescendants : List (BlockData κ)
  deriving DecidableEq, Repr

/-- What `grading_context` returns; a block without data is `None` in the list. -/
structure GradingContext (κ : Type) where
  allGradedSections : Dict (Option String) (List (SectionInfo κ)) := ∅
  allGradedBlocks : List (Option (BlockData κ)) := []

variable [DecidableEq κ]

abbrev CourseBlocks (κ : Type) := BlockStructure κ (BlockData κ)

/-- `course_structure[key]`. -/
def blockOf (courseStructure : CourseBlocks κ) (key : κ) : Option (BlockData κ) :=
  courseStructure.blockDataMap.lookup key

/-- `block.location`, which `None` does not have. -/
def locationOf : Option (BlockData κ) → Except GradingError κ
  | some block => .ok block.location
  | none => .error .attributeError

variable (keys : UsageKeys κ)

/-- One round of the loops of `grading_context`. -/
def addSection (courseStructure : CourseBlocks κ) (fuel : Nat) (context : GradingContext κ)
    (sectionKey : κ) : ExceptT GradingError Option (GradingContext κ) :=
  match blockOf courseStructure sectionKey with
  | none => throw .attributeError
  | some sectionBlock =>
    if sectionBlock.graded then
      match traversePostOrder sectionKey courseStructure.getChildren keys.possiblyScored fuel with
      | none => ExceptT.mk none
      | some (.error err) => throw (.traversal err)
      | some (.ok traversal) =>
        let scoredDescendantsOfSection := some sectionBlock :: traversal.visited.map (blockOf courseStructure)
        let sectionInfo : SectionInfo κ :=
          { sectionBlock
            scoredDescendants := (scoredDescendantsOfSection.filterMap id).filter BlockData.hasScore }
        let sections := (context.allGradedSections.lookup sectionBlock.format).getD []
        return {
          allGradedSections := context.allGradedSections.insert sectionBlock.format (sections ++ [sectionInfo])
          allGradedBlocks := context.allGradedBlocks ++ scoredDescendantsOfSection }
    else return context

def gradingContext (courseStructure : CourseBlocks κ) (fuel : Nat) : ExceptT GradingError Option (GradingContext κ) :=
  ((courseStructure.getChildren courseStructure.rootBlockUsageKey).flatMap
    courseStructure.getChildren).foldlM (addSection keys courseStructure fuel) {}

/-- A row of the courseware state: `grade` and `max_grade`. -/
structure ClientScore where
  correct : Option ℚ
  total : Option ℚ
  deriving DecidableEq, Repr

/-- A learner and the scores that are stored: those of the submissions service and those
of the courseware state. -/
structure Learner (κ : Type) where
  isAuthenticated : Bool := true
  submissionsScores : Dict String (ℚ × ℚ) := ∅
  studentModules : Dict κ ClientScore := ∅

/-- `ScoresClient.create_for_locations`: the scores of some locations. -/
abbrev ScoresClient (κ : Type) := κ → Option ClientScore

def Learner.scoresClient (learner : Learner κ) (locations : List κ) : ScoresClient κ :=
  fun location => if location ∈ locations then learner.studentModules.lookup location else none

/-- `weighted_score`. -/
def weightedScore (rawCorrect rawTotal : ℚ) (weight : Option ℚ) : ℚ × ℚ :=
  match weight with
  | none => (rawCorrect, rawTotal)
  | some weight =>
    if rawTotal = 0 then (rawCorrect, rawTotal) else (rawCorrect * weight / rawTotal, weight)

/-- `get_score`, `none` where the code returns `(None, None)`. -/
def getScore (learner : Learner κ) (block : BlockData κ) (scoresClient : ScoresClient κ) : Option (ℚ × ℚ) :=
  if !learner.isAuthenticated then none
  else
    match learner.submissionsScores.lookup (keys.unicode block.location) with
    | some score => some score
    | none =>
      if !block.hasScore then none
      else
        match scoresClient block.location with
        | some ⟨correct, some total⟩ => some (weightedScore (correct.getD 0) total block.weight)
        | _ =>
          match block.maxScore with
          | some total => some (weightedScore 0 total block.weight)
          | none => none

section

variable (learner : Learner κ) (scoresClient : ScoresClient κ) (sectionInfo : SectionInfo κ)

/-- `should_grade_section`. -/
def shouldGradeSection : Bool :=
  (sectionInfo.scoredDescendants.any fun descendant =>
      decide (keys.unicode descendant.location ∈ learner.submissionsScores)) ||
    sectionInfo.scoredDescendants.any fun descendant => (scoresClient descendant.location).isSome

/-- The scores of the blocks of a section; one without possible points is not graded. -/
def sectionScores : List (Score κ) :=
  sectionInfo.scoredDescendants.filterMap fun descendant =>
    (getScore keys learner descendant scoresClient).map fun score =>
      { earned := score.1
        possible := score.2
        graded := descendant.graded && decide ((0 : ℚ) < score.2)
        sectionName := descendant.displayNameWithDefaultEscaped
        moduleId := some descendant.location }

def gradedTotal : Score κ :=
  let sectionName := sectionInfo.sectionBlock.displayNameWithDefault
  if shouldGradeSection keys learner scoresClient sectionInfo then
    (aggregateScores (sectionScores keys learner scoresClient sectionInfo) sectionName).2
  -- a section of which nothing was seen is taken to be worth one point
  else { earned := 0, possible := 1, graded := true, sectionName, moduleId := none }

def formatScore : Option (SectionScore κ) :=
  let total := gradedTotal keys learner scoresClient sectionInfo
  if possible_pos : 0 < total.possible then some { total with possible_pos } else none

end

/-- `_calculate_totaled_scores`, with the raw scores if they are asked for. -/
def calculateTotaledScores (learner : Learner κ) (context : GradingContext κ)
    (scoresClient : ScoresClient κ) (keepRawScores : Bool) : GradeSheet κ × List (Score κ) :=
  (Dict.ofList (context.allGradedSections.entries.map fun entry =>
      (entry.1, entry.2.filterMap (formatScore keys learner scoresClient))),
    if keepRawScores then
      context.allGradedSections.entries.flatMap fun entry =>
        (entry.2.filter (shouldGradeSection keys learner scoresClient)).flatMap
          (sectionScores keys learner scoresClient)
    else [])

/-- `grade_for_percentage`. -/
def gradeForPercentage (gradeCutoffs : Dict String ℚ) (percentage : ℚ) : Option String :=
  let descendingGrades := sortedBy (fun grade => -grade.2) gradeCutoffs.entries
  (descendingGrades.find? fun grade => decide (grade.2 ≤ percentage)).map Sigma.fst

/-- The grading policy of a course: its grader and its cutoffs. -/
structure GradingPolicy where
  grader : WeightedSubsectionsGrader
  gradeCutoffs : Dict String ℚ

structure GradeSummary (κ : Type) where
  percent : ℚ
  grade : Option String
  sectionBreakdown : List Mark
  gradeBreakdown : List (ℚ × String)
  totaledScores : GradeSheet κ
  rawScores : Option (List (Score κ))

/-- `_grade`, for the grading context of the course. -/
def gradeContext (round : ℚ → ℚ) (policy : GradingPolicy) (learner : Learner κ)
    (keepRawScores : Bool) (context : GradingContext κ) : Except GradingError (GradeSummary κ) := do
  let scorableLocations ← context.allGradedBlocks.mapM locationOf
  let scoresClient := learner.scoresClient scorableLocations
  let (totaledScores, rawScores) :=
    calculateTotaledScores keys learner context scoresClient keepRawScores
  let gradeSummary := policy.grader.grade totaledScores
  let percent := round (gradeSummary.percent * 100 + 0.05) / 100
  return {
    percent
    grade := gradeForPercentage policy.gradeCutoffs percent
    sectionBreakdown := gradeSummary.sectionBreakdown
    gradeBreakdown := gradeSummary.gradeBreakdown
    totaledScores
    rawScores := if keepRawScores then some rawScores else none }

/-- `_grade`. -/
def grade (round : ℚ → ℚ) (policy : GradingPolicy) (courseStructure : CourseBlocks κ)
    (learner : Learner κ) (keepRawScores : Bool) (fuel : Nat) :
    ExceptT GradingError Option (GradeSummary κ) := do
  let context ← gradingContext keys courseStructure fuel
  ExceptT.mk (some (gradeContext keys round policy learner keepRawScores context))

end EdxPlatform.Grades

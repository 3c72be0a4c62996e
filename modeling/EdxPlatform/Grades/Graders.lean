import Mathlib.Algebra.BigOperators.Group.List.Basic
import Mathlib.Algebra.Order.Field.Rat
import EdxPlatform.Lib.Dict
import EdxPlatform.Lib.Python

/-!
# Graders

From the scores of the graded sections to the percent of a course.  Numbers are rational;
the details of a breakdown, which are texts for display, are left out.
-/

namespace EdxPlatform.Grades

/-- A score of a block or of a section. -/
structure Score (κ : Type) where
  earned : ℚ
  possible : ℚ
  graded : Bool
  sectionName : String
  moduleId : Option κ
  deriving DecidableEq, Repr

variable {κ : Type}

/-- `aggregate_scores`: the total of all scores and that of the graded ones. -/
def aggregateScores (scores : List (Score κ)) (sectionName : String := "summary") : Score κ × Score κ :=
  let gradedScores := scores.filter Score.graded
  ({ earned := (scores.map Score.earned).sum
     possible := (scores.map Score.possible).sum
     graded := false
     sectionName
     moduleId := none },
   { earned := (gradedScores.map Score.earned).sum
     possible := (gradedScores.map Score.possible).sum
     graded := true
     sectionName
     moduleId := none })

/-- The score of a section that counts in its format. -/
structure SectionScore (κ : Type) extends Score κ where
  possible_pos : 0 < possible

def SectionScore.percent (score : SectionScore κ) : ℚ := score.earned / score.possible

/-- The scores of the sections by format; the format of a section may be `None`. -/
abbrev GradeSheet (κ : Type) := Dict (Option String) (List (SectionScore κ))

def GradeSheet.ofType (gradeSheet : GradeSheet κ) (type : String) : List (SectionScore κ) :=
  (gradeSheet.lookup (some type)).getD []

/-- An entry of a `section_breakdown`, with the detail of its `mark` if it was dropped. -/
structure Mark where
  percent : ℚ
  label : String
  category : String
  prominent : Bool := false
  mark : Option String := none
  deriving DecidableEq, Repr

/-- `"{:02d}".format(index)`. -/
def twoDigits (index : Int) : String :=
  if 0 ≤ index ∧ index < 10 then "0" ++ toString index else toString index

structure SingleSectionGrader where
  type : String
  name : String
  shortLabel : String := name
  category : String := name
  deriving DecidableEq, Repr

structure AssignmentFormatGrader where
  type : String
  minCount : Int
  dropCount : Int
  category : String := type
  sectionType : String := type
  shortLabel : String := type
  showOnlyAverage : Bool := false
  hideAverage : Bool := false
  startingIndex : Int := 1
  deriving DecidableEq, Repr

/-- What a grader of one kind of section returns. -/
structure GradeResult where
  percent : ℚ
  sectionBreakdown : List Mark
  deriving DecidableEq, Repr

def SingleSectionGrader.grade (grader : SingleSectionGrader) (gradeSheet : GradeSheet κ) :
    GradeResult :=
  let foundScore := (gradeSheet.ofType grader.type).find? fun score => score.sectionName = grader.name
  let percent := match foundScore with
    | some score => score.percent
    | none => 0
  { percent
    sectionBreakdown := [{ percent, label := grader.shortLabel, category := grader.category, prominent := true }] }

def sortedBreakdown (breakdown : List Mark) : List (Mark × Nat) :=
  sortedBy (fun mark => -mark.1.percent) breakdown.zipIdx

def droppedIndices (breakdown : List Mark) (dropCount : Int) : List Nat :=
  if 0 < dropCount then
    ((sortedBreakdown breakdown).drop ((sortedBreakdown breakdown).length - dropCount.toNat)).map Prod.snd
  else []

/-- `total_with_drops`: the average without the lowest marks, and the indices of those. -/
def totalWithDrops (breakdown : List Mark) (dropCount : Int) : ℚ × List Nat :=
  let aggregateScore :=
    ((breakdown.zipIdx.filter fun mark => mark.2 ∉ droppedIndices breakdown dropCount).map
      fun mark => mark.1.percent).sum
  (if 0 < (breakdown.length : Int) - dropCount then
      aggregateScore / ((breakdown.length : Int) - dropCount : Int)
    else aggregateScore,
    droppedIndices breakdown dropCount)

namespace AssignmentFormatGrader

section

variable (grader : AssignmentFormatGrader) (scores : List (SectionScore κ))

def entries : Nat := (max grader.minCount scores.length).toNat

def breakdown : List Mark :=
  (List.range (grader.entries scores)).map fun (i : Nat) =>
    { percent := match scores[i]? with
        | some score => score.percent
        | none => 0
      label := grader.shortLabel ++ " " ++ twoDigits ((i : Int) + grader.startingIndex)
      category := grader.category }

end

def dropped (grader : AssignmentFormatGrader) (mark : Mark) : Mark :=
  { mark with mark := some ("The lowest " ++ toString grader.dropCount ++ " " ++
      grader.sectionType ++ " scores are dropped.") }

def grade (grader : AssignmentFormatGrader) (gradeSheet : GradeSheet κ) : GradeResult :=
  let breakdown := grader.breakdown (gradeSheet.ofType grader.type)
  let (totalPercent, droppedIndices) := totalWithDrops breakdown grader.dropCount
  let breakdown := breakdown.zipIdx.map fun mark =>
    if mark.2 ∈ droppedIndices then grader.dropped mark.1 else mark.1
  let total : Mark :=
    { percent := totalPercent
      label := grader.shortLabel ++ if breakdown.length = 1 then "" else " Avg"
      category := grader.category
      prominent := true }
  let sectionBreakdown :=
    if breakdown.length = 1 then [total]
    else
      let shown := if grader.showOnlyAverage then [] else breakdown
      if grader.hideAverage then shown else shown ++ [total]
  { percent := totalPercent, sectionBreakdown }

end AssignmentFormatGrader

/-- The graders that a policy can name. -/
inductive Subgrader where
  | singleSection (grader : SingleSectionGrader)
  | assignmentFormat (grader : AssignmentFormatGrader)
  deriving DecidableEq, Repr

def Subgrader.grade (subgrader : Subgrader) (gradeSheet : GradeSheet κ) : GradeResult :=
  match subgrader with
  | .singleSection grader => grader.grade gradeSheet
  | .assignmentFormat grader => grader.grade gradeSheet

/-- A subgrader with its category and weight. -/
structure WeightedSubsection where
  subgrader : Subgrader
  category : String
  weight : ℚ
  deriving DecidableEq, Repr

/-- What the grader of a course returns. -/
structure CourseGrade where
  percent : ℚ
  sectionBreakdown : List Mark
  /-- The weighted percents, with their categories. -/
  gradeBreakdown : List (ℚ × String)
  deriving DecidableEq, Repr

/-- `WeightedSubsectionsGrader`, the grader of a course. -/
structure WeightedSubsectionsGrader where
  sections : List WeightedSubsection

def CourseGrade.add (gradeSheet : GradeSheet κ) (grade : CourseGrade) (weighted : WeightedSubsection) : CourseGrade :=
  let subgradeResult := weighted.subgrader.grade gradeSheet
  let weightedPercent := subgradeResult.percent * weighted.weight
  { percent := grade.percent + weightedPercent
    sectionBreakdown := grade.sectionBreakdown ++ subgradeResult.sectionBreakdown
    gradeBreakdown := grade.gradeBreakdown ++ [(weightedPercent, weighted.category)] }

def WeightedSubsectionsGrader.grade (grader : WeightedSubsectionsGrader) (gradeSheet : GradeSheet κ) : CourseGrade :=
  grader.sections.foldl (CourseGrade.add gradeSheet) { percent := 0, sectionBreakdown := [], gradeBreakdown := [] }

end EdxPlatform.Grades

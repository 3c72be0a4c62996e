import EdxPlatform.Grades.SectionTotals

/-!
# Lowered grades

A grade falls when one more answer makes the last entries of an assignment type disappear:
a section of which nothing was seen counts as an entry, but not once it was seen and turns
out to have no possible points.
-/

namespace EdxPlatform.Grades

open Dict

variable {κ : Type}

namespace Subgrader

def type : Subgrader → String
  | .singleSection grader => grader.type
  | .assignmentFormat grader => grader.type

def percentOf (scores : List (SectionScore κ)) : Subgrader → ℚ
  | .singleSection grader => grader.percentOf scores
  | .assignmentFormat grader => (totalWithDrops (grader.breakdown scores) grader.dropCount).1

theorem grade_percent (subgrader : Subgrader) (gradeSheet : GradeSheet κ) :
    (subgrader.grade gradeSheet).percent = subgrader.percentOf (gradeSheet.ofType subgrader.type) := by
  cases subgrader with
  | singleSection grader => rfl
  | assignmentFormat grader => rfl

end Subgrader

theorem WeightedSubsectionsGrader.grade_percent {κ : Type} (grader : WeightedSubsectionsGrader)
    (gradeSheet : GradeSheet κ) : (grader.grade gradeSheet).percent = (grader.sections.map fun weighted =>
        weighted.subgrader.percentOf (gradeSheet.ofType weighted.subgrader.type) * weighted.weight).sum := by
  have hfold : ∀ (sections : List WeightedSubsection) (grade : CourseGrade),
      (sections.foldl (CourseGrade.add gradeSheet) grade).percent = grade.percent + (sections.map fun weighted =>
          weighted.subgrader.percentOf (gradeSheet.ofType weighted.subgrader.type) * weighted.weight).sum := by
    intro sections
    induction sections with
    | nil => exact fun grade => (add_zero _).symm
    | cons weighted sections ih =>
      intro grade
      have hround : (grade.add gradeSheet weighted).percent = grade.percent +
          weighted.subgrader.percentOf (gradeSheet.ofType weighted.subgrader.type) *
            weighted.weight := by
        rw [← Subgrader.grade_percent]
        rfl
      rw [foldl_cons, ih, hround, map_cons, sum_cons, add_assoc]
  exact (hfold grader.sections _).trans (zero_add _)

theorem gradeForPercentage_mono {gradeCutoffs : Dict String ℚ} {before after : ℚ}
    (hle : before ≤ after) {letter : String} {cutoff : ℚ}
    (hlet : gradeForPercentage gradeCutoffs before = some letter)
    (hcut : gradeCutoffs.lookup letter = some cutoff) :
    ∃ better higher, gradeForPercentage gradeCutoffs after = some better ∧
      gradeCutoffs.lookup better = some higher ∧ cutoff ≤ higher := by
  let descendingGrades := sortedBy (fun grade : (_ : String) × ℚ => -grade.2) gradeCutoffs.entries
  have hlook : ∀ grade ∈ descendingGrades, gradeCutoffs.lookup grade.1 = some grade.2 :=
    fun grade hgrd => mem_lookup_iff.mpr ((sortedBy_perm _ _).mem_iff.mp hgrd)
  have hsort : descendingGrades.Pairwise fun grade other => other.2 ≤ grade.2 :=
    (sortedBy_pairwise _ _).imp neg_le_neg_iff.mp
  obtain ⟨found, hfnd, rfl⟩ := map_eq_some_iff.mp hlet
  change descendingGrades.find? _ = some found at hfnd
  have hmem := mem_of_find?_eq_some hfnd
  have hrchd : found.2 ≤ before := by
    have hpass := find?_some (p := fun grade : (_ : String) × ℚ => decide (grade.2 ≤ before)) hfnd
    exact of_decide_eq_true hpass
  rw [hlook found hmem] at hcut
  cases hcut
  -- the first grade that is reached comes no later than the earlier one
  cases haft : descendingGrades.find? fun grade => decide (grade.2 ≤ after) with
  | none =>
    have hnot := List.find?_eq_none.mp haft found hmem
    exact absurd (decide_eq_true (hrchd.trans hle)) hnot
  | some better =>
    refine ⟨better.1, better.2, congrArg (Option.map Sigma.fst) haft, hlook better (mem_of_find?_eq_some haft), ?_⟩
    obtain ⟨-, above, below, hspl, habove⟩ := List.find?_eq_some_iff_append.mp haft
    rw [hspl] at hmem hsort
    rcases mem_append.mp hmem with hmem | hmem
    · have hnot := habove found hmem
      rw [decide_eq_true (hrchd.trans hle)] at hnot
      cases hnot
    · rcases mem_cons.mp hmem with rfl | hmem
      · exact le_rfl
      · exact (pairwise_cons.mp (pairwise_append.mp hsort).2.1).1 found hmem

variable [DecidableEq κ] {keys : UsageKeys κ} {course : Course κ}

theorem GradingContext.Sound.ofCourse {context : GradingContext κ} (hsound : context.Sound course)
    {format : Option String} {info : SectionInfo κ} (hinfo : info ∈ context.ofFormat format) :
    OfCourse course info := by
  intro descendant hdesc
  obtain ⟨hsco, hmem⟩ := hsound.ofFormat hinfo hdesc
  obtain ⟨key, found, heq, hblk⟩ := hsound.blocks _ hmem
  cases heq
  exact ⟨hsco, key, hblk⟩

omit [DecidableEq κ] in
theorem formatScore_congr (learner : Learner κ) {scoresClient other : ScoresClient κ}
    {info : SectionInfo κ} (hsame : ∀ descendant ∈ info.scoredDescendants,
      scoresClient descendant.location = other descendant.location) :
    formatScore keys learner scoresClient info = formatScore keys learner other info := by
  have hscor : sectionScores keys learner scoresClient info = sectionScores keys learner other info := by
    refine filterMap_congr fun descendant hdesc => ?_
    unfold getScore
    rw [hsame descendant hdesc]
  have hseen : shouldGradeSection keys learner scoresClient info = shouldGradeSection keys learner other info := by
    unfold shouldGradeSection
    congr 1
    rw [eq_iff_iff, any_eq_true, any_eq_true]
    constructor
    · rintro ⟨descendant, hdesc, hsto⟩
      exact ⟨descendant, hdesc, hsame descendant hdesc ▸ hsto⟩
    · rintro ⟨descendant, hdesc, hsto⟩
      exact ⟨descendant, hdesc, (hsame descendant hdesc).symm ▸ hsto⟩
  have htotal : gradedTotal keys learner scoresClient info = gradedTotal keys learner other info := by
    unfold gradedTotal
    rw [hscor, hseen]
  unfold formatScore
  simp only [htotal]

theorem mapM_locations {blocks : List (Option (BlockData κ))} (hblks : ∀ block ∈ blocks, ∃ key found,
      block = some found ∧ blockOf course.blocks key = some found) :
    ∃ locations, blocks.mapM locationOf = Except.ok locations ∧
      ∀ block, some block ∈ blocks → block.location ∈ locations := by
  induction blocks with
  | nil => exact ⟨[], rfl, fun block hmem => nomatch hmem⟩
  | cons head blocks ih =>
    obtain ⟨key, found, rfl, -⟩ := hblks head mem_cons_self
    obtain ⟨locations, hloc, hmem⟩ := ih fun block hblk => hblks block (mem_cons_of_mem _ hblk)
    refine ⟨found.location :: locations, ?_, fun block hblk => ?_⟩
    · rw [List.mapM_cons, hloc]
      rfl
    · rcases mem_cons.mp hblk with heq | hblk
      · cases heq
        exact mem_cons_self
      · exact mem_cons_of_mem _ (hmem block hblk)

section

variable (keys : UsageKeys κ) (context : GradingContext κ) (learner : Learner κ)

def typeScores (type : String) : List (SectionScore κ) :=
  (context.ofFormat (some type)).filterMap (formatScore keys learner learner.rows)

def coursePercent (policy : GradingPolicy) : ℚ :=
  (policy.grader.sections.map fun weighted =>
    weighted.subgrader.percentOf (typeScores keys context learner weighted.subgrader.type) * weighted.weight).sum

end

variable (keys) in
theorem gradeContext_eq {context : GradingContext κ} (hsound : context.Sound course)
    (round : ℚ → ℚ) (policy : GradingPolicy) (learner : Learner κ) (keepRawScores : Bool) :
    ∃ summary, gradeContext keys round policy learner keepRawScores context = .ok summary ∧
      summary.percent = round (coursePercent keys context learner policy * 100 + 0.05) / 100 ∧
      summary.grade = gradeForPercentage policy.gradeCutoffs summary.percent := by
  obtain ⟨locations, hloc, hmem⟩ := mapM_locations hsound.blocks
  let sheet := (calculateTotaledScores keys learner context (learner.scoresClient locations) keepRawScores).1
  have htype : ∀ type, sheet.ofType type = typeScores keys context learner type := by
    intro type
    have hlook : sheet.ofType type = (context.ofFormat (some type)).filterMap
        (formatScore keys learner (learner.scoresClient locations)) := by
      have hmap := lookup_ofList_map context.allGradedSections
        (fun infos => infos.filterMap (formatScore keys learner (learner.scoresClient locations)))
        (some type)
      change (AList.lookup (some type) (ofList _)).getD [] = _
      rw [hmap]
      unfold GradingContext.ofFormat
      cases context.allGradedSections.lookup (some type) with
      | none => rfl
      | some infos => rfl
    rw [hlook]
    refine filterMap_congr fun info hinfo => ?_
    refine formatScore_congr learner fun descendant hdesc => ?_
    exact if_pos (hmem descendant (hsound.ofFormat hinfo hdesc).2)
  have hper : (policy.grader.grade sheet).percent = coursePercent keys context learner policy := by
    rw [WeightedSubsectionsGrader.grade_percent]
    unfold coursePercent
    simp only [htype]
  unfold gradeContext
  rw [hloc]
  refine ⟨_, rfl, ?_, rfl⟩
  rw [← hper]
  rfl

def entriesOf (keys : UsageKeys κ) (infos : List (SectionInfo κ)) (learner : Learner κ)
    (grader : AssignmentFormatGrader) : Int :=
  max grader.minCount ((infos.filter (learner.listed keys)).length : Int)

/-- Some entries were kept before and none is now, and points had been earned. -/
def Emptied (keys : UsageKeys κ) (context : GradingContext κ) (first second : Learner κ) : Subgrader → Prop
  | .singleSection _ => False
  | .assignmentFormat grader =>
    let infos := context.ofFormat (some grader.type)
    grader.dropCount < entriesOf keys infos first grader ∧ entriesOf keys infos second grader ≤ grader.dropCount ∧
      ∃ info ∈ infos, ∃ descendant ∈ info.scoredDescendants, 0 < (first.gradedPoints keys descendant).1

variable {context : GradingContext κ} {first second learner : Learner κ}

variable (keys) in
theorem entries_typeScores (hsound : context.Sound course) (hval : learner.Valid) (grader : AssignmentFormatGrader) :
    (grader.entries (typeScores keys context learner grader.type) : Int) =
      entriesOf keys (context.ofFormat (some grader.type)) learner grader := by
  have hlen : (typeScores keys context learner grader.type).length =
      ((context.ofFormat (some grader.type)).filter (learner.listed keys)).length := by
    unfold typeScores
    rw [List.length_filterMap_eq_countP, List.countP_eq_length_filter]
    refine congrArg List.length (filter_congr fun info hinfo => ?_)
    exact isSome_formatScore hval (hsound.ofCourse hinfo)
  unfold AssignmentFormatGrader.entries entriesOf
  rw [hlen]
  omega

variable (keys) in
theorem exists_percent_pos_iff (hsound : context.Sound course) (hval : learner.Valid)
    (type : String) : (∃ score ∈ typeScores keys context learner type, 0 < score.percent) ↔
      ∃ info ∈ context.ofFormat (some type), ∃ descendant ∈ info.scoredDescendants,
        0 < (learner.gradedPoints keys descendant).1 := by
  unfold typeScores
  constructor
  · rintro ⟨score, hsco, hpos⟩
    obtain ⟨info, hinfo, hfor⟩ := mem_filterMap.mp hsco
    exact ⟨info, hinfo, (exists_formatScore_pos_iff hval (hsound.ofCourse hinfo)).mp ⟨score, hfor, hpos⟩⟩
  · rintro ⟨info, hinfo, hear⟩
    obtain ⟨score, hfor, hpos⟩ := (exists_formatScore_pos_iff hval (hsound.ofCourse hinfo)).mpr hear
    exact ⟨score, mem_filterMap.mpr ⟨info, hinfo, hfor⟩, hpos⟩

theorem percentOf_le_iff (hsound : context.Sound course) (hfst : first.Valid)
    (hsec : second.Valid) (himp : Improves keys course first second)
    (subgrader : Subgrader) :
    subgrader.percentOf (typeScores keys context first subgrader.type) ≤
        subgrader.percentOf (typeScores keys context second subgrader.type) ↔
      ¬ Emptied keys context first second subgrader := by
  have hfol : ∀ info ∈ context.ofFormat (some subgrader.type),
      Follows (formatScore keys first first.rows info) (formatScore keys second second.rows info) :=
    fun info hinfo => himp.follows hfst hsec (hsound.ofCourse hinfo)
  cases subgrader with
  | singleSection grader => exact iff_of_true (grader.percentOf_le hfol) id
  | assignmentFormat grader =>
    have hiff := grader.percent_le_iff hfol
    have hents := entries_typeScores keys hsound hfst grader
    have hlat := entries_typeScores keys hsound hsec grader
    have hear := exists_percent_pos_iff keys hsound hfst grader.type
    unfold Emptied
    dsimp only
    rw [← hents, ← hlat, ← hear]
    exact hiff

/-! ## Grades of one learner at two times -/

/-- The percent is not lower, and neither is the cutoff of the grade. -/
structure NotLower (policy : GradingPolicy) (before after : GradeSummary κ) : Prop where
  percent : before.percent ≤ after.percent
  grade : ∀ letter cutoff, before.grade = some letter →
    policy.gradeCutoffs.lookup letter = some cutoff → ∃ better higher, after.grade = some better ∧
      policy.gradeCutoffs.lookup better = some higher ∧ cutoff ≤ higher

section

variable (keys : UsageKeys κ) (course : Course κ) (first second : Learner κ)

def NeverLowered (round : ℚ → ℚ) (policy : GradingPolicy) : Prop :=
  ∃ bound, ∀ fuel, bound ≤ fuel → ∀ keepRawScores, ∃ before after,
    grade keys round policy course.blocks first keepRawScores fuel = some (.ok before) ∧
    grade keys round policy course.blocks second keepRawScores fuel = some (.ok after) ∧
    NotLower policy before after

def Keeps (subgraders : List Subgrader) : Prop :=
  ∃ bound context, (∀ fuel, bound ≤ fuel → gradingContext keys course.blocks fuel = some (.ok context)) ∧
    ∀ subgrader ∈ subgraders, ¬ Emptied keys context first second subgrader

end

variable {courseStructure : CourseBlocks κ}

theorem grade_eq {fuel : Nat}
    (hcontext : gradingContext keys courseStructure fuel = some (.ok context)) (round : ℚ → ℚ)
    (policy : GradingPolicy) (learner : Learner κ) (keepRawScores : Bool) :
    grade keys round policy courseStructure learner keepRawScores fuel =
      some (gradeContext keys round policy learner keepRawScores context) := by
  change Option.bind (gradingContext keys courseStructure fuel) _ = _
  rw [hcontext]
  rfl

section Found

variable {bound : Nat} (hcontext : ∀ fuel, bound ≤ fuel →
  gradingContext keys course.blocks fuel = some (.ok context)) (hsound : context.Sound course)
  {round : ℚ → ℚ} {policy : GradingPolicy}

include hcontext hsound

theorem neverLowered_of_le (hround : Monotone round)
    (hle : coursePercent keys context first policy ≤ coursePercent keys context second policy) :
    NeverLowered keys course first second round policy := by
  refine ⟨bound, fun fuel hfuel keepRawScores => ?_⟩
  obtain ⟨before, hbef, hper, hgrd⟩ := gradeContext_eq keys hsound round policy first keepRawScores
  obtain ⟨after, haft, hlat, hlet⟩ := gradeContext_eq keys hsound round policy second keepRawScores
  have hroun : before.percent ≤ after.percent := by
    have hinner : coursePercent keys context first policy * 100 + 0.05 ≤
        coursePercent keys context second policy * 100 + 0.05 := by linarith
    rw [hper, hlat]
    exact div_le_div_of_nonneg_right (hround hinner) (by norm_num)
  refine ⟨before, after, ?_, ?_, hroun, fun letter cutoff hsome hcut => ?_⟩
  · rw [grade_eq (hcontext fuel hfuel), hbef]
  · rw [grade_eq (hcontext fuel hfuel), haft]
  · rw [hgrd] at hsome
    rw [hlet]
    exact gradeForPercentage_mono hroun hsome hcut

theorem le_of_neverLowered (hnever : NeverLowered keys course first second id policy) :
    coursePercent keys context first policy ≤ coursePercent keys context second policy := by
  obtain ⟨enough, hgrad⟩ := hnever
  obtain ⟨before, after, hbef, haft, hnotLower⟩ := hgrad (max bound enough) (le_max_right _ _) false
  obtain ⟨found, hfnd, hper, -⟩ := gradeContext_eq keys hsound id policy first false
  obtain ⟨later, hlat, hlaterPercent, -⟩ := gradeContext_eq keys hsound id policy second false
  rw [grade_eq (hcontext _ (le_max_left _ _)), hfnd] at hbef
  rw [grade_eq (hcontext _ (le_max_left _ _)), hlat] at haft
  cases hbef
  cases haft
  have hle := hnotLower.percent
  rw [hper, hlaterPercent, id, id, div_le_div_iff_of_pos_right (by norm_num)] at hle
  linarith

end Found

theorem coursePercent_mono (hsound : context.Sound course) (hfst : first.Valid)
    (hsec : second.Valid) (himp : Improves keys course first second)
    {policy : GradingPolicy} (hweigh : ∀ weighted ∈ policy.grader.sections, 0 ≤ weighted.weight)
    (hkept : ∀ weighted ∈ policy.grader.sections, ¬ Emptied keys context first second weighted.subgrader) :
    coursePercent keys context first policy ≤ coursePercent keys context second policy := by
  refine List.sum_le_sum fun weighted hweig => ?_
  exact mul_le_mul_of_nonneg_right ((percentOf_le_iff hsound hfst hsec himp _).mpr (hkept weighted hweig))
    (hweigh weighted hweig)

def policyOf (subgraders : List Subgrader) (counts : Subgrader) : GradingPolicy where
  grader := ⟨subgraders.map fun subgrader =>
    { subgrader, category := subgrader.type, weight := if subgrader = counts then 1 else 0 }⟩
  gradeCutoffs := ∅

theorem coursePercent_policyOf (context : GradingContext κ) (learner : Learner κ)
    (subgraders : List Subgrader) (counts : Subgrader) :
    coursePercent keys context learner (policyOf subgraders counts) =
      subgraders.count counts * counts.percentOf (typeScores keys context learner counts.type) := by
  unfold coursePercent policyOf
  induction subgraders with
  | nil => simp
  | cons subgrader subgraders ih =>
    rw [map_cons, map_cons, sum_cons, ih, List.count_cons]
    by_cases heq : subgrader = counts
    · simp only [heq, if_true, mul_one, beq_self_eq_true, Nat.cast_add, Nat.cast_one]
      rw [add_mul, one_mul, add_comm]
    · simp only [heq, if_false, mul_zero, zero_add, beq_iff_eq, Nat.add_zero]

/-- Whatever the weights, the rounding and the cutoffs are, the later grade is not lower,
just when no assignment type that had entries and earned points loses its entries. -/
theorem grades_neverLowered_iff (hfirst : first.Valid) (hsecond : second.Valid)
    (himproves : Improves keys course first second) (subgraders : List Subgrader) :
    (∀ policy round, policy.grader.sections.map WeightedSubsection.subgrader = subgraders →
        (∀ weighted ∈ policy.grader.sections, 0 ≤ weighted.weight) → Monotone round →
        NeverLowered keys course first second round policy) ↔
      Keeps keys course first second subgraders := by
  obtain ⟨bound, context, hcontext, hsound⟩ := gradingContext_returns keys course
  constructor
  · intro hnever
    refine ⟨bound, context, hcontext, fun subgrader hsubgrader => ?_⟩
    have hpolicy : (policyOf subgraders subgrader).grader.sections.map WeightedSubsection.subgrader = subgraders := by
      unfold policyOf
      rw [map_map]
      exact map_id subgraders
    have hweights : ∀ weighted ∈ (policyOf subgraders subgrader).grader.sections, 0 ≤ weighted.weight := by
      intro weighted hweighted
      obtain ⟨other, -, rfl⟩ := mem_map.mp hweighted
      dsimp only
      split
      · exact zero_le_one
      · exact le_rfl
    have hle := le_of_neverLowered hcontext hsound
      (hnever (policyOf subgraders subgrader) id hpolicy hweights monotone_id)
    rw [coursePercent_policyOf, coursePercent_policyOf] at hle
    have hcount : (0 : ℚ) < subgraders.count subgrader := Nat.cast_pos.mpr (count_pos_iff.mpr hsubgrader)
    exact (percentOf_le_iff hsound hfirst hsecond himproves subgrader).mp (le_of_mul_le_mul_left hle hcount)
  · rintro ⟨enough, found, hfound, hkept⟩ policy round rfl hweights hround
    have hsame : found = context := by
      have hboth := (hfound (max bound enough) (le_max_right _ _)).symm.trans
        (hcontext (max bound enough) (le_max_left _ _))
      exact ok.inj (some.inj hboth)
    subst hsame
    refine neverLowered_of_le hcontext hsound hround ?_
    exact coursePercent_mono hsound hfirst hsecond himproves hweights fun weighted hweighted =>
      hkept weighted.subgrader (mem_map_of_mem hweighted)

/-! ## A survey without points -/

instance (learner : Learner κ) (block : BlockData κ) : Decidable (learner.Stored keys block) :=
  inferInstanceAs (Decidable (_ ∨ _))

theorem improves_of_entries (hents : ∀ entry ∈ course.blocks.blockDataMap.entries,
      (first.score keys entry.2).map Prod.snd = (second.score keys entry.2).map Prod.snd ∧
      (first.Stored keys entry.2 → second.Stored keys entry.2) ∧
      ∀ before ∈ first.score keys entry.2, ∀ after ∈ second.score keys entry.2,
        before.1 ≤ after.1) : Improves keys course first second := by
  have hblks : ∀ key block, blockOf course.blocks key = some block →
      ⟨key, block⟩ ∈ course.blocks.blockDataMap.entries :=
    fun key block hblk => mem_lookup_iff.mp hblk
  refine ⟨fun key block hblk _ => ?_, fun key block hblk _ => ?_, fun key block hblk _ => ?_⟩
  · exact (hents _ (hblks key block hblk)).1
  · exact (hents _ (hblks key block hblk)).2.1
  · intro _ before after hbef haft
    exact (hents _ (hblks key block hblk)).2.2 before hbef after haft

omit [DecidableEq κ] in
theorem valid_of_entries [DecidableEq κ] (hsub : learner.submissionsScores = ∅)
    (hents : ∀ entry ∈ learner.studentModules.entries, ∀ total ∈ entry.2.total,
      0 ≤ entry.2.correct.getD 0 ∧ entry.2.correct.getD 0 ≤ total) : learner.Valid := by
  constructor
  · intro text earned possible hlook
    rw [hsub] at hlook
    cases hlook
  · intro location correct total hlook
    exact hents _ (mem_lookup_iff.mp hlook) total rfl

theorem percent_of_run {round : ℚ → ℚ} {policy : GradingPolicy} {keepRawScores : Bool} {fuel more : Nat} {percent : ℚ}
    (hrun : ((grade keys round policy courseStructure learner keepRawScores fuel).run.map
      fun outcome => outcome.toOption.map GradeSummary.percent) = some (some percent))
    (hmore : fuel ≤ more) {summary : GradeSummary κ}
    (hsum : grade keys round policy courseStructure learner keepRawScores more =
      some (.ok summary)) : summary.percent = percent := by
  obtain ⟨outcome, hout, hper⟩ := map_eq_some_iff.mp hrun
  have hsame : (grade keys round policy courseStructure learner keepRawScores more).run = some outcome :=
    bind_settled (fun _ => gradingContext_mono keys hmore) (fun _ _ hres => hres) _ hout
  have heq : some (Except.ok summary) = some outcome := hsum.symm.trans hsame
  cases heq
  exact some.inj hper

/-- Two homework sections, one with a problem and one with a survey that has no points. -/
def homework : CourseBlocks String where
  rootBlockUsageKey := "course"
  blockRelations := ofList [("course", ⟨[], ["week"]⟩), ("week", ⟨["course"], ["algebra", "feedback"]⟩),
      ("algebra", ⟨["week"], ["problem"]⟩), ("feedback", ⟨["week"], ["survey"]⟩),
      ("problem", ⟨["algebra"], []⟩), ("survey", ⟨["feedback"], []⟩)]
  blockDataMap := ofList [("week", { location := "week", urlName := "week" }), ("algebra",
        { location := "algebra", urlName := "algebra", format := some "Homework", graded := true }),
      ("feedback", { location := "feedback", urlName := "feedback", format := some "Homework", graded := true }),
      ("problem",
        { location := "problem", urlName := "problem", graded := true, hasScore := true,
          maxScore := some 1 }),
      ("survey",
        { location := "survey", urlName := "survey", graded := true, hasScore := true,
          maxScore := some 0 })]

def homeworkRank : String → Nat
  | "course" => 0
  | "week" => 1
  | "algebra" | "feedback" => 2
  | _ => 3

theorem homework_children : ∀ parent ∈ homework.blockRelations.keys, ∀ child ∈ homework.getChildren parent,
      homeworkRank parent < homeworkRank child ∧ (blockOf homework child).isSome := by
  decide +kernel

def homeworkCourse : Course String where
  blocks := homework
  acyclic := Acyclic.of_rank homeworkRank fun parent child hedge =>
    (homework_children parent (BlockStructure.mem_of_linksOf hedge) child hedge).1
  collected parent child hchild := (homework_children parent (BlockStructure.mem_of_linksOf hchild) child hchild).2
  weight_nonneg key block weight hblock hweight := by
    have hnone : ∀ entry ∈ homework.blockDataMap.entries, entry.2.weight = none := by
      decide +kernel
    have hentry := hnone _ (AList.mem_lookup_iff.mp hblock)
    rw [hentry] at hweight
    cases hweight

def plainKeys : UsageKeys String := ⟨id, fun _ => true⟩

def homeworkGrader : Subgrader := .assignmentFormat { type := "Homework", minCount := 0, dropCount := 1 }

def annaStarts : Learner String := {}

def annaSolves : Learner String where
  studentModules := ofList [("problem", ⟨some 1, some 1⟩)]

def annaAnswers : Learner String where
  studentModules := ofList [("problem", ⟨some 1, some 1⟩), ("survey", ⟨some 0, some 0⟩)]

theorem annaSolves_neverLowered_iff : (∀ policy round,
        policy.grader.sections.map WeightedSubsection.subgrader = [homeworkGrader] →
        (∀ weighted ∈ policy.grader.sections, 0 ≤ weighted.weight) → Monotone round →
        NeverLowered plainKeys homeworkCourse annaStarts annaSolves round policy) ↔
      Keeps plainKeys homeworkCourse annaStarts annaSolves [homeworkGrader] :=
  grades_neverLowered_iff (valid_of_entries rfl (by decide +kernel))
    (valid_of_entries rfl (by decide +kernel)) (improves_of_entries (by decide +kernel))
    [homeworkGrader]

def homeworkPolicy : GradingPolicy where
  grader := ⟨[{ subgrader := homeworkGrader, category := "Homework", weight := 1 }]⟩
  gradeCutoffs := ofList [("A", 9 / 10), ("B", 1 / 2)]

theorem annaAnswers_lowered :
    annaSolves.Valid ∧ annaAnswers.Valid ∧ Improves plainKeys homeworkCourse annaSolves annaAnswers ∧
      (∀ weighted ∈ homeworkPolicy.grader.sections, 0 ≤ weighted.weight) ∧
      Monotone (id : ℚ → ℚ) ∧
      ¬ NeverLowered plainKeys homeworkCourse annaSolves annaAnswers id homeworkPolicy := by
  refine ⟨valid_of_entries rfl (by decide +kernel), valid_of_entries rfl (by decide +kernel),
    improves_of_entries (by decide +kernel), by decide +kernel, monotone_id, ?_⟩
  rintro ⟨bound, hgrades⟩
  obtain ⟨before, after, hbefore, hafter, hnotLower⟩ := hgrades (max bound 20) (le_max_left _ _) false
  have hpercent : before.percent = 2001 / 2000 := percent_of_run (by decide +kernel) (le_max_right bound 20) hbefore
  have hlater : after.percent = 1 / 2000 := percent_of_run (by decide +kernel) (le_max_right bound 20) hafter
  have hle := hnotLower.percent
  rw [hpercent, hlater] at hle
  exact absurd hle (by decide +kernel)

end EdxPlatform.Grades

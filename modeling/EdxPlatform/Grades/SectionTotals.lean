import EdxPlatform.Grades.GradedBlocks
import EdxPlatform.Grades.SheetOrder

/-!
# Section totals of one learner at two times

When every block is worth the same and earns no less, the total of a section follows the
earlier one.
-/

namespace EdxPlatform.Grades

open Learner

variable {κ : Type} [DecidableEq κ]

namespace Learner

variable (keys : UsageKeys κ) (learner : Learner κ)

def rows : ScoresClient κ := fun location => learner.studentModules.lookup location

def score (block : BlockData κ) : Option (ℚ × ℚ) := getScore keys learner block learner.rows

def Stored (block : BlockData κ) : Prop :=
  keys.unicode block.location ∈ learner.submissionsScores ∨ block.location ∈ learner.studentModules

def gradedPoints (block : BlockData κ) : ℚ × ℚ :=
  match learner.score keys block with
  | some score => if block.graded ∧ 0 < score.2 then score else 0
  | none => 0

def seen (info : SectionInfo κ) : Bool := shouldGradeSection keys learner learner.rows info

/-- The section is among the scores of its format: nothing of it was seen, or it has
possible points. -/
def listed (info : SectionInfo κ) : Bool :=
  !learner.seen keys info ||
    info.scoredDescendants.any fun descendant => decide (0 < (learner.gradedPoints keys descendant).2)

/-- Points earned are at least zero and at most those possible. -/
structure Valid : Prop where
  submissions : ∀ text earned possible,
    learner.submissionsScores.lookup text = some (earned, possible) → 0 ≤ earned ∧ earned ≤ possible
  modules : ∀ location correct total, learner.studentModules.lookup location = some ⟨correct, some total⟩ →
      0 ≤ correct.getD 0 ∧ correct.getD 0 ≤ total

end Learner

variable {keys : UsageKeys κ} {learner first second : Learner κ}

/-- The learner at a later time: every block is worth the same, and one with a stored score
still has one that earns no less. -/
structure Improves (keys : UsageKeys κ) (course : Course κ) (first second : Learner κ) : Prop where
  possible : ∀ key block, blockOf course.blocks key = some block → block.hasScore = true →
    (first.score keys block).map Prod.snd = (second.score keys block).map Prod.snd
  stored : ∀ key block, blockOf course.blocks key = some block → block.hasScore = true →
    first.Stored keys block → second.Stored keys block
  earned : ∀ key block, blockOf course.blocks key = some block → block.hasScore = true →
    first.Stored keys block → ∀ before after, first.score keys block = some before →
      second.score keys block = some after → before.1 ≤ after.1

/-! ## Blocks -/

theorem weightedScore_nonneg {rawCorrect rawTotal : ℚ} {weight : Option ℚ}
    (hcorr : 0 ≤ rawCorrect) (htotal : 0 ≤ rawTotal)
    (hweig : ∀ value, weight = some value → 0 ≤ value) :
    0 ≤ (weightedScore rawCorrect rawTotal weight).1 := by
  unfold weightedScore
  cases weight with
  | none => exact hcorr
  | some weight =>
    dsimp only
    split
    · exact hcorr
    · exact div_nonneg (mul_nonneg hcorr (hweig weight rfl)) htotal

theorem weightedScore_zero (rawTotal : ℚ) (weight : Option ℚ) : (weightedScore 0 rawTotal weight).1 = 0 := by
  unfold weightedScore
  cases weight with
  | none => rfl
  | some weight =>
    dsimp only
    split
    · rfl
    · rw [zero_mul, zero_div]

section

variable (hval : learner.Valid) {block : BlockData κ} (hweig : ∀ value, block.weight = some value → 0 ≤ value)
include hval hweig

theorem score_earned {score : ℚ × ℚ} (hsco : learner.score keys block = some score) :
    0 ≤ score.1 ∧ (¬ learner.Stored keys block → score.1 = 0) := by
  unfold Learner.score getScore at hsco
  split at hsco
  · cases hsco
  cases hsubm : learner.submissionsScores.lookup (keys.unicode block.location) with
  | some found =>
    rw [hsubm] at hsco
    cases hsco
    refine ⟨(hval.submissions _ score.1 score.2 hsubm).1, fun hnot => ?_⟩
    exact absurd (.inl (mem_of_lookup hsubm)) hnot
  | none =>
    rw [hsubm] at hsco
    dsimp only at hsco
    split at hsco
    · cases hsco
    cases hrow : learner.studentModules.lookup block.location with
    | none =>
      simp only [rows, hrow] at hsco
      cases hmax : block.maxScore with
      | none =>
        rw [hmax] at hsco
        cases hsco
      | some total =>
        rw [hmax] at hsco
        cases hsco
        have hzero := weightedScore_zero total block.weight
        exact ⟨hzero.ge, fun _ => hzero⟩
    | some row =>
      have hsto : learner.Stored keys block := .inr (mem_of_lookup hrow)
      refine ⟨?_, fun hnot => absurd hsto hnot⟩
      obtain ⟨correct, total⟩ := row
      cases total with
      | none =>
        simp only [rows, hrow] at hsco
        cases hmax : block.maxScore with
        | none =>
          rw [hmax] at hsco
          cases hsco
        | some total =>
          rw [hmax] at hsco
          cases hsco
          exact (weightedScore_zero total block.weight).ge
      | some total =>
        simp only [rows, hrow] at hsco
        cases hsco
        obtain ⟨hcorr, hle⟩ := hval.modules _ _ _ hrow
        exact weightedScore_nonneg hcorr (hcorr.trans hle) hweig

theorem gradedPoints_nonneg : 0 ≤ (learner.gradedPoints keys block).1 ∧ 0 ≤ (learner.gradedPoints keys block).2 := by
  unfold Learner.gradedPoints
  cases hsco : learner.score keys block with
  | none => exact ⟨le_rfl, le_rfl⟩
  | some score =>
    dsimp only
    split
    · next hgrd => exact ⟨(score_earned hval hweig hsco).1, hgrd.2.le⟩
    · exact ⟨le_rfl, le_rfl⟩

theorem stored_of_gradedPoints_pos (hpos : 0 < (learner.gradedPoints keys block).1) : learner.Stored keys block := by
  by_contra hnot
  unfold Learner.gradedPoints at hpos
  cases hsco : learner.score keys block with
  | none =>
    rw [hsco] at hpos
    exact lt_irrefl _ hpos
  | some score =>
    rw [hsco] at hpos
    dsimp only at hpos
    split at hpos
    · rw [(score_earned hval hweig hsco).2 hnot] at hpos
      exact lt_irrefl _ hpos
    · exact lt_irrefl _ hpos

end

theorem possible_pos_of_gradedPoints_pos {block : BlockData κ} (hpos : 0 < (learner.gradedPoints keys block).1) :
    0 < (learner.gradedPoints keys block).2 := by
  unfold Learner.gradedPoints at hpos ⊢
  cases hsco : learner.score keys block with
  | none =>
    rw [hsco] at hpos
    exact absurd hpos (lt_irrefl _)
  | some score =>
    rw [hsco] at hpos
    dsimp only at hpos ⊢
    split
    · next hgrd => exact hgrd.2
    · next hnot =>
      rw [if_neg hnot] at hpos
      exact absurd hpos (lt_irrefl _)

variable {course : Course κ} {key : κ} {block : BlockData κ} {info : SectionInfo κ}

theorem Improves.gradedPoints (himp : Improves keys course first second) (hfst : first.Valid) (hsec : second.Valid)
    (hblk : blockOf course.blocks key = some block) (hsco : block.hasScore = true) :
    (first.gradedPoints keys block).1 ≤ (second.gradedPoints keys block).1 ∧
      (first.gradedPoints keys block).2 = (second.gradedPoints keys block).2 := by
  have hweig := course.weight_nonneg key block
  have hposs := himp.possible key block hblk hsco
  unfold Learner.gradedPoints
  cases hbef : first.score keys block with
  | none =>
    rw [hbef, map_none, eq_comm, map_eq_none_iff] at hposs
    rw [hposs]
    exact ⟨le_rfl, rfl⟩
  | some before =>
    rw [hbef, map_some, eq_comm, map_eq_some_iff] at hposs
    obtain ⟨after, haft, hsame⟩ := hposs
    rw [haft]
    dsimp only
    rw [hsame]
    split
    · refine ⟨?_, hsame.symm⟩
      by_cases hsto : first.Stored keys block
      · exact himp.earned key block hblk hsco hsto before after hbef haft
      · rw [(score_earned hfst (fun value => hweig value hblk) hbef).2 hsto]
        exact (score_earned hsec (fun value => hweig value hblk) haft).1
    · exact ⟨le_rfl, rfl⟩

/-! ## Sections -/

theorem sum_sectionScores (descendants : List (BlockData κ)) (info : SectionInfo κ) :
    let scores := (sectionScores keys learner learner.rows
      { info with scoredDescendants := descendants }).filter Score.graded
    (scores.map Score.earned).sum = (descendants.map fun descendant => (learner.gradedPoints keys descendant).1).sum ∧
      (scores.map Score.possible).sum =
        (descendants.map fun descendant => (learner.gradedPoints keys descendant).2).sum := by
  unfold sectionScores
  induction descendants with
  | nil => exact ⟨rfl, rfl⟩
  | cons descendant descendants ih =>
    obtain ⟨hear, hposs⟩ := ih
    dsimp only at hear hposs ⊢
    cases hsco : getScore keys learner descendant learner.rows with
    | none =>
      have hpts : learner.gradedPoints keys descendant = 0 := by
        unfold Learner.gradedPoints Learner.score
        rw [hsco]
      rw [filterMap_cons_none (by rw [hsco]; rfl), map_cons, map_cons, sum_cons, sum_cons, hear, hposs, hpts]
      exact ⟨(zero_add _).symm, (zero_add _).symm⟩
    | some score =>
      have hpts : learner.gradedPoints keys descendant = if descendant.graded ∧ 0 < score.2 then score else 0 := by
        unfold Learner.gradedPoints Learner.score
        rw [hsco]
      rw [filterMap_cons_some (by rw [hsco]; rfl), map_cons, map_cons, sum_cons, sum_cons, hpts]
      by_cases hgrd : descendant.graded ∧ 0 < score.2
      · rw [filter_cons_of_pos (by
          rw [and_eq_true]; exact ⟨hgrd.1, decide_eq_true hgrd.2⟩), if_pos hgrd,
          map_cons, map_cons, sum_cons, sum_cons, hear, hposs]
        exact ⟨rfl, rfl⟩
      · rw [filter_cons_of_neg (by
          rw [and_eq_true, decide_eq_true_iff]; exact hgrd), if_neg hgrd, hear,
          hposs]
        exact ⟨(zero_add _).symm, (zero_add _).symm⟩

theorem gradedTotal_of_seen (hseen : learner.seen keys info = true) :
    (gradedTotal keys learner learner.rows info).earned =
        (info.scoredDescendants.map fun descendant => (learner.gradedPoints keys descendant).1).sum ∧
      (gradedTotal keys learner learner.rows info).possible =
        (info.scoredDescendants.map fun descendant => (learner.gradedPoints keys descendant).2).sum := by
  have htotal : gradedTotal keys learner learner.rows info =
      (aggregateScores (sectionScores keys learner learner.rows info)
        info.sectionBlock.displayNameWithDefault).2 := if_pos hseen
  rw [htotal]
  exact sum_sectionScores info.scoredDescendants info

theorem gradedTotal_of_not_seen (hseen : learner.seen keys info = false) :
    gradedTotal keys learner learner.rows info = ⟨0, 1, true, info.sectionBlock.displayNameWithDefault, none⟩ := by
  have hnot : ¬ shouldGradeSection keys learner learner.rows info = true :=
    fun hsome => false_ne_true (hseen.symm.trans hsome)
  exact if_neg hnot

theorem gradedTotal_sectionName (info : SectionInfo κ) : (gradedTotal keys learner learner.rows info).sectionName =
      info.sectionBlock.displayNameWithDefault := by
  unfold gradedTotal
  dsimp only
  split
  · rfl
  · rfl

theorem formatScore_eq_none (hnone : ¬ 0 < (gradedTotal keys learner learner.rows info).possible) :
    formatScore keys learner learner.rows info = none :=
  dif_neg hnone

theorem formatScore_eq_some (hsome : 0 < (gradedTotal keys learner learner.rows info).possible) :
    formatScore keys learner learner.rows info =
      some { gradedTotal keys learner learner.rows info with possible_pos := hsome } :=
  dif_pos hsome

def OfCourse (course : Course κ) (info : SectionInfo κ) : Prop :=
  ∀ descendant ∈ info.scoredDescendants, descendant.hasScore = true ∧
    ∃ key, blockOf course.blocks key = some descendant

theorem isSome_formatScore (hval : learner.Valid) (hcrs : OfCourse course info) :
    (formatScore keys learner learner.rows info).isSome = learner.listed keys info := by
  unfold listed
  cases hseen : learner.seen keys info with
  | false =>
    have htotal : (gradedTotal keys learner learner.rows info).possible = 1 := by
      rw [gradedTotal_of_not_seen hseen]
    rw [formatScore_eq_some (by rw [htotal]; exact one_pos)]
    rfl
  | true =>
    have htotal := (gradedTotal_of_seen hseen).2
    have hnn : ∀ descendant ∈ info.scoredDescendants, 0 ≤ (learner.gradedPoints keys descendant).2 := by
      intro descendant hdesc
      obtain ⟨-, key, hblk⟩ := hcrs descendant hdesc
      exact (gradedPoints_nonneg hval fun value => course.weight_nonneg key _ value hblk).2
    by_cases hany : ∃ descendant ∈ info.scoredDescendants, 0 < (learner.gradedPoints keys descendant).2
    · obtain ⟨descendant, hdesc, hpos⟩ := hany
      have hle := List.single_le_sum (l := info.scoredDescendants.map fun descendant =>
        (learner.gradedPoints keys descendant).2) (by
          intro value hvl
          obtain ⟨other, hoth, rfl⟩ := mem_map.mp hvl
          exact hnn other hoth) _ (mem_map_of_mem hdesc)
      have hsome : 0 < (gradedTotal keys learner learner.rows info).possible := by
        rw [htotal]
        exact hpos.trans_le hle
      rw [formatScore_eq_some hsome, isSome_some, Bool.not_true, Bool.false_or, eq_comm, any_eq_true]
      exact ⟨descendant, hdesc, decide_eq_true hpos⟩
    · have hnone : ¬ 0 < (gradedTotal keys learner learner.rows info).possible := by
        rw [htotal, not_lt]
        refine (List.sum_eq_zero fun value hvl => ?_).le
        obtain ⟨descendant, hdesc, rfl⟩ := mem_map.mp hvl
        exact le_antisymm (not_lt.mp fun hpos => hany ⟨descendant, hdesc, hpos⟩) (hnn descendant hdesc)
      rw [formatScore_eq_none hnone, isSome_none, Bool.not_true, Bool.false_or, eq_comm, any_eq_false]
      exact fun descendant hdesc hpos => hany ⟨descendant, hdesc, of_decide_eq_true hpos⟩

theorem seen_iff : learner.seen keys info = true ↔
    ∃ descendant ∈ info.scoredDescendants, learner.Stored keys descendant := by
  unfold seen shouldGradeSection Learner.Stored rows
  simp only [or_eq_true, any_eq_true, decide_eq_true_iff, lookup_isSome]
  constructor
  · rintro (⟨descendant, hdesc, hsto⟩ | ⟨descendant, hdesc, hsto⟩)
    · exact ⟨descendant, hdesc, .inl hsto⟩
    · exact ⟨descendant, hdesc, .inr hsto⟩
  · rintro ⟨descendant, hdesc, hsto | hsto⟩
    · exact .inl ⟨descendant, hdesc, hsto⟩
    · exact .inr ⟨descendant, hdesc, hsto⟩

section

variable (hval : learner.Valid) (hcrs : OfCourse course info)
include hval hcrs

theorem gradedTotal_nonneg : 0 ≤ (gradedTotal keys learner learner.rows info).earned := by
  cases hseen : learner.seen keys info with
  | false => rw [gradedTotal_of_not_seen hseen]
  | true =>
    rw [(gradedTotal_of_seen hseen).1]
    refine List.sum_nonneg fun value hvl => ?_
    obtain ⟨descendant, hdesc, rfl⟩ := mem_map.mp hvl
    obtain ⟨-, key, hblk⟩ := hcrs descendant hdesc
    exact (gradedPoints_nonneg hval fun value => course.weight_nonneg key _ value hblk).1

theorem exists_formatScore_pos_iff :
    (∃ score, formatScore keys learner learner.rows info = some score ∧ 0 < score.percent) ↔
      ∃ descendant ∈ info.scoredDescendants, 0 < (learner.gradedPoints keys descendant).1 := by
  have hpts : ∀ descendant ∈ info.scoredDescendants, 0 ≤ (learner.gradedPoints keys descendant).1 ∧
        0 ≤ (learner.gradedPoints keys descendant).2 := by
    intro descendant hdesc
    obtain ⟨-, key, hblk⟩ := hcrs descendant hdesc
    exact gradedPoints_nonneg hval fun value => course.weight_nonneg key _ value hblk
  constructor
  · rintro ⟨score, hsco, hpos⟩
    have hposs : 0 < (gradedTotal keys learner learner.rows info).possible := by
      by_contra hnone
      rw [formatScore_eq_none hnone] at hsco
      cases hsco
    rw [formatScore_eq_some hposs] at hsco
    cases hsco
    have hear : 0 < (gradedTotal keys learner learner.rows info).earned := (div_pos_iff_of_pos_right hposs).mp hpos
    cases hseen : learner.seen keys info with
    | false =>
      rw [gradedTotal_of_not_seen hseen] at hear
      exact absurd hear (lt_irrefl _)
    | true =>
      rw [(gradedTotal_of_seen hseen).1] at hear
      by_contra hnone
      refine hear.ne' (List.sum_eq_zero fun value hvl => ?_)
      obtain ⟨descendant, hdesc, rfl⟩ := mem_map.mp hvl
      exact le_antisymm (not_lt.mp fun hpos => hnone ⟨descendant, hdesc, hpos⟩) (hpts descendant hdesc).1
  · rintro ⟨descendant, hdesc, hpos⟩
    obtain ⟨-, key, hblk⟩ := hcrs descendant hdesc
    have hsto := stored_of_gradedPoints_pos hval (fun value => course.weight_nonneg key _ value hblk) hpos
    obtain ⟨hear, hposs⟩ := gradedTotal_of_seen (seen_iff.mpr ⟨descendant, hdesc, hsto⟩)
    have htotal : 0 < (gradedTotal keys learner learner.rows info).earned := by
      rw [hear]
      refine hpos.trans_le (List.single_le_sum (fun value hvl => ?_) _ (mem_map_of_mem hdesc))
      obtain ⟨other, hoth, rfl⟩ := mem_map.mp hvl
      exact (hpts other hoth).1
    have hworth : 0 < (gradedTotal keys learner learner.rows info).possible := by
      rw [hposs]
      refine (possible_pos_of_gradedPoints_pos hpos).trans_le (List.single_le_sum
        (fun value hvl => ?_) _ (mem_map_of_mem hdesc))
      obtain ⟨other, hoth, rfl⟩ := mem_map.mp hvl
      exact (hpts other hoth).2
    exact ⟨_, formatScore_eq_some hworth, div_pos htotal hworth⟩

end

section

variable (himp : Improves keys course first second) (hfst : first.Valid) (hsec : second.Valid)
  (hcrs : OfCourse course info)
include himp hfst hsec hcrs

theorem Improves.gradedTotal (hseen : first.seen keys info = true) :
    (Grades.gradedTotal keys first first.rows info).earned ≤ (Grades.gradedTotal keys second second.rows info).earned ∧
      (Grades.gradedTotal keys first first.rows info).possible =
        (Grades.gradedTotal keys second second.rows info).possible := by
  have hpts : ∀ descendant ∈ info.scoredDescendants,
      (first.gradedPoints keys descendant).1 ≤ (second.gradedPoints keys descendant).1 ∧
        (first.gradedPoints keys descendant).2 = (second.gradedPoints keys descendant).2 := by
    intro descendant hdesc
    obtain ⟨hsco, key, hblk⟩ := hcrs descendant hdesc
    exact himp.gradedPoints hfst hsec hblk hsco
  have hlat : second.seen keys info = true := by
    obtain ⟨descendant, hdesc, hsto⟩ := seen_iff.mp hseen
    obtain ⟨hsco, key, hblk⟩ := hcrs descendant hdesc
    exact seen_iff.mpr ⟨descendant, hdesc, himp.stored key descendant hblk hsco hsto⟩
  constructor
  · rw [(gradedTotal_of_seen hseen).1, (gradedTotal_of_seen hlat).1]
    exact List.sum_le_sum fun descendant hdesc => (hpts descendant hdesc).1
  · rw [(gradedTotal_of_seen hseen).2, (gradedTotal_of_seen hlat).2]
    exact congrArg List.sum (map_congr_left fun descendant hdesc => (hpts descendant hdesc).2)

theorem Improves.follows :
    Follows (formatScore keys first first.rows info) (formatScore keys second second.rows info) := by
  have hname : (Grades.gradedTotal keys first first.rows info).sectionName =
      (Grades.gradedTotal keys second second.rows info).sectionName := by
    rw [gradedTotal_sectionName, gradedTotal_sectionName]
  have hbef : 0 ≤ (Grades.gradedTotal keys first first.rows info).earned := gradedTotal_nonneg hfst hcrs
  have haft : 0 ≤ (Grades.gradedTotal keys second second.rows info).earned := gradedTotal_nonneg hsec hcrs
  cases hseen : first.seen keys info with
  | true =>
    obtain ⟨hear, hposs⟩ := himp.gradedTotal hfst hsec hcrs hseen
    by_cases hpos : 0 < (Grades.gradedTotal keys first first.rows info).possible
    · rw [formatScore_eq_some hpos, formatScore_eq_some (hposs ▸ hpos)]
      refine ⟨hname, div_nonneg hbef hpos.le, ?_⟩
      unfold SectionScore.percent
      dsimp only
      rw [← hposs]
      exact div_le_div_of_nonneg_right hear hpos.le
    · rw [formatScore_eq_none hpos, formatScore_eq_none (hposs ▸ hpos)]
      rfl
  | false =>
    have hone : 0 < (Grades.gradedTotal keys first first.rows info).possible := by
      rw [gradedTotal_of_not_seen hseen]
      exact one_pos
    have hzero : SectionScore.percent
        { Grades.gradedTotal keys first first.rows info with possible_pos := hone } = 0 := by
      change (Grades.gradedTotal keys first first.rows info).earned /
        (Grades.gradedTotal keys first first.rows info).possible = 0
      rw [gradedTotal_of_not_seen hseen, zero_div]
    rw [formatScore_eq_some hone]
    by_cases hpos : 0 < (Grades.gradedTotal keys second second.rows info).possible
    · rw [formatScore_eq_some hpos]
      exact ⟨hname, hzero.ge, hzero.le.trans (div_nonneg haft hpos.le)⟩
    · rw [formatScore_eq_none hpos]
      exact hzero

end

end EdxPlatform.Grades

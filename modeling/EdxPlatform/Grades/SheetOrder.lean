import EdxPlatform.Grades.DroppedScores

/-!
# When one grade sheet follows another

Sections stay, with scores that are not lower, or go when their score was zero.  The
graders are compared on such sheets.
-/

namespace EdxPlatform.Grades

open SectionScore

variable {κ ι : Type}

/-- What a section may come to: a score under the same name that is not lower, or none
when it was zero or there was none. -/
def Follows : Option (SectionScore κ) → Option (SectionScore κ) → Prop
  | none, after => after = none
  | some before, none => before.percent = 0
  | some before, some after =>
    before.sectionName = after.sectionName ∧ 0 ≤ before.percent ∧ before.percent ≤ after.percent

variable {sections : List ι} {before after : ι → Option (SectionScore κ)}

section

variable (hfol : ∀ item ∈ sections, Follows (before item) (after item))
include hfol

theorem length_filterMap_le : (sections.filterMap after).length ≤ (sections.filterMap before).length := by
  induction sections with
  | nil => exact le_rfl
  | cons item sections ih =>
    have hitem := hfol item mem_cons_self
    have hrest := ih fun other hoth => hfol other (mem_cons_of_mem _ hoth)
    cases hbef : before item with
    | none =>
      rw [hbef] at hitem
      have haft : after item = none := hitem
      rw [filterMap_cons_none hbef, filterMap_cons_none haft]
      exact hrest
    | some score =>
      rw [filterMap_cons_some hbef, length_cons]
      cases haft : after item with
      | none =>
        rw [filterMap_cons_none haft]
        omega
      | some other =>
        rw [filterMap_cons_some haft, length_cons]
        omega

theorem percent_nonneg_of_follows : (∀ score ∈ sections.filterMap before, 0 ≤ score.percent) ∧
      ∀ score ∈ sections.filterMap after, 0 ≤ score.percent := by
  constructor
  · intro score hsco
    obtain ⟨item, hitem, hbef⟩ := mem_filterMap.mp hsco
    have hpair := hfol item hitem
    rw [hbef] at hpair
    cases haft : after item with
    | none =>
      rw [haft] at hpair
      exact (show score.percent = 0 from hpair).ge
    | some other =>
      rw [haft] at hpair
      exact hpair.2.1
  · intro score hsco
    obtain ⟨item, hitem, haft⟩ := mem_filterMap.mp hsco
    have hpair := hfol item hitem
    rw [haft] at hpair
    cases hbef : before item with
    | none =>
      rw [hbef] at hpair
      cases hpair
    | some other =>
      rw [hbef] at hpair
      exact hpair.2.1.trans hpair.2.2

theorem excess_filterMap_le {threshold : ℚ} (hthr : 0 ≤ threshold) :
    excess threshold ((sections.filterMap before).map percent) ≤
      excess threshold ((sections.filterMap after).map percent) := by
  induction sections with
  | nil => exact le_rfl
  | cons item sections ih =>
    have hitem := hfol item mem_cons_self
    have hrest := ih fun other hoth => hfol other (mem_cons_of_mem _ hoth)
    cases hbef : before item with
    | none =>
      rw [hbef] at hitem
      have haft : after item = none := hitem
      rw [filterMap_cons_none hbef, filterMap_cons_none haft]
      exact hrest
    | some score =>
      rw [hbef] at hitem
      rw [filterMap_cons_some hbef, map_cons, excess_cons]
      cases haft : after item with
      | none =>
        rw [haft] at hitem
        have hzero : score.percent = 0 := hitem
        rw [filterMap_cons_none haft, hzero, max_eq_right (by linarith), zero_add]
        exact hrest
      | some other =>
        rw [haft] at hitem
        rw [filterMap_cons_some haft, map_cons, excess_cons]
        exact add_le_add (max_le_max_right 0 (sub_le_sub_right hitem.2.2 threshold)) hrest

end

namespace SingleSectionGrader

def percentOf (grader : SingleSectionGrader) (scores : List (SectionScore κ)) : ℚ :=
  match scores.find? fun score => score.sectionName = grader.name with
  | some score => score.percent
  | none => 0

section

variable (grader : SingleSectionGrader)

theorem percentOf_cons_of_eq {score : SectionScore κ}
    (hname : score.sectionName = grader.name) (scores : List (SectionScore κ)) :
    grader.percentOf (score :: scores) = score.percent := by
  have hfnd : (score :: scores).find? (fun found => found.sectionName = grader.name) = some score :=
    List.find?_cons_of_pos (p := fun found : SectionScore κ => found.sectionName = grader.name) (decide_eq_true hname)
  unfold percentOf
  rw [hfnd]

theorem percentOf_cons_of_ne {score : SectionScore κ}
    (hname : score.sectionName ≠ grader.name) (scores : List (SectionScore κ)) :
    grader.percentOf (score :: scores) = grader.percentOf scores := by
  have hfnd : (score :: scores).find? (fun found => found.sectionName = grader.name) =
      scores.find? fun found => found.sectionName = grader.name :=
    List.find?_cons_of_neg (p := fun found : SectionScore κ => found.sectionName = grader.name)
      fun hsame => hname (of_decide_eq_true hsame)
  unfold percentOf
  rw [hfnd]

theorem percentOf_nonneg {scores : List (SectionScore κ)}
    (hnn : ∀ score ∈ scores, 0 ≤ score.percent) : 0 ≤ grader.percentOf scores := by
  unfold percentOf
  cases hfnd : scores.find? fun score => score.sectionName = grader.name with
  | none => exact le_rfl
  | some score => exact hnn score (mem_of_find?_eq_some hfnd)

theorem percentOf_le (hfol : ∀ item ∈ sections, Follows (before item) (after item)) :
    grader.percentOf (sections.filterMap before) ≤ grader.percentOf (sections.filterMap after) := by
  induction sections with
  | nil => exact le_rfl
  | cons item sections ih =>
    have hitem := hfol item mem_cons_self
    have hoths : ∀ other ∈ sections, Follows (before other) (after other) :=
      fun other hoth => hfol other (mem_cons_of_mem _ hoth)
    have hrest := ih hoths
    cases hbef : before item with
    | none =>
      rw [hbef] at hitem
      have haft : after item = none := hitem
      rw [filterMap_cons_none hbef, filterMap_cons_none haft]
      exact hrest
    | some score =>
      rw [hbef] at hitem
      rw [filterMap_cons_some hbef]
      cases haft : after item with
      | none =>
        rw [haft] at hitem
        have hzero : score.percent = 0 := hitem
        rw [filterMap_cons_none haft]
        by_cases hname : score.sectionName = grader.name
        · rw [percentOf_cons_of_eq grader hname, hzero]
          exact grader.percentOf_nonneg (percent_nonneg_of_follows hoths).2
        · rw [percentOf_cons_of_ne grader hname]
          exact hrest
      | some other =>
        rw [haft] at hitem
        obtain ⟨hsame, -, hle⟩ := hitem
        rw [filterMap_cons_some haft]
        by_cases hname : score.sectionName = grader.name
        · rw [percentOf_cons_of_eq grader hname, percentOf_cons_of_eq grader (hsame ▸ hname)]
          exact hle
        · rw [percentOf_cons_of_ne grader hname, percentOf_cons_of_ne grader (hsame ▸ hname)]
          exact hrest

theorem grade_percent (gradeSheet : GradeSheet κ) :
    (grader.grade gradeSheet).percent = grader.percentOf (gradeSheet.ofType grader.type) := rfl

end

end SingleSectionGrader

namespace AssignmentFormatGrader

variable (grader : AssignmentFormatGrader)

theorem excess_breakdown {threshold : ℚ} (hthr : 0 ≤ threshold) (scores : List (SectionScore κ)) :
    excess threshold ((grader.breakdown scores).map Mark.percent) = excess threshold (scores.map percent) := by
  have hzeros : excess threshold (replicate (grader.entries scores - scores.length) (0 : ℚ)) = 0 :=
    excess_eq_zero fun value hval => (List.eq_of_mem_replicate hval).le.trans hthr
  rw [breakdown_percents, excess_append, hzeros, add_zero]

theorem breakdown_nonneg {scores : List (SectionScore κ)} (hnn : ∀ score ∈ scores, 0 ≤ score.percent) :
    ∀ mark ∈ grader.breakdown scores, 0 ≤ mark.percent := by
  intro mark hmark
  have hmem : mark.percent ∈ (grader.breakdown scores).map Mark.percent := mem_map_of_mem hmark
  rw [breakdown_percents, mem_append] at hmem
  rcases hmem with hsco | hzero
  · obtain ⟨score, hsco, heq⟩ := mem_map.mp hsco
    rw [← heq]
    exact hnn score hsco
  · exact (List.eq_of_mem_replicate hzero).ge

theorem entries_mono {scores others : List (SectionScore κ)} (hlen : others.length ≤ scores.length) :
    grader.entries others ≤ grader.entries scores := by
  unfold entries
  omega

theorem percent_le_iff (hfol : ∀ item ∈ sections, Follows (before item) (after item)) :
    (totalWithDrops (grader.breakdown (sections.filterMap before)) grader.dropCount).1 ≤
        (totalWithDrops (grader.breakdown (sections.filterMap after)) grader.dropCount).1 ↔
      ¬ (grader.dropCount < grader.entries (sections.filterMap before) ∧
        (grader.entries (sections.filterMap after) : Int) ≤ grader.dropCount ∧
        ∃ score ∈ sections.filterMap before, 0 < score.percent) := by
  obtain ⟨hbef, haft⟩ := percent_nonneg_of_follows hfol
  have hmks := grader.breakdown_nonneg hbef
  constructor
  · rintro hle ⟨hsome, hnone, score, hsco, hpos⟩
    have hzero : (totalWithDrops (grader.breakdown (sections.filterMap after))
        grader.dropCount).1 = 0 := totalWithDrops_of_le (by rwa [length_breakdown])
    have hmark : ∃ mark ∈ grader.breakdown (sections.filterMap before), 0 < mark.percent := by
      have hmem : score.percent ∈ (grader.breakdown (sections.filterMap before)).map Mark.percent := by
        rw [breakdown_percents]
        exact mem_append_left _ (mem_map_of_mem hsco)
      obtain ⟨mark, hmark, heq⟩ := mem_map.mp hmem
      exact ⟨mark, hmark, heq ▸ hpos⟩
    have hfall := totalWithDrops_pos hmks (by rwa [length_breakdown]) hmark
    linarith
  · intro hkept
    by_cases hemp : grader.dropCount < grader.entries (sections.filterMap before) ∧
        (grader.entries (sections.filterMap after) : Int) ≤ grader.dropCount
    · obtain ⟨hsome, hnone⟩ := hemp
      have hall : ∀ value ∈ (sections.filterMap before).map percent, value ≤ 0 := by
        intro value hval
        obtain ⟨score, hsco, rfl⟩ := mem_map.mp hval
        by_contra hpos
        exact hkept ⟨hsome, hnone, score, hsco, not_le.mp hpos⟩
      have hmore : grader.dropCount < (grader.breakdown (sections.filterMap before)).length := by
        rwa [length_breakdown]
      have hbound := totalWithDrops_le hmore le_rfl
      rw [grader.excess_breakdown le_rfl, excess_eq_zero hall, zero_div, zero_add] at hbound
      exact hbound.trans (totalWithDrops_nonneg (grader.breakdown_nonneg haft))
    · refine totalWithDrops_mono (grader.breakdown_nonneg haft) ?_ (fun threshold hthr => ?_) fun hsome => ?_
      · rw [length_breakdown, length_breakdown]
        exact grader.entries_mono (length_filterMap_le hfol)
      · rw [grader.excess_breakdown hthr, grader.excess_breakdown hthr]
        exact excess_filterMap_le hfol hthr
      · rw [length_breakdown] at hsome ⊢
        exact not_le.mp fun hnone => hemp ⟨hsome, hnone⟩

end AssignmentFormatGrader

end EdxPlatform.Grades

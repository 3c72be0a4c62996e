import EdxPlatform.Grades.DroppedScores

/-!
# Dropping is optimal

The percent of a format is the best average that so many of its entries have.  The entries that are marked as dropped
are as many as should be, and none is larger than one that is not marked.
-/

namespace EdxPlatform.Grades

variable {κ : Type}

def averages (values : List ℚ) (count : Nat) : Set ℚ :=
  {average | ∃ kept : List ℚ, kept.Sublist values ∧ kept.length = count ∧ average = kept.sum / count}

variable {others values : List ℚ}

theorem averages_subset_of_perm (hperm : values.Perm others) (count : Nat) :
    averages values count ⊆ averages others count := by
  rintro average ⟨kept, hsub, hlen, rfl⟩
  obtain ⟨found, hfnd, hfoun⟩ := hsub.subperm.trans hperm.subperm
  exact ⟨found, hfoun, by rw [hfnd.length_eq, hlen], by rw [hfnd.sum_eq]⟩

theorem averages_perm (hperm : values.Perm others) (count : Nat) : averages values count = averages others count :=
  (averages_subset_of_perm hperm count).antisymm (averages_subset_of_perm hperm.symm count)

variable {dropCount : Int} {dropped kept : List ℚ}

theorem Split.sum_le_sum {percents chosen : List ℚ}
    (hspl : Split percents kept dropped dropCount) (hchos : chosen.Sublist percents)
    (hlen : chosen.length = kept.length) : chosen.sum ≤ kept.sum := by
  by_cases hne : kept = []
  · rw [hne] at hlen ⊢
    rw [length_eq_zero_iff.mp hlen]
  · obtain ⟨threshold, -, hsum⟩ := exists_threshold hne hspl.largest
    obtain ⟨rest, hrest⟩ := hchos.exists_perm_append
    have hbound := sum_le_thresholds threshold chosen rest
    rw [excess_perm threshold hrest.symm, hlen, ← excess_perm threshold hspl.perm, ← hsum] at hbound
    exact hbound

theorem Split.isGreatest {percents : List ℚ} (hspl : Split percents kept dropped dropCount) :
    IsGreatest (averages percents (percents.length - dropCount.toNat))
      (kept.sum / (percents.length - dropCount.toNat : Nat)) := by
  have hlen := hspl.length
  constructor
  · obtain ⟨found, hfnd, hsub⟩ := (List.sublist_append_left kept dropped).subperm.trans hspl.perm.subperm
    exact ⟨found, hsub, by rw [hfnd.length_eq, hlen], by rw [hfnd.sum_eq]⟩
  · rintro average ⟨chosen, hsub, hchos, rfl⟩
    exact div_le_div_of_nonneg_right (hspl.sum_le_sum hsub (hchos.trans hlen.symm)) (Nat.cast_nonneg _)

variable (breakdown : List Mark)

theorem totalWithDrops_isGreatest (hdrop : 0 ≤ dropCount) :
    IsGreatest (averages (breakdown.map Mark.percent) (breakdown.length - dropCount.toNat))
      (totalWithDrops breakdown dropCount).1 := by
  obtain ⟨kept, dropped, hspl, htotal⟩ := exists_split breakdown dropCount
  have hgreat := hspl.isGreatest
  rw [length_map] at hgreat
  have hcnt : (totalWithDrops breakdown dropCount).1 = kept.sum / (breakdown.length - dropCount.toNat : Nat) := by
    rw [htotal]
    split_ifs with hmore
    · have hcast : (breakdown.length : Int) - dropCount = (breakdown.length - dropCount.toNat : Nat) := by omega
      rw [hcast, Int.cast_natCast]
    · have hlen := hspl.length
      rw [length_map] at hlen
      rw [length_eq_zero_iff.mp (show kept.length = 0 by omega), sum_nil, zero_div]
  rwa [hcnt]

theorem sortedBreakdown_cut (dropCount : Int) : ∃ kept dropped, sortedBreakdown breakdown = kept ++ dropped ∧
      dropped.length = min breakdown.length dropCount.toNat ∧
      (∀ mark ∈ kept, mark.2 ∉ droppedIndices breakdown dropCount) ∧
      ∀ mark ∈ dropped, mark.2 ∈ droppedIndices breakdown dropCount := by
  have hnod : ((sortedBreakdown breakdown).map Prod.snd).Nodup := by
    rw [((sortedBreakdown_perm breakdown).map Prod.snd).nodup_iff, List.zipIdx_map_snd]
    exact List.nodup_range'
  refine ⟨(sortedBreakdown breakdown).take (breakdown.length - dropCount.toNat),
    (sortedBreakdown breakdown).drop (breakdown.length - dropCount.toNat),
    (take_append_drop _ _).symm, ?_, fun mark hmark => ?_, fun mark hmark => ?_⟩
  · rw [length_drop, length_sortedBreakdown]
    omega
  · rw [← filter_notMem_drop hnod] at hmark
    rw [droppedIndices_eq]
    exact of_decide_eq_true (mem_filter.mp hmark).2
  · rw [droppedIndices_eq]
    exact mem_map_of_mem hmark

namespace AssignmentFormatGrader

variable (grader : AssignmentFormatGrader) (gradeSheet : GradeSheet κ)

section

variable (scores : List (SectionScore κ))

def percents : List ℚ := scores.map SectionScore.percent ++ List.replicate (grader.minCount.toNat - scores.length) 0

def keptCount : Nat := (grader.percents scores).length - grader.dropCount.toNat

def markedBreakdown : List Mark :=
  (grader.breakdown scores).zipIdx.map fun mark =>
    if mark.2 ∈ droppedIndices (grader.breakdown scores) grader.dropCount then grader.dropped mark.1 else mark.1

end

/-- What a grade is to be: the best average, in any order of the scores, and the entries with the lowest marked. -/
structure DropsLowest : Prop where
  best : IsGreatest (averages (grader.percents (gradeSheet.ofType grader.type))
    (grader.keptCount (gradeSheet.ofType grader.type))) (grader.grade gradeSheet).percent
  none_left : (grader.percents (gradeSheet.ofType grader.type)).length ≤ grader.dropCount.toNat →
    (grader.grade gradeSheet).percent = 0
  any_order : ∀ other : GradeSheet κ, (other.ofType grader.type).Perm (gradeSheet.ofType grader.type) →
    (grader.grade other).percent = (grader.grade gradeSheet).percent
  marked : (grader.percents (gradeSheet.ofType grader.type)).length ≠ 1 → grader.showOnlyAverage = false →
    ∃ shown total, (grader.grade gradeSheet).sectionBreakdown =
        (if grader.hideAverage then shown else shown ++ [total]) ∧
      shown.map Mark.percent = grader.percents (gradeSheet.ofType grader.type) ∧
      (shown.filter fun mark => mark.mark.isSome).length = min shown.length grader.dropCount.toNat ∧
      ∀ mark ∈ shown, ∀ other ∈ shown, mark.mark.isSome = true → other.mark.isSome = false →
        mark.percent ≤ other.percent

variable {grader gradeSheet}

section

variable (hmin : 0 ≤ grader.minCount) (scores : List (SectionScore κ))
include hmin

theorem breakdown_eq_percents : (grader.breakdown scores).map Mark.percent = grader.percents scores := by
  have hmis : grader.entries scores - scores.length = grader.minCount.toNat - scores.length := by
    rw [entries]
    omega
  rw [breakdown_percents, hmis, percents]

theorem length_percents : (grader.breakdown scores).length = (grader.percents scores).length := by
  rw [← breakdown_eq_percents hmin, length_map]

end

theorem grade_isGreatest (hmin : 0 ≤ grader.minCount) (hdrop : 0 ≤ grader.dropCount) :
    IsGreatest (averages (grader.percents (gradeSheet.ofType grader.type))
      (grader.keptCount (gradeSheet.ofType grader.type))) (grader.grade gradeSheet).percent := by
  have hgreat := totalWithDrops_isGreatest (grader.breakdown (gradeSheet.ofType grader.type)) hdrop
  rwa [breakdown_eq_percents hmin, length_percents hmin] at hgreat

variable {scores : List (SectionScore κ)}

theorem percents_perm {others : List (SectionScore κ)} (hperm : scores.Perm others) :
    (grader.percents scores).Perm (grader.percents others) := by
  rw [percents, percents, hperm.length_eq]
  exact (hperm.map _).append_right _

theorem grade_anyOrder (hmin : 0 ≤ grader.minCount) (hdrop : 0 ≤ grader.dropCount) {other : GradeSheet κ}
    (hperm : (other.ofType grader.type).Perm (gradeSheet.ofType grader.type)) :
    (grader.grade other).percent = (grader.grade gradeSheet).percent := by
  have hper : (grader.percents (other.ofType grader.type)).Perm
      (grader.percents (gradeSheet.ofType grader.type)) := percents_perm hperm
  have hgreat : IsGreatest (averages _ _) (grader.grade other).percent := grade_isGreatest hmin hdrop
  rw [keptCount, averages_perm hper, hper.length_eq] at hgreat
  exact hgreat.unique (grade_isGreatest hmin hdrop)

theorem mark_breakdown (scores : List (SectionScore κ)) : ∀ mark ∈ grader.breakdown scores, mark.mark = none := by
  intro mark hmark
  obtain ⟨index, -, rfl⟩ := mem_map.mp hmark
  rfl

theorem isSome_marked {mark : Mark × Nat} (hmark : mark ∈ (grader.breakdown scores).zipIdx) {indices : List Nat} :
    (if mark.2 ∈ indices then grader.dropped mark.1 else mark.1).mark.isSome = decide (mark.2 ∈ indices) := by
  have hnone : mark.1.mark = none := mark_breakdown scores mark.1 (List.fst_mem_of_mem_zipIdx hmark)
  split_ifs with hdropp
  · simp [dropped, hdropp]
  · simp [hnone, hdropp]

theorem marked_percents (scores : List (SectionScore κ)) :
    (grader.markedBreakdown scores).map Mark.percent = (grader.breakdown scores).map Mark.percent := by
  conv => rhs; rw [← zipIdx_map_fst 0 (grader.breakdown scores)]
  rw [markedBreakdown, map_map, map_map]
  refine map_congr_left fun mark _ => ?_
  simp only [comp_apply]
  split_ifs <;> rfl

theorem marked_count (scores : List (SectionScore κ)) :
    ((grader.markedBreakdown scores).filter fun mark => mark.mark.isSome).length =
      min (grader.breakdown scores).length grader.dropCount.toNat := by
  obtain ⟨kept, dropped, hsort, hlen, hkept, hdropp⟩ := sortedBreakdown_cut (grader.breakdown scores) grader.dropCount
  have hfilt : ((grader.breakdown scores).zipIdx.filter fun mark =>
      mark.2 ∈ droppedIndices (grader.breakdown scores) grader.dropCount).Perm dropped := by
    refine ((sortedBreakdown_perm _).filter _).symm.trans (List.Perm.of_eq ?_)
    rw [hsort, filter_append, filter_eq_nil_iff.mpr fun mark hmark => by simpa using hkept mark hmark,
      filter_eq_self.mpr fun mark hmark => by simpa using hdropp mark hmark, nil_append]
  rw [markedBreakdown, List.filter_map, length_map, ← hlen, ← hfilt.length_eq]
  exact congrArg List.length (filter_congr fun mark hmark => isSome_marked hmark)

theorem mem_marked {mark : Mark} (hmark : mark ∈ grader.markedBreakdown scores) :
    ∃ found ∈ sortedBreakdown (grader.breakdown scores), found.1.percent = mark.percent ∧
      mark.mark.isSome = decide (found.2 ∈ droppedIndices (grader.breakdown scores) grader.dropCount) := by
  obtain ⟨found, hfnd, rfl⟩ := mem_map.mp hmark
  refine ⟨found, (sortedBreakdown_perm _).mem_iff.mpr hfnd, ?_, isSome_marked hfnd⟩
  split_ifs <;> rfl

theorem marked_le {mark other : Mark} (hmark : mark ∈ grader.markedBreakdown scores)
    (hoth : other ∈ grader.markedBreakdown scores) (hmrk : mark.mark.isSome = true)
    (hunm : other.mark.isSome = false) : mark.percent ≤ other.percent := by
  obtain ⟨kept, dropped, hsort, -, hkept, hdropp⟩ := sortedBreakdown_cut (grader.breakdown scores) grader.dropCount
  obtain ⟨found, hfnd, hperc, hsome⟩ := mem_marked hmark
  obtain ⟨otherFound, hothe, hotherPercent, hotherSome⟩ := mem_marked hoth
  rw [hmrk, eq_comm, decide_eq_true_iff] at hsome
  rw [hunm, eq_comm, decide_eq_false_iff_not] at hotherSome
  rw [hsort, mem_append] at hfnd hothe
  have hpair := sortedBreakdown_pairwise (grader.breakdown scores)
  rw [hsort, pairwise_append] at hpair
  rw [← hperc, ← hotherPercent]
  exact hpair.2.2 otherFound (hothe.resolve_right fun h => hotherSome (hdropp _ h)) found
    (hfnd.resolve_left fun h => hkept _ h hsome)

variable (grader gradeSheet) in
theorem grade_sectionBreakdown : ∃ total, (grader.grade gradeSheet).sectionBreakdown =
    if (grader.markedBreakdown (gradeSheet.ofType grader.type)).length = 1 then [total]
    else
      if grader.hideAverage then
        if grader.showOnlyAverage then [] else grader.markedBreakdown (gradeSheet.ofType grader.type)
      else
        (if grader.showOnlyAverage then [] else grader.markedBreakdown (gradeSheet.ofType grader.type)) ++ [total] :=
  ⟨_, rfl⟩

def homework : AssignmentFormatGrader := { type := "Homework", minCount := 2, dropCount := 1 }

def halfSheet : GradeSheet Unit :=
  Dict.ofList [(some "Homework",
    [⟨{ earned := 1, possible := 2, graded := true, sectionName := "One", moduleId := none }, zero_lt_two⟩])]

end AssignmentFormatGrader

end EdxPlatform.Grades

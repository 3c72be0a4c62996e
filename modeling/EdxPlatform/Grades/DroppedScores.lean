import Mathlib.Tactic.Linarith
import Mathlib.Tactic.Positivity
import EdxPlatform.Grades.Graders
import EdxPlatform.Lib.Thresholds

/-!
# Dropping the lowest scores

The average without the lowest marks is that of the largest, which a threshold bounds.  So
it does not fall when marks rise, nor when some that were zero go, unless none is left.
-/

namespace EdxPlatform.Grades

open Mark

theorem filter_notMem_drop {α β : Type} [DecidableEq β] {values : List α} {index : α → β}
    (hnod : (values.map index).Nodup) (count : Nat) :
    values.filter (fun value => index value ∉ (values.drop count).map index) = values.take count := by
  have hspl : (values.take count ++ values.drop count) = values := take_append_drop _ _
  have hdisj : ((values.take count).map index).Disjoint ((values.drop count).map index) := by
    rw [← hspl, map_append] at hnod
    exact List.disjoint_of_nodup_append hnod
  have htake : (values.take count).filter
      (fun value => index value ∉ (values.drop count).map index) = values.take count := by
    refine filter_eq_self.mpr fun value hval => decide_eq_true fun hdropp => ?_
    exact hdisj (mem_map_of_mem hval) hdropp
  have hdrop : (values.drop count).filter (fun value => index value ∉ (values.drop count).map index) = [] := by
    refine filter_eq_nil_iff.mpr fun value hval hkept => ?_
    exact of_decide_eq_true hkept (mem_map_of_mem hval)
  calc values.filter (fun value => index value ∉ (values.drop count).map index)
      = (values.take count ++ values.drop count).filter
          (fun value => index value ∉ (values.drop count).map index) := by rw [hspl]
    _ = values.take count := by rw [filter_append, htake, hdrop, append_nil]

/-- The marks that are kept are the largest; as many are dropped as there should be. -/
structure Split (percents kept dropped : List ℚ) (dropCount : Int) : Prop where
  perm : (kept ++ dropped).Perm percents
  largest : ∀ value ∈ kept, ∀ other ∈ dropped, other ≤ value
  dropped : dropped.length = min percents.length dropCount.toNat

section

variable (breakdown : List Mark)

theorem sortedBreakdown_perm : (sortedBreakdown breakdown).Perm breakdown.zipIdx := sortedBy_perm _ breakdown.zipIdx

theorem length_sortedBreakdown : (sortedBreakdown breakdown).length = breakdown.length := by
  rw [(sortedBreakdown_perm breakdown).length_eq, List.length_zipIdx]

theorem sortedBreakdown_pairwise :
    (sortedBreakdown breakdown).Pairwise fun mark other => other.1.percent ≤ mark.1.percent :=
  (sortedBy_pairwise _ breakdown.zipIdx).imp neg_le_neg_iff.mp

section

variable (dropCount : Int)

theorem droppedIndices_eq : droppedIndices breakdown dropCount =
      ((sortedBreakdown breakdown).drop (breakdown.length - dropCount.toNat)).map Prod.snd := by
  unfold droppedIndices
  rw [length_sortedBreakdown]
  split
  · rfl
  · next hnone =>
    have hall : (sortedBreakdown breakdown).length ≤ breakdown.length - dropCount.toNat := by
      rw [length_sortedBreakdown]
      omega
    rw [List.drop_of_length_le hall, map_nil]

theorem totalWithDrops_eq : (totalWithDrops breakdown dropCount).1 =
      let kept := (sortedBreakdown breakdown).take (breakdown.length - dropCount.toNat)
      let total := (kept.map fun mark => mark.1.percent).sum
      if 0 < (breakdown.length : Int) - dropCount then
        total / ((breakdown.length : Int) - dropCount : Int)
      else total := by
  have hnod : ((sortedBreakdown breakdown).map Prod.snd).Nodup := by
    rw [((sortedBreakdown_perm breakdown).map Prod.snd).nodup_iff, List.zipIdx_map_snd]
    exact List.nodup_range'
  have hkept := filter_notMem_drop hnod (breakdown.length - dropCount.toNat)
  have hperm : (breakdown.zipIdx.filter fun mark => mark.2 ∉
      ((sortedBreakdown breakdown).drop (breakdown.length - dropCount.toNat)).map Prod.snd).Perm
      ((sortedBreakdown breakdown).take (breakdown.length - dropCount.toNat)) := by
    rw [← hkept]
    exact ((sortedBreakdown_perm breakdown).filter _).symm
  have htotal := (hperm.map fun mark => mark.1.percent).sum_eq
  unfold totalWithDrops
  rw [droppedIndices_eq, htotal]

theorem exists_split : ∃ kept dropped, Split (breakdown.map percent) kept dropped dropCount ∧
    (totalWithDrops breakdown dropCount).1 = if 0 < (breakdown.length : Int) - dropCount then
        kept.sum / ((breakdown.length : Int) - dropCount : Int)
      else kept.sum := by
  let count := breakdown.length - dropCount.toNat
  have hspl : ((sortedBreakdown breakdown).take count).map (fun mark => mark.1.percent) ++
      ((sortedBreakdown breakdown).drop count).map (fun mark => mark.1.percent) =
      (sortedBreakdown breakdown).map fun mark => mark.1.percent := by
    rw [← map_append, take_append_drop]
  have hper : breakdown.zipIdx.map (fun mark => mark.1.percent) = breakdown.map percent := by
    calc breakdown.zipIdx.map (fun mark => mark.1.percent)
        = (breakdown.zipIdx.map Prod.fst).map percent := map_map.symm
      _ = breakdown.map percent := by rw [zipIdx_map_fst]
  refine ⟨((sortedBreakdown breakdown).take count).map fun mark => mark.1.percent,
    ((sortedBreakdown breakdown).drop count).map fun mark => mark.1.percent, ⟨?_, ?_, ?_⟩,
    totalWithDrops_eq breakdown dropCount⟩
  · rw [hspl, ← hper]
    exact (sortedBreakdown_perm breakdown).map _
  · have hpair := (sortedBreakdown_pairwise breakdown).map
      (S := fun value other : ℚ => other ≤ value) (fun mark : Mark × Nat => mark.1.percent)
      fun _ _ => id
    rw [← hspl, pairwise_append] at hpair
    exact hpair.2.2
  · rw [length_map, length_drop, length_sortedBreakdown, length_map]
    omega

end

end

variable {percents kept dropped : List ℚ} {dropCount : Int}

section

variable (hspl : Split percents kept dropped dropCount)
include hspl

theorem Split.length : kept.length = percents.length - dropCount.toNat := by
  have hlen := hspl.perm.length_eq
  have hdropp := hspl.dropped
  rw [length_append] at hlen
  omega

theorem Split.nonneg (hnn : ∀ value ∈ percents, 0 ≤ value) : ∀ value ∈ kept, 0 ≤ value :=
  fun value hval => hnn value (hspl.perm.mem_iff.mp (mem_append_left _ hval))

theorem Split.sum_le (hmore : dropCount < percents.length) {threshold : ℚ} (hthr : 0 ≤ threshold) :
    kept.sum ≤ ((percents.length : Int) - dropCount : Int) * threshold + excess threshold percents := by
  have hbound := sum_le_thresholds threshold kept dropped
  rw [excess_perm threshold hspl.perm, nsmul_eq_mul] at hbound
  have hlen := hspl.length
  have hcnt : (kept.length : ℚ) ≤ (((percents.length : Int) - dropCount : Int) : ℚ) := by
    have hle : (kept.length : Int) ≤ (percents.length : Int) - dropCount := by omega
    exact_mod_cast hle
  have hscal := mul_le_mul_of_nonneg_right hcnt hthr
  linarith

theorem Split.exists_sum_eq (hnn : ∀ value ∈ percents, 0 ≤ value) (hmore : dropCount < percents.length) :
    ∃ threshold, 0 ≤ threshold ∧ kept.sum = ((percents.length : Int) - dropCount : Int) * threshold +
        excess threshold percents := by
  have hlen := hspl.length
  by_cases hdrops : 0 < dropCount
  · have hkept : kept ≠ [] := by
      intro hnil
      rw [hnil, length_nil] at hlen
      omega
    obtain ⟨threshold, hmem, hsum⟩ := exists_threshold hkept hspl.largest
    have hcnt : (kept.length : ℚ) = (((percents.length : Int) - dropCount : Int) : ℚ) := by
      have heq : (kept.length : Int) = (percents.length : Int) - dropCount := by omega
      exact_mod_cast heq
    rw [excess_perm threshold hspl.perm, nsmul_eq_mul, hcnt] at hsum
    exact ⟨threshold, hspl.nonneg hnn threshold hmem, hsum⟩
  -- nothing is dropped, so the threshold may be zero
  · have hnone : dropped = [] := by
      have hdropp := hspl.dropped
      exact length_eq_zero_iff.mp (by omega)
    have hperm := hspl.perm
    rw [hnone, append_nil] at hperm
    refine ⟨0, le_rfl, ?_⟩
    rw [mul_zero, zero_add, excess_zero_eq_sum hnn, hperm.sum_eq]

end

section Averages

variable {breakdown : List Mark}

theorem totalWithDrops_of_le (hle : (breakdown.length : Int) ≤ dropCount) :
    (totalWithDrops breakdown dropCount).1 = 0 := by
  obtain ⟨kept, dropped, hspl, htotal⟩ := exists_split breakdown dropCount
  have hlen := hspl.length
  rw [length_map] at hlen
  have hkept : kept = [] := length_eq_zero_iff.mp (by omega)
  rw [htotal, if_neg (by omega), hkept, sum_nil]

theorem totalWithDrops_le (hmore : dropCount < breakdown.length) {threshold : ℚ} (hthr : 0 ≤ threshold) :
    (totalWithDrops breakdown dropCount).1 ≤ threshold +
      excess threshold (breakdown.map percent) / ((breakdown.length : Int) - dropCount : Int) := by
  obtain ⟨kept, dropped, hspl, htotal⟩ := exists_split breakdown dropCount
  have hpos : (0 : ℚ) < ((breakdown.length : Int) - dropCount : Int) := by
    have hcnt : (0 : Int) < (breakdown.length : Int) - dropCount := by omega
    exact_mod_cast hcnt
  have hsum := hspl.sum_le (by rwa [length_map]) hthr
  rw [length_map] at hsum
  rw [htotal, if_pos (by omega), div_le_iff₀ hpos, add_mul, div_mul_cancel₀ _ hpos.ne']
  linarith

section

variable (hnn : ∀ mark ∈ breakdown, 0 ≤ mark.percent)
include hnn

theorem exists_totalWithDrops_eq (hmore : dropCount < breakdown.length) :
    ∃ threshold, 0 ≤ threshold ∧ (totalWithDrops breakdown dropCount).1 = threshold +
      excess threshold (breakdown.map percent) / ((breakdown.length : Int) - dropCount : Int) := by
  obtain ⟨kept, dropped, hspl, htotal⟩ := exists_split breakdown dropCount
  have hpos : (0 : ℚ) < ((breakdown.length : Int) - dropCount : Int) := by
    have hcnt : (0 : Int) < (breakdown.length : Int) - dropCount := by omega
    exact_mod_cast hcnt
  obtain ⟨threshold, hthr, hsum⟩ := hspl.exists_sum_eq
    (fun value hval => by
      obtain ⟨mark, hmark, rfl⟩ := mem_map.mp hval
      exact hnn mark hmark) (by rwa [length_map])
  rw [length_map] at hsum
  refine ⟨threshold, hthr, ?_⟩
  rw [htotal, if_pos (by omega), hsum, add_div, mul_div_cancel_left₀ _ hpos.ne']

theorem totalWithDrops_nonneg : 0 ≤ (totalWithDrops breakdown dropCount).1 := by
  by_cases hmore : dropCount < breakdown.length
  · obtain ⟨threshold, hthr, htotal⟩ := exists_totalWithDrops_eq hnn hmore
    have hexc := excess_nonneg threshold (breakdown.map percent)
    have hcnt : (0 : ℚ) ≤ ((breakdown.length : Int) - dropCount : Int) := by
      have hle : (0 : Int) ≤ (breakdown.length : Int) - dropCount := by omega
      exact_mod_cast hle
    rw [htotal]
    positivity
  · exact (totalWithDrops_of_le (not_lt.mp hmore)).ge

theorem totalWithDrops_pos (hmore : dropCount < breakdown.length) (hmark : ∃ mark ∈ breakdown, 0 < mark.percent) :
    0 < (totalWithDrops breakdown dropCount).1 := by
  have hcnt : (0 : ℚ) < ((breakdown.length : Int) - dropCount : Int) := by
    have hlt : (0 : Int) < (breakdown.length : Int) - dropCount := by omega
    exact_mod_cast hlt
  obtain ⟨threshold, hthr, htotal⟩ := exists_totalWithDrops_eq hnn hmore
  rw [htotal]
  rcases hthr.eq_or_lt with rfl | hpos
  · obtain ⟨mark, hmem, hperc⟩ := hmark
    have hall : ∀ value ∈ breakdown.map percent, 0 ≤ value := by
      intro value hval
      obtain ⟨other, hoth, rfl⟩ := mem_map.mp hval
      exact hnn other hoth
    have hsum : mark.percent ≤ (breakdown.map percent).sum := List.single_le_sum hall _ (mem_map_of_mem hmem)
    rw [zero_add, excess_zero_eq_sum hall]
    exact div_pos (hperc.trans_le hsum) hcnt
  · have hexc := excess_nonneg threshold (breakdown.map percent)
    positivity

end

theorem totalWithDrops_mono {after : List Mark} (hnn : ∀ mark ∈ after, 0 ≤ mark.percent)
    (hlen : after.length ≤ breakdown.length)
    (hexc : ∀ threshold, 0 ≤ threshold → excess threshold (breakdown.map percent) ≤
      excess threshold (after.map percent))
    (hleft : dropCount < breakdown.length → dropCount < after.length) :
    (totalWithDrops breakdown dropCount).1 ≤ (totalWithDrops after dropCount).1 := by
  by_cases hmore : dropCount < breakdown.length
  · obtain ⟨threshold, hthr, haft⟩ := exists_totalWithDrops_eq hnn (hleft hmore)
    have hpos : (0 : ℚ) < ((after.length : Int) - dropCount : Int) := by
      have hcnt : (0 : Int) < (after.length : Int) - dropCount := by
        have hless := hleft hmore
        omega
      exact_mod_cast hcnt
    have hcoun : (((after.length : Int) - dropCount : Int) : ℚ) ≤ ((breakdown.length : Int) - dropCount : Int) := by
      have hle : (after.length : Int) - dropCount ≤ (breakdown.length : Int) - dropCount := by omega
      exact_mod_cast hle
    calc (totalWithDrops breakdown dropCount).1
        ≤ threshold + excess threshold (breakdown.map percent) /
            ((breakdown.length : Int) - dropCount : Int) := totalWithDrops_le hmore hthr
      _ ≤ threshold + excess threshold (after.map percent) / ((after.length : Int) - dropCount : Int) := by
          refine add_le_add_right (div_le_div₀ ?_ (hexc threshold hthr) hpos hcoun) threshold
          exact excess_nonneg threshold _
      _ = (totalWithDrops after dropCount).1 := haft.symm
  · rw [totalWithDrops_of_le (not_lt.mp hmore)]
    exact totalWithDrops_nonneg hnn

end Averages

namespace AssignmentFormatGrader

variable {κ : Type} (grader : AssignmentFormatGrader)

section

variable (scores : List (SectionScore κ))

theorem length_breakdown : (grader.breakdown scores).length = grader.entries scores := by
  unfold breakdown
  rw [length_map, List.length_range]

theorem length_le_entries : scores.length ≤ grader.entries scores := by
  unfold entries
  omega

theorem breakdown_percents : (grader.breakdown scores).map percent = scores.map SectionScore.percent ++
      replicate (grader.entries scores - scores.length) 0 := by
  have hlen := grader.length_le_entries scores
  refine List.ext_getElem ?_ fun i hleft hrgt => ?_
  · rw [length_map, length_breakdown, length_append, length_map, length_replicate]
    omega
  · simp only [breakdown, List.getElem_map, List.getElem_range]
    by_cases hin : i < scores.length
    · rw [getElem?_eq_getElem hin, List.getElem_append_left (by rwa [length_map]), List.getElem_map]
    · rw [List.getElem?_eq_none (not_lt.mp hin),
        List.getElem_append_right (by rw [length_map]; omega), List.getElem_replicate]

end

theorem grade_percent (gradeSheet : GradeSheet κ) : (grader.grade gradeSheet).percent =
      (totalWithDrops (grader.breakdown (gradeSheet.ofType grader.type)) grader.dropCount).1 := rfl

end AssignmentFormatGrader

end EdxPlatform.Grades

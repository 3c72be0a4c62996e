import EdxPlatform.Gating.Milestones

/-!
# Required content

`set_required_content` looks for the relation to a prerequisite by the text of its key, and takes
the others away before it has validated the minimum score.
-/

namespace EdxPlatform.Gating

open ContentMilestone

/-- `text.replace(GATING_NAMESPACE_QUALIFIER, '')`, while `skipped` characters of an occurrence are left out. -/
def strikeQualifier : Nat → List Char → List Char
  | _, [] => []
  | skipped + 1, _ :: rest => strikeQualifier skipped rest
  | 0, c :: rest =>
    if gatingNamespaceQualifier <+: c :: rest then strikeQualifier (gatingNamespaceQualifier.length - 1) rest
    else c :: strikeQualifier 0 rest

/-- `_validate_min_score` does not raise. -/
def MinScore.isValid (int : List Char → Option Int) (minScore : MinScore) : Bool :=
  !minScore.truthy || (minScore.toInt int).any fun score => 0 ≤ score && score ≤ 100

/-- The prerequisite is taken to be the one of a milestone with this namespace. -/
def keeps (prereq milestoneNamespace : List Char) : Bool := decide (prereq ≠ [] ∧ prereq <:+: milestoneNamespace)

namespace MilestoneStore

section

variable (store : MilestoneStore)

/-- `_get_prerequisite_milestone` -/
def getPrerequisiteMilestone (prereq : List Char) : Option Milestone :=
  store.milestones.find? fun milestone => milestone.milestoneNamespace == prereq ++ gatingNamespaceQualifier

/-- `remove_course_content_milestone` for each of some milestones. -/
def removeContentMilestones (contentKey : List Char) (milestones : List Milestone) :
    MilestoneStore :=
  { store with contentMilestones := store.contentMilestones.filter fun found =>
      !(found.contentId == contentKey && decide (found.milestone ∈ milestones)) }

/-- `add_course_content_milestone`, which replaces the requirements of a relation that is there. -/
def addContentMilestone (new : ContentMilestone) : MilestoneStore :=
  { store with contentMilestones := store.contentMilestones.filter (fun found => !(found.contentId == new.contentId &&
      found.relationship == new.relationship && found.milestone == new.milestone)) ++ [new] }

def requirers (gated prereq : List Char) (kept : Bool) : List ContentMilestone :=
  (store.findGatingMilestones gated .requires).filter fun found =>
    keeps prereq found.milestone.milestoneNamespace == kept

end

section

variable (int : List Char → Option Int) (store : MilestoneStore) (gated prereq : List Char) (minScore : MinScore)

def setRequiredContent : MilestoneStore × Except GatingError Unit :=
  let left := store.removeContentMilestones gated ((store.requirers gated prereq false).map ContentMilestone.milestone)
  if prereq = [] then (left, .ok ())
  else if minScore.isValid int then
    match ((store.requirers gated prereq true).getLast?.map ContentMilestone.milestone).or
        (store.getPrerequisiteMilestone prereq) with
    | none => (left, .error .invalidMilestoneError)
    | some milestone => (left.addContentMilestone ⟨gated, .requires, milestone, some minScore⟩, .ok ())
  else (left, .error .gatingValidationError)

def getRequiredContent (store : MilestoneStore) (gated : List Char) : Option (List Char) × Option MinScore :=
  match store.getGatingMilestone gated .requires with
  | none => (none, none)
  | some found => (some (strikeQualifier 0 found.milestone.milestoneNamespace), found.requirements)

/-- A call that returns leaves the one relation it was to set, and an invalid score changes nothing. -/
def SetsRequired : Prop :=
  match store.setRequiredContent int gated prereq minScore with
  | (after, .ok ()) =>
    if prereq = [] then after.findGatingMilestones gated .requires = []
    else (∃ found, after.findGatingMilestones gated .requires = [found] ∧
      found.milestone.milestoneNamespace = prereq ++ gatingNamespaceQualifier ∧
      found.requirements = some minScore) ∧ after.getRequiredContent gated = (some prereq, some minScore)
  | (after, .error .gatingValidationError) => after = store
  | (_, .error .invalidMilestoneError) => True

/-- With a valid score, the prerequisite has no milestone at all, or its key does not contain the qualifier and the
relations in which its key occurs are those to one milestone of its own; with another score, its key occurs in all
gating relations of the content. -/
def NamesPrerequisite : Prop :=
  if minScore.isValid int then
    (store.requirers gated prereq true = [] ∧ store.getPrerequisiteMilestone prereq = none) ∨
      strikeQualifier 0 (prereq ++ gatingNamespaceQualifier) = prereq ∧
      ∃ own : Milestone, own.milestoneNamespace = prereq ++ gatingNamespaceQualifier ∧
        ∀ found ∈ store.requirers gated prereq true, found.milestone = own
  else store.requirers gated prereq false = []

end

variable {int : List Char → Option Int} {store : MilestoneStore} {gated prereq : List Char} {minScore : MinScore}

theorem mem_requirers {found : ContentMilestone} {kept : Bool} :
    found ∈ store.requirers gated prereq kept ↔ found ∈ store.contentMilestones ∧ found.contentId = gated ∧
      found.relationship = .requires ∧ gatingNamespaceQualifier <:+: found.milestone.milestoneNamespace ∧
      keeps prereq found.milestone.milestoneNamespace = kept := by
  unfold requirers findGatingMilestones
  simp only [mem_filter, all_some, all_none, and_eq_true, beq_iff_eq, decide_eq_true_eq]
  tauto

theorem findGatingMilestones_removed : (store.removeContentMilestones gated
    ((store.requirers gated prereq false).map milestone)).findGatingMilestones gated .requires =
      store.requirers gated prereq true := by
  unfold removeContentMilestones
  conv_lhs => rw [findGatingMilestones, filter_filter]
  conv_rhs => rw [requirers, findGatingMilestones, filter_filter]
  refine filter_congr fun found hfound => eq_iff_iff.mpr ?_
  have hrem : found.contentId = gated → found.relationship = .requires →
      gatingNamespaceQualifier <:+: found.milestone.milestoneNamespace →
        (found.milestone ∈ (store.requirers gated prereq false).map milestone ↔
          keeps prereq found.milestone.milestoneNamespace = false) := by
    intro hcon hrel hgat
    constructor
    · intro hmem
      obtain ⟨other, hother, heq⟩ := mem_map.mp hmem
      exact heq ▸ (mem_requirers.mp hother).2.2.2.2
    · exact fun hkeeps => mem_map_of_mem (mem_requirers.mpr ⟨hfound, hcon, hrel, hgat, hkeeps⟩)
  simp only [all_some, all_none, Bool.and_true, and_eq_true, beq_iff_eq, decide_eq_true_eq,
    not_eq_true', Bool.and_eq_false_imp, decide_eq_false_iff_not]
  constructor
  · rintro ⟨⟨⟨hcon, hrel⟩, hgat⟩, hleft⟩
    have hkept := mt (hrem hcon.symm hrel hgat).mpr (hleft hcon.symm)
    exact ⟨(not_eq_false _).mp hkept, ⟨hcon, hrel⟩, hgat⟩
  · rintro ⟨hkept, ⟨hcon, hrel⟩, hgat⟩
    refine ⟨⟨⟨hcon, hrel⟩, hgat⟩, fun hsame hmem => ?_⟩
    exact false_ne_true (((hrem hsame hrel hgat).mp hmem).symm.trans hkept)

theorem findGatingMilestones_added {milestone : Milestone} {requirements : Option MinScore}
    (hgat : gatingNamespaceQualifier <:+: milestone.milestoneNamespace) :
    (store.addContentMilestone ⟨gated, .requires, milestone, requirements⟩).findGatingMilestones gated .requires =
      (store.findGatingMilestones gated .requires).filter (fun found => found.milestone != milestone) ++
        [⟨gated, .requires, milestone, requirements⟩] := by
  unfold addContentMilestone findGatingMilestones
  rw [filter_append, filter_filter, filter_filter]
  congr 1
  · refine filter_congr fun found _ => eq_iff_iff.mpr ?_
    simp only [all_some, all_none, Bool.and_true, and_eq_true, beq_iff_eq, decide_eq_true_eq,
      not_eq_true', Bool.and_eq_false_imp, beq_eq_false_iff_ne, bne_iff_ne]
    exact ⟨fun ⟨hfound, hne⟩ => ⟨hne ⟨hfound.1.1.symm, hfound.1.2⟩, hfound⟩, fun ⟨hne, hfound⟩ =>
      ⟨hfound, fun _ => hne⟩⟩
  · simp [hgat]

theorem removed_eq_iff : store.removeContentMilestones gated
    ((store.requirers gated prereq false).map milestone) = store ↔
      store.requirers gated prereq false = [] := by
  constructor
  · intro heq
    refine List.eq_nil_iff_forall_not_mem.mpr fun found hfound => ?_
    have hleft := filter_eq_self.mp (congrArg contentMilestones heq) found (mem_requirers.mp hfound).1
    have hrem : found.milestone ∈ (store.requirers gated prereq false).map milestone :=
      mem_map_of_mem hfound
    simp [(mem_requirers.mp hfound).2.1, hrem] at hleft
  · intro hnone
    simp [removeContentMilestones, hnone]

/-- The relation to a milestone is the only one if the others that were left are to the same milestone. -/
theorem setsRequired_of_milestone (gated : List Char) {milestone : Milestone} {after : MilestoneStore}
    {kept : List ContentMilestone} (hafter : after.findGatingMilestones gated .requires =
      kept.filter (fun found => found.milestone != milestone) ++ [⟨gated, .requires, milestone, some minScore⟩]) :
    ((∃ found, after.findGatingMilestones gated .requires = [found] ∧
      found.milestone.milestoneNamespace = prereq ++ gatingNamespaceQualifier ∧ found.requirements = some minScore) ∧
        after.getRequiredContent gated = (some prereq, some minScore)) ↔
      strikeQualifier 0 (prereq ++ gatingNamespaceQualifier) = prereq ∧
        milestone.milestoneNamespace = prereq ++ gatingNamespaceQualifier ∧
          ∀ found ∈ kept, found.milestone = milestone := by
  have hoth : kept.filter (fun found => found.milestone != milestone) = [] ↔
      ∀ found ∈ kept, found.milestone = milestone := by
    simp
  unfold getRequiredContent getGatingMilestone
  rw [hafter, ← hoth]
  constructor
  · rintro ⟨⟨found, hfound, hname, -⟩, hreq⟩
    obtain ⟨hnone, hlast⟩ := (List.append_eq_singleton_iff.mp hfound).resolve_right (by simp)
    rw [hnone] at hreq
    rw [← (cons.inj hlast).1] at hname
    exact ⟨hname ▸ some.inj (Prod.mk.inj hreq).1, hname, hnone⟩
  · rintro ⟨hstrike, hname, hnone⟩
    rw [hnone]
    exact ⟨⟨_, rfl, hname, rfl⟩, by simp [hname, hstrike]⟩

theorem setsRequired_iff (int : List Char → Option Int) (store : MilestoneStore) (gated prereq : List Char)
    (minScore : MinScore) : SetsRequired int store gated prereq minScore ↔
      prereq = [] ∨ NamesPrerequisite int store gated prereq minScore := by
  unfold SetsRequired setRequiredContent NamesPrerequisite
  by_cases hempty : prereq = []
  · subst hempty
    simp only [if_true, true_or, iff_true, findGatingMilestones_removed]
    exact filter_eq_nil_iff.mpr fun found _ => by simp [keeps]
  simp only [hempty, if_false, false_or]
  split_ifs with hvalid
  · cases hchosen : ((store.requirers gated prereq true).getLast?.map ContentMilestone.milestone).or
        (store.getPrerequisiteMilestone prereq) with
    | none => exact iff_of_true trivial (.inl (by simpa using hchosen))
    | some milestone =>
      have hname : store.requirers gated prereq true = [] →
          milestone.milestoneNamespace = prereq ++ gatingNamespaceQualifier := by
        intro hnone
        rw [hnone, List.getLast?_nil, map_none, none_or] at hchosen
        simpa using find?_some hchosen
      have hlast : store.requirers gated prereq true ≠ [] →
          ∃ last ∈ store.requirers gated prereq true, last.milestone = milestone := by
        intro hne
        rw [List.getLast?_eq_some_getLast hne, map_some, some_or] at hchosen
        exact ⟨_, List.getLast_mem hne, some.inj hchosen⟩
      have hgating : gatingNamespaceQualifier <:+: milestone.milestoneNamespace := by
        by_cases hnone : store.requirers gated prereq true = []
        · exact hname hnone ▸ (List.suffix_append _ _).isInfix
        · obtain ⟨last, hmem, rfl⟩ := hlast hnone
          exact (mem_requirers.mp hmem).2.2.2.1
      have hadded := @findGatingMilestones_added (store.removeContentMilestones gated
        ((store.requirers gated prereq false).map ContentMilestone.milestone)) gated milestone (some minScore) hgating
      rw [findGatingMilestones_removed] at hadded
      refine (setsRequired_of_milestone gated hadded).trans ⟨fun ⟨hstrike, hown, hall⟩ =>
        .inr ⟨hstrike, milestone, hown, hall⟩, ?_⟩
      rintro (⟨hnone, hmissing⟩ | ⟨hstrike, own, hown, hall⟩)
      · rw [hnone, hmissing] at hchosen
        cases hchosen
      · by_cases hnone : store.requirers gated prereq true = []
        · exact ⟨hstrike, hname hnone, hnone ▸ forall_mem_nil _⟩
        · obtain ⟨last, hmem, rfl⟩ := hlast hnone
          exact ⟨hstrike, hall last hmem ▸ hown, fun found hfound => (hall found hfound).trans (hall last hmem).symm⟩
  · exact removed_eq_iff

/-- The lab is gated by the second of two quizzes; the key of the first is the beginning of the other's. -/
def labBehindQuiz10 : MilestoneStore where
  milestones := [⟨1, "quiz1.gating".toList⟩, ⟨2, "quiz10.gating".toList⟩]
  contentMilestones := [⟨"lab".toList, .requires, ⟨2, "quiz10.gating".toList⟩, some (.number 50)⟩]

theorem labBehindQuiz10_keeps :
    ¬ SetsRequired (fun _ => none) labBehindQuiz10 "lab".toList "quiz1".toList (.number 80) := by
  rintro ⟨⟨found, hfound, hname, -⟩, -⟩
  have hquiz : found.milestone = ⟨2, "quiz10.gating".toList⟩ :=
    congrArg ContentMilestone.milestone (List.cons.inj hfound).1.symm
  rw [hquiz] at hname
  exact absurd hname (by decide)

end MilestoneStore

end EdxPlatform.Gating

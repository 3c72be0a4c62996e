import EdxPlatform.BlockStructure.Transform
import EdxPlatform.Grades.Grading

/-!
# The graded blocks of a course

Grading finds the graded sections of a course without fail, and reads the stored scores of
all their blocks.
-/

namespace EdxPlatform.Grades

variable {κ : Type} [DecidableEq κ]

/-- A course without cycles whose blocks have data, with no negative weight. -/
structure Course (κ : Type) [DecidableEq κ] where
  blocks : CourseBlocks κ
  acyclic : Acyclic blocks.Edge
  collected : ∀ parent child, child ∈ blocks.getChildren parent → (blockOf blocks child).isSome
  weight_nonneg : ∀ key block weight, blockOf blocks key = some block → block.weight = some weight → 0 ≤ weight

namespace GradingContext

/-- The blocks of the sections have scores and are among all graded blocks, which are
blocks of the course. -/
structure Sound (course : Course κ) (context : GradingContext κ) : Prop where
  sections : ∀ format infos, context.allGradedSections.lookup format = some infos →
    ∀ info ∈ infos, ∀ descendant ∈ info.scoredDescendants,
      descendant.hasScore = true ∧ some descendant ∈ context.allGradedBlocks
  blocks : ∀ block ∈ context.allGradedBlocks, ∃ key found, block = some found ∧ blockOf course.blocks key = some found

def ofFormat (context : GradingContext κ) (format : Option String) : List (SectionInfo κ) :=
  (context.allGradedSections.lookup format).getD []

section

variable {course : Course κ} {context : GradingContext κ} (hsnd : context.Sound course)
include hsnd

theorem Sound.ofFormat {format : Option String} {info : SectionInfo κ}
    (hinfo : info ∈ context.ofFormat format) {descendant : BlockData κ}
    (hdesc : descendant ∈ info.scoredDescendants) :
    descendant.hasScore = true ∧ some descendant ∈ context.allGradedBlocks := by
  unfold GradingContext.ofFormat at hinfo
  cases hlook : context.allGradedSections.lookup format with
  | none =>
    rw [hlook] at hinfo
    cases hinfo
  | some infos =>
    rw [hlook] at hinfo
    exact hsnd.sections format infos hlook info hinfo descendant hdesc

theorem Sound.add (sectionBlock : BlockData κ) {blocks : List (Option (BlockData κ))}
    (hblks : ∀ block ∈ blocks, ∃ key found, block = some found ∧ blockOf course.blocks key = some found) :
    Sound course
      { allGradedSections := context.allGradedSections.insert sectionBlock.format
          (context.ofFormat sectionBlock.format ++
            [{ sectionBlock, scoredDescendants := (blocks.filterMap id).filter BlockData.hasScore }])
        allGradedBlocks := context.allGradedBlocks ++ blocks } := by
  constructor
  · intro format infos hinfos info hinfo descendant hdesc
    have hold : info ∈ context.ofFormat format → descendant.hasScore = true ∧
        some descendant ∈ context.allGradedBlocks ++ blocks := by
      intro hinfo
      obtain ⟨hsco, hmem⟩ := hsnd.ofFormat hinfo hdesc
      exact ⟨hsco, mem_append_left _ hmem⟩
    rw [lookup_insert] at hinfos
    split at hinfos
    · next hfor =>
      cases hinfos
      rcases mem_append.mp hinfo with hinfo | hinfo
      · exact hold (hfor ▸ hinfo)
      · rw [mem_singleton.mp hinfo] at hdesc
        obtain ⟨hmem, hsco⟩ := mem_filter.mp hdesc
        obtain ⟨block, hblk, heq⟩ := mem_filterMap.mp hmem
        exact ⟨hsco, mem_append_right _ (heq ▸ hblk)⟩
    · refine hold ?_
      unfold GradingContext.ofFormat
      rw [hinfos]
      exact hinfo
  · intro block hblk
    rcases mem_append.mp hblk with hblk | hblk
    · exact hsnd.blocks block hblk
    · exact hblks block hblk

end

end GradingContext

variable (keys : UsageKeys κ)

theorem addSection_returns {course : Course κ} {sectionKey : κ}
    (hsect : ∃ parent, sectionKey ∈ course.blocks.getChildren parent)
    {context : GradingContext κ} (hsnd : context.Sound course) :
    ∃ bound next, (∀ fuel, bound ≤ fuel → addSection keys course.blocks fuel context sectionKey = some (.ok next)) ∧
      next.Sound course := by
  obtain ⟨parent, hpar⟩ := hsect
  obtain ⟨sectionBlock, hblk⟩ := isSome_iff_exists.mp (course.collected parent _ hpar)
  cases hgrd : sectionBlock.graded with
  | false =>
    refine ⟨0, context, fun fuel _ => ?_, hsnd⟩
    unfold addSection
    rw [hblk]
    dsimp only
    rw [hgrd]
    rfl
  | true =>
    obtain ⟨bound, last, hbound, hbel⟩ := traversePostOrder_returns course.acyclic
      (BlockStructure.finite_parents course.blocks) sectionKey keys.possiblyScored
    have hblks : ∀ block ∈ some sectionBlock :: last.visited.map (blockOf course.blocks),
        ∃ key found, block = some found ∧ blockOf course.blocks key = some found := by
      intro block hmem
      rcases mem_cons.mp hmem with rfl | hmem
      · exact ⟨sectionKey, sectionBlock, rfl, hblk⟩
      · obtain ⟨node, hnode, rfl⟩ := mem_map.mp hmem
        have hdata : (blockOf course.blocks node).isSome := by
          rcases Relation.ReflTransGen.cases_tail (hbel node hnode) with rfl | ⟨above, -, hch⟩
          · exact course.collected parent _ hpar
          · exact course.collected above node hch
        obtain ⟨found, hfnd⟩ := isSome_iff_exists.mp hdata
        exact ⟨node, found, hfnd, hfnd⟩
    refine ⟨bound, _, fun fuel hfuel => ?_, hsnd.add sectionBlock hblks⟩
    unfold addSection
    rw [hblk]
    dsimp only
    rw [hgrd, hbound fuel hfuel]
    rfl

theorem gradingContext_returns (course : Course κ) : ∃ bound context, (∀ fuel, bound ≤ fuel →
        gradingContext keys course.blocks fuel = some (.ok context)) ∧
      context.Sound course := by
  have hfold : ∀ sectionKeys : List κ, (∀ key ∈ sectionKeys, ∃ parent, key ∈ course.blocks.getChildren parent) →
      ∀ context : GradingContext κ, context.Sound course → ∃ bound last, (∀ fuel, bound ≤ fuel →
        sectionKeys.foldlM (addSection keys course.blocks fuel) context = some (.ok last)) ∧
        last.Sound course := by
    intro sectionKeys
    induction sectionKeys with
    | nil => exact fun _ context hsnd => ⟨0, context, fun _ _ => rfl, hsnd⟩
    | cons key sectionKeys ih =>
      intro hkeys context hsnd
      obtain ⟨first, next, hfst, hnxt⟩ := addSection_returns keys (hkeys key mem_cons_self) hsnd
      obtain ⟨rest, last, hrest, hlast⟩ := ih (forall_mem_cons.mp hkeys).2 next hnxt
      refine ⟨max first rest, last, fun fuel hfuel => ?_, hlast⟩
      rw [foldlM_cons]
      change Option.bind (addSection keys course.blocks fuel context key) _ = _
      rw [hfst fuel (le_trans (le_max_left _ _) hfuel)]
      exact hrest fuel (le_trans (le_max_right _ _) hfuel)
  refine hfold _ (fun key hkey => ?_) {} ⟨fun format infos hinfos => ?_, fun block hblk => ?_⟩
  · obtain ⟨chapter, -, hsect⟩ := mem_flatMap.mp hkey
    exact ⟨chapter, hsect⟩
  · cases hinfos
  · cases hblk

variable {courseStructure : CourseBlocks κ} {result : Except GradingError (GradingContext κ)}

theorem addSection_mono {fuel more : Nat} (hmore : fuel ≤ more) {context : GradingContext κ} {sectionKey : κ}
    (hres : (addSection keys courseStructure fuel context sectionKey).run = some result) :
    (addSection keys courseStructure more context sectionKey).run = some result := by
  unfold addSection at hres ⊢
  cases hblk : blockOf courseStructure sectionKey with
  | none =>
    rw [hblk] at hres
    exact hres
  | some sectionBlock =>
    rw [hblk] at hres
    dsimp only at hres ⊢
    split at hres
    · next hgrd =>
      rw [if_pos hgrd]
      cases htrav : traversePostOrder sectionKey courseStructure.getChildren keys.possiblyScored fuel with
      | none =>
        rw [htrav] at hres
        cases hres
      | some outcome =>
        have hsame : traversePostOrder sectionKey courseStructure.getChildren
            keys.possiblyScored more = some outcome := whileLoop.mono htrav hmore
        rw [htrav] at hres
        rw [hsame]
        exact hres
    · next hgrd =>
      rw [if_neg hgrd]
      exact hres

theorem gradingContext_mono {fuel more : Nat} (hmore : fuel ≤ more)
    (hres : (gradingContext keys courseStructure fuel).run = some result) :
    (gradingContext keys courseStructure more).run = some result := by
  have hfold : ∀ (sectionKeys : List κ) (context : GradingContext κ) (result : Except GradingError (GradingContext κ)),
      (sectionKeys.foldlM (addSection keys courseStructure fuel) context).run = some result →
        (sectionKeys.foldlM (addSection keys courseStructure more) context).run = some result := by
    intro sectionKeys
    induction sectionKeys with
    | nil => exact fun _ _ hres => hres
    | cons key sectionKeys ih =>
      intro context
      rw [foldlM_cons, foldlM_cons]
      exact bind_settled (fun _ => addSection_mono keys hmore) ih
  exact hfold _ _ _ hres

end EdxPlatform.Grades

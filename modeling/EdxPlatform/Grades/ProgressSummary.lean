import Mathlib.Algebra.Module.NatInt
import Mathlib.Algebra.Module.Prod
import EdxPlatform.BlockStructure.Transform
import EdxPlatform.Grades.Grading
import EdxPlatform.Lib.Routes

/-!
# Progress summaries

A progress summary has a total for each section, and gives a score for any block of the course.  The total counts
every scored block below the section once, the score adds up along the children down to the first scored blocks.
-/

namespace EdxPlatform.Grades

open Relation BlockStructure Dict

variable {κ : Type} [DecidableEq κ]

structure SectionSummary (κ : Type) where
  displayName : String
  urlName : String
  scores : List (Score κ)
  sectionTotal : Score κ
  format : Option String
  graded : Bool

structure ChapterSummary (κ : Type) where
  course : String
  displayName : String
  urlName : String
  sections : List (SectionSummary κ)

structure ProgressSummary (κ : Type) where
  chapters : List (ChapterSummary κ)
  weightedScores : Dict κ (Score κ)
  locationsToChildren : κ → List κ

/-- `score_for_module`. -/
def ProgressSummary.scoreForModule (summary : ProgressSummary κ) : Nat → κ → Option (ℚ × ℚ)
  | 0, _ => none
  | fuel + 1, location =>
    match summary.weightedScores.lookup location with
    | some score => some (score.earned, score.possible)
    | none =>
      (summary.locationsToChildren location).foldlM (fun total child => do
        let (childEarned, childPossible) ← summary.scoreForModule fuel child
        return (total.1 + childEarned, total.2 + childPossible)) (0, 0)

variable (keys : UsageKeys κ) (learner : Learner κ)

section

variable (scoresClient : ScoresClient κ)

def weightedLocationScore (graded : Bool) (descendant : BlockData κ) : Option (Score κ) :=
  (getScore keys learner descendant scoresClient).map fun score =>
    { earned := score.1
      possible := score.2
      graded
      sectionName := descendant.displayNameWithDefaultEscaped
      moduleId := some descendant.location }

/-- One round of the loop over the descendants of a section; a block without data is `None`, of which only
`get_score` for an authenticated user asks anything. -/
def addDescendant (graded : Bool) (courseStructure : CourseBlocks κ)
    (summed : List (Score κ) × Dict κ (Score κ)) (descendantKey : κ) :
    ExceptT GradingError Option (List (Score κ) × Dict κ (Score κ)) :=
  match blockOf courseStructure descendantKey with
  | none => if learner.isAuthenticated then throw .attributeError else return summed
  | some descendant =>
    match weightedLocationScore keys learner scoresClient graded descendant with
    | none => return summed
    | some score => return (summed.1 ++ [score], summed.2.insert descendant.location score)

def addSectionSummary (gatedContent : List String) (courseStructure : CourseBlocks κ)
    (fuel : Nat) (summed : List (SectionSummary κ) × Dict κ (Score κ)) (sectionKey : κ) :
    ExceptT GradingError Option (List (SectionSummary κ) × Dict κ (Score κ)) :=
  if keys.unicode sectionKey ∈ gatedContent then return summed
  else
    let graded := ((blockOf courseStructure sectionKey).map BlockData.graded).getD false
    match traversePostOrder sectionKey courseStructure.getChildren keys.possiblyScored fuel with
    | none => ExceptT.mk none
    | some (.error err) => throw (.traversal err)
    | some (.ok traversal) => do
      let (scores, weightedScores) ← traversal.visited.foldlM
        (addDescendant keys learner scoresClient graded courseStructure) ([], summed.2)
      match blockOf courseStructure sectionKey with
      | none => throw .attributeError
      | some sectionBlock =>
        let escapedSectionName := sectionBlock.displayNameWithDefaultEscaped
        let sectionSummary : SectionSummary κ :=
          { displayName := escapedSectionName
            urlName := sectionBlock.urlName
            scores
            sectionTotal := (aggregateScores scores escapedSectionName).1
            format := sectionBlock.format
            graded }
        return (summed.1 ++ [sectionSummary], weightedScores)

end

def addChapterSummary (courseName : String) (scoresClient : ScoresClient κ) (gatedContent : List String)
    (courseStructure : CourseBlocks κ) (fuel : Nat) (summed : List (ChapterSummary κ) × Dict κ (Score κ))
    (chapterKey : κ) : ExceptT GradingError Option (List (ChapterSummary κ) × Dict κ (Score κ)) := do
  let (sections, weightedScores) ← (courseStructure.getChildren chapterKey).foldlM
    (addSectionSummary keys learner scoresClient gatedContent courseStructure fuel) ([], summed.2)
  match blockOf courseStructure chapterKey with
  | none => throw .attributeError
  | some chapter =>
    let chapterSummary : ChapterSummary κ :=
      { course := courseName
        displayName := chapter.displayNameWithDefaultEscaped
        urlName := chapter.urlName
        sections }
    return (summed.1 ++ [chapterSummary], weightedScores)

def scorableClient (courseStructure : CourseBlocks κ) : ScoresClient κ :=
  learner.scoresClient (courseStructure.blockRelations.keys.filter keys.possiblyScored)

/-- `_progress_summary`; `None` if the course has no blocks. -/
def progressSummary (courseName : String) (gatedContent : List String) (courseStructure : CourseBlocks κ) (fuel : Nat) :
    ExceptT GradingError Option (Option (ProgressSummary κ)) := do
  if courseStructure.blockRelations.keys.isEmpty then return none
  let (chapters, weightedScores) ← (courseStructure.getChildren courseStructure.rootBlockUsageKey).foldlM
      (addChapterSummary keys learner courseName (scorableClient keys learner courseStructure) gatedContent
        courseStructure fuel) ([], ∅)
  return some { chapters, weightedScores, locationsToChildren := courseStructure.getChildren }

/-- A course without cycles whose blocks have data, each under its own location. -/
structure ScoredCourse (κ : Type) [DecidableEq κ] where
  blocks : CourseBlocks κ
  acyclic : Acyclic blocks.Edge
  root_mem : blocks.rootBlockUsageKey ∈ blocks
  collected : ∀ parent child, child ∈ blocks.getChildren parent → (blockOf blocks child).isSome
  location_eq : ∀ key block, blockOf blocks key = some block → block.location = key

namespace ScoredCourse

variable (course : ScoredCourse κ) (gatedContent : List String)

def points (key : κ) : Option (ℚ × ℚ) :=
  (blockOf course.blocks key).bind fun block => getScore keys learner block (scorableClient keys learner course.blocks)

def openSections (chapterKey : κ) : List κ :=
  (course.blocks.getChildren chapterKey).filter fun sectionKey => decide (keys.unicode sectionKey ∉ gatedContent)

def listedSections : List κ :=
  (course.blocks.getChildren course.blocks.rootBlockUsageKey).flatMap (course.openSections keys gatedContent)

def InSection (sectionKey key : κ) : Prop :=
  keys.possiblyScored sectionKey = true ∧ ReflTransGen
    (fun parent child => child ∈ acceptedChildren course.blocks.getChildren keys.possiblyScored parent) sectionKey key

def Scored (key : κ) : Prop :=
  (course.points keys learner key).isSome ∧ ∃ sectionKey ∈ course.listedSections keys gatedContent,
    course.InSection keys sectionKey key

/-! ## The run -/

def entryOf (graded : Bool) (key : κ) : Option (κ × Score κ) :=
  (blockOf course.blocks key).bind fun block =>
    (weightedLocationScore keys learner (scorableClient keys learner course.blocks) graded block).map (key, ·)

variable {course} {key : κ}

theorem points_of_entry {graded : Bool} {entry : κ × Score κ}
    (hent : course.entryOf keys learner graded key = some entry) :
    entry.1 = key ∧ course.points keys learner key = some (entry.2.earned, entry.2.possible) := by
  obtain ⟨block, hblk, hfnd⟩ := bind_eq_some_iff.mp hent
  obtain ⟨score, hsco, rfl⟩ := map_eq_some_iff.mp hfnd
  obtain ⟨pair, hpair, rfl⟩ := map_eq_some_iff.mp hsco
  refine ⟨rfl, ?_⟩
  unfold points
  rw [hblk]
  exact hpair

theorem isSome_entryOf (graded : Bool) (key : κ) :
    (course.entryOf keys learner graded key).isSome = (course.points keys learner key).isSome := by
  unfold entryOf points weightedLocationScore
  cases blockOf course.blocks key with
  | none => rfl
  | some block => simp

theorem foldlM_addDescendant (graded : Bool) {visited : List κ}
    (hvisd : ∀ key ∈ visited, (blockOf course.blocks key).isSome) (scores : List (Score κ))
    (weightedScores : Dict κ (Score κ)) :
    visited.foldlM (addDescendant keys learner (scorableClient keys learner course.blocks) graded course.blocks)
        (scores, weightedScores) =
      pure (scores ++ (visited.filterMap (course.entryOf keys learner graded)).map Prod.snd,
        (visited.filterMap (course.entryOf keys learner graded)).foldl
          (fun weightedScores entry => weightedScores.insert entry.1 entry.2) weightedScores) := by
  induction visited generalizing scores weightedScores with
  | nil => rw [List.filterMap_nil, map_nil, append_nil]; rfl
  | cons key visited ih =>
    obtain ⟨block, hblk⟩ := isSome_iff_exists.mp (hvisd key mem_cons_self)
    have hrest : ∀ other ∈ visited, (blockOf course.blocks other).isSome := fun other hoth =>
      hvisd other (mem_cons_of_mem _ hoth)
    rw [foldlM_cons]
    unfold addDescendant
    rw [hblk]
    dsimp only
    cases hsco : weightedLocationScore keys learner (scorableClient keys learner course.blocks) graded block with
    | none =>
      have hent : course.entryOf keys learner graded key = none := by
        unfold entryOf
        rw [hblk, bind_some, hsco, map_none]
      rw [filterMap_cons_none hent]
      exact ih hrest scores weightedScores
    | some score =>
      have hent : course.entryOf keys learner graded key = some (key, score) := by
        unfold entryOf
        rw [hblk, bind_some, hsco, map_some]
      rw [filterMap_cons_some hent, map_cons, foldl_cons, List.append_cons, course.location_eq key block hblk]
      exact ih hrest _ _

variable (course) in
def sectionEntries (visited : List κ) (sectionKey : κ) : List (κ × Score κ) :=
  visited.filterMap (course.entryOf keys learner
    (((blockOf course.blocks sectionKey).map BlockData.graded).getD false))

variable (course) in
def sectionOf (last : κ → PostOrder κ) (sectionKey : κ) : Option (SectionSummary κ) :=
  (blockOf course.blocks sectionKey).map fun sectionBlock =>
    let scores := (course.sectionEntries keys learner (last sectionKey).visited sectionKey).map Prod.snd
    { displayName := sectionBlock.displayNameWithDefaultEscaped
      urlName := sectionBlock.urlName
      scores
      sectionTotal := (aggregateScores scores sectionBlock.displayNameWithDefaultEscaped).1
      format := sectionBlock.format
      graded := sectionBlock.graded }

variable (course) in
def chapterOf (courseName : String) (last : κ → PostOrder κ) (chapterKey : κ) : Option (ChapterSummary κ) :=
  (blockOf course.blocks chapterKey).map fun chapter =>
    { course := courseName
      displayName := chapter.displayNameWithDefaultEscaped
      urlName := chapter.urlName
      sections := (course.openSections keys gatedContent chapterKey).filterMap (course.sectionOf keys learner last) }

theorem exists_visited (course : ScoredCourse κ) : ∃ (bound : κ → Nat) (last : κ → PostOrder κ), ∀ sectionKey,
    (∀ fuel, bound sectionKey ≤ fuel →
      traversePostOrder sectionKey course.blocks.getChildren keys.possiblyScored fuel = some (.ok (last sectionKey))) ∧
    (last sectionKey).visited.Nodup ∧
    ∀ key, key ∈ (last sectionKey).visited ↔ course.InSection keys sectionKey key := by
  choose bound last hlast using fun sectionKey => traversePostOrder_accepted course.acyclic
    (finite_parents course.blocks) sectionKey keys.possiblyScored
  exact ⟨bound, last, hlast⟩

variable {sectionKey : κ}

theorem isSome_of_inSection (hsect : (blockOf course.blocks sectionKey).isSome)
    (hkey : course.InSection keys sectionKey key) : (blockOf course.blocks key).isSome := by
  rcases ReflTransGen.cases_tail hkey.2 with rfl | ⟨parent, -, hstep⟩
  · exact hsect
  · exact course.collected parent key (mem_filter.mp hstep).1

section Run

variable {gatedContent} {last : κ → PostOrder κ} {fuel : Nat}

theorem addSectionSummary_eq {sectionKey : κ} (hsect : (blockOf course.blocks sectionKey).isSome)
    (hrun : traversePostOrder sectionKey course.blocks.getChildren keys.possiblyScored fuel =
      some (.ok (last sectionKey)))
    (hvisd : ∀ key ∈ (last sectionKey).visited, course.InSection keys sectionKey key)
    (summed : List (SectionSummary κ) × Dict κ (Score κ)) :
    addSectionSummary keys learner (scorableClient keys learner course.blocks) gatedContent course.blocks fuel summed
        sectionKey =
      pure (if keys.unicode sectionKey ∈ gatedContent then summed else
        (summed.1 ++ (course.sectionOf keys learner last sectionKey).toList,
          (course.sectionEntries keys learner (last sectionKey).visited sectionKey).foldl
            (fun weightedScores entry => weightedScores.insert entry.1 entry.2) summed.2)) := by
  obtain ⟨sectionBlock, hblk⟩ := isSome_iff_exists.mp hsect
  unfold addSectionSummary
  by_cases hgated : keys.unicode sectionKey ∈ gatedContent
  · rw [if_pos hgated, if_pos hgated]
  · rw [if_neg hgated, if_neg hgated, hrun]
    dsimp only
    rw [foldlM_addDescendant keys learner _ (fun key hkey => isSome_of_inSection keys hsect (hvisd key hkey)),
      pure_bind]
    unfold sectionOf sectionEntries
    rw [hblk]
    rfl

theorem foldlM_addSectionSummary {sectionKeys : List κ}
    (hsec : ∀ sectionKey ∈ sectionKeys, (blockOf course.blocks sectionKey).isSome)
    (hruns : ∀ sectionKey ∈ sectionKeys,
      traversePostOrder sectionKey course.blocks.getChildren keys.possiblyScored fuel = some (.ok (last sectionKey)))
    (hvisd : ∀ sectionKey, ∀ key ∈ (last sectionKey).visited, course.InSection keys sectionKey key)
    (sections : List (SectionSummary κ)) (weightedScores : Dict κ (Score κ)) :
    sectionKeys.foldlM (addSectionSummary keys learner (scorableClient keys learner course.blocks) gatedContent
        course.blocks fuel) (sections, weightedScores) =
      pure (sections ++ (sectionKeys.filter fun sectionKey => decide (keys.unicode sectionKey ∉ gatedContent)).filterMap
          (course.sectionOf keys learner last),
        ((sectionKeys.filter fun sectionKey => decide (keys.unicode sectionKey ∉ gatedContent)).flatMap
          fun sectionKey =>
          course.sectionEntries keys learner (last sectionKey).visited sectionKey).foldl
            (fun weightedScores entry => weightedScores.insert entry.1 entry.2) weightedScores) := by
  induction sectionKeys generalizing sections weightedScores with
  | nil => rw [filter_nil, List.filterMap_nil, append_nil]; rfl
  | cons sectionKey sectionKeys ih =>
    have hrest := ih (forall_mem_cons.mp hsec).2 (forall_mem_cons.mp hruns).2
    rw [foldlM_cons, addSectionSummary_eq keys learner (hsec sectionKey mem_cons_self)
      (hruns sectionKey mem_cons_self) (hvisd sectionKey), pure_bind]
    by_cases hgated : keys.unicode sectionKey ∈ gatedContent
    · rw [if_pos hgated, filter_cons_of_neg (by simpa using hgated)]
      exact hrest sections weightedScores
    · rw [if_neg hgated, filter_cons_of_pos (by simpa using hgated), flatMap_cons, foldl_append, hrest]
      cases hfnd : course.sectionOf keys learner last sectionKey with
      | none => rw [filterMap_cons_none hfnd]; simp
      | some found => rw [filterMap_cons_some hfnd]; simp

theorem foldlM_addChapterSummary (courseName : String) {chapterKeys : List κ}
    (hchap : ∀ chapterKey ∈ chapterKeys, (blockOf course.blocks chapterKey).isSome)
    (hruns : ∀ chapterKey ∈ chapterKeys, ∀ sectionKey ∈ course.blocks.getChildren chapterKey,
      traversePostOrder sectionKey course.blocks.getChildren keys.possiblyScored fuel = some (.ok (last sectionKey)))
    (hvisd : ∀ sectionKey, ∀ key ∈ (last sectionKey).visited, course.InSection keys sectionKey key)
    (chapters : List (ChapterSummary κ)) (weightedScores : Dict κ (Score κ)) :
    chapterKeys.foldlM (addChapterSummary keys learner courseName
      (scorableClient keys learner course.blocks) gatedContent course.blocks fuel) (chapters, weightedScores) =
      pure (chapters ++ chapterKeys.filterMap (course.chapterOf keys learner gatedContent courseName last),
        ((chapterKeys.flatMap (course.openSections keys gatedContent)).flatMap fun sectionKey =>
          course.sectionEntries keys learner (last sectionKey).visited sectionKey).foldl
            (fun weightedScores entry => weightedScores.insert entry.1 entry.2) weightedScores) := by
  induction chapterKeys generalizing chapters weightedScores with
  | nil => rw [List.filterMap_nil, append_nil]; rfl
  | cons chapterKey chapterKeys ih =>
    have hrest := ih (forall_mem_cons.mp hchap).2 (forall_mem_cons.mp hruns).2
    obtain ⟨chapter, hblk⟩ := isSome_iff_exists.mp (hchap chapterKey mem_cons_self)
    have hchapt : course.chapterOf keys learner gatedContent courseName last chapterKey = some
        { course := courseName
          displayName := chapter.displayNameWithDefaultEscaped
          urlName := chapter.urlName
          sections := (course.openSections keys gatedContent chapterKey).filterMap
            (course.sectionOf keys learner last) } := by
      unfold chapterOf
      rw [hblk, map_some]
    rw [foldlM_cons]
    unfold addChapterSummary
    rw [foldlM_addSectionSummary keys learner (fun sectionKey hsect => course.collected _ _ hsect)
      (hruns chapterKey mem_cons_self) hvisd, pure_bind]
    dsimp only
    rw [hblk, filterMap_cons_some hchapt, flatMap_cons, flatMap_append, foldl_append, List.append_cons]
    dsimp only
    rw [pure_bind]
    exact hrest _ _

end Run

/-- What a summary holds, when the sections have been visited as `last` has it. -/
structure Summarises (courseName : String) (last : κ → PostOrder κ) (summary : ProgressSummary κ) : Prop where
  nodup : ∀ sectionKey, (last sectionKey).visited.Nodup
  visited : ∀ sectionKey key, key ∈ (last sectionKey).visited ↔ course.InSection keys sectionKey key
  chapters : summary.chapters = (course.blocks.getChildren course.blocks.rootBlockUsageKey).filterMap
    (course.chapterOf keys learner gatedContent courseName last)
  weightedScores : summary.weightedScores = ofList ((course.listedSections keys gatedContent).flatMap fun sectionKey =>
      course.sectionEntries keys learner (last sectionKey).visited sectionKey)
  locationsToChildren : summary.locationsToChildren = course.blocks.getChildren

theorem progressSummary_returns (course : ScoredCourse κ) (courseName : String) :
    ∃ bound summary last, (∀ fuel, bound ≤ fuel →
        progressSummary keys learner courseName gatedContent course.blocks fuel = some (.ok (some summary))) ∧
      course.Summarises keys learner gatedContent courseName last summary := by
  obtain ⟨bound, last, hlast⟩ := exists_visited keys course
  let sectionKeys := (course.blocks.getChildren course.blocks.rootBlockUsageKey).flatMap course.blocks.getChildren
  let summary : ProgressSummary κ :=
    { chapters := (course.blocks.getChildren course.blocks.rootBlockUsageKey).filterMap
        (course.chapterOf keys learner gatedContent courseName last)
      weightedScores := ofList ((course.listedSections keys gatedContent).flatMap fun sectionKey =>
        course.sectionEntries keys learner (last sectionKey).visited sectionKey)
      locationsToChildren := course.blocks.getChildren }
  refine ⟨sectionKeys.toFinset.sup bound, summary, last, fun fuel hfuel => ?_,
    ⟨fun sectionKey => (hlast sectionKey).2.1, fun sectionKey => (hlast sectionKey).2.2, rfl, rfl, rfl⟩⟩
  have hne : course.blocks.blockRelations.keys.isEmpty = false :=
    List.isEmpty_eq_false_iff.mpr (ne_nil_of_mem course.root_mem)
  unfold progressSummary
  rw [if_neg (by rw [hne]; decide), foldlM_addChapterSummary keys learner courseName
    (fun chapterKey hchapt => course.collected _ _ hchapt) (fun chapterKey hchapt sectionKey hsect => ?_)
    fun sectionKey key => ((hlast sectionKey).2.2 key).mp]
  · rfl
  · refine (hlast sectionKey).1 fuel (le_trans (Finset.le_sup (f := bound) ?_) hfuel)
    exact mem_toFinset.mpr (mem_flatMap.mpr ⟨chapterKey, hchapt, hsect⟩)

namespace Summarises

variable {gatedContent} {courseName : String} {last : κ → PostOrder κ} {summary : ProgressSummary κ} {keys learner}

section

variable (hsumm : course.Summarises keys learner gatedContent courseName last summary) {key : κ}
include hsumm

theorem mem_weightedScores : key ∈ summary.weightedScores ↔ course.Scored keys learner gatedContent key := by
  rw [hsumm.weightedScores, mem_ofList]
  constructor
  · intro hmem
    obtain ⟨entry, hent, rfl⟩ := mem_map.mp hmem
    obtain ⟨sectionKey, hsect, hin⟩ := mem_flatMap.mp hent
    obtain ⟨other, hoth, hfnd⟩ := mem_filterMap.mp hin
    obtain ⟨heq, hpts⟩ := points_of_entry keys learner hfnd
    rw [heq]
    exact ⟨by rw [hpts]; rfl, sectionKey, hsect, (hsumm.visited sectionKey other).mp hoth⟩
  · rintro ⟨hpts, sectionKey, hsect, hin⟩
    rw [← isSome_entryOf keys learner (((blockOf course.blocks sectionKey).map BlockData.graded).getD false)] at hpts
    obtain ⟨entry, hent⟩ := isSome_iff_exists.mp hpts
    refine mem_map.mpr ⟨entry, mem_flatMap.mpr ⟨sectionKey, hsect, ?_⟩, (points_of_entry keys learner hent).1⟩
    exact mem_filterMap.mpr ⟨key, (hsumm.visited sectionKey key).mpr hin, hent⟩

theorem points_of_lookup {score : Score κ} (hlook : summary.weightedScores.lookup key = some score) :
    course.points keys learner key = some (score.earned, score.possible) := by
  rw [hsumm.weightedScores] at hlook
  obtain ⟨sectionKey, -, hin⟩ := mem_flatMap.mp (mem_of_lookup_ofList hlook)
  obtain ⟨other, -, hfnd⟩ := mem_filterMap.mp hin
  obtain ⟨rfl, hpts⟩ := points_of_entry keys learner hfnd
  exact hpts

end

end Summarises

open Classical in
variable (course) in
/-- The children that the score of a block is made of: those of a block without a score of its own. -/
noncomputable def stoppedChildren (key : κ) : List κ :=
  if course.Scored keys learner gatedContent key then [] else course.blocks.getChildren key

open Classical in
variable (course) in
/-- What a block adds to the score of those above it. -/
noncomputable def ownPoints (key : κ) : ℚ × ℚ :=
  if course.Scored keys learner gatedContent key then (course.points keys learner key).getD 0 else 0

omit [DecidableEq κ] in
theorem foldlM_add {children : List κ} {score : κ → Option (ℚ × ℚ)} {total : κ → ℚ × ℚ}
    (hsco : ∀ child ∈ children, score child = some (total child)) (start : ℚ × ℚ) :
    children.foldlM (fun sum child => do
        let (childEarned, childPossible) ← score child
        return (sum.1 + childEarned, sum.2 + childPossible)) start =
      some (start + (children.map total).sum) := by
  induction children generalizing start with
  | nil => rw [map_nil, sum_nil, add_zero]; rfl
  | cons child children ih =>
    rw [foldlM_cons, hsco child mem_cons_self, map_cons, sum_cons, ← add_assoc]
    exact ih (forall_mem_cons.mp hsco).2 _

theorem Summarises.scoreForModule_accumulates {courseName : String} {last : κ → PostOrder κ}
    {summary : ProgressSummary κ} (hsumm : course.Summarises keys learner gatedContent courseName last summary) :
    ∃ (bound : κ → Nat) (total : κ → ℚ × ℚ), (∀ key fuel, bound key ≤ fuel →
        summary.scoreForModule fuel key = some (total key)) ∧
      ∀ key, Accumulates (course.stoppedChildren keys learner gatedContent)
        (course.ownPoints keys learner gatedContent) total key := by
  have hstep : ∀ {key : κ} {fuel : Nat} {total : κ → ℚ × ℚ}, summary.weightedScores.lookup key = none →
      (∀ child ∈ course.blocks.getChildren key, summary.scoreForModule fuel child = some (total child)) →
      summary.scoreForModule (fuel + 1) key = some (((course.blocks.getChildren key).map total).sum) := by
    intro key fuel total hlook hkids
    rw [ProgressSummary.scoreForModule, hlook, hsumm.locationsToChildren, ← zero_add (List.sum _)]
    exact foldlM_add hkids 0
  have hstop : ∀ {key : κ} {score : Score κ} (fuel : Nat), summary.weightedScores.lookup key = some score →
      summary.scoreForModule (fuel + 1) key = some (score.earned, score.possible) := by
    intro key score fuel hlook
    rw [ProgressSummary.scoreForModule, hlook]
  have hret : ∀ key, ∃ bound total, ∀ fuel, bound ≤ fuel → summary.scoreForModule fuel key = some total := by
    intro key
    induction key using (course.acyclic.wellFounded_swap (finite_parents course.blocks)).induction with
    | _ key ih =>
      choose! bound total htotal using ih
      cases hlook : summary.weightedScores.lookup key with
      | some score =>
        refine ⟨1, (score.earned, score.possible), fun fuel hfuel => ?_⟩
        obtain ⟨fuel, rfl⟩ := Nat.exists_eq_add_of_le' hfuel
        exact hstop fuel hlook
      | none =>
        refine ⟨(course.blocks.getChildren key).toFinset.sup bound + 1,
          ((course.blocks.getChildren key).map total).sum,
          fun fuel hfuel => ?_⟩
        obtain ⟨fuel, rfl⟩ := Nat.exists_eq_add_of_le' (le_trans (Nat.le_add_left 1 _) hfuel)
        refine hstep hlook fun child hch => htotal child hch fuel ?_
        exact (Finset.le_sup (f := bound) (mem_toFinset.mpr hch)).trans (Nat.le_of_succ_le_succ hfuel)
  choose bound total htotal using hret
  refine ⟨bound, total, htotal, fun key => ?_⟩
  let fuel := max (bound key) ((course.blocks.getChildren key).toFinset.sup bound)
  have htot := htotal key (fuel + 1) ((le_max_left _ _).trans (le_succ _))
  unfold Accumulates ownPoints stoppedChildren
  cases hlook : summary.weightedScores.lookup key with
  | some score =>
    have hscd := hsumm.mem_weightedScores.mp (mem_of_lookup hlook)
    rw [if_pos hscd, if_pos hscd, map_nil, sum_nil, add_zero, hsumm.points_of_lookup hlook]
    exact some.inj (htot.symm.trans (hstop fuel hlook))
  | none =>
    have hscd : ¬ course.Scored keys learner gatedContent key := fun hscd =>
      lookup_eq_none.mp hlook (hsumm.mem_weightedScores.mpr hscd)
    rw [if_neg hscd, if_neg hscd, zero_add]
    refine some.inj (htot.symm.trans (hstep hlook fun child hch => htotal child fuel ?_))
    exact (Finset.le_sup (f := bound) (mem_toFinset.mpr hch)).trans (le_max_right _ _)

/-! ## Totals and scores -/

theorem sum_entries (graded : Bool) (sectionName : String) (visited : List κ) :
    let scores := (visited.filterMap (course.entryOf keys learner graded)).map Prod.snd
    ((aggregateScores scores sectionName).1.earned, (aggregateScores scores sectionName).1.possible) =
      (visited.map fun key => (course.points keys learner key).getD 0).sum := by
  induction visited with
  | nil => rfl
  | cons key visited ih =>
    rw [map_cons, sum_cons, ← ih]
    cases hent : course.entryOf keys learner graded key with
    | none =>
      have hpts : course.points keys learner key = none := by
        rw [← Option.not_isSome_iff_eq_none, ← isSome_entryOf keys learner graded, hent]
        exact false_ne_true
      rw [filterMap_cons_none hent, hpts, getD_none, zero_add]
    | some entry =>
      rw [filterMap_cons_some hent, (points_of_entry keys learner hent).2]
      rfl

open Classical in
variable (course) in
/-- The blocks that have scores in the summary. -/
noncomputable def scoredKeys : Finset κ :=
  course.blocks.blockDataMap.keys.toFinset.filter (course.Scored keys learner gatedContent)

variable (course) in
/-- How often the score of a section counts a block: the number of the routes to it through blocks without scores. -/
noncomputable def timesCounted (sectionKey key : κ) : Nat :=
  {route | follow (course.stoppedChildren keys learner gatedContent) sectionKey route = some key}.ncard

open Classical in
variable (course) in
/-- The points that the score of a section counts too often, less those that it leaves out. -/
noncomputable def surplus (sectionKey : κ) : ℚ × ℚ :=
  ∑ key ∈ course.scoredKeys keys learner gatedContent,
    ((course.timesCounted keys learner gatedContent sectionKey key : ℚ) -
      if course.InSection keys sectionKey key then 1 else 0) • (course.points keys learner key).getD 0

open Classical in
theorem mem_scoredKeys :
    key ∈ course.scoredKeys keys learner gatedContent ↔ course.Scored keys learner gatedContent key := by
  unfold scoredKeys
  rw [Finset.mem_filter, and_iff_right_iff_imp]
  intro hscd
  obtain ⟨pair, hpair⟩ := isSome_iff_exists.mp hscd.1
  obtain ⟨block, hblk, -⟩ := bind_eq_some_iff.mp hpair
  exact mem_toFinset.mpr (mem_of_lookup hblk)

theorem total_eq_timesCounted {total : κ → ℚ × ℚ} (htotal : ∀ key, Accumulates
      (course.stoppedChildren keys learner gatedContent) (course.ownPoints keys learner gatedContent) total key)
    (key : κ) :
    total key = ∑ other ∈ course.scoredKeys keys learner gatedContent,
      (course.timesCounted keys learner gatedContent key other : ℚ) • (course.points keys learner other).getD 0 := by
  have hedge : ∀ parent child, child ∈ course.stoppedChildren keys learner gatedContent parent →
      course.blocks.Edge parent child := by
    intro parent child hch
    unfold stoppedChildren at hch
    split at hch
    · cases hch
    · exact hch
  have hwf := (course.acyclic.mono hedge).wellFounded_swap
    ((finite_parents course.blocks).subset fun parent ⟨child, hch⟩ => ⟨child, hedge _ _ hch⟩)
  obtain ⟨routes, hrout, hsum⟩ := exists_allRoutes hwf key
  have hown : ∀ other, course.ownPoints keys learner gatedContent other ≠ 0 →
      other ∈ course.scoredKeys keys learner gatedContent := by
    intro other hne
    refine (mem_scoredKeys keys learner gatedContent).mpr ?_
    by_contra hnot
    exact hne (if_neg hnot)
  rw [hsum _ total fun other _ => htotal other, sum_routes_eq hrout _ _ hown]
  refine Finset.sum_congr rfl fun other hoth => ?_
  rw [ownPoints, if_pos ((mem_scoredKeys keys learner gatedContent).mp hoth), Nat.cast_smul_eq_nsmul ℚ]
  rfl

open Classical in
theorem sum_visited (hsect : sectionKey ∈ course.listedSections keys gatedContent)
    {visited : List κ} (hnod : visited.Nodup)
    (hvisd : ∀ key, key ∈ visited ↔ course.InSection keys sectionKey key) :
    (visited.map fun key => (course.points keys learner key).getD 0).sum =
      ∑ key ∈ course.scoredKeys keys learner gatedContent,
        (if course.InSection keys sectionKey key then (1 : ℚ) else 0) • (course.points keys learner key).getD 0 := by
  have hscd : ∀ key ∈ visited.toFinset, key ∉ course.scoredKeys keys learner gatedContent →
      (course.points keys learner key).getD 0 = 0 := by
    intro key hkey hnot
    have hnone : course.points keys learner key = none := by
      rw [← Option.not_isSome_iff_eq_none]
      exact fun hsome => hnot ((mem_scoredKeys keys learner gatedContent).mpr
        ⟨hsome, sectionKey, hsect, (hvisd key).mp (mem_toFinset.mp hkey)⟩)
    rw [hnone, getD_none]
  rw [← List.sum_toFinset _ hnod]
  calc ∑ key ∈ visited.toFinset, (course.points keys learner key).getD 0
      = ∑ key ∈ visited.toFinset ∩ course.scoredKeys keys learner gatedContent,
        (course.points keys learner key).getD 0 :=
        (Finset.sum_subset Finset.inter_subset_left fun key hkey hnot =>
          hscd key hkey fun hmem => hnot (Finset.mem_inter.mpr ⟨hkey, hmem⟩)).symm
    _ = ∑ key ∈ (course.scoredKeys keys learner gatedContent).filter fun key => course.InSection keys sectionKey key,
          (course.points keys learner key).getD 0 := by
        refine Finset.sum_congr (Finset.ext fun key => ?_) fun _ _ => rfl
        rw [Finset.mem_inter, Finset.mem_filter, mem_toFinset, hvisd, and_comm]
    _ = _ := by
        rw [Finset.sum_filter]
        refine Finset.sum_congr rfl fun key _ => ?_
        split
        · rw [one_smul]
        · rw [zero_smul]

omit [DecidableEq κ] in
theorem forall₂_filterMap {α β : Type} {R : α → β → Prop} {f : α → Option β} {values : List α}
    (hvals : ∀ value ∈ values, ∃ found, f value = some found ∧ R value found) :
    List.Forall₂ R values (values.filterMap f) := by
  induction values with
  | nil => exact List.Forall₂.nil
  | cons value values ih =>
    obtain ⟨found, hfnd, hrel⟩ := hvals value mem_cons_self
    rw [filterMap_cons_some hfnd]
    exact .cons hrel (ih (forall_mem_cons.mp hvals).2)

/-- Nothing is counted too often or left out if one route leads to each scored block of the section, and none to
another. -/
theorem surplus_eq_zero
    (hin : ∀ key, course.Scored keys learner gatedContent key → course.InSection keys sectionKey key →
      ∃! route, follow (course.stoppedChildren keys learner gatedContent) sectionKey route = some key)
    (hout : ∀ key, course.Scored keys learner gatedContent key → ¬ course.InSection keys sectionKey key →
      ∀ route, follow (course.stoppedChildren keys learner gatedContent) sectionKey route ≠ some key) :
    course.surplus keys learner gatedContent sectionKey = 0 := by
  refine Finset.sum_eq_zero fun key hkey => ?_
  have hscd := (mem_scoredKeys keys learner gatedContent).mp hkey
  unfold timesCounted
  by_cases hsect : course.InSection keys sectionKey key
  · obtain ⟨route, hroute, honly⟩ := hin key hscd hsect
    have hset : {route | follow (course.stoppedChildren keys learner gatedContent) sectionKey route = some key} =
        {route} := Set.eq_singleton_iff_unique_mem.mpr ⟨hroute, honly⟩
    rw [hset, Set.ncard_singleton, if_pos hsect, Nat.cast_one, sub_self, zero_smul]
  · have hset : {route | follow (course.stoppedChildren keys learner gatedContent) sectionKey route = some key} = ∅ :=
      Set.eq_empty_of_forall_notMem (hout key hscd hsect)
    rw [hset, Set.ncard_empty, if_neg hsect, Nat.cast_zero, sub_self, zero_smul]

end ScoredCourse

def sharedProblem : CourseBlocks String where
  rootBlockUsageKey := "course"
  blockRelations := ofList [("course", ⟨[], ["chapter"]⟩), ("chapter", ⟨["course"], ["section"]⟩),
      ("section", ⟨["chapter"], ["unit1", "unit2"]⟩), ("unit1", ⟨["section"], ["problem"]⟩),
      ("unit2", ⟨["section"], ["problem"]⟩), ("problem", ⟨["unit1", "unit2"], []⟩)]
  blockDataMap := ofList [("chapter", { location := "chapter", urlName := "chapter" }),
      ("section", { location := "section", urlName := "section" }),
      ("unit1", { location := "unit1", urlName := "unit1" }), ("unit2", { location := "unit2", urlName := "unit2" }),
      ("problem", { location := "problem", urlName := "problem", hasScore := true, maxScore := some 1 })]

def sharedProblemRank : String → Nat
  | "course" => 0
  | "chapter" => 1
  | "section" => 2
  | "problem" => 4
  | _ => 3

theorem sharedProblem_children : ∀ parent ∈ sharedProblem.blockRelations.keys,
    ∀ child ∈ sharedProblem.getChildren parent,
      sharedProblemRank parent < sharedProblemRank child ∧ (blockOf sharedProblem child).isSome := by
  decide +kernel

def sharedProblemCourse : ScoredCourse String where
  blocks := sharedProblem
  acyclic := Acyclic.of_rank sharedProblemRank fun parent child hedge =>
    (sharedProblem_children parent (mem_of_linksOf hedge) child hedge).1
  root_mem := by decide +kernel
  collected parent child hchild := (sharedProblem_children parent (mem_of_linksOf hchild) child hchild).2
  location_eq key block hblock := by
    have hentries : ∀ entry ∈ sharedProblem.blockDataMap.entries, entry.2.location = entry.1 := by decide +kernel
    exact hentries _ (AList.mem_lookup_iff.mp hblock)

def solver : Learner String where
  studentModules := ofList [("problem", ⟨some 1, some 1⟩)]

def sectionTotals (summary : ProgressSummary String) : List (String × ℚ × ℚ) :=
  summary.chapters.flatMap fun chapter => chapter.sections.map fun info =>
    (info.urlName, info.sectionTotal.earned, info.sectionTotal.possible)

end EdxPlatform.Grades

import Mathlib.Algebra.Order.Ring.Rat
import Mathlib.Data.Finset.Basic
import EdxPlatform.Lib.ShortNames

/-!
# Gating milestones

The relations between the subsections of a course and milestones, as the milestones service keeps
them, and the operations of the gating API on them.
-/

namespace EdxPlatform.Gating

/-- `GATING_NAMESPACE_QUALIFIER` -/
def gatingNamespaceQualifier : List Char := ".gating".toList

/-- A minimum score, as the author or a client has sent it. -/
inductive MinScore where
  | none
  | number (value : Int)
  | text (value : List Char)
  deriving DecidableEq

/-- `int(min_score)`, which raises if there is no result; `int` is that of texts. -/
def MinScore.toInt (int : List Char → Option Int) : MinScore → Option Int
  | none => Option.none
  | number value => value
  | text value => int value

def MinScore.truthy : MinScore → Bool
  | none => false
  | number value => value != 0
  | text value => value != []

structure Milestone where
  id : Nat
  milestoneNamespace : List Char
  deriving DecidableEq

inductive Relationship where
  | requires
  | fulfills
  deriving DecidableEq

/-- A `CourseContentMilestone`; the requirements have at most a minimum score. -/
structure ContentMilestone where
  contentId : List Char
  relationship : Relationship
  milestone : Milestone
  requirements : Option MinScore := none
  deriving DecidableEq

/-- What the milestones service knows: the milestones, those of the contents of the course, and the
milestones that users have. -/
structure MilestoneStore where
  milestones : List Milestone := []
  contentMilestones : List ContentMilestone := []
  userMilestones : Finset (Nat × Nat) := ∅

inductive GatingError where
  | gatingValidationError
  | invalidMilestoneError
  deriving DecidableEq

namespace MilestoneStore

section

variable (store : MilestoneStore)

/-- `find_gating_milestones`, where milestones that the user has are left out. -/
def findGatingMilestones (contentKey : Option (List Char)) (relationship : Relationship)
    (user : Option Nat := none) : List ContentMilestone :=
  store.contentMilestones.filter fun found =>
    contentKey.all (· == found.contentId) && found.relationship == relationship &&
      user.all (fun user => (user, found.milestone.id) ∉ store.userMilestones) &&
      decide (gatingNamespaceQualifier <:+: found.milestone.milestoneNamespace)

def getGatingMilestone (contentKey : List Char) (relationship : Relationship) : Option ContentMilestone :=
  (store.findGatingMilestones contentKey relationship).head?

/-- `get_gated_content` -/
def getGatedContent (enableSubsectionGating : Bool) (user : Nat) : List (List Char) :=
  if enableSubsectionGating then
    (store.findGatingMilestones none .requires (some user)).map ContentMilestone.contentId
  else []

/-! ## Evaluation -/

section

variable (int : List Char → Option Int)

/-- The minimum score of a gated subsection; 100 if there is none, or none that is a number. -/
def minScore (gated : ContentMilestone) : Int := (gated.requirements.bind (MinScore.toInt int)).getD 100

/-- One round of the loop of `evaluate_prerequisite`. -/
def evaluateGated (score : ℚ) (user : Nat) (prereq : Milestone)
    (store : MilestoneStore) (gated : ContentMilestone) : MilestoneStore :=
  if minScore int gated ≤ score then
    { store with userMilestones := insert (user, prereq.id) store.userMilestones }
  else { store with userMilestones := store.userMilestones.erase (user, prereq.id) }

def gatedBy (prereq : Milestone) : List ContentMilestone :=
  (store.findGatingMilestones none .requires).filter fun gated => gated.milestone.id == prereq.id

/-- `evaluate_prerequisite`, where `sequential` is the subsection of the block, `score` its score in percent. -/
def evaluatePrerequisite (store : MilestoneStore) (enableSubsectionGating : Bool)
    (sequential : Option (List Char)) (score : ℚ) (user : Nat) : MilestoneStore :=
  if enableSubsectionGating then
    match sequential.bind (store.getGatingMilestone · .fulfills) with
    | none => store
    | some prereq => (store.gatedBy prereq.milestone).foldl (evaluateGated int score user prereq.milestone) store
  else store

end

def gatedSubsections (sequential : List Char) : List ContentMilestone :=
  ((store.getGatingMilestone sequential .fulfills).map fun prereq => store.gatedBy prereq.milestone).getD []

/-- A subsection is among the gated content because of its relation to a milestone. -/
def Locked (user : Nat) (gated : ContentMilestone) : Prop :=
  ∃ found ∈ store.findGatingMilestones none .requires (some user),
    found.contentId = gated.contentId ∧ found.milestone.id = gated.milestone.id

end

/-- An evaluation unlocks the gated subsections whose own minimum score is reached, and no others. -/
def UnlocksReached (int : List Char → Option Int) (store : MilestoneStore) (sequential : List Char) (score : ℚ)
    (user : Nat) : Prop :=
  ∀ gated ∈ store.gatedSubsections sequential,
    ¬ (store.evaluatePrerequisite int true sequential score user).Locked user gated ↔ minScore int gated ≤ score

variable {int : List Char → Option Int} {score : ℚ} {user : Nat} {prereq : Milestone}

theorem evaluated (store : MilestoneStore) (gateds : List ContentMilestone) :
    (gateds.foldl (evaluateGated int score user prereq) store).contentMilestones = store.contentMilestones ∧
      ∀ last ∈ gateds.getLast?, (user, prereq.id) ∈
        (gateds.foldl (evaluateGated int score user prereq) store).userMilestones ↔ minScore int last ≤ score := by
  induction gateds using reverseRecOn with
  | nil => exact ⟨rfl, fun _ hlast => nomatch hlast⟩
  | append_singleton gateds last ih =>
    rw [foldl_append, foldl_cons, foldl_nil, getLast?_concat]
    unfold evaluateGated
    split
    · next hreac => exact ⟨ih.1, fun _ heq => by simpa [← some.inj heq] using hreac⟩
    · next hmis => exact ⟨ih.1, fun _ heq => by simpa [← some.inj heq] using hmis⟩

/-- All gated subsections share one milestone, so each is unlocked by its own minimum score exactly if the score
reaches all of their minimum scores or none, as it does that of the last one. -/
theorem unlocksReached_iff (store : MilestoneStore) (sequential : List Char) :
    UnlocksReached int store sequential score user ↔
      ∀ last ∈ (store.gatedSubsections sequential).getLast?, ∀ gated ∈ store.gatedSubsections sequential,
        minScore int gated ≤ score ↔ minScore int last ≤ score := by
  unfold UnlocksReached evaluatePrerequisite gatedSubsections
  simp only [if_true, bind_some]
  cases store.getGatingMilestone sequential .fulfills with
  | none => simp
  | some prereq =>
    obtain ⟨hsame, hlast⟩ := @evaluated int score user prereq.milestone store (store.gatedBy prereq.milestone)
    set after := (store.gatedBy prereq.milestone).foldl (evaluateGated int score user prereq.milestone) store
    have hlocked : ∀ gated ∈ store.gatedBy prereq.milestone,
        ¬ after.Locked user gated ↔ (user, prereq.milestone.id) ∈ after.userMilestones := by
      intro gated hgated
      have hid : gated.milestone.id = prereq.milestone.id := by simpa using (mem_filter.mp hgated).2
      unfold Locked findGatingMilestones
      rw [hsame]
      constructor
      · intro hfree
        by_contra hnot
        have hfound := mem_filter.mp (mem_filter.mp hgated).1
        refine hfree ⟨gated, mem_filter.mpr ⟨hfound.1, ?_⟩, rfl, rfl⟩
        simpa [hid, hnot] using hfound.2
      · rintro hhas ⟨found, hfound, -, hsameId⟩
        have huser := (mem_filter.mp hfound).2
        simp [hsameId, hid, hhas] at huser
    change (∀ gated ∈ store.gatedBy prereq.milestone, ¬ after.Locked user gated ↔ minScore int gated ≤ score) ↔
      ∀ last ∈ (store.gatedBy prereq.milestone).getLast?, ∀ gated ∈ store.gatedBy prereq.milestone,
        minScore int gated ≤ score ↔ minScore int last ≤ score
    constructor
    · intro hunlocks last hmem gated hgated
      rw [← hunlocks gated hgated, hlocked gated hgated, hlast last hmem]
    · intro hagree gated hgated
      obtain ⟨last, hmem⟩ := List.getLast?_isSome.mpr (ne_nil_of_mem hgated) |> isSome_iff_exists.mp
      rw [hlocked gated hgated, hlast last hmem, hagree last hmem gated hgated]

def behindQuiz (contentId : List Char) (minScore : Int) : ContentMilestone :=
  ⟨contentId, .requires, ⟨1, "quiz.gating".toList⟩, some (.number minScore)⟩

/-- Two subsections that ask for half and for four fifths of the points of a quiz. -/
def quizCourse : MilestoneStore where
  contentMilestones := [⟨"quiz".toList, .fulfills, ⟨1, "quiz.gating".toList⟩, none⟩,
    behindQuiz "lab".toList 50, behindQuiz "exam".toList 80]

theorem quizCourse_locks_lab : ¬ UnlocksReached (fun _ => none) quizCourse "quiz".toList 60 1 := by
  intro hunlocks
  have hfree := (hunlocks (behindQuiz "lab".toList 50) (by decide)).mpr (by decide)
  exact hfree ⟨behindQuiz "lab".toList 50, by decide, rfl, rfl⟩

end MilestoneStore

end EdxPlatform.Gating

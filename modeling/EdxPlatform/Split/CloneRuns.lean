import EdxPlatform.Lib.Runs
import EdxPlatform.Split.NewCourses

/-!
# Runs on clones

The entry of a course stays throughout a run on other courses exactly when none of the events
changes the dictionaries of its active bulk operation.
-/

namespace EdxPlatform.Split.CourseStore

variable {store next : CourseStore} {course : CourseKey} {branch : Branch}

theorem deleteCourse_wrote (hval : store.Valid) : Leaves course store (after (deleteCourse course) store) := by
  have herase : Leaves course store _ := eraseRecord_leaves hval
  refine herase.wrote (stored_leaves herase.valid (fun other hne => ?_) fun entry hent => ?_)
  · exact (lookup_erase _ _ _).trans (if_neg hne)
  · exact nomatch (((lookup_erase _ _ _).trans (if_pos rfl)).symm.trans hent)

theorem step_wrote (hval : store.Valid) (event : CourseEvent) :
    Wrote event.course (fun ref => store.moves event ref = true) (store.saves event) store (store.step event) := by
  have hstep : store.step event = after event.run store := by
    unfold step after
    cases event.run store <;> rfl
  rw [hstep]
  cases event with
  | beginBulk course => exact (beginBulk_leaves hval).congr (fun _ _ => by simp [moves]) fun _ _ => rfl
  | endBulk course => exact (endBulk_leaves hval).congr (fun _ _ => by simp [moves]) fun _ _ => rfl
  | createCourse course masterBranch fields saved =>
    exact (createCourselike_wrote course masterBranch hval fields none none (by simp) (by simp) saved).congr (fun _ _ => by simp [moves]) fun _ _ => by simp [saves]
  | cloneCourse source dest masterBranch fields saved => exact cloneCourse_wrote hval source fields saved
  | editBranch course branch saved => exact editBranch_wrote hval saved
  | copyBranch course sourceBranch branch => exact copyBranch_wrote hval sourceBranch
  | forcePublishCourse course => exact forcePublishCourse_wrote hval
  | deleteCourse course => exact (deleteCourse_wrote hval).congr (fun _ _ => by simp [moves]) fun _ _ => rfl

theorem valid_empty : Valid {} where
  live := fun _ _ _ h => nomatch h
  initial := fun _ _ h => nomatch h
  heads := fun ref branch id h => by
    unfold versionsAt Heap.read at h
    rw [List.getElem?_nil] at h
    cases h
  stored := fun _ _ h => nomatch h

theorem Reachable.valid (hrble : store.Reachable) : store.Valid := by
  obtain ⟨events, rfl⟩ := hrble
  induction events using reverseRecOn with
  | nil => exact valid_empty
  | append_singleton events event ih =>
    rw [foldl_append]
    exact (step_wrote ih event).valid

/-! ## The entry of the source -/

variable {source : CourseKey}

theorem indexKept_step (hval : store.Valid) {event : CourseEvent} (hoth : source ≠ event.course) :
    IndexKept source store (store.step event) ↔ store.Spares source event := by
  have hwrote := step_wrote hval event
  have hrec := hwrote.records source hoth
  unfold IndexKept
  cases hlive : store.liveIndex source with
  | none =>
    have hsame : (store.step event).courseIndex source = store.courseIndex source := by
      unfold courseIndex
      rw [hrec, hwrote.stored source hoth]
      cases hfnd : store.records.lookup source with
      | none => rfl
      | some record => simp [(liveIndex_of_record hfnd).symm.trans hlive]
    refine iff_of_true ?_ fun _ h => nomatch hlive.symm.trans h
    rw [hsame]
    cases store.courseIndex source with
    | none => exact .none
    | some entry => exact .some ⟨fun _ => rfl, fun _ => rfl⟩
  | some own =>
    have hlat : (store.step event).liveIndex source = some own := by
      unfold liveIndex
      rw [hrec]
      exact hlive
    obtain ⟨hver, htar⟩ := hval.holds_of_live hlive
    rw [courseIndex_of_live hlive, courseIndex_of_live hlat]
    have hheads := hwrote.versions own.versions hver
    have hflds := hwrote.targets own.searchTargets htar
    have hspar : store.Spares source event ↔ store.moves event own.versions = false ∧
        Dict.same ((store.saves event own.searchTargets).foldl saveTargets
          (store.searchTargetsAt own.searchTargets)) (store.searchTargetsAt own.searchTargets) := by
      unfold Spares
      rw [hlive]
      exact ⟨fun h => h own rfl, by rintro h _ ⟨⟩; exact h⟩
    rw [hspar, Option.rel_some_some, Dict.same_iff, ← hflds, ← not_eq_true, ← hheads]
    exact Iff.rfl

theorem IndexKept.refl (source : CourseKey) (store : CourseStore) : IndexKept source store store := by
  unfold IndexKept
  cases store.courseIndex source with
  | none => exact .none
  | some entry => exact .some ⟨fun _ => rfl, fun _ => rfl⟩

theorem IndexKept.symm (hkept : IndexKept source store next) : IndexKept source next store := by
  unfold IndexKept at *
  generalize store.courseIndex source = first at *
  generalize next.courseIndex source = last at *
  cases hkept with
  | none => exact .none
  | some h => exact .some ⟨fun branch => (h.1 branch).symm, fun field => (h.2 field).symm⟩

theorem IndexKept.trans {middle : CourseStore}
    (hfst : IndexKept source store middle) (hsec : IndexKept source middle next) :
    IndexKept source store next := by
  unfold IndexKept at *
  generalize store.courseIndex source = first at *
  generalize next.courseIndex source = last at *
  generalize middle.courseIndex source = between at *
  cases hfst with
  | none => exact hsec
  | some h =>
    cases hsec with
    | some h' =>
      exact .some ⟨fun branch => (h'.1 branch).trans (h.1 branch), fun field => (h'.2 field).trans (h.2 field)⟩

/-- An event on another course than `source`. -/
abbrev OtherEvent (source : CourseKey) := {event : CourseEvent // source ≠ event.course}

def stepOther (source : CourseKey) (store : CourseStore) (event : OtherEvent source) : CourseStore :=
  store.step event.1

def SparesOther (source : CourseKey) (store : CourseStore) (event : OtherEvent source) : Prop :=
  store.Spares source event.1

instance (source : CourseKey) (store : CourseStore) (event : OtherEvent source) :
    Decidable (store.SparesOther source event) := by
  unfold SparesOther
  infer_instance

/-- In a run on other courses, clones of `source` and their edits among them, the entry of `source`
stays throughout exactly when each event spares it. -/
theorem always_indexKept (hreachable : store.Reachable) (source : CourseKey) (events : List (OtherEvent source)) :
    Always (stepOther source) (IndexKept source store) store events ↔
      Each (stepOther source) (SparesOther source) store events := by
  refine always_iff_each_of_invariant (I := Valid) (fun state event hvalid =>
    (step_wrote hvalid event.1).valid) (fun state event hvalid hkept => ?_) hreachable.valid
    (IndexKept.refl source store) events
  refine Iff.trans ?_ (indexKept_step hvalid event.2)
  exact ⟨fun h => hkept.symm.trans h, fun h => hkept.trans h⟩

theorem IndexKept.head_eq (hkept : IndexKept source store next)
    (branch : Branch) : next.head source branch = store.head source branch := by
  unfold IndexKept at hkept
  unfold head
  generalize store.courseIndex source = first at *
  generalize next.courseIndex source = last at *
  cases hkept with
  | none => rfl
  | some h => exact h.1 branch

def rerunSource : CourseStore :=
  [.createCourse "source" "draft-branch" {} none, .copyBranch "source" "draft-branch" "published-branch",
    .beginBulk "source"].foldl step {}

def rerunEvents : List (OtherEvent "source") :=
  [⟨.beginBulk "rerun", by decide⟩, ⟨.cloneCourse "source" "rerun" "draft-branch" {} none, by decide⟩,
    ⟨.editBranch "rerun" "draft-branch" (some {}), by decide⟩,
    ⟨.copyBranch "rerun" "draft-branch" "published-branch", by decide⟩,
    ⟨.endBulk "rerun", by decide⟩]

theorem rerunSource_indexKept : Always (stepOther "source") (IndexKept "source" rerunSource) rerunSource rerunEvents :=
  (always_indexKept ⟨_, rfl⟩ "source" rerunEvents).mpr (by decide)

/-- A clone with another display name moves the draft branch of its source. -/
theorem rerunSource_moved : rerunSource.Reachable ∧
      ¬ IndexKept "source" rerunSource (rerunSource.step (.cloneCourse "source" "rerun" "draft-branch"
        { settings := Dict.ofList [("display_name", "Rerun")] } none)) :=
  ⟨⟨_, rfl⟩, fun hkept => absurd (hkept.head_eq "draft-branch") (by decide)⟩

end EdxPlatform.Split.CourseStore

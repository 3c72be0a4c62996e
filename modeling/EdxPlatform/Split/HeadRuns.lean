import EdxPlatform.Split.EditRules

/-!
# Runs on the head of a branch

A lookup of the head returns, and an edit of the branch returns if the edit of the
head's structure does.  What the edit made is then the head.
-/

namespace EdxPlatform.Split

open SplitBulkWriteRecord

/-- The locator stands for the head of a branch of the course of the bulk operation. -/
structure Store.StandsFor (store : Store) (locator : CourseLocator)
    (envelope : ObjectId × Structure) : Prop where
  course : locator.course = store.record.courseKey
  found : store.envelope locator = some envelope
  version : ∀ versionGuid, locator.versionGuid = some versionGuid → versionGuid = envelope.1

variable {store next : Store} {locator : CourseLocator} {envelope : ObjectId × Structure}

theorem Store.StandsFor.head (hstd : store.StandsFor locator envelope) :
    store.record.head locator.branch = some envelope.1 :=
  (Store.head_of_envelope hstd.found hstd.course).1

theorem Store.StandsFor.loads (hstd : store.StandsFor locator envelope)
    (hlds : Loads store next) : next.StandsFor locator envelope where
  course := by rw [hlds.courseKey, hstd.course]
  found := by rw [hlds.envelope, hstd.found]
  version := hstd.version

theorem getStructure_run {id : ObjectId} {struct : Structure} (hstr : store.struct id = some struct) :
    ∃ next, getStructure store.record.courseKey id store = .ok struct next ∧ Loads store next ∧
      next.record.structures.lookup id = some struct := by
  unfold getStructure
  rw [if_pos rfl]
  unfold Store.struct at hstr
  cases hrec : store.record.structures.lookup id with
  | some found =>
    rw [hrec, some_or] at hstr
    obtain rfl := some.inj hstr
    exact ⟨store, rfl, .inl rfl, hrec⟩
  | none =>
    rw [hrec, none_or] at hstr
    rw [hstr]
    exact ⟨_, rfl, .inr ⟨id, struct, hrec, hstr, rfl⟩, lookup_insert_self id struct _⟩

theorem lookupHead_run (hstd : store.StandsFor locator envelope) :
    lookupHead locator store = .ok envelope.1 store := by
  have hhead := hstd.head
  unfold head at hhead
  unfold lookupHead
  rw [run_bind]
  simp only [getCourseIndex, if_pos hstd.course]
  rw [hhead]
  have hsame : (locator.versionGuid.any fun versionGuid => decide (versionGuid ≠ envelope.1)) =
      false := by
    cases hver : locator.versionGuid with
    | none => rfl
    | some versionGuid => simp [hstd.version versionGuid hver]
  change (raiseIf _ _ >>= _ : StoreM ObjectId) store = _
  rw [hsame]
  rfl

theorem lookupCourse_run (hstd : store.StandsFor locator envelope) :
    ∃ next, lookupCourse locator true store = .ok envelope next ∧ Loads store next ∧
      next.record.structures.lookup envelope.1 = some envelope.2 := by
  obtain ⟨next, hrun, hlds, hfnd⟩ := getStructure_run (Store.head_of_envelope hstd.found hstd.course).2
  refine ⟨next, ?_, hlds, hfnd⟩
  unfold lookupCourse lookupVersion
  rw [run_bind]
  simp only [lookupHead_run hstd]
  rw [run_bind, hstd.course, hrun]
  rfl

/-- The locator stands for the head of a branch of any course. -/
structure Store.Finds (store : Store) (locator : CourseLocator) (envelope : ObjectId × Structure) :
    Prop where
  found : store.envelope locator = some envelope
  version : ∀ versionGuid, locator.versionGuid = some versionGuid → versionGuid = envelope.1

theorem Store.StandsFor.finds (hstd : store.StandsFor locator envelope) : store.Finds locator envelope :=
  ⟨hstd.found, hstd.version⟩

theorem lookupCourse_finds (hfinds : store.Finds locator envelope) :
    ∃ next, lookupCourse locator true store = .ok envelope next ∧ Loads store next := by
  by_cases hcrs : locator.course = store.record.courseKey
  · obtain ⟨next, hrun, hlds, -⟩ := lookupCourse_run ⟨hcrs, hfinds.found, hfinds.version⟩
    exact ⟨next, hrun, hlds⟩
  · have henv := hfinds.found
    unfold Store.envelope at henv
    rw [if_neg hcrs] at henv
    obtain ⟨id, hhead, henv⟩ := bind_eq_some_iff.mp henv
    obtain ⟨struct, hstr, rfl⟩ := map_eq_some_iff.mp henv
    have hsame : (locator.versionGuid.any fun versionGuid => decide (versionGuid ≠ id)) = false := by
      cases hver : locator.versionGuid with
      | none => rfl
      | some versionGuid => simp [hfinds.version versionGuid hver]
    have hrun : lookupHead locator store = .ok id store := by
      unfold lookupHead
      rw [run_bind]
      simp only [getCourseIndex, if_neg hcrs]
      unfold Database.headOf at hhead
      rw [hhead]
      change (raiseIf _ _ >>= _ : StoreM ObjectId) store = _
      rw [hsame]
      rfl
    refine ⟨store, ?_, .inl rfl⟩
    unfold lookupCourse lookupVersion
    rw [run_bind]
    simp only [hrun]
    rw [run_bind]
    simp only [getStructure, if_neg hcrs, hstr]
    rfl

theorem checkIndexValid_run (hstd : store.StandsFor locator envelope) :
    checkIndexValid locator store = .ok () store := by
  have hhead := hstd.head
  unfold head at hhead
  obtain ⟨index, hidx, hver⟩ := bind_eq_some_iff.mp hhead
  unfold checkIndexValid
  rw [run_bind]
  simp only [getCourseIndex, if_pos hstd.course]
  rw [hidx]
  cases hguid : locator.versionGuid with
  | none => rfl
  | some versionGuid =>
    change (orRaise (index.versions.lookup locator.branch) _ >>= _ : StoreM Unit) store = _
    rw [hver]
    change raiseIf (decide (envelope.1 ≠ versionGuid)) _ store = _
    rw [hstd.version versionGuid hguid]
    simp [raiseIf]
    rfl

variable {edited : Structure}

theorem BranchEdited.envelope_eq {branch : Branch} {id : ObjectId}
    (hed : BranchEdited branch id edited store next) (versionGuid : Option ObjectId) :
    next.envelope { course := store.record.courseKey, branch := branch, versionGuid := versionGuid } =
      some (id, edited) := by
  have hrepl := hed.replaces
  have hhead : next.record.head branch = some id := by rw [hrepl.head, if_pos rfl]
  have hstr : next.record.structures.lookup id = some edited := by
    rw [hrepl.lookup, if_pos rfl]
  unfold Store.envelope
  rw [if_pos hrepl.courseKey.symm, hhead, bind_some, Store.struct_of_record hstr]
  rfl

section

variable {α : Type} (hstd : store.StandsFor locator envelope)
  (hfnd : store.record.structures.lookup envelope.1 = some envelope.2)
  (edit : ObjectId → EStateM StoreError Structure α)
include hstd hfnd

theorem editVersion_run {result : α}
    (hedit : edit (store.versionOf locator.branch envelope.1) (store.copyOf locator.branch envelope) =
      .ok result edited) :
    ∃ next, editVersion locator.branch envelope edit store =
        .ok (store.versionOf locator.branch envelope.1, result) next ∧
      BranchEdited locator.branch (store.versionOf locator.branch envelope.1) edited store next := by
  have hrun := editVersion_triple hstd.head hfnd edit store rfl
  cases hprog : editVersion locator.branch envelope edit store with
  | ok found next =>
    rw [hprog] at hrun
    obtain ⟨hid, content, hcont, hed⟩ := hrun
    rw [hedit] at hcont
    injection hcont with hres hcont
    subst hcont
    exact ⟨next, by rw [← hid, hres], hed⟩
  | error error next =>
    rw [hprog] at hrun
    obtain ⟨_, _, hrais, -⟩ := hrun
    rw [hedit] at hrais
    cases hrais

theorem editVersion_raised {error : StoreError}
    (hedit : edit (store.versionOf locator.branch envelope.1) (store.copyOf locator.branch envelope) =
      .error error edited) : ∃ next, editVersion locator.branch envelope edit store = .error error next := by
  have hversd := versionStructure_edited hstd.head hfnd store rfl
  cases hver : versionStructure locator.branch envelope.1 envelope.2 store with
  | error raised middle =>
    rw [hver] at hversd
    exact hversd.elim
  | ok newId middle =>
    rw [hver] at hversd
    obtain ⟨rfl, hmid⟩ := hversd
    have hcopy : middle.record.structures.lookup (store.versionOf locator.branch envelope.1) =
        some (store.copyOf locator.branch envelope) := by
      rw [hmid.replaces.lookup, if_pos rfl]
    unfold editVersion
    rw [run_bind, hver]
    simp only [run_bind, editStructure, hcopy, hedit]
    exact ⟨_, rfl⟩

end

/-! ## A course with a draft branch -/

def rootKey : BlockKey := ⟨"course", "course"⟩

def draftLocator : CourseLocator := { course := "course", branch := "draft-branch" }

def courseWith (blocks : Blocks) : Store := started
  { activeVersions := (∅ : Dict CourseKey CourseIndex).insert "course"
      { id := 0, versions := (∅ : Dict Branch ObjectId).insert "draft-branch" 0 }
    structures := (∅ : Dict ObjectId Structure).insert 0 { root := rootKey, blocks := blocks }
    nextObjectId := 1 } "course"

theorem courseWith_standsFor (blocks : Blocks) : (courseWith blocks).StandsFor draftLocator
    (0, { root := rootKey, blocks := blocks }) where
  course := rfl
  found := by
    simp only [Store.envelope, courseWith, started, startBulk, draftLocator, Store.struct,
      head, lookup_insert_self, if_pos]
    rfl
  version := fun _ hver => nomatch hver

def publishedCourse (course : CourseKey) : CourseLocator := { course := course, branch := "published-branch" }

def draftCourse (course : CourseKey) : CourseLocator := { course := course, branch := "draft-branch" }

section

variable (published draft : Blocks)

def branchesDatabase : Database where
  activeVersions := (∅ : Dict CourseKey CourseIndex).insert "course"
    { id := 0, versions := Dict.ofList [("published-branch", 0), ("draft-branch", 1)] }
  structures := Dict.ofList [(0, { root := rootKey, blocks := published }), (1, { root := rootKey, blocks := draft })]
  nextObjectId := 2

def courseWithBranches : Store := started (branchesDatabase published draft) "course"

theorem courseWithBranches_published : (courseWithBranches published draft).StandsFor (publishedCourse "course")
      (0, { root := rootKey, blocks := published }) where
  course := rfl
  found := by rfl
  version := fun _ hver => nomatch hver

theorem courseWithBranches_draft : (courseWithBranches published draft).StandsFor (draftCourse "course")
      (1, { root := rootKey, blocks := draft }) where
  course := rfl
  found := by rfl
  version := fun _ hver => nomatch hver

end

end EdxPlatform.Split

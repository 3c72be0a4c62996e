import EdxPlatform.Split.EventWrites

/-!
# New courses

A new course starts from dictionaries that are given, or from ones of its own.  Only the former may
be those of another course.
-/

namespace EdxPlatform.Split.CourseStore

variable {store next : CourseStore} {course : CourseKey} {branch : Branch}

/-! ## New courses -/

theorem startingTargets_run (course : CourseKey) (hval : store.Valid) (searchTargets : Option Ref)
    (hhold : ∀ ref, searchTargets = some ref → store.searchTargets.Holds ref) : ∃ targets next,
    startingTargets searchTargets store = .ok targets next ∧ Leaves course store next ∧
      next.records = store.records ∧ next.versions = store.versions ∧
      next.searchTargets.Holds targets ∧
      ∀ ref, store.searchTargets.Holds ref → (targets = ref ↔
        searchTargets = some ref ∧ (store.searchTargetsAt ref).entries.isEmpty = false) := by
  have hrun : startingTargets searchTargets store =
      (searchTargets.filter fun ref => !(store.searchTargetsAt ref).entries.isEmpty).elim
        (.ok store.searchTargets.fresh (store.addTargets ∅)) (.ok · store) := by
    unfold startingTargets
    rw [run_bind, show (get : CourseStoreM CourseStore) store = .ok store store from rfl]
    dsimp only
    generalize searchTargets.filter _ = found
    cases found with
    | some ref => rfl
    | none => rfl
  rw [hrun]
  cases hfilt : searchTargets.filter fun ref => !(store.searchTargetsAt ref).entries.isEmpty with
  | some given =>
    obtain ⟨hgiven, hsome⟩ := filter_eq_some_iff.mp hfilt
    refine ⟨given, store, rfl, hval.leaves_self course, rfl, rfl, hhold given hgiven, ?_⟩
    intro ref _
    constructor
    · rintro rfl
      exact ⟨hgiven, by simpa using hsome⟩
    · rintro ⟨href, -⟩
      exact some_unique hgiven href
  | none =>
    refine ⟨_, _, rfl, addTargets_leaves hval ∅, rfl, rfl, Heap.holds_alloc_fresh _ _, ?_⟩
    intro ref hin
    refine iff_of_false (fun h => hin.ne_fresh h.symm) ?_
    rintro ⟨rfl, hsome⟩
    rw [filter_some] at hfilt
    simp [hsome] at hfilt

theorem setRecord_reads (course : CourseKey) (store : CourseStore) {own : EntryObject}
    (record : CourseRecord) (hidx : record.index = some own) (hinit : record.initialIndex = none) {id : ObjectId}
    (hstru : id ∈ record.structures)
    (hhead : (store.versionsAt own.versions).lookup branch = some id) :
    (store.setRecord course record).liveIndex course = some own ∧
      (store.setRecord course record).available course branch = some id ∧
      (store.setRecord course record).isDirty course branch = true := by
  have hlook : (store.setRecord course record).records.lookup course = some record := lookup_insert_self _ _ _
  have hlive : (store.setRecord course record).liveIndex course = some own := (liveIndex_of_record hlook).trans hidx
  refine ⟨hlive, ?_, ?_⟩
  · unfold available hasStructure
    rw [head_of_live hlive, show (store.setRecord course record).versionsAt own.versions =
      store.versionsAt own.versions from rfl, hhead, hlook]
    simp [hstru]
  · have hmem : branch ∈ store.versionsAt own.versions := mem_of_lookup hhead
    unfold isDirty
    rw [hlook]
    simp only [any_some, hidx, hinit]
    exact decide_eq_true ⟨hmem, fun h => nomatch h.trans hhead⟩

theorem insertCourse_wrote (hval : store.Valid) {record : CourseRecord}
    (hrec : store.records.lookup course = some record) (hnone : record.index = none)
    {versions : Ref} (hver : store.versions.Holds versions) {id : ObjectId}
    (hhead : (store.versionsAt versions).lookup branch = some id) {searchTargets : Option Ref}
    (hhold : ∀ ref, searchTargets = some ref → store.searchTargets.Holds ref)
    (fields : PartitionedFields) (saved : Option PartitionedFields) :
    Wrote course (fun _ => False)
      (fun ref => if searchTargets = some ref ∧ (store.searchTargetsAt ref).entries.isEmpty = false
        then fields :: saved.toList else []) store
      (after (insertCourse course branch fields versions id searchTargets saved) store) := by
  have hstru : Leaves course store (store.putStructure course id) := putStructure_leaves hval id
  obtain ⟨targets, next, hrun, htar, hrecs, hsame, hin, hiff⟩ :=
    startingTargets_run course hstru.valid searchTargets hhold
  unfold insertCourse
  rw [after_modify_bind, after_bind_of_ok hrun, after_modify_bind, after_modify_bind]
  have hsave : Wrote course _ _ next (next.putTargets targets fields) := putTargets_wrote htar.valid hin fields
  have hins : Leaves course _ ((next.putTargets targets fields).putIndex course
      { versions := versions, searchTargets := targets }) :=
    putIndex_leaves hsave.valid ⟨hsame ▸ hver, hsave.holdsTargets _ hin⟩
  have hent := (hstru.wrote (htar.wrote hsave)).leaves hins
  have hfnd : (next.putTargets targets fields).records.lookup course =
      some { record with structures := id :: record.structures } := by
    change next.records.lookup course = _
    rw [hrecs, putStructure_eq, hrec]
    exact lookup_insert_self _ _ _
  have hput : (next.putTargets targets fields).putIndex course
      { versions := versions, searchTargets := targets } = (next.putTargets targets fields).setRecord course
        { record with
          index := some { versions := versions, searchTargets := targets }
          structures := id :: record.structures } := by
    unfold putIndex
    rw [hfnd]
  have hsaved : ∀ ref, store.searchTargets.Holds ref → ∀ more : List PartitionedFields,
      ((if ref = targets then [fields] else []) ++ if targets = ref then more else []) =
        if searchTargets = some ref ∧ (store.searchTargetsAt ref).entries.isEmpty = false then
          fields :: more else [] := by
    intro ref href more
    have hwhen : targets = ref ↔ searchTargets = some ref ∧ (store.searchTargetsAt ref).entries.isEmpty = false :=
      hiff ref (hstru.holdsTargets ref href)
    by_cases heq : targets = ref
    · rw [if_pos heq.symm, if_pos heq, if_pos (hwhen.mp heq)]
      rfl
    · rw [if_neg (Ne.symm heq), if_neg heq, if_neg fun h => heq (hwhen.mpr h)]
      rfl
  cases saved with
  | none =>
    refine hent.congr (fun _ _ => Iff.rfl) fun ref href => ?_
    have hnil := hsaved ref href []
    rw [ite_self, append_nil] at hnil
    exact hnil
  | some saved =>
    have hhead' : ((next.putTargets targets fields).versionsAt versions).lookup branch = some id := by
      change ((next.versions.read versions).getD ∅).lookup branch = some id
      rw [hsame]
      exact hhead
    obtain ⟨hlive, havl, hdirty⟩ := setRecord_reads course (next.putTargets targets fields) { record with
        index := some { versions := versions, searchTargets := targets }
        structures := id :: record.structures } rfl (hval.initial course record hrec hnone)
      mem_cons_self hhead'
    rw [← hput] at hlive havl hdirty
    refine (hent.trans (editBranch_wrote hins.valid (some saved)) fun _ _ =>
      .inl not_false).congr (fun ref _ => ?_) fun ref href => ?_
    · simp [moves, hdirty]
    · rw [← hsaved ref href]
      simp [saves, savesTo_iff hlive, havl]

theorem courseIndex_eq_none : store.courseIndex course = none ↔ store.liveIndex course = none ∧
    (store.records.lookup course = none → store.activeVersions.lookup course = none) := by
  unfold courseIndex liveIndex
  cases store.records.lookup course with
  | none => simp
  | some record => simp

theorem courseIndex_none_of_eq (hnone : store.courseIndex course = none) (hrecs : next.records = store.records)
    (hsto : next.activeVersions = store.activeVersions) : next.courseIndex course = none := by
  rw [courseIndex_eq_none] at hnone ⊢
  unfold liveIndex at *
  rw [hrecs, hsto]
  exact hnone

theorem courseIndex_putStructure (id : ObjectId) (hnone : store.courseIndex course = none) :
    (store.putStructure course id).courseIndex course = none := by
  obtain ⟨hlive, hsto⟩ := courseIndex_eq_none.mp hnone
  refine courseIndex_eq_none.mpr ⟨(liveIndex_putStructure store id).trans hlive, fun h => ?_⟩
  refine hsto ?_
  rw [putStructure_eq] at h
  cases hrec : store.records.lookup course with
  | none => rfl
  | some record =>
    rw [hrec] at h
    exact nomatch (lookup_insert_self _ _ _).symm.trans h

theorem versionStructure_of_new (hnone : store.courseIndex course = none) : versionStructure course branch store =
      .ok store.nextObjectId (store.withNextId.putStructure course store.nextObjectId) := by
  obtain ⟨hlive, -⟩ := courseIndex_eq_none.mp hnone
  have hclean : store.isDirty course branch = false := by
    unfold isDirty
    cases hrec : store.records.lookup course with
    | none => rfl
    | some record =>
      rw [any_some, (liveIndex_of_record hrec).symm.trans hlive]
      rfl
  unfold versionStructure
  rw [run_bind]
  change (if store.isDirty course branch then _ else _ : CourseStoreM ObjectId) store = _
  rw [hclean]
  change EStateM.Result.ok store.nextObjectId
    (store.withNextId.setStructureForBranch course branch store.nextObjectId) = _
  unfold setStructureForBranch
  rw [show store.withNextId.liveIndex course = none from hlive]

theorem lookupVersion_run (store : CourseStore) (id : ObjectId) :
    lookupVersion id store = if id ∈ store.structures then .ok () store else .error .itemNotFoundError store := by
  unfold lookupVersion
  rw [run_get_bind]
  by_cases hid : id ∈ store.structures
  · simp [hid, raiseIf]
    rfl
  · simp [hid, raiseIf]
    rfl

section

variable (branch : Branch) (hval : store.Valid) (hnone : store.courseIndex course = none) (fields : PartitionedFields)
include hval hnone

/-- The heads of a new course with given versions change if there is no master branch yet, or fields
are to be changed. -/
theorem startingHead_run {ref : Ref} (hin : store.versions.Holds ref) :
    (startingHead course branch fields ref store = .error .itemNotFoundError store ∧ store.starts ref branch = false) ∨
    ∃ id next, startingHead course branch fields ref store = .ok id next ∧ store.starts ref branch = true ∧
      Wrote course (fun other => ref = other ∧
        (branch ∉ store.versionsAt ref ∨ fields.isEmpty = false)) (fun _ => []) store next ∧
      (next.versionsAt ref).lookup branch = some id ∧ next.courseIndex course = none := by
  have hid : Leaves course store store.withNextId := newId_leaves hval
  have hnew : (store.versionsAt ref).lookup branch ≠ some store.nextObjectId := fun h =>
    Nat.lt_irrefl _ (hval.heads ref branch _ h)
  have hfresh : store.withNextId.courseIndex course = none := courseIndex_none_of_eq hnone rfl rfl
  unfold startingHead starts
  rw [run_get_bind]
  cases hhead : (store.versionsAt ref).lookup branch with
  | none =>
    have hmis : branch ∉ store.versionsAt ref := fun hmem => by
      obtain ⟨head, h⟩ := mem_iff_lookup.mp hmem
      exact nomatch hhead.symm.trans h
    have hput : Wrote course _ _ _ (store.withNextId.putVersion ref branch store.nextObjectId) :=
      putVersion_wrote hid.valid hin branch (lt_succ_self store.nextObjectId)
    refine .inr ⟨_, _, rfl, rfl, (hid.wrote hput).congr (fun other _ => ?_) fun _ _ => rfl, ?_,
      courseIndex_none_of_eq hfresh rfl rfl⟩
    · exact ⟨fun h => ⟨h.1.symm, .inl hmis⟩, fun h => ⟨h.1.symm, hnew⟩⟩
    · rw [versionsAt_putVersion store.withNextId hin, if_pos rfl, lookup_insert_self]
  | some head =>
    have hmem : branch ∈ store.versionsAt ref := mem_of_lookup hhead
    by_cases hsaved : head ∈ store.structures
    · have hfnd : lookupVersion head store = .ok () store := by
        rw [lookupVersion_run, if_pos hsaved]
      refine .inr ?_
      dsimp only
      rw [run_bind, hfnd]
      dsimp only
      cases hemp : fields.isEmpty with
      | true =>
        refine ⟨head, store, rfl, decide_eq_true hsaved, ?_, hhead, hnone⟩
        exact (hval.leaves_self course).congr (fun other _ => by simp [hmem]) fun _ _ => rfl
      | false =>
        have hstru : Leaves course store.withNextId (store.withNextId.putStructure course store.nextObjectId) :=
          putStructure_leaves hid.valid store.nextObjectId
        have hput : Wrote course _ _ _ ((store.withNextId.putStructure course
            store.nextObjectId).putVersion ref branch store.nextObjectId) :=
          putVersion_wrote hstru.valid hin branch (lt_succ_self store.nextObjectId)
        refine ⟨store.nextObjectId, _, ?_, decide_eq_true hsaved,
          (hid.wrote (hstru.wrote hput)).congr (fun other _ => ?_) fun _ _ => rfl, ?_, ?_⟩
        · rw [if_neg false_ne_true, run_bind, versionStructure_of_new hnone]
          rfl
        · exact ⟨fun h => ⟨h.1.symm, .inr rfl⟩, fun h => ⟨h.1.symm, hnew⟩⟩
        · rw [versionsAt_putVersion _ (hstru.holdsVersions ref hin), if_pos rfl, lookup_insert_self]
        · exact courseIndex_none_of_eq (courseIndex_putStructure store.nextObjectId hfresh) rfl rfl
    · refine .inl ⟨?_, decide_eq_false hsaved⟩
      dsimp only
      rw [run_bind, lookupVersion_run, if_neg hsaved]

theorem startingVersions_run (versionsDict : Option Ref)
    (hhold : ∀ ref, versionsDict = some ref → store.versions.Holds ref) :
    (startingVersions course branch fields versionsDict store = .error .itemNotFoundError store ∧
      versionsDict.all (fun ref => store.starts ref branch) = false) ∨
    ∃ ref id next, startingVersions course branch fields versionsDict store = .ok (ref, id) next ∧
      versionsDict.all (fun ref => store.starts ref branch) = true ∧
      Wrote course (fun other => versionsDict = some other ∧
        (branch ∉ store.versionsAt other ∨ fields.isEmpty = false)) (fun _ => []) store next ∧
      next.versions.Holds ref ∧ (next.versionsAt ref).lookup branch = some id ∧
      next.courseIndex course = none := by
  cases versionsDict with
  | none =>
    have hid : Leaves course store store.withNextId := newId_leaves hval
    have hadd : Leaves course store.withNextId
        (store.withNextId.addVersions (AList.insert branch store.nextObjectId ∅)) := by
      refine addVersions_leaves hid.valid fun other found hfnd => ?_
      rw [lookup_insert] at hfnd
      split at hfnd
      · exact some.inj hfnd ▸ lt_succ_self _
      · cases hfnd
    refine .inr ⟨_, _, _, rfl, rfl, (hid.wrote hadd).congr (fun _ _ => by simp) fun _ _ => rfl,
      Heap.holds_alloc_fresh _ _, ?_, courseIndex_none_of_eq hnone rfl rfl⟩
    change (((store.versions.alloc _).read store.versions.fresh).getD ∅).lookup branch = _
    rw [Heap.read_alloc_fresh]
    exact lookup_insert_self _ _ _
  | some ref =>
    have hin := hhold ref rfl
    have hread : startingVersions course branch fields (some ref) store =
        (startingHead course branch fields ref >>= fun id => pure (ref, id)) store := rfl
    rw [hread, run_bind]
    rcases startingHead_run branch hval hnone fields hin with
      ⟨hrun, hstar⟩ | ⟨id, next, hrun, hstar, hwrote, hhead, hnxt⟩
    · exact .inl ⟨by rw [hrun], hstar⟩
    · refine .inr ⟨ref, id, next, by rw [hrun]; rfl, hstar,
        hwrote.congr (fun other _ => ?_) fun _ _ => rfl, hwrote.holdsVersions ref hin, hhead, hnxt⟩
      constructor
      · rintro ⟨rfl, h⟩
        exact ⟨rfl, h⟩
      · rintro ⟨⟨⟩, h⟩
        exact ⟨rfl, h⟩

end

theorem exists_record_of_new (hnone : store.courseIndex course = none) : ∃ record,
    (store.beginBulk course).records.lookup course = some record ∧ record.index = none := by
  obtain ⟨hlive, hsto⟩ := courseIndex_eq_none.mp hnone
  unfold beginBulk
  cases hrec : store.records.lookup course with
  | some record => exact ⟨_, lookup_insert_self _ _ _, (liveIndex_of_record hrec).symm.trans hlive⟩
  | none =>
    rw [hsto hrec]
    exact ⟨_, lookup_insert_self _ _ _, rfl⟩

section

variable (course : CourseKey) (branch : Branch) (hval : store.Valid)
include hval

theorem createCourselike_wrote (fields : PartitionedFields) (versionsDict searchTargets : Option Ref)
    (hver : ∀ ref, versionsDict = some ref → store.versions.Holds ref)
    (htar : ∀ ref, searchTargets = some ref → store.searchTargets.Holds ref)
    (saved : Option PartitionedFields) :
    Wrote course (fun ref => store.courseIndex course = none ∧ versionsDict = some ref ∧
        store.starts ref branch = true ∧ (branch ∉ store.versionsAt ref ∨ fields.isEmpty = false))
      (fun ref => if store.courseIndex course = none ∧ searchTargets = some ref ∧
          versionsDict.all (fun ref => store.starts ref branch) = true ∧
          (store.searchTargetsAt ref).entries.isEmpty = false then fields :: saved.toList else [])
      store (after (createCourselike course branch fields versionsDict searchTargets saved) store) := by
  have hself : Leaves course store store := hval.leaves_self course
  unfold createCourselike
  rw [after_get_bind]
  cases hent : store.courseIndex course with
  | some entry =>
    rw [isSome_some, after_bind_of_error (rfl : raiseIf true _ store = .error StoreError.duplicateCourseError store)]
    exact hself.congr (fun _ _ => by simp) fun _ _ => by simp
  | none =>
    rw [isSome_none, after_bind_of_ok (rfl : raiseIf false StoreError.duplicateCourseError store = .ok () store)]
    rcases startingVersions_run branch hval hent fields versionsDict hver with
      ⟨hrun, hstar⟩ | ⟨ref, id, next, hrun, hstar, hwrote, hin, hhead, hnxt⟩
    · rw [after_bind_of_error hrun]
      refine hself.congr (fun other _ => iff_of_false not_false ?_) fun _ _ => by simp [hstar]
      rintro ⟨-, rfl, hoth, -⟩
      exact false_ne_true (hstar.symm.trans hoth)
    · rw [after_bind_of_ok hrun]
      dsimp only
      obtain ⟨record, hrec, hidx⟩ := exists_record_of_new hnxt
      have hbegin : Leaves course next (next.beginBulk course) := beginBulk_leaves hwrote.valid
      have hstart : ((next.beginBulk course).versionsAt ref).lookup branch = some id :=
        ((hbegin.versions ref hin).mpr not_false branch).trans hhead
      have hins := insertCourse_wrote hbegin.valid hrec hidx (hbegin.holdsVersions ref hin)
        hstart (fun other h => hbegin.holdsTargets other (hwrote.holdsTargets other (htar other h)))
        fields saved
      refine (hwrote.trans (bulkOperations_wrote hwrote.valid hins) fun _ _ =>
        .inr not_false).congr (fun other _ => ?_) fun other hoth => ?_
      · rw [or_false]
        constructor
        · rintro ⟨rfl, h⟩
          exact ⟨rfl, rfl, hstar, h⟩
        · rintro ⟨-, rfl, -, h⟩
          exact ⟨rfl, h⟩
      · have hsame : (next.beginBulk course).searchTargetsAt other = store.searchTargetsAt other :=
          (hbegin.targets other (hwrote.holdsTargets other hoth)).trans (hwrote.targets other hoth)
        rw [nil_append, hsame]
        simp [hstar]

theorem beginBulk_starts {ref : Ref} (hhold : store.versions.Holds ref) :
    (store.beginBulk course).starts ref branch = store.starts ref branch ∧
      (branch ∈ (store.beginBulk course).versionsAt ref ↔ branch ∈ store.versionsAt ref) := by
  have hbegin : Leaves course store (store.beginBulk course) := beginBulk_leaves hval
  have hsame := (hbegin.versions ref hhold).mpr not_false branch
  have hstrs : (store.beginBulk course).structures = store.structures := by
    unfold beginBulk
    split
    · rfl
    · split <;> rfl
  unfold starts
  rw [hsame, hstrs, mem_iff_lookup, mem_iff_lookup, hsame]
  exact ⟨rfl, Iff.rfl⟩

end

theorem courseIndex_beginBulk :
    (store.beginBulk course).courseIndex course = none ↔ store.courseIndex course = none := by
  cases hrec : store.records.lookup course with
  | some record => rw [(beginBulk_reads hrec "").2.1]
  | none =>
    unfold courseIndex beginBulk
    rw [hrec]
    cases hent : store.activeVersions.lookup course with
    | none => simp [setRecord]
    | some entry => simp [setRecord]

theorem cloneCourse_wrote (hval : store.Valid) (source : CourseKey) (fields : PartitionedFields)
    (saved : Option PartitionedFields) :
    Wrote course (fun ref => store.moves (.cloneCourse source course branch fields saved) ref = true)
      (store.saves (.cloneCourse source course branch fields saved)) store
      (after (cloneCourse source course branch fields saved) store) := by
  obtain ⟨found, next, hrun, hlvs, hhold, hcases⟩ := getCourseIndex_run hval source course
  unfold cloneCourse
  rw [after_bind_of_ok hrun]
  cases found with
  | none =>
    rw [after_bind_of_error (rfl : orRaise none _ next = .error StoreError.itemNotFoundError next)]
    have hlive : store.liveIndex source = none := by
      rcases hcases with ⟨record, hrec, hidx, -⟩ | ⟨hrec, -⟩
      · exact (liveIndex_of_record hrec).trans hidx.symm
      · exact liveIndex_of_inactive hrec
    exact hlvs.congr (fun _ _ => by simp [moves, worksOn, hlive]) fun _ _ => by
      simp [saves, savesTo, hlive]
  | some own =>
    rw [after_bind_of_ok (rfl : orRaise (some own) _ next = .ok own next)]
    have hbegin : Leaves course next (next.beginBulk course) := beginBulk_leaves hlvs.valid
    obtain ⟨hver, htar⟩ := hhold own rfl
    have hcreate := createCourselike_wrote course branch hbegin.valid fields
      (some own.versions) (some own.searchTargets) (by rintro _ ⟨⟩; exact hbegin.holdsVersions _ hver)
      (by rintro _ ⟨⟩; exact hbegin.holdsTargets _ htar) saved
    refine (hlvs.wrote (bulkOperations_wrote hlvs.valid hcreate)).congr (fun ref hin => ?_) fun ref hin => ?_
    · rcases hcases with ⟨record, hrec, hidx, hnxt⟩ | ⟨hrec, hfresh⟩
      · subst hnxt
        have hlive := (liveIndex_of_record hrec).trans hidx.symm
        obtain ⟨hstar, hmem⟩ := beginBulk_starts course branch hval hin
        rw [courseIndex_beginBulk, hstar, hmem]
        simp [moves, worksOn_iff hlive, and_assoc, and_left_comm]
      · have hne : own.versions ≠ ref := by
          rintro rfl
          exact (hfresh own rfl).1 hin
        simp [moves, worksOn_of_inactive hrec, hne]
    · rcases hcases with ⟨record, hrec, hidx, hnxt⟩ | ⟨hrec, hfresh⟩
      · subst hnxt
        have hlive := (liveIndex_of_record hrec).trans hidx.symm
        have hsame : (next.beginBulk course).searchTargetsAt ref = next.searchTargetsAt ref := hbegin.targets ref hin
        have hstar := (beginBulk_starts course branch hval hver).1
        simp only [courseIndex_beginBulk, hsame, all_some, hstar]
        simp [saves, savesTo_iff hlive, hlive, and_assoc, and_left_comm]
      · have hne : own.searchTargets ≠ ref := by
          rintro rfl
          exact (hfresh own rfl).2 hin
        simp [saves, savesTo_of_inactive hrec, hne]

end EdxPlatform.Split.CourseStore

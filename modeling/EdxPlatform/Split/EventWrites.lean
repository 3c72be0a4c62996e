import EdxPlatform.Split.CourseWrites

/-!
# What events write

Which heads and search targets an event changes in memory, told from the state before it: the
events on a course that is there.
-/

namespace EdxPlatform.Split.CourseStore

/-! ## What events write -/

section

variable (store : CourseStore)

def worksOn (course : CourseKey) (ref : Ref) : Bool :=
  (store.liveIndex course).any fun own => decide (own.versions = ref)

def savesTo (course : CourseKey) (ref : Ref) : Bool :=
  (store.liveIndex course).any fun own => decide (own.searchTargets = ref)

def available (course : CourseKey) (branch : Branch) : Option ObjectId :=
  (store.head course branch).filter (store.hasStructure course)

/-- Whether a new course can start from the versions: the head of the master branch is missing, or
is in the database. -/
def starts (ref : Ref) (masterBranch : Branch) : Bool :=
  ((store.versionsAt ref).lookup masterBranch).all fun head => decide (head ∈ store.structures)

def unpublished (ref : Ref) : Bool :=
  ((store.versionsAt ref).lookup "published-branch").any fun published =>
    ((store.versionsAt ref).lookup "draft-branch").any fun draft => decide (published ≠ draft)

def moves (event : CourseEvent) (ref : Ref) : Bool :=
  match event with
  | .beginBulk _ | .endBulk _ | .createCourse .. | .deleteCourse _ => false
  | .cloneCourse source dest masterBranch fields _ =>
    store.worksOn source ref && (store.courseIndex dest).isNone && store.starts ref masterBranch &&
      (decide (masterBranch ∉ store.versionsAt ref) || !fields.isEmpty)
  | .editBranch course branch _ =>
    store.worksOn course ref && (store.available course branch).isSome && !store.isDirty course branch
  | .copyBranch course sourceBranch branch =>
    store.worksOn course ref && (store.available course sourceBranch).isSome &&
      (decide (branch ∉ store.versionsAt ref) ||
        (store.available course branch).isSome && !store.isDirty course branch)
  | .forcePublishCourse course => store.worksOn course ref && store.unpublished ref

def saves (event : CourseEvent) (ref : Ref) : List PartitionedFields :=
  match event with
  | .cloneCourse source dest masterBranch fields saved =>
    -- empty search targets are replaced by new ones
    if store.savesTo source ref && (store.courseIndex dest).isNone &&
        (store.liveIndex source).any (fun own => store.starts own.versions masterBranch) &&
        !(store.searchTargetsAt ref).entries.isEmpty then
      fields :: saved.toList
    else []
  | .editBranch course branch saved =>
    if store.savesTo course ref && (store.available course branch).isSome then saved.toList else []
  | _ => []

end

/-- An event leaves alone what the active bulk operation on `source` works on: it puts no other
head into its versions, and saves only the search targets that are there. -/
def Spares (source : CourseKey) (store : CourseStore) (event : CourseEvent) : Prop :=
  ∀ index ∈ store.liveIndex source, store.moves event index.versions = false ∧
      Dict.same ((store.saves event index.searchTargets).foldl saveTargets
        (store.searchTargetsAt index.searchTargets)) (store.searchTargetsAt index.searchTargets)

instance (source : CourseKey) (store : CourseStore) (event : CourseEvent) : Decidable (store.Spares source event) := by
  unfold Spares
  infer_instance

variable {store next : CourseStore} {course : CourseKey} {branch : Branch}

/-! ## Reading the state -/

variable {record : CourseRecord}

theorem liveIndex_of_record (hrec : store.records.lookup course = some record) :
    store.liveIndex course = record.index := by
  rw [liveIndex, hrec, bind_some]

theorem liveIndex_of_inactive (hrec : store.records.lookup course = none) : store.liveIndex course = none := by
  rw [liveIndex, hrec, bind_none]

variable {own : EntryObject}

section

variable (hlive : store.liveIndex course = some own)
include hlive

theorem record_of_live : ∃ record, store.records.lookup course = some record ∧ record.index = some own :=
  bind_eq_some_iff.mp hlive

theorem courseIndex_of_live : store.courseIndex course = some (store.entry own) := by
  obtain ⟨record, hrec, hidx⟩ := record_of_live hlive
  unfold courseIndex
  rw [hrec]
  change record.index.map store.entry = _
  rw [hidx]
  rfl

theorem head_of_live (branch : Branch) : store.head course branch = (store.versionsAt own.versions).lookup branch := by
  unfold head
  rw [courseIndex_of_live hlive]
  rfl

theorem worksOn_iff (ref : Ref) : store.worksOn course ref = decide (own.versions = ref) := by
  unfold worksOn
  rw [hlive]
  rfl

theorem savesTo_iff (ref : Ref) : store.savesTo course ref = decide (own.searchTargets = ref) := by
  unfold savesTo
  rw [hlive]
  rfl

end

section

variable (hrec : store.records.lookup course = none) (ref : Ref)
include hrec

theorem worksOn_of_inactive : store.worksOn course ref = false := by
  rw [worksOn, liveIndex_of_inactive hrec, any_none]

theorem savesTo_of_inactive : store.savesTo course ref = false := by
  rw [savesTo, liveIndex_of_inactive hrec, any_none]

end

theorem Valid.holds_of_live (hval : store.Valid) (hlive : store.liveIndex course = some own) :
    store.versions.Holds own.versions ∧ store.searchTargets.Holds own.searchTargets := by
  obtain ⟨record, hrec, hidx⟩ := record_of_live hlive
  exact hval.live course record own hrec hidx

theorem live_of_courseIndex (hrec : store.records.lookup course = some record)
    {entry : CourseEntry} (hent : store.courseIndex course = some entry) :
    ∃ own, record.index = some own ∧ store.liveIndex course = some own := by
  unfold courseIndex at hent
  rw [hrec] at hent
  obtain ⟨own, hidx, -⟩ := map_eq_some_iff.mp hent
  exact ⟨own, hidx, (liveIndex_of_record hrec).trans hidx⟩

theorem lookupCourse_bind (store : CourseStore) (course : CourseKey) (branch : Branch) :
    lookupCourse course branch store =
      (orRaise (store.head course branch) .itemNotFoundError >>= fun head => do
        raiseIf (!store.hasStructure course head) .itemNotFoundError
        pure head : CourseStoreM ObjectId) store := rfl

variable {head : ObjectId}

theorem lookupCourse_of_available (havl : store.available course branch = some head) :
    lookupCourse course branch store = .ok head store := by
  obtain ⟨hhead, hstru⟩ := filter_eq_some_iff.mp havl
  rw [lookupCourse_bind, hhead, run_bind]
  change (raiseIf (!store.hasStructure course head) _ >>= fun _ => pure head) store = _
  rw [hstru]
  rfl

theorem lookupCourse_of_unavailable (hnone : store.available course branch = none) :
    lookupCourse course branch store = .error .itemNotFoundError store := by
  rw [lookupCourse_bind, run_bind]
  cases hhead : store.head course branch with
  | none => rfl
  | some head =>
    have hstru : store.hasStructure course head = false := by
      unfold available at hnone
      rw [hhead, Option.filter_eq_none_iff] at hnone
      exact eq_false_of_ne_true (hnone head rfl)
    change (raiseIf (!store.hasStructure course head) _ >>= fun _ => pure head) store = _
    rw [hstru]
    rfl

theorem getCourseIndex_of_record (hrec : store.records.lookup course = some record) :
    getCourseIndex course store = .ok record.index store := by
  unfold getCourseIndex
  rw [hrec]

section

variable (store : CourseStore) (ref : Ref) (id : ObjectId)

@[simp]
theorem liveIndex_putVersion : (store.putVersion ref branch id).liveIndex course = store.liveIndex course := rfl

@[simp]
theorem liveIndex_putTargets (fields : PartitionedFields) :
    (store.putTargets ref fields).liveIndex course = store.liveIndex course := rfl

@[simp]
theorem versionsAt_putStructure (ref : Ref) :
    (store.putStructure course id).versionsAt ref = store.versionsAt ref := rfl

@[simp]
theorem liveIndex_putStructure : (store.putStructure course id).liveIndex course = store.liveIndex course := by
  rw [putStructure_eq]
  unfold liveIndex
  cases hrec : store.records.lookup course with
  | none => rw [hrec]
  | some record =>
    change ((store.records.insert course _).lookup course).bind _ = _
    rw [lookup_insert_self]
    rfl

end

theorem versionStructure_run (hval : store.Valid) (hlive : store.liveIndex course = some own)
    (hhead : (store.versionsAt own.versions).lookup branch = some head) : ∃ id next,
    versionStructure course branch store = .ok id next ∧
      Wrote course (fun ref => own.versions = ref ∧ store.isDirty course branch = false) (fun _ => []) store next ∧
      (next.versionsAt own.versions).lookup branch = some id ∧
      next.liveIndex course = some own ∧ id < next.nextObjectId := by
  cases hdirty : store.isDirty course branch with
  | true =>
    refine ⟨head, store, ?_, ?_, hhead, hlive, hval.heads _ branch head hhead⟩
    · change (if store.isDirty course branch then orRaise (store.head course branch) _ else _) store = _
      rw [hdirty, head_of_live hlive, hhead]
      rfl
    · exact (hval.leaves_self course).congr (fun ref _ => by simp) fun _ _ => rfl
  | false =>
    have hid : Leaves course store _ := newId_leaves hval
    have hput : Wrote course _ _ _ _ := putVersion_wrote hid.valid (hval.holds_of_live hlive).1
      branch (lt_succ_self store.nextObjectId)
    have hstru : Leaves course _ _ := putStructure_leaves hput.valid store.nextObjectId
    refine ⟨store.nextObjectId, _, ?_, (hid.wrote (hput.leaves hstru)).congr
        (fun ref _ => ?_) fun _ _ => rfl, ?_, ?_, lt_succ_self _⟩
    · unfold versionStructure
      rw [run_bind]
      change (if store.isDirty course branch then _ else _ : CourseStoreM ObjectId) store = _
      rw [hdirty]
      change EStateM.Result.ok store.nextObjectId
        (store.withNextId.setStructureForBranch course branch store.nextObjectId) = _
      unfold setStructureForBranch
      rw [show store.withNextId.liveIndex course = some own from hlive]
    · have hne : (store.versionsAt own.versions).lookup branch ≠ some store.nextObjectId := fun h =>
        Nat.lt_irrefl _ (hval.heads _ branch _ h)
      exact ⟨fun h => ⟨h.1.symm, rfl⟩, fun h => ⟨h.1.symm, hne⟩⟩
    · rw [versionsAt_putStructure, versionsAt_putVersion store.withNextId
        (hval.holds_of_live hlive).1, if_pos rfl, lookup_insert_self]
    · rw [liveIndex_putStructure, liveIndex_putVersion]
      exact hlive

/-! ## Bulk operations -/

theorem after_bulkOperations {α : Type} (body : CourseStoreM α) (store : CourseStore) :
    after (bulkOperations course body) store = (after body (store.beginBulk course)).endBulk course := by
  unfold after bulkOperations
  cases body (store.beginBulk course) with
  | ok => rfl
  | error => rfl

theorem bulkOperations_wrote {α : Type} {body : CourseStoreM α} (hval : store.Valid)
    {moved : Ref → Prop} {saved : Ref → List PartitionedFields}
    (hbody : Wrote course moved saved (store.beginBulk course) (after body (store.beginBulk course))) :
    Wrote course moved saved store (after (bulkOperations course body) store) := by
  rw [after_bulkOperations]
  exact (beginBulk_leaves hval).wrote (hbody.leaves (endBulk_leaves hbody.valid))

theorem beginBulk_of_record (hrec : store.records.lookup course = some record) : store.beginBulk course =
      store.setRecord course { record with activeCount := record.activeCount + 1 } := by
  unfold beginBulk
  rw [hrec]

theorem exists_record_beginBulk (store : CourseStore) (course : CourseKey) :
    ∃ record, (store.beginBulk course).records.lookup course = some record := by
  unfold beginBulk
  split
  · exact ⟨_, lookup_insert_self _ _ _⟩
  · split
    · exact ⟨_, lookup_insert_self _ _ _⟩
    · exact ⟨_, lookup_insert_self _ _ _⟩

theorem beginBulk_reads (hrec : store.records.lookup course = some record) (branch : Branch) :
    (store.beginBulk course).liveIndex course = store.liveIndex course ∧
      (store.beginBulk course).courseIndex course = store.courseIndex course ∧
      (store.beginBulk course).available course branch = store.available course branch ∧
      (store.beginBulk course).isDirty course branch = store.isDirty course branch ∧
      ∀ ref, (store.beginBulk course).versionsAt ref = store.versionsAt ref := by
  rw [beginBulk_of_record hrec]
  have hlook : (store.setRecord course { record with activeCount := record.activeCount + 1 }).records.lookup course =
      some { record with activeCount := record.activeCount + 1 } := lookup_insert_self _ _ _
  refine ⟨?_, ?_, ?_, ?_, fun _ => rfl⟩
  · unfold liveIndex
    rw [hlook, hrec]
    rfl
  · unfold courseIndex
    rw [hlook, hrec]
    rfl
  · unfold available head hasStructure courseIndex
    rw [hlook, hrec]
    rfl
  · unfold isDirty
    rw [hlook, hrec]
    rfl

theorem beginBulk_fresh (hnone : store.records.lookup course = none)
    (hlive : (store.beginBulk course).liveIndex course = some own) :
    ¬ store.versions.Holds own.versions ∧ ¬ store.searchTargets.Holds own.searchTargets := by
  obtain ⟨record, hrec, hidx⟩ := record_of_live hlive
  unfold beginBulk at hrec
  rw [hnone] at hrec
  cases hent : store.activeVersions.lookup course with
  | none =>
    rw [hent] at hrec
    obtain rfl := some.inj ((lookup_insert_self _ _ _).symm.trans hrec)
    cases hidx
  | some entry =>
    rw [hent] at hrec
    obtain rfl := some.inj ((lookup_insert_self _ _ _).symm.trans hrec)
    obtain rfl := some.inj hidx
    exact ⟨fun h => h.ne_fresh rfl, fun h => h.ne_fresh rfl⟩

/-- A test of the entry in memory fails on a new entry, so a bulk operation does not change its outcome. -/
theorem any_liveIndex_beginBulk {test : EntryObject → Bool} (hfresh : store.records.lookup course = none → ∀ own,
      (store.beginBulk course).liveIndex course = some own → test own = false) :
    ((store.beginBulk course).liveIndex course).any test = (store.liveIndex course).any test := by
  cases hrec : store.records.lookup course with
  | some record => rw [(beginBulk_reads hrec "").1]
  | none =>
    rw [liveIndex_of_inactive hrec, any_none]
    cases hlive : (store.beginBulk course).liveIndex course with
    | none => rfl
    | some own => exact hfresh hrec own hlive

theorem worksOn_beginBulk {ref : Ref} (hhold : store.versions.Holds ref) :
    (store.beginBulk course).worksOn course ref = store.worksOn course ref := by
  refine any_liveIndex_beginBulk fun hrec own hlive => decide_eq_false ?_
  rintro rfl
  exact (beginBulk_fresh hrec hlive).1 hhold

theorem savesTo_beginBulk {ref : Ref} (hhold : store.searchTargets.Holds ref) :
    (store.beginBulk course).savesTo course ref = store.savesTo course ref := by
  refine any_liveIndex_beginBulk fun hrec own hlive => decide_eq_false ?_
  rintro rfl
  exact (beginBulk_fresh hrec hlive).2 hhold

variable {id : ObjectId}

theorem updateHead_wrote (hval : store.Valid)
    (hhold : store.versions.Holds own.versions ∧ store.searchTargets.Holds own.searchTargets)
    (hid : id < store.nextObjectId) :
    Wrote course (fun ref => ref = own.versions ∧ (store.versionsAt own.versions).lookup branch ≠ some id)
      (fun _ => []) store (after (updateHead course own branch id) store) := by
  have hput : Wrote course _ _ _ _ := putVersion_wrote hval hhold.1 branch hid
  exact hput.leaves (putIndex_leaves hput.valid ⟨hput.holdsVersions _ hhold.1, hput.holdsTargets _ hhold.2⟩)

theorem updateHead_leaves (hval : store.Valid) (hlive : store.liveIndex course = some own)
    (hhead : (store.versionsAt own.versions).lookup branch = some id)
    (hid : id < store.nextObjectId) :
    Leaves course store (after (updateHead course own branch id) store) :=
  (updateHead_wrote hval (hval.holds_of_live hlive) hid).congr
    (fun _ _ => iff_of_false (fun h => h.2 hhead) not_false) fun _ _ => rfl

theorem moves_beginBulk {event : CourseEvent} {ref : Ref} (hhold : store.versions.Holds ref)
    (hworks : ∀ state : CourseStore, state.worksOn course ref = false → state.moves event ref = false)
    (hreads : ∀ record, store.records.lookup course = some record →
      (store.beginBulk course).moves event ref = store.moves event ref) :
    (store.beginBulk course).moves event ref = store.moves event ref := by
  cases hrec : store.records.lookup course with
  | some record => exact hreads record hrec
  | none =>
    have hbef := worksOn_of_inactive hrec ref
    rw [hworks store hbef, hworks _ ((worksOn_beginBulk hhold).trans hbef)]

theorem editBranch_body (hval : store.Valid)
    (hrec : store.records.lookup course = some record) (saved : Option PartitionedFields) :
    Wrote course (fun ref => store.moves (.editBranch course branch saved) ref = true)
      (store.saves (.editBranch course branch saved)) store
      (after (do
        let _ ← lookupCourse course branch
        let found ← getCourseIndex course
        let index ← orRaise found .typeError
        let id ← versionStructure course branch
        let fields ← orRaise saved .valueError
        modify fun store => store.putTargets index.searchTargets fields
        updateHead course index branch id : CourseStoreM Unit) store) := by
  cases havl : store.available course branch with
  | none =>
    rw [after_bind_of_error (lookupCourse_of_unavailable havl)]
    exact (hval.leaves_self course).congr (fun ref _ => by simp [moves, havl]) fun ref _ => by simp [saves, havl]
  | some head =>
    have hhead := (filter_eq_some_iff.mp havl).1
    obtain ⟨entry, hent, -⟩ := bind_eq_some_iff.mp hhead
    obtain ⟨own, hidx, hlive⟩ := live_of_courseIndex hrec hent
    rw [head_of_live hlive] at hhead
    obtain ⟨id, next, hver, hwrote, hid, hown, hlt⟩ := versionStructure_run hval hlive hhead
    rw [after_bind_of_ok (lookupCourse_of_available havl), after_bind_of_ok (getCourseIndex_of_record hrec), hidx,
      after_bind_of_ok (rfl : orRaise (some own) _ store = .ok own store), after_bind_of_ok hver]
    have hmoved : ∀ ref, (own.versions = ref ∧ store.isDirty course branch = false) ↔
        store.moves (.editBranch course branch saved) ref = true := by
      intro ref
      simp [moves, worksOn_iff hlive, havl]
    cases saved with
    | none =>
      rw [after_bind_of_error (rfl : orRaise none _ next = .error StoreError.valueError next)]
      exact hwrote.congr (fun ref _ => hmoved ref) fun ref _ => by simp [saves]
    | some fields =>
      rw [after_bind_of_ok (rfl : orRaise (some fields) _ next = .ok fields next), after_modify_bind]
      have hsave : Wrote course _ _ _ _ := putTargets_wrote hwrote.valid (hwrote.valid.holds_of_live hown).2 fields
      have hupd : Leaves course _ _ := updateHead_leaves hsave.valid hown hid hlt
      refine ((hwrote.trans hsave fun _ _ => .inr not_false).leaves hupd).congr
        (fun ref _ => (iff_of_eq (or_false _)).trans (hmoved ref)) fun ref _ => ?_
      simp [saves, savesTo_iff hlive, havl, eq_comm]

theorem editBranch_wrote (hval : store.Valid) (saved : Option PartitionedFields) :
    Wrote course (fun ref => store.moves (.editBranch course branch saved) ref = true)
      (store.saves (.editBranch course branch saved)) store
      (after (editBranch course branch saved) store) := by
  have hbegin : Leaves course store (store.beginBulk course) := beginBulk_leaves hval
  obtain ⟨record, hrec⟩ := exists_record_beginBulk store course
  refine (bulkOperations_wrote hval (editBranch_body hbegin.valid hrec saved)).congr
    (fun ref hhold => ?_) fun ref hhold => ?_
  · rw [moves_beginBulk hhold]
    · intro state hworks
      simp [moves, hworks]
    · intro old hold
      obtain ⟨hlive, -, havl, hdirty, -⟩ := beginBulk_reads hold branch
      simp only [moves, worksOn_beginBulk hhold, havl, hdirty]
  · unfold saves
    simp only [savesTo_beginBulk hhold]
    cases hold : store.records.lookup course with
    | some old => rw [(beginBulk_reads hold branch).2.2.1]
    | none =>
      rw [savesTo_of_inactive hold]
      rfl

theorem moves_copyBranch (hlive : store.liveIndex course = some own) {sourceBranch : Branch}
    (hsrc : store.available course sourceBranch = some head) (branch : Branch) (ref : Ref) :
    store.moves (.copyBranch course sourceBranch branch) ref = true ↔ own.versions = ref ∧
      (branch ∉ store.versionsAt own.versions ∨
        (store.available course branch).isSome ∧ store.isDirty course branch = false) := by
  simp only [moves, worksOn_iff hlive, hsrc, and_eq_true, or_eq_true, decide_eq_true_eq,
    not_eq_true', isSome_some, and_true]
  constructor
  · rintro ⟨rfl, h⟩
    exact ⟨rfl, h⟩
  · rintro ⟨rfl, h⟩
    exact ⟨rfl, h⟩

section

variable (hval : store.Valid)
include hval

theorem copyBranch_body (hrec : store.records.lookup course = some record) (sourceBranch : Branch) :
    Wrote course (fun ref => store.moves (.copyBranch course sourceBranch branch) ref = true) (fun _ => []) store
      (after (do
        let _ ← lookupCourse course sourceBranch
        let found ← getCourseIndex course
        let index ← orRaise found .itemNotFoundError
        let store ← get
        let id ← (if branch ∈ store.versionsAt index.versions then do
            let _ ← lookupCourse course branch
            versionStructure course branch
          else newId : CourseStoreM ObjectId)
        modify fun store => store.putStructure course id
        updateHead course index branch id : CourseStoreM Unit) store) := by
  cases hsrc : store.available course sourceBranch with
  | none =>
    rw [after_bind_of_error (lookupCourse_of_unavailable hsrc)]
    exact (hval.leaves_self course).congr (fun ref _ => by simp [moves, hsrc]) fun _ _ => rfl
  | some sourceHead =>
    obtain ⟨entry, hent, -⟩ := bind_eq_some_iff.mp (filter_eq_some_iff.mp hsrc).1
    obtain ⟨own, hidx, hlive⟩ := live_of_courseIndex hrec hent
    have hmoved := moves_copyBranch hlive hsrc branch
    rw [after_bind_of_ok (lookupCourse_of_available hsrc), after_bind_of_ok (getCourseIndex_of_record hrec), hidx,
      after_bind_of_ok (rfl : orRaise (some own) _ store = .ok own store), after_get_bind]
    by_cases hbr : branch ∈ store.versionsAt own.versions
    · rw [if_pos hbr]
      obtain ⟨head, hhead⟩ := mem_iff_lookup.mp hbr
      cases havl : store.available course branch with
      | none =>
        have herror : (lookupCourse course branch >>= fun _ => versionStructure course branch) store =
            .error .itemNotFoundError store := by
          rw [run_bind, lookupCourse_of_unavailable havl]
        rw [after_bind_of_error herror]
        refine (hval.leaves_self course).congr (fun ref _ => ?_) fun _ _ => rfl
        simp [hmoved, hbr, havl]
      | some found =>
        obtain ⟨id, next, hver, hwrote, hid, hown, hlt⟩ := versionStructure_run hval hlive hhead
        have hrun : (lookupCourse course branch >>= fun _ => versionStructure course branch) store = .ok id next := by
          rw [run_bind, lookupCourse_of_available havl]
          exact hver
        rw [after_bind_of_ok hrun, after_modify_bind]
        have hstru : Leaves course _ _ := putStructure_leaves hwrote.valid id
        have hupd : Leaves course _ _ := updateHead_leaves hstru.valid
          ((liveIndex_putStructure next id).trans hown) hid hlt
        refine (hwrote.leaves (hstru.wrote hupd)).congr (fun ref _ => ?_) fun _ _ => rfl
        simp [hmoved, hbr, havl]
    · rw [if_neg hbr, after_bind_of_ok (rfl : newId store = .ok store.nextObjectId store.withNextId),
        after_modify_bind]
      have hid : Leaves course _ _ := newId_leaves hval
      have hstru : Leaves course _ _ := putStructure_leaves hid.valid store.nextObjectId
      have hupd : Wrote course _ _ _ (after (updateHead course own branch store.nextObjectId) _) :=
        updateHead_wrote hstru.valid (hval.holds_of_live hlive) (lt_succ_self store.nextObjectId)
      refine (hid.wrote (hstru.wrote hupd)).congr (fun ref _ => ?_) fun _ _ => rfl
      have hnone : (store.versionsAt own.versions).lookup branch ≠ some store.nextObjectId := fun h =>
        hbr (mem_of_lookup h)
      rw [hmoved]
      exact ⟨fun h => ⟨h.1.symm, .inl hbr⟩, fun h => ⟨h.1.symm, hnone⟩⟩

theorem copyBranch_wrote (sourceBranch : Branch) :
    Wrote course (fun ref => store.moves (.copyBranch course sourceBranch branch) ref = true)
      (fun _ => []) store (after (copyBranch course sourceBranch branch) store) := by
  have hbegin : Leaves course store (store.beginBulk course) := beginBulk_leaves hval
  obtain ⟨record, hrec⟩ := exists_record_beginBulk store course
  refine (bulkOperations_wrote hval (copyBranch_body hbegin.valid hrec sourceBranch)).congr
    (fun ref hhold => ?_) fun _ _ => rfl
  rw [moves_beginBulk hhold]
  · intro state hworks
    simp [moves, hworks]
  · intro old hold
    obtain ⟨-, -, havl, hdirty, hvers⟩ := beginBulk_reads hold branch
    obtain ⟨-, -, hsrc, -, -⟩ := beginBulk_reads hold sourceBranch
    simp only [moves, worksOn_beginBulk hhold, havl, hdirty, hsrc, hvers]

theorem publishDraft_wrote (hhold : store.versions.Holds own.versions ∧ store.searchTargets.Holds own.searchTargets) :
    Wrote course (fun ref => own.versions = ref ∧ store.unpublished ref = true) (fun _ => []) store
      (after (publishDraft course own) store) := by
  have hlvs : Leaves course store store := hval.leaves_self course
  unfold publishDraft
  rw [after_get_bind]
  dsimp only
  cases hpub : (store.versionsAt own.versions).lookup "published-branch" with
  | none =>
    rw [after_bind_of_error (rfl : orRaise none _ store = .error StoreError.keyError store)]
    refine hlvs.congr (fun ref _ => iff_of_false not_false ?_) fun _ _ => rfl
    rintro ⟨rfl, h⟩
    simp [unpublished, hpub] at h
  | some published =>
    rw [after_bind_of_ok (rfl : orRaise (some published) _ store = .ok published store)]
    cases hdrf : (store.versionsAt own.versions).lookup "draft-branch" with
    | none =>
      rw [after_bind_of_error (rfl : orRaise none _ store = .error StoreError.keyError store)]
      refine hlvs.congr (fun ref _ => iff_of_false not_false ?_) fun _ _ => rfl
      rintro ⟨rfl, h⟩
      simp [unpublished, hpub, hdrf] at h
    | some draft =>
      rw [after_bind_of_ok (rfl : orRaise (some draft) _ store = .ok draft store)]
      have hmoved : ∀ ref, (own.versions = ref ∧ store.unpublished ref = true) ↔
          ref = own.versions ∧ published ≠ draft := by
        intro ref
        constructor
        · rintro ⟨rfl, h⟩
          exact ⟨rfl, by simpa [unpublished, hpub, hdrf] using h⟩
        · rintro ⟨rfl, h⟩
          exact ⟨rfl, by simpa [unpublished, hpub, hdrf] using h⟩
      by_cases hne : published ≠ draft
      · rw [if_pos hne]
        refine (updateHead_wrote hval hhold (hval.heads _ _ draft hdrf)).congr (fun ref _ => ?_) fun _ _ => rfl
        rw [hmoved, hpub]
        simp
      · rw [if_neg hne]
        exact hlvs.congr (fun ref _ => iff_of_false not_false fun h => hne ((hmoved ref).mp h).2) fun _ _ => rfl

theorem getCourseIndex_run (course other : CourseKey) : ∃ found next,
    getCourseIndex course store = .ok found next ∧ Leaves other store next ∧ (∀ own, found = some own →
        next.versions.Holds own.versions ∧ next.searchTargets.Holds own.searchTargets) ∧
      ((∃ record, store.records.lookup course = some record ∧ found = record.index ∧ next = store) ∨
        store.records.lookup course = none ∧ ∀ own, found = some own →
          ¬ store.versions.Holds own.versions ∧ ¬ store.searchTargets.Holds own.searchTargets) := by
  unfold getCourseIndex
  cases hrec : store.records.lookup course with
  | some record =>
    exact ⟨record.index, store, rfl, hval.leaves_self other,
      fun own h => hval.live course record own hrec h, .inl ⟨record, rfl, rfl, rfl⟩⟩
  | none =>
    cases hent : store.activeVersions.lookup course with
    | none =>
      exact ⟨none, store, rfl, hval.leaves_self other, fun _ h => (nomatch h), .inr ⟨rfl, fun _ h => (nomatch h)⟩⟩
    | some entry =>
      refine ⟨_, _, rfl, load_leaves hval (hval.stored course entry hent), ?_, .inr ⟨rfl, ?_⟩⟩
      · rintro own ⟨⟩
        exact store.load_holds entry
      · rintro own ⟨⟩
        exact ⟨fun h => h.ne_fresh rfl, fun h => h.ne_fresh rfl⟩

theorem forcePublishCourse_wrote : Wrote course (fun ref => store.moves (.forcePublishCourse course) ref = true)
      (fun _ => []) store (after (forcePublishCourse course) store) := by
  obtain ⟨found, next, hrun, hlvs, hhold, hcases⟩ := getCourseIndex_run hval course course
  unfold forcePublishCourse
  rw [after_bind_of_ok hrun]
  cases found with
  | none =>
    refine hlvs.congr (fun ref _ => iff_of_false not_false ?_) fun _ _ => rfl
    rcases hcases with ⟨record, hrec, hidx, -⟩ | ⟨hrec, -⟩
    · simp [moves, worksOn, liveIndex, hrec, ← hidx]
    · simp [moves, worksOn, liveIndex, hrec]
  | some own =>
    refine (hlvs.wrote (publishDraft_wrote hlvs.valid (hhold own rfl))).congr (fun ref hin => ?_) fun _ _ => rfl
    rcases hcases with ⟨record, hrec, hidx, rfl⟩ | ⟨hrec, hfresh⟩
    · simp [moves, worksOn, liveIndex, hrec, ← hidx]
    · have hne : own.versions ≠ ref := by
        rintro rfl
        exact (hfresh own rfl).1 hin
      simp [moves, worksOn, liveIndex, hrec, hne]

end

end EdxPlatform.Split.CourseStore

import EdxPlatform.Split.AssetLists
import EdxPlatform.Split.Sessions

/-!
# The assets of a course

The operations on the assets of a branch.  `SplitMongoModuleStore` works on the branch that a key
names, `DraftVersioningModuleStore` on the published branch and then on the draft branch.
-/

namespace EdxPlatform.Split

open SplitBulkWriteRecord Store

section Operations

variable (lists : SortedLists AssetDocument String)

def editAssets (courseKey : CourseLocator) (edit : EStateM StoreError Structure Unit) : StoreM Unit := do
  let envelope ← lookupCourse courseKey
  checkIndexValid courseKey
  let _ ← editVersion courseKey.branch envelope fun _ => edit
  pure ()

def saveAssetMetadataList (assets : List (AssetMetadata × AssetValue)) (userId : AssetValue)
    (importOnly : Bool) : StoreM Unit := do
  let first ← orRaise assets.head? .indexError
  let courseKey := first.1.assetId.courseKey
  editAssets courseKey (saveAssets lists courseKey userId importOnly assets)

/-- `_update_course_assets` -/
def updateCourseAssets (assetKey : AssetKey) (updateFunction : UpdateFunction) : StoreM Unit :=
  editAssets assetKey.courseKey (updateAssets lists assetKey updateFunction)

/-- `_find_course_assets` -/
def findCourseAssets (courseKey : CourseLocator) : StoreM CourseAssets := fun store =>
  match lookupCourse courseKey true store with
  | .ok envelope next => .ok envelope.2.assets next
  | .error .versionConflictError next => .ok ∅ next
  | .error error next => .error error next

/-- The empty list under a type without assets is not kept in the structure that is read. -/
def findAssetMetadata (assetKey : AssetKey) : StoreM (Option AssetMetadata) := do
  let courseAssets ← findCourseAssets assetKey.courseKey
  match SortedAssetList.ofStored lists assetKey.assetType courseAssets with
  | .error error => throw error
  | .ok allAssets =>
    match SortedAssetList.find lists assetKey allAssets with
    | none => pure none
    | some assetIdx => do
      let document ← orRaise ((courseAssets.lookup assetKey.assetType).getD [])[assetIdx]? .indexError
      pure (some (AssetMetadata.fromStorable assetKey document))

def AssetKey.onBranch (assetKey : AssetKey) : Option Branch → AssetKey
  | none => assetKey
  | some branch => { assetKey with courseKey := { course := assetKey.courseKey.course, branch := branch } }

/-- The calls that change assets.  The clock tells the time at which the turn of each asset comes. -/
inductive AssetCall where
  | save (assets : List AssetMetadata) (userId : AssetValue) (importOnly : Bool)
    (clock : Option Branch → Nat → AssetValue)
  | setAttrs (assetKey : AssetKey) (attrDict : Dict String AssetValue)
  | delete (assetKey : AssetKey)

def saveAssetMetadata (asset : AssetMetadata) (userId : AssetValue) (importOnly : Bool)
    (clock : Option Branch → Nat → AssetValue) : AssetCall :=
  .save [asset] userId importOnly clock

def savedOn (branch : Option Branch) (assets : List AssetMetadata)
    (clock : Option Branch → Nat → AssetValue) : List (AssetMetadata × AssetValue) :=
  assets.zipIdx.map fun asset => ({ asset.1 with assetId := asset.1.assetId.onBranch branch }, clock branch asset.2)

namespace AssetCall

def runOn (branch : Option Branch) : AssetCall → StoreM Unit
  | .save assets userId importOnly clock => saveAssetMetadataList lists (savedOn branch assets clock) userId importOnly
  | .setAttrs assetKey attrDict =>
    updateCourseAssets lists (assetKey.onBranch branch) (setAttributes lists assetKey attrDict)
  | .delete assetKey => updateCourseAssets lists (assetKey.onBranch branch) (popAsset lists)

/-- Between the parts of a call on two branches the bulk operation of the first part ends, unless
the call is made in a bulk operation. -/
def pauseBulk (course : CourseKey) (pause : Option Timestamp) (store : Store) : Store :=
  match pause with
  | none => store
  | some now => store.nextBulk course now

/-- A call on the two branches.  If the part on the first one raises then there is no second part. -/
def runDraft (course : CourseKey) (pause : Option Timestamp) (call : AssetCall) : StoreM Unit := do
  call.runOn lists (some "published-branch")
  modify (pauseBulk course pause)
  call.runOn lists (some "draft-branch")

/-- What a call returns: a deletion the number of deleted assets, the others nothing. -/
def reply (call : AssetCall) (program : StoreM Unit) : StoreM (Option Nat) := fun store =>
  match call, program store with
  | .delete _, .ok _ next => .ok (some 1) next
  | .delete _, .error .itemNotFoundError next => .ok (some 0) next
  | _, .ok _ next => .ok none next
  | _, .error error next => .error error next

end AssetCall

end Operations

/-! ## The store between the calls -/

/-- The locator stands for the head of a branch, of the version that it names if it names one. -/
def Store.accepts (store : Store) (locator : CourseLocator) : Bool :=
  match store.envelope locator with
  | none => false
  | some envelope => locator.versionGuid.all fun versionGuid => versionGuid = envelope.1

/-- The store in a bulk operation on a course, in which a branch that is edited has a version that
no other branch has. -/
structure Store.Ready (store : Store) (course : CourseKey) : Prop where
  valid : store.Valid
  course : store.record.courseKey = course
  own : ∀ branch ∈ store.record.dirtyBranches, ∀ other id, store.record.head branch = some id →
    store.record.head other = some id → other = branch

variable {store next : Store}

namespace Store.Ready

variable {course : CourseKey}

section

variable (hrdy : store.Ready course)
include hrdy

theorem loads (hlds : Loads store next) : next.Ready course where
  valid := Store.Valid.stable.loads hlds hrdy.valid
  course := by rw [hlds.courseKey, hrdy.course]
  own := by
    rw [hlds.dirtyBranches, hlds.head]
    exact hrdy.own

theorem head_ne {branch other : Branch} {id : ObjectId}
    {edited : Structure} (hed : BranchEdited branch id edited store next) (hne : other ≠ branch) :
    store.record.head other ≠ some id := by
  intro hhead
  rcases hed.version with ⟨hdirty, hid⟩ | ⟨-, rfl, -⟩
  · exact hne (hrdy.own branch hdirty other id hid hhead)
  · have hid : store.headOf { course := store.record.courseKey, branch := other } =
        some store.db.nextObjectId := by rw [headOf, if_pos rfl, hhead]
    exact lt_irrefl _ (hrdy.valid.headOf_lt hid)

theorem edited {branch : Branch} {id : ObjectId} {edited : Structure}
    (hed : BranchEdited branch id edited store next) : next.Ready course where
  valid := (hrdy.valid.edited hed).1
  course := by rw [hed.replaces.courseKey, hrdy.course]
  own := by
    intro first hfst other head hhead hoth
    have hrepl := hed.replaces
    rw [hrepl.head] at hhead hoth
    by_cases hbr : first = branch
    · rw [if_pos hbr] at hhead
      obtain rfl := some.inj hhead
      by_contra hne
      rw [if_neg (hbr ▸ hne)] at hoth
      exact hrdy.head_ne hed (hbr ▸ hne) hoth
    · rw [if_neg hbr] at hhead
      have hdirty : first ∈ store.record.dirtyBranches := by
        rw [mem_dirtyBranches, hrepl.head, if_neg hbr, hrepl.initialHead] at hfst
        exact mem_dirtyBranches.mpr hfst
      split at hoth
      · obtain rfl := some.inj hoth
        exact absurd hhead (hrdy.head_ne hed hbr)
      · exact hrdy.own first hdirty other head hhead hoth

theorem envelope_edited {branch : Branch} {id : ObjectId}
    {edited : Structure} (hed : BranchEdited branch id edited store next) (other : Branch) :
    next.envelope { course := course, branch := other } = if other = branch then some (id, edited)
      else store.envelope { course := course, branch := other } := by
  have hcrs := hrdy.course
  subst hcrs
  split
  · next heq =>
      subst heq
      exact hed.envelope_eq none
  · next hne =>
      unfold envelope
      rw [if_pos hed.replaces.courseKey.symm, if_pos rfl, hed.replaces.head, if_neg hne]
      cases hhead : store.record.head other with
      | none => rfl
      | some head =>
        have hoth : head ≠ id := fun heq => hrdy.head_ne hed hne (heq ▸ hhead)
        rw [bind_some, bind_some, struct, struct, hed.replaces.lookup, if_neg hoth, hed.structures]

end

theorem of_started {db : Database} (hval : (started db course).Valid) : (started db course).Ready course where
  valid := hval
  course := rfl
  own := by
    intro branch hdirty
    obtain ⟨id, hhead, hne⟩ := mem_dirtyBranches.mp hdirty
    exact absurd hhead hne

theorem nextBulk (hrdy : store.Ready course) (now : Timestamp) : (store.nextBulk course now).Ready course :=
  of_started (hrdy.valid.nextBulk course now)

theorem envelope_nextBulk (hrdy : store.Ready course) (now : Timestamp) (branch : Branch) :
    (store.nextBulk course now).envelope { course := course, branch := branch } =
      store.envelope { course := course, branch := branch } := by
  have hhead : (store.nextBulk course now).record.head branch = store.record.head branch := by
    change (store.nextBulk course now).db.headOf course branch = _
    rw [hrdy.valid.headOf_nextBulk course now, headOf, if_pos hrdy.course.symm]
  have hstr : (store.nextBulk course now).struct = store.struct := by
    funext id
    change Option.or none ((store.nextBulk course now).db.structures.lookup id) = _
    rw [hrdy.valid.lookup_nextBulk course now, none_or]
  have hnxt : course = (store.nextBulk course now).record.courseKey := rfl
  unfold envelope
  rw [if_pos hnxt, if_pos hrdy.course.symm, hhead, hstr]

end Store.Ready

section Edits

variable {locator : CourseLocator} {course : CourseKey}

theorem Store.accepts_iff : store.accepts locator = true ↔ ∃ envelope, store.envelope locator = some envelope ∧
    ∀ versionGuid, locator.versionGuid = some versionGuid → versionGuid = envelope.1 := by
  unfold accepts
  cases store.envelope locator with
  | none => simp
  | some envelope => cases locator.versionGuid <;> simp

section

variable (hcrs : locator.course = store.record.courseKey) (href : store.accepts locator = false)
include hcrs href

theorem lookupCourse_refused : ∃ error, lookupCourse locator true store = .error error store := by
  have htrip := @lookupCourse_envelope store locator store rfl
  cases hrun : lookupCourse locator true store with
  | error error next =>
    rw [hrun] at htrip
    obtain rfl : next = store := htrip
    exact ⟨error, rfl⟩
  | ok envelope next =>
    rw [hrun] at htrip
    have henv : store.envelope locator = some envelope := htrip.1
    have hver : ∀ versionGuid, locator.versionGuid = some versionGuid → versionGuid = envelope.1 := by
      intro versionGuid hguid
      by_contra hne
      have hhead := (head_of_envelope henv hcrs).1
      unfold SplitBulkWriteRecord.head at hhead
      have hrais : lookupHead locator store = .error .versionConflictError store := by
        unfold lookupHead
        rw [run_bind]
        simp only [getCourseIndex, if_pos hcrs]
        rw [hhead, hguid]
        change (raiseIf (decide (versionGuid ≠ envelope.1)) _ >>= _ : StoreM ObjectId) store = _
        rw [decide_eq_true hne]
        rfl
      unfold lookupCourse lookupVersion at hrun
      rw [run_bind] at hrun
      simp only [hrais] at hrun
      cases hrun
    rw [accepts_iff.mpr ⟨envelope, henv, hver⟩] at href
    cases href

theorem editAssets_refused (edit : EStateM StoreError Structure Unit) :
    ∃ error, editAssets locator edit store = .error error store := by
  obtain ⟨error, hrais⟩ := lookupCourse_refused hcrs href
  refine ⟨error, ?_⟩
  unfold editAssets
  rw [run_bind, hrais]

end

theorem editAssets_accepted (hrdy : store.Ready course)
    {envelope : ObjectId × Structure} (hstd : store.StandsFor locator envelope)
    (edit : EStateM StoreError Structure Unit) :
    ∃ copy : Structure, copy.assets = envelope.2.assets ∧ match edit copy with
      | .ok _ edited => ∃ next id, editAssets locator edit store = .ok () next ∧ next.Ready course ∧
          ∀ other, next.envelope { course := course, branch := other } =
            if other = locator.branch then some (id, edited)
            else store.envelope { course := course, branch := other }
      | .error _ edited => ∃ error next id, editAssets locator edit store = .error error next ∧
          next.Ready course ∧ ∀ other, next.envelope { course := course, branch := other } =
            if other = locator.branch then some (id, edited)
            else store.envelope { course := course, branch := other } := by
  obtain ⟨loaded, hlook, hlds, hfnd⟩ := lookupCourse_run hstd
  have hstd' := hstd.loads hlds
  have hrdy' := hrdy.loads hlds
  have hrun : editAssets locator edit store =
      (do let _ ← editVersion locator.branch envelope fun _ => edit; pure ()) loaded := by
    unfold editAssets
    rw [run_bind, hlook]
    simp only [run_bind, checkIndexValid_run hstd']
  have hkept : ∀ other, loaded.envelope { course := course, branch := other } =
      store.envelope { course := course, branch := other } := fun other => by rw [hlds.envelope]
  have htrip := editVersion_triple hstd'.head hfnd (fun _ => edit) loaded rfl
  refine ⟨loaded.copyOf locator.branch envelope, ?_, ?_⟩
  · unfold copyOf
    split <;> rfl
  · cases hprog : editVersion locator.branch envelope (fun _ => edit) loaded with
    | ok result next =>
      rw [hprog] at htrip
      obtain ⟨-, edited, hedit, hed⟩ := htrip
      rw [hedit]
      refine ⟨next, loaded.versionOf locator.branch envelope.1, ?_, hrdy'.edited hed, fun other => ?_⟩
      · rw [hrun, run_bind, hprog]
        rfl
      · rw [hrdy'.envelope_edited hed, hkept]
    | error raised next =>
      rw [hprog] at htrip
      obtain ⟨error, edited, hedit, hed⟩ := htrip
      rw [hedit]
      refine ⟨raised, next, loaded.versionOf locator.branch envelope.1, ?_, hrdy'.edited hed, fun other => ?_⟩
      · rw [hrun, run_bind, hprog]
      · rw [hrdy'.envelope_edited hed, hkept]

end Edits

end EdxPlatform.Split

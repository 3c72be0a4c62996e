import EdxPlatform.Lib.Heap
import EdxPlatform.Split.Operations

/-!
# Clones of courses

The entry of a clone is made of the dictionaries of its source's entry.  An entry that is read from
the database is new in memory, but one of an active bulk operation is the very object that the bulk
operation works on.
-/

namespace EdxPlatform.Split

/-- An entry of the active versions, as far as operations change it. -/
structure CourseEntry where
  versions : Dict Branch ObjectId := ∅
  searchTargets : Fields := ∅

/-- An entry in memory, which refers to its two dictionaries. -/
structure EntryObject where
  versions : Ref
  searchTargets : Ref
  deriving DecidableEq

/-- The record of a bulk operation, with the ids of the structures that it holds. -/
structure CourseRecord where
  activeCount : Nat := 1
  initialIndex : Option CourseEntry := none
  index : Option EntryObject := none
  structures : List ObjectId := []

/-- The database and the records of the active bulk operations.  No `ObjectId` from `nextObjectId`
on was handed out yet. -/
structure CourseStore where
  activeVersions : Dict CourseKey CourseEntry := ∅
  structures : List ObjectId := []
  records : Dict CourseKey CourseRecord := ∅
  versions : Heap (Dict Branch ObjectId) := {}
  searchTargets : Heap Fields := {}
  nextObjectId : ObjectId := 0

abbrev CourseStoreM := EStateM StoreError CourseStore

/-- Equality of entries; that of dictionaries ignores the order of the keys. -/
def CourseEntry.same (entry other : CourseEntry) : Bool :=
  Dict.same entry.versions other.versions && Dict.same entry.searchTargets other.searchTargets

namespace CourseStore

def versionsAt (store : CourseStore) (ref : Ref) : Dict Branch ObjectId := (store.versions.read ref).getD ∅

def searchTargetsAt (store : CourseStore) (ref : Ref) : Fields := (store.searchTargets.read ref).getD ∅

def entry (store : CourseStore) (index : EntryObject) : CourseEntry :=
  { versions := store.versionsAt index.versions
    searchTargets := store.searchTargetsAt index.searchTargets }

section

variable (store : CourseStore) (course : CourseKey)

def liveIndex : Option EntryObject := (store.records.lookup course).bind CourseRecord.index

/-- What `get_course_index` says. -/
def courseIndex : Option CourseEntry :=
  match store.records.lookup course with
  | some record => record.index.map store.entry
  | none => store.activeVersions.lookup course

def head (branch : Branch) : Option ObjectId :=
  (store.courseIndex course).bind fun entry => entry.versions.lookup branch

/-- Whether the structure is in the record of the course or in the database. -/
def hasStructure (id : ObjectId) : Bool :=
  decide (id ∈ store.structures) || (store.records.lookup course).any fun record => decide (id ∈ record.structures)

/-- Whether the branch is among the `dirty_branches` of the record. -/
def isDirty (branch : Branch) : Bool :=
  (store.records.lookup course).any fun record =>
    record.index.any fun index =>
      let versions := store.versionsAt index.versions
      let initialHead := record.initialIndex.bind fun entry => entry.versions.lookup branch
      decide (branch ∈ versions ∧ initialHead ≠ versions.lookup branch)

def addVersions (store : CourseStore) (versions : Dict Branch ObjectId) : CourseStore :=
  { store with versions := store.versions.alloc versions }

def addTargets (store : CourseStore) (targets : Fields) : CourseStore :=
  { store with searchTargets := store.searchTargets.alloc targets }

def load (store : CourseStore) (entry : CourseEntry) : EntryObject × CourseStore :=
  ({ versions := store.versions.fresh, searchTargets := store.searchTargets.fresh },
    (store.addVersions entry.versions).addTargets entry.searchTargets)

def setRecord (record : CourseRecord) : CourseStore := { store with records := store.records.insert course record }

/-- `_begin_bulk_operation` -/
def beginBulk : CourseStore :=
  match store.records.lookup course with
  | some record => store.setRecord course { record with activeCount := record.activeCount + 1 }
  | none =>
    match store.activeVersions.lookup course with
    | none => store.setRecord course {}
    | some entry =>
      let (index, loaded) := store.load entry
      loaded.setRecord course { initialIndex := some entry, index := some index }

/-- The entries of the database once the one in the record is written, if it changed. -/
def flushEntry (record : CourseRecord) : Dict CourseKey CourseEntry :=
  match record.index with
  | none => store.activeVersions
  | some index =>
    if record.initialIndex.any (store.entry index).same then store.activeVersions
    else store.activeVersions.insert course (store.entry index)

/-- `_end_bulk_operation` -/
def endBulk : CourseStore :=
  match store.records.lookup course with
  | none => store
  | some record =>
    if 1 < record.activeCount then
      store.setRecord course { record with activeCount := record.activeCount - 1 }
    else
      { store with
        activeVersions := store.flushEntry course record
        structures := record.structures ++ store.structures
        records := store.records.erase course }

def bulkOperations {α : Type} (course : CourseKey) (body : CourseStoreM α) : CourseStoreM α :=
  fun store =>
    match body (store.beginBulk course) with
    | .ok result next => .ok result (next.endBulk course)
    | .error error next => .error error (next.endBulk course)

/-! ## Primitives -/

def withNextId (store : CourseStore) : CourseStore := { store with nextObjectId := store.nextObjectId + 1 }

def newId : CourseStoreM ObjectId := fun store => .ok store.nextObjectId store.withNextId

/-- `get_course_index` -/
def getCourseIndex (course : CourseKey) : CourseStoreM (Option EntryObject) := fun store =>
  match store.records.lookup course with
  | some record => .ok record.index store
  | none =>
    match store.activeVersions.lookup course with
    | none => .ok none store
    | some entry => .ok (some (store.load entry).1) (store.load entry).2

/-- `versions[branch] = id` -/
def putVersion (store : CourseStore) (ref : Ref) (branch : Branch) (id : ObjectId) : CourseStore :=
  { store with versions := store.versions.update ref fun versions => versions.insert branch id }

/-- The targets once the fields are there; only `wiki_slug` is one. -/
def withTargets (fields targets : Fields) : Fields :=
  match fields.lookup "wiki_slug" with
  | none => targets
  | some slug => targets.insert "wiki_slug" slug

def saveTargets (targets : Fields) (fields : PartitionedFields) : Fields :=
  withTargets fields.settings (withTargets fields.content targets)

/-- `_update_search_targets` -/
def putTargets (store : CourseStore) (ref : Ref) (fields : PartitionedFields) : CourseStore :=
  { store with searchTargets := store.searchTargets.update ref fun targets => saveTargets targets fields }

/-- `update_course_index`, and `insert_course_index`. -/
def putIndex (index : EntryObject) : CourseStore :=
  match store.records.lookup course with
  | some record => store.setRecord course { record with index := some index }
  | none => { store with
      activeVersions := store.activeVersions.insert course (store.entry index) }

/-- `update_structure`, in a bulk operation. -/
def putStructure (id : ObjectId) : CourseStore :=
  { store with
    records := Dict.modify course (fun record => { record with structures := id :: record.structures }) store.records }

/-- `set_structure_for_branch` -/
def setStructureForBranch (branch : Branch) (id : ObjectId) : CourseStore :=
  match store.liveIndex course with
  | none => store.putStructure course id
  | some index => (store.putVersion index.versions branch id).putStructure course id

end

section

variable (course : CourseKey)

/-- `_update_head` -/
def updateHead (index : EntryObject) (branch : Branch) (id : ObjectId) :
    CourseStoreM Unit := do
  modify fun store => store.putVersion index.versions branch id
  modify fun store => store.putIndex course index

/-- `_lookup_course`: the id of the head of a branch. -/
def lookupCourse (branch : Branch) : CourseStoreM ObjectId := do
  let store ← get
  let id ← orRaise (store.head course branch) .itemNotFoundError
  raiseIf (!store.hasStructure course id) .itemNotFoundError
  pure id

/-- `_lookup_course` of a version alone, which no bulk operation is about. -/
def lookupVersion (id : ObjectId) : CourseStoreM Unit := do
  let store ← get
  raiseIf (id ∉ store.structures) .itemNotFoundError

/-- `version_structure`, in a bulk operation. -/
def versionStructure (branch : Branch) : CourseStoreM ObjectId := do
  let store ← get
  if store.isDirty course branch then orRaise (store.head course branch) .keyError
  else do
    let id ← newId
    modify fun store => store.setStructureForBranch course branch id
    pure id

/-! ## Operations -/

/-- An edit of a branch, such as `update_item`: it saves some fields, or raises after the branch
got a version of its own. -/
def editBranch (branch : Branch) (saved : Option PartitionedFields) : CourseStoreM Unit :=
  bulkOperations course do
    let _ ← lookupCourse course branch
    let found ← getCourseIndex course
    let index ← orRaise found .typeError
    let id ← versionStructure course branch
    let fields ← orRaise saved .valueError
    modify fun store => store.putTargets index.searchTargets fields
    updateHead course index branch id

/-- The head of a new course for which versions are given.  They get another one if there is none
or fields are to be changed. -/
def startingHead (masterBranch : Branch) (fields : PartitionedFields)
    (versions : Ref) : CourseStoreM ObjectId := do
  let store ← get
  match (store.versionsAt versions).lookup masterBranch with
  | none => do
    let id ← newId
    modify fun store => store.putVersion versions masterBranch id
    pure id
  | some head => do
    lookupVersion head
    if fields.isEmpty then pure head
    else do
      let id ← versionStructure course masterBranch
      modify fun store => store.putVersion versions masterBranch id
      pure id

def startingVersions (masterBranch : Branch) (fields : PartitionedFields) : Option Ref → CourseStoreM (Ref × ObjectId)
  | none => do
    let id ← newId
    let store ← get
    set (store.addVersions (AList.insert masterBranch id ∅))
    pure (store.versions.fresh, id)
  | some versions => do
    let id ← startingHead course masterBranch fields versions
    pure (versions, id)

/-- `search_targets or {}` -/
def startingTargets (searchTargets : Option Ref) : CourseStoreM Ref := do
  let store ← get
  match searchTargets.filter fun ref => !(store.searchTargetsAt ref).entries.isEmpty with
  | some ref => pure ref
  | none => do
    set (store.addTargets ∅)
    pure store.searchTargets.fresh

/-- The entry of a new course is made, and `update_item` saves what it changed of the root, if
anything. -/
def insertCourse (masterBranch : Branch) (fields : PartitionedFields)
    (versions : Ref) (id : ObjectId) (searchTargets : Option Ref)
    (saved : Option PartitionedFields) : CourseStoreM Unit := do
  modify fun store => store.putStructure course id
  let targets ← startingTargets searchTargets
  modify fun store => store.putTargets targets fields
  modify fun store => store.putIndex course { versions := versions, searchTargets := targets }
  match saved with
  | none => pure ()
  | some fields => editBranch course masterBranch (some fields)

/-- `_create_courselike` -/
def createCourselike (masterBranch : Branch) (fields : PartitionedFields)
    (versionsDict searchTargets : Option Ref) (saved : Option PartitionedFields) :
    CourseStoreM Unit := do
  let store ← get
  raiseIf (store.courseIndex course).isSome .duplicateCourseError
  let (versions, id) ← startingVersions course masterBranch fields versionsDict
  bulkOperations course (insertCourse course masterBranch fields versions id searchTargets saved)

/-- `clone_course` -/
def cloneCourse (source dest : CourseKey) (masterBranch : Branch) (fields : PartitionedFields)
    (saved : Option PartitionedFields) : CourseStoreM Unit := do
  let found ← getCourseIndex source
  let index ← orRaise found .itemNotFoundError
  bulkOperations dest
    (createCourselike dest masterBranch fields (some index.versions) (some index.searchTargets) saved)

/-- `copy` between two branches of a course, as for publishing. -/
def copyBranch (sourceBranch branch : Branch) : CourseStoreM Unit :=
  bulkOperations course do
    let _ ← lookupCourse course sourceBranch
    let found ← getCourseIndex course
    let index ← orRaise found .itemNotFoundError
    let store ← get
    let id ← (if branch ∈ store.versionsAt index.versions then do
        let _ ← lookupCourse course branch
        versionStructure course branch
      else newId : CourseStoreM ObjectId)
    modify fun store => store.putStructure course id
    updateHead course index branch id

/-- What `force_publish_course` does with the entry that it finds. -/
def publishDraft (index : EntryObject) : CourseStoreM Unit := do
  let store ← get
  let versions := store.versionsAt index.versions
  let published ← orRaise (versions.lookup "published-branch") .keyError
  let draft ← orRaise (versions.lookup "draft-branch") .keyError
  if published ≠ draft then updateHead course index "published-branch" draft else pure ()

/-- `force_publish_course`, with `commit`. -/
def forcePublishCourse : CourseStoreM Unit := do
  let found ← getCourseIndex course
  match found with
  | none => pure ()
  | some index => publishDraft course index

/-- `delete_course_index` -/
def deleteCourse : CourseStoreM Unit :=
  modify fun store => { store with
    activeVersions := store.activeVersions.erase course
    records := store.records.erase course }

end

end CourseStore

/-- What is done to a course.  A clone is done to the new course. -/
inductive CourseEvent where
  | beginBulk (course : CourseKey)
  | endBulk (course : CourseKey)
  | createCourse (course : CourseKey) (masterBranch : Branch) (fields : PartitionedFields)
      (saved : Option PartitionedFields)
  | cloneCourse (source dest : CourseKey) (masterBranch : Branch) (fields : PartitionedFields)
      (saved : Option PartitionedFields)
  | editBranch (course : CourseKey) (branch : Branch) (saved : Option PartitionedFields)
  | copyBranch (course : CourseKey) (sourceBranch branch : Branch)
  | forcePublishCourse (course : CourseKey)
  | deleteCourse (course : CourseKey)

namespace CourseEvent

def course : CourseEvent → CourseKey
  | .beginBulk course | .endBulk course | .createCourse course _ _ _ | .cloneCourse _ course _ _ _
  | .editBranch course _ _ | .copyBranch course _ _ | .forcePublishCourse course
  | .deleteCourse course => course

def run : CourseEvent → CourseStoreM Unit
  | .beginBulk course => modify fun store => store.beginBulk course
  | .endBulk course => modify fun store => store.endBulk course
  | .createCourse course masterBranch fields saved =>
    CourseStore.createCourselike course masterBranch fields none none saved
  | .cloneCourse source dest masterBranch fields saved => CourseStore.cloneCourse source dest masterBranch fields saved
  | .editBranch course branch saved => CourseStore.editBranch course branch saved
  | .copyBranch course sourceBranch branch => CourseStore.copyBranch course sourceBranch branch
  | .forcePublishCourse course => CourseStore.forcePublishCourse course
  | .deleteCourse course => CourseStore.deleteCourse course

end CourseEvent

namespace CourseStore

def step (store : CourseStore) (event : CourseEvent) : CourseStore :=
  match event.run store with
  | .ok _ next => next
  | .error _ next => next

def Reachable (store : CourseStore) : Prop := ∃ events : List CourseEvent, store = events.foldl step {}

/-- `get_course_index` says the same: the same heads, and the same search targets. -/
def IndexKept (course : CourseKey) (store next : CourseStore) : Prop :=
  Option.Rel (fun entry later : CourseEntry =>
      (∀ branch, later.versions.lookup branch = entry.versions.lookup branch) ∧
        ∀ field, later.searchTargets.lookup field = entry.searchTargets.lookup field)
    (store.courseIndex course) (next.courseIndex course)

end CourseStore

end EdxPlatform.Split

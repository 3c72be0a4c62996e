import EdxPlatform.Split.Structure

/-!
# The split store

The collections of the database, and the record of the bulk operation that is
active on one course.  Operations read and write the record; the end of the bulk
operation writes it to the database.
-/

namespace EdxPlatform.Split

abbrev CourseKey := String
abbrev Branch := String
abbrev Timestamp := Nat

/-- The branch of a course, and the version it is expected to have if any. -/
structure CourseLocator where
  course : CourseKey
  branch : Branch
  versionGuid : Option ObjectId := none
  deriving DecidableEq

/-- An entry of the active versions: the head of each branch of a course. -/
structure CourseIndex where
  id : ObjectId
  versions : Dict Branch ObjectId := ∅
  lastUpdate : Option Timestamp := none

/-- Equality of index entries; that of dictionaries ignores the order of the keys. -/
def CourseIndex.same (index other : CourseIndex) : Bool :=
  index.id = other.id ∧ Dict.same index.versions other.versions ∧ index.lastUpdate = other.lastUpdate

/-- The collections.  No `ObjectId` from `nextObjectId` on was handed out yet. -/
structure Database where
  activeVersions : Dict CourseKey CourseIndex := ∅
  structures : Dict ObjectId Structure := ∅
  definitions : Dict ObjectId Definition := ∅
  nextObjectId : ObjectId := 0

structure SplitBulkWriteRecord where
  courseKey : CourseKey
  initialIndex : Option CourseIndex
  index : Option CourseIndex
  structures : Dict ObjectId Structure := ∅
  structuresInDb : List ObjectId := []
  definitions : Dict ObjectId Definition := ∅
  definitionsInDb : List ObjectId := []

structure Store where
  db : Database
  record : SplitBulkWriteRecord

namespace Database

/-- The insert of one document; the error for an id that is there already is swallowed. -/
def insertDocument {δ : Type} (collection : Dict ObjectId δ)
    (document : Sigma fun _ : ObjectId => δ) : Dict ObjectId δ :=
  if document.1 ∈ collection then collection else collection.insert document.1 document.2

def insertDocuments {δ : Type} (documents : Dict ObjectId δ) (inDb : List ObjectId)
    (collection : Dict ObjectId δ) : Dict ObjectId δ :=
  (documents.entries.filter fun document => document.1 ∉ inDb).foldl insertDocument collection

section

variable (db : Database) (course : CourseKey)

def insertCourseIndex (index : CourseIndex) (now : Timestamp) : Database :=
  { db with activeVersions := db.activeVersions.insert course { index with lastUpdate := some now } }

/-- Whether the query built from `fromIndex` selects the entry. -/
def selects (fromIndex entry : CourseIndex) : Bool :=
  entry.id = fromIndex.id ∧ (fromIndex.lastUpdate = none ∨ entry.lastUpdate = fromIndex.lastUpdate)

/-- Replaces the entry of a course if it is the one read as `fromIndex`. -/
def updateCourseIndex (index fromIndex : CourseIndex) (now : Timestamp) : Database :=
  match db.activeVersions.lookup course with
  | none => db
  | some entry =>
    if selects fromIndex entry then
      { db with
        activeVersions := db.activeVersions.insert course { index with lastUpdate := some now } }
    else db

def headOf (branch : Branch) : Option ObjectId :=
  (db.activeVersions.lookup course).bind fun index => index.versions.lookup branch

end

end Database

namespace SplitBulkWriteRecord

section

variable (record : SplitBulkWriteRecord)

/-- The branches whose head differs from the one at the start of the bulk operation. -/
def dirtyBranches : List Branch :=
  match record.index with
  | none => []
  | some index =>
    match record.initialIndex with
    | none => index.versions.keys
    | some initialIndex => index.versions.keys.filter fun branch =>
      initialIndex.versions.lookup branch ≠ index.versions.lookup branch

section

variable (branch : Branch)

def head : Option ObjectId := record.index.bind fun index => index.versions.lookup branch

def setHead (id : ObjectId) :
    SplitBulkWriteRecord :=
  { record with
    index := record.index.map fun index => { index with versions := index.versions.insert branch id } }

def structureForBranch : Option (ObjectId × Structure) :=
  (record.head branch).bind fun id => (record.structures.lookup id).map fun struct => (id, struct)

def putStructure (id : ObjectId) (struct : Structure) :
    SplitBulkWriteRecord :=
  { record with structures := record.structures.insert id struct }

def setStructureForBranch (id : ObjectId) (struct : Structure) : SplitBulkWriteRecord :=
  (record.setHead branch id).putStructure id struct

end

end

end SplitBulkWriteRecord

/-- `_start_outermost_bulk_operation` -/
def startBulk (db : Database) (course : CourseKey) : SplitBulkWriteRecord :=
  { courseKey := course
    initialIndex := db.activeVersions.lookup course
    index := db.activeVersions.lookup course }

/-- The first part of the end of a bulk operation: the new documents are inserted. -/
def flushDocuments (db : Database) (record : SplitBulkWriteRecord) : Database :=
  { db with
    structures := Database.insertDocuments record.structures record.structuresInDb db.structures
    definitions := Database.insertDocuments record.definitions record.definitionsInDb db.definitions }

/-- The last part of the end of a bulk operation: the index is written if it changed. -/
def flushIndex (db : Database) (record : SplitBulkWriteRecord) (now : Timestamp) : Database :=
  match record.index, record.initialIndex with
  | none, _ => db
  | some index, none => db.insertCourseIndex record.courseKey index now
  | some index, some initialIndex =>
    if index.same initialIndex then db
    else db.updateCourseIndex record.courseKey index initialIndex now

/-- `_end_outermost_bulk_operation` -/
def endBulk (store : Store) (now : Timestamp) : Database :=
  flushIndex (flushDocuments store.db store.record) store.record now

def started (db : Database) (course : CourseKey) : Store := { db := db, record := startBulk db course }

/-- The store when the bulk operation has ended, and one on a course begins. -/
def Store.nextBulk (store : Store) (course : CourseKey) (now : Timestamp) : Store := started (endBulk store now) course

/-! ## Reading and writing in a bulk operation -/

abbrev StoreM := EStateM StoreError Store

def newObjectId : StoreM ObjectId := fun store =>
  .ok store.db.nextObjectId { store with db := { store.db with nextObjectId := store.db.nextObjectId + 1 } }

def raiseIf {σ : Type} (condition : Bool) (error : StoreError) : EStateM StoreError σ Unit :=
  if condition then throw error else pure ()

def orRaise {σ α : Type} (value : Option α) (error : StoreError) : EStateM StoreError σ α :=
  match value with
  | some value => pure value
  | none => throw error

/-- The course index; other courses than that of the record are read from the database. -/
def getCourseIndex (course : CourseKey) : StoreM (Option CourseIndex) := fun store =>
  .ok (if course = store.record.courseKey then store.record.index else store.db.activeVersions.lookup course) store

/-- The structure with the given id, which is loaded into the record if it is not
there.  Reading the blocks of a document that was not found raises `TypeError`. -/
def getStructure (course : CourseKey) (id : ObjectId) : StoreM Structure := fun store =>
  if course = store.record.courseKey then
    match store.record.structures.lookup id, store.db.structures.lookup id with
    | some struct, _ => .ok struct store
    | none, some struct =>
      .ok struct { store with
          record := { store.record.putStructure id struct with
            structuresInDb := id :: store.record.structuresInDb } }
    | none, none => .error .typeError store
  else orRaise (store.db.structures.lookup id) .typeError store

section

variable (locator : CourseLocator)

def lookupHead : StoreM ObjectId := do
  let index ← getCourseIndex locator.course
  let versionGuid ← orRaise (index.bind fun index => index.versions.lookup locator.branch) .itemNotFoundError
  raiseIf (locator.versionGuid.any (· ≠ versionGuid)) .versionConflictError
  pure versionGuid

/-- The id that a locator stands for; without validation its version need not be the head. -/
def lookupVersion (headValidation : Bool) : StoreM ObjectId :=
  match headValidation, locator.versionGuid with
  | false, some versionGuid => pure versionGuid
  | _, _ => lookupHead locator

/-- `_lookup_course`: the structure that a locator stands for, with its id. -/
def lookupCourse (headValidation : Bool := true) :
    StoreM (ObjectId × Structure) := do
  let versionGuid ← lookupVersion locator headValidation
  let struct ← getStructure locator.course versionGuid
  pure (versionGuid, struct)

end

/-- The id of the structure in which a branch is to be edited: that of its head if
the branch is dirty, otherwise that of a new copy of `struct`. -/
def versionStructure (branch : Branch) (id : ObjectId) (struct : Structure) :
    StoreM ObjectId := do
  let store ← get
  if branch ∈ store.record.dirtyBranches then
    let head ← orRaise (store.record.structureForBranch branch) .typeError
    pure head.1
  else
    let newId ← newObjectId
    modify fun store => { store with
      record := store.record.setStructureForBranch branch newId { struct with previousVersion := some id } }
    pure newId

/-- `update_structure` -/
def updateStructure (id : ObjectId) (struct : Structure) : StoreM Unit :=
  modify fun store => { store with record := store.record.putStructure id struct }

/-- Edits the structure that the record holds under `id` in place. -/
def editStructure {α : Type} (id : ObjectId) (edit : EStateM StoreError Structure α) : StoreM α := fun store =>
  match store.record.structures.lookup id with
  | none => .error .typeError store
  | some struct =>
    match edit struct with
    | .ok result edited => .ok result { store with record := store.record.putStructure id edited }
    | .error error edited => .error error { store with record := store.record.putStructure id edited }

/-- `_update_head` -/
def updateHead (branch : Branch) (newId : ObjectId) : StoreM Unit :=
  modify fun store => { store with record := store.record.setHead branch newId }

/-- Edits a branch in a version of its own, and makes that the head.  The edit is told
the id of the version. -/
def editVersion {α : Type} (branch : Branch) (envelope : ObjectId × Structure)
    (edit : ObjectId → EStateM StoreError Structure α) : StoreM (ObjectId × α) := do
  let newId ← versionStructure branch envelope.1 envelope.2
  let result ← editStructure newId (edit newId)
  updateHead branch newId
  pure (newId, result)

end EdxPlatform.Split

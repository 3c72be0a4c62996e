import EdxPlatform.Lib.Runs
import EdxPlatform.Split.ReadRules
import EdxPlatform.Split.WriteOperations

/-!
# The end of a bulk operation

A branch that is dirty is edited in its head, without asking whether the head is a
version of its own.  The end of the bulk operation keeps what was read before as
long as no operation edits a branch that is dirty but points to a saved structure.
-/

namespace EdxPlatform.Split

open SplitBulkWriteRecord

def readBranch (store : Store) (branch : Branch) : Except StoreError (ObjectId × Structure) :=
  match lookupCourse { course := store.record.courseKey, branch := branch } true store with
  | .ok envelope _ => .ok envelope
  | .error error _ => .error error

/-- A store in which a new bulk operation on the same course begins after the end. -/
def reopened (store : Store) (now : Timestamp) : Store := store.nextBulk store.record.courseKey now

/-- Fresh reads after the end of the bulk operation return what reads returned before. -/
def FlushKeepsBranches (store : Store) : Prop :=
  ∀ now branch, readBranch (reopened store now) branch = readBranch store branch

inductive BulkWrite where
  | createCourse (fields : PartitionedFields) (versionsDict : Option (Dict Branch ObjectId)) (root : BlockKey)
  | cloneCourse (source : CourseKey) (fields : PartitionedFields) (root : BlockKey)
  | write (operation : WriteOperation)

/-- An operation on a branch of the course of the bulk operation. -/
structure BulkAction where
  branch : Branch
  versionGuid : Option ObjectId
  write : BulkWrite

def BulkAction.locator (action : BulkAction) (course : CourseKey) : CourseLocator :=
  { course := course, branch := action.branch, versionGuid := action.versionGuid }

def BulkAction.run (platform : Platform) (action : BulkAction) (course : CourseKey) : StoreM Unit :=
  match action.write with
  | .createCourse fields versionsDict root => createCourse platform (action.locator course) fields versionsDict root
  | .cloneCourse source fields root => cloneCourse platform source (action.locator course) fields root
  | .write operation => operation.run platform (action.locator course)

variable (platform : Platform)

section

variable (store : Store)

def bulkStep (action : BulkAction) : Store := storeAfter (action.run platform store.record.courseKey) store

def HeadUnsaved (branch : Branch) (store : Store) : Prop :=
  branch ∈ store.record.dirtyBranches → ∀ id, store.record.head branch = some id → id ∉ store.db.structures

/-- The course descriptor built from the root of a saved structure has the fields
that are saved. -/
def DescriptorSaved (id : ObjectId) : Prop :=
  ∀ struct block definition, store.db.structures.lookup id = some struct →
    struct.blocks.lookup struct.root = some block →
    (store.record.definitions.lookup block.definition).or
      (store.db.definitions.lookup block.definition) = some definition →
    let fields := platform.courseFields block definition.fields
    (fields.content.entries.isEmpty ∨ Dict.same fields.content definition.fields) ∧
      fieldsUpdated block false fields = false

/-- A new course starts with a structure of its own, or with one that need not be
updated when its descriptor is saved. -/
def StartsUnshared (branch : Branch) (fields : PartitionedFields) (versions : Dict Branch ObjectId) : Prop :=
  ∀ id, versions.lookup branch = some id → fields.isEmpty → DescriptorSaved platform store id

/-- The operation edits no branch that is dirty but points to a saved structure. -/
def EditsUnsaved (action : BulkAction) : Prop :=
  match action.write with
  | .createCourse fields versionsDict _ => StartsUnshared platform store action.branch fields (versionsDict.getD ∅)
  | .cloneCourse source fields _ =>
    ∀ index, store.db.activeVersions.lookup source = some index →
      StartsUnshared platform store action.branch fields index.versions
  | .write _ => HeadUnsaved action.branch store

end

/-- What the record holds of the saved structures is what the database holds. -/
structure Agrees (course : CourseKey) (store : Store) : Prop where
  course : store.record.courseKey = course
  agree : ∀ id saved struct, store.db.structures.lookup id = some saved →
    store.record.structures.lookup id = some struct → struct = saved
  inDb : ∀ id ∈ store.record.structuresInDb, id ∈ store.db.structures
  allocated : ∀ id ∈ store.db.structures, id < store.db.nextObjectId
  initial : store.record.initialIndex = store.db.activeVersions.lookup store.record.courseKey
  kept : store.record.index = none → store.record.initialIndex = none

theorem readBranch_eq (store : Store) (branch : Branch) : readBranch store branch = match store.record.head branch with
      | none => .error .itemNotFoundError
      | some id => match (store.record.structures.lookup id).or (store.db.structures.lookup id) with
        | none => .error .typeError
        | some struct => .ok (id, struct) := by
  have hver : lookupVersion { course := store.record.courseKey, branch := branch } true store =
      match store.record.head branch with
      | none => .error .itemNotFoundError store
      | some id => .ok id store := by
    have hidx : getCourseIndex store.record.courseKey store = .ok store.record.index store := by
      unfold getCourseIndex
      rw [if_pos rfl]
    unfold lookupVersion lookupHead SplitBulkWriteRecord.head
    simp only [run_bind, hidx]
    cases store.record.index.bind fun index => index.versions.lookup branch with
    | none => rfl
    | some id => rfl
  unfold readBranch lookupCourse
  rw [run_bind, hver]
  cases store.record.head branch with
  | none => rfl
  | some id =>
    simp only [run_bind, getStructure, if_true]
    cases store.record.structures.lookup id with
    | some struct => rfl
    | none =>
      cases store.db.structures.lookup id with
      | some struct => rfl
      | none => rfl

variable {course : CourseKey} {store : Store}

/-- The end of the bulk operation keeps what was read before if the record agrees
with the database. -/
theorem Agrees.flushKeepsBranches (hagr : Agrees course store) : FlushKeepsBranches store := by
  intro now branch
  have hhead : (reopened store now).record.head = store.record.head := by
    have hinit : store.record.initialIndex =
        (flushDocuments store.db store.record).activeVersions.lookup store.record.courseKey :=
      hagr.initial
    have hnone : store.record.index = none → ∀ branch, store.record.initialHead branch = none := by
      intro hidx branch
      unfold SplitBulkWriteRecord.initialHead
      rw [hagr.kept hidx, bind_none]
    exact headOf_flushIndex_of_initial hinit hnone now
  rw [readBranch_eq, readBranch_eq, hhead]
  cases hbr : store.record.head branch with
  | none => rfl
  | some id =>
    have hlook : ((reopened store now).record.structures.lookup id).or ((reopened store now).db.structures.lookup id) =
          (store.record.structures.lookup id).or (store.db.structures.lookup id) := by
      have hdb : (reopened store now).db.structures.lookup id =
          (store.db.structures.lookup id).or (if id ∈ store.record.structuresInDb then none
            else store.record.structures.lookup id) := lookup_endBulk store now id
      rw [hdb]
      change Option.or none _ = _
      rw [none_or]
      cases hsaved : store.db.structures.lookup id with
      | none =>
        have hnotin : id ∉ store.record.structuresInDb := by
          intro hmem
          have hnone := lookup_eq_none.mp hsaved
          exact hnone (hagr.inDb id hmem)
        rw [if_neg hnotin, none_or, or_none]
      | some saved =>
        cases hrec : store.record.structures.lookup id with
        | none => rw [none_or]; rfl
        | some struct =>
          rw [hagr.agree id saved struct hsaved hrec]
          rfl
    simp only [hlook]

/-! ## Editing a version -/

/-- The head of the branch, if it has one, is not a structure of the database. -/
def HeadPrivate (branch : Branch) (store : Store) : Prop :=
  ∀ id, store.record.head branch = some id → id ∉ store.db.structures

theorem stable_agrees (course : CourseKey) : Stable (Agrees course) := by
  intro store next hstep hagr
  cases hstep with
  | @load id struct hrec hdb =>
    exact { hagr with
      agree := by
        intro other saved content hsaved hcont
        change (store.record.putStructure id struct).structures.lookup other = _ at hcont
        rw [lookup_putStructure] at hcont
        split at hcont
        · next heq =>
            subst heq
            exact (some.inj hcont).symm.trans (some_unique hdb hsaved)
        · exact hagr.agree other saved content hsaved hcont
      inDb := by
        intro other hoth
        rcases mem_cons.mp hoth with rfl | hoth
        · exact mem_of_lookup hdb
        · exact hagr.inDb other hoth }
  | newId =>
    exact { hagr with
      allocated := fun id hid => lt_succ_of_lt (hagr.allocated id hid) }
  | definitions => exact { hagr with }

variable (branch : Branch)

theorem stable_headUnsaved : Stable (HeadUnsaved branch) := by
  intro store next hstep hstore
  cases hstep with
  | load => exact hstore
  | newId => exact hstore
  | definitions => exact hstore

theorem stable_headPrivate : Stable (HeadPrivate branch) := by
  intro store next hstep hstore
  cases hstep with
  | load => exact hstore
  | newId => exact hstore
  | definitions => exact hstore

variable {id : ObjectId}

theorem Agrees.putStructure (hagr : Agrees course store) (struct : Structure)
    (hid : ∀ saved, store.db.structures.lookup id = some saved → struct = saved) :
    Agrees course { store with record := store.record.putStructure id struct } :=
  { hagr with
    agree := by
      intro other saved content hsaved hcont
      rw [lookup_putStructure] at hcont
      split at hcont
      · next heq =>
          subst heq
          exact (some.inj hcont).symm.trans (hid saved hsaved)
      · exact hagr.agree other saved content hsaved hcont }

theorem Agrees.setHead (hagr : Agrees course store) (branch : Branch) (id : ObjectId) :
    Agrees course { store with record := store.record.setHead branch id } :=
  { hagr with
    kept := by
      intro hidx
      unfold SplitBulkWriteRecord.setHead at hidx
      exact hagr.kept (map_eq_none_iff.mp hidx) }

theorem lookup_ne_of_notMem {δ : Type} {collection : Dict ObjectId δ} (hid : id ∉ collection) {property : δ → Prop} :
    ∀ saved, collection.lookup id = some saved → property saved :=
  fun _ hsaved => absurd (mem_of_lookup hsaved) hid

theorem Agrees.addVersion (hagr : Agrees course store) (branch : Branch) (id : ObjectId) (struct : Structure) :
    Agrees course (store.addVersion branch id struct) ∧ store.db.nextObjectId ∉ store.db.structures := by
  have hfresh : store.db.nextObjectId ∉ store.db.structures := fun hmem => lt_irrefl _ (hagr.allocated _ hmem)
  refine ⟨?_, hfresh⟩
  have hnxt := stable_agrees course store _ .newId hagr
  exact (hnxt.setHead branch store.db.nextObjectId).putStructure _ (lookup_ne_of_notMem hfresh)

theorem versionStructure_unsaved (id : ObjectId) (struct : Structure) :
    Triple (fun store => Agrees course store ∧ HeadUnsaved branch store) (versionStructure branch id struct)
      (fun newId store => Agrees course store ∧ newId ∉ store.db.structures) (Agrees course) := by
  apply triple_of_state
  rintro store ⟨hagr, hhead⟩
  refine ((versionStructure_triple branch id struct).post ?_).raise ?_
  · rintro newId next (⟨hdirty, rfl, hnew, -⟩ | ⟨-, rfl, rfl⟩)
    · exact ⟨hagr, hhead hdirty newId hnew⟩
    · exact hagr.addVersion branch id struct
  · rintro _ rfl
    exact hagr

theorem editStructure_agrees {α : Type} (edit : EStateM StoreError Structure α) :
    Triple (fun store => Agrees course store ∧ id ∉ store.db.structures) (editStructure id edit)
      (fun _ store => Agrees course store ∧ id ∉ store.db.structures) (Agrees course) := by
  apply triple_of_state
  rintro store ⟨hagr, hid⟩
  refine triple_weaken (editStructure_triple (Q := fun _ _ => True) (R := fun _ => True) ?_) (fun _ h => h) ?_ ?_
  · intro struct _ start _
    cases edit start <;> trivial
  · rintro result _ ⟨struct, edited, -, -, rfl⟩
    exact ⟨hagr.putStructure edited (lookup_ne_of_notMem hid), hid⟩
  · rintro _ (⟨-, rfl⟩ | ⟨struct, edited, -, -, rfl⟩)
    · exact hagr
    · exact hagr.putStructure edited (lookup_ne_of_notMem hid)

theorem updateHead_agrees (branch : Branch) :
    Triple (fun store => Agrees course store ∧ id ∉ store.db.structures) (updateHead branch id)
      (fun _ store => Agrees course store ∧ HeadPrivate branch store) (Agrees course) := by
  apply triple_modify
  rintro store ⟨hagr, hid⟩
  refine ⟨hagr.setHead branch id, fun head hhead => ?_⟩
  rw [head_setHead] at hhead
  split at hhead
  · exact some.inj hhead ▸ hid
  · next hnot =>
      -- without an index no branch has a head
      have hidx : store.record.index = none := by
        cases hidx : store.record.index with
        | none => rfl
        | some index => exact absurd ⟨rfl, by rw [hidx]; rfl⟩ hnot
      rw [SplitBulkWriteRecord.head, hidx] at hhead
      cases hhead

/-- Whatever is edited in the version of a branch, the record agrees with the
database, and the head is then not a structure of the database. -/
theorem editVersion_agrees {α : Type} (branch : Branch) (envelope : ObjectId × Structure)
    (edit : ObjectId → EStateM StoreError Structure α) :
    Triple (fun store => Agrees course store ∧ HeadUnsaved branch store) (editVersion branch envelope edit)
      (fun _ store => Agrees course store ∧ HeadPrivate branch store) (Agrees course) := by
  apply triple_bind (versionStructure_unsaved branch envelope.1 envelope.2)
  intro newId
  apply triple_bind (editStructure_agrees (edit newId))
  intro result
  apply triple_bind (updateHead_agrees branch)
  exact fun _ => triple_pure fun _ h => h

/-! ## Write operations -/

section Operations

variable (locator : CourseLocator)

/-- What a write operation on the branch of the locator needs of the store. -/
def Ready (locator : CourseLocator) (store : Store) : Prop :=
  Agrees locator.course store ∧ HeadUnsaved locator.branch store

def Written (locator : CourseLocator) (store : Store) : Prop :=
  Agrees locator.course store ∧ HeadPrivate locator.branch store

theorem stable_ready : Stable (Ready locator) :=
  stable_and (stable_agrees locator.course) (stable_headUnsaved locator.branch)

theorem stable_written : Stable (Written locator) :=
  stable_and (stable_agrees locator.course) (stable_headPrivate locator.branch)

variable {locator}

theorem ready_keeps {α : Type} {program : StoreM α} (hkeep : Keeps (Ready locator) program) :
    Triple (Ready locator) program (fun _ => Ready locator) (Agrees locator.course) :=
  hkeep.raise fun _ h => h.1

theorem written_keeps {α : Type} {program : StoreM α} (hkeep : Keeps (Written locator) program) :
    Triple (Written locator) program (fun _ => Written locator) (Agrees locator.course) :=
  hkeep.raise fun _ h => h.1

theorem createItem_agrees (blockType : String) (blockId : Option String)
    (definition : Option ObjectId) (fields : PartitionedFields) (asides : List Aside) :
    Triple (Ready locator) (createItem locator blockType blockId definition fields asides)
      (fun _ => Written locator) (Agrees locator.course) := by
  have hstab := stable_ready locator
  apply triple_bind (ready_keeps (keeps_checkIndexValid locator))
  intro _
  apply triple_bind (ready_keeps (hstab.keeps_lookupCourse locator true))
  intro envelope
  apply triple_bind (ready_keeps (hstab.keeps_itemDefinition definition fields.content blockType))
  intro definition
  apply triple_bind (editVersion_agrees locator.branch envelope _)
  intro created
  apply triple_bind (written_keeps ((stable_written locator).keeps_getItem _ created.2))
  exact fun _ => triple_pure fun _ h => h

theorem createChild_agrees (parent : BlockKey) (blockType : String) (blockId : Option String)
    (fields : PartitionedFields) (asides : List Aside) (position : Option Int) :
    Triple (Ready locator) (createChild platform locator parent blockType blockId fields asides position)
      (fun _ => Agrees locator.course) (Agrees locator.course) := by
  apply triple_bind (createItem_agrees blockType blockId none fields asides)
  intro blockKey
  apply triple_ite
  · exact fun _ => triple_pure fun _ h => h.1
  · intro _
    apply triple_bind (M := fun envelope store => Agrees locator.course store ∧ envelope.1 ∉ store.db.structures)
    · refine (((stable_written locator).lookupCourse locator.versionAgnostic true).post ?_).raise fun _ h => h.1
      rintro envelope store ⟨⟨hagr, hpriv⟩, hfnd⟩
      exact ⟨hagr, hpriv _ ((hfnd hagr.course.symm).2 rfl)⟩
    · intro envelope
      apply triple_bind (editStructure_agrees _)
      exact fun _ => triple_pure fun _ h => h.1

theorem deleteItem_agrees (blockKey : BlockKey) :
    Triple (Ready locator) (deleteItem locator blockKey) (fun _ => Agrees locator.course) (Agrees locator.course) := by
  have hstab := stable_ready locator
  apply triple_bind (ready_keeps (hstab.keeps_lookupCourse locator true))
  intro envelope
  apply triple_bind (ready_keeps (keeps_raiseIf _ _))
  intro _
  apply triple_bind (ready_keeps (keeps_raiseIf _ _))
  intro _
  apply triple_bind (ready_keeps (keeps_checkIndexValid locator))
  intro _
  apply triple_bind (editVersion_agrees locator.branch envelope _)
  exact fun _ => triple_pure fun _ h => h.1

theorem updateBlock_agrees (envelope : ObjectId × Structure) (blockKey : BlockKey)
    (original : BlockData) (fields : PartitionedFields) (definition : Option ObjectId)
    (asides : List Aside) :
    Triple (Ready locator) (updateBlock locator envelope blockKey original fields definition asides)
      (fun _ => Agrees locator.course) (Agrees locator.course) := by
  have hstab := stable_ready locator
  apply triple_bind (ready_keeps (hstab.keeps_updatedDefinition original definition fields.content))
  intro updated
  apply triple_ite
  · intro _
    apply triple_bind (editVersion_agrees locator.branch envelope _)
    intro edited
    apply triple_bind (written_keeps ((stable_written locator).keeps_getItem _ blockKey))
    exact fun _ => triple_pure fun _ h => h.1
  · exact fun _ => triple_pure fun _ h => h.1

theorem updateItem_agrees (blockType : String) (blockId : Option String)
    (fields : PartitionedFields) (definition : Option ObjectId) (allowNotFound : Bool)
    (asides : List Aside) :
    Triple (Ready locator) (updateItem locator blockType blockId fields definition allowNotFound asides)
      (fun _ => Agrees locator.course) (Agrees locator.course) := by
  have hstab := stable_ready locator
  have hcreate : ∀ id, Triple (Ready locator)
      (do
        let _ ← createItem locator blockType id none fields asides
        pure ()) (fun _ => Agrees locator.course) (Agrees locator.course) := by
    intro id
    apply triple_bind (createItem_agrees blockType id none fields asides)
    exact fun _ => triple_pure fun _ h => h.1
  cases blockId with
  | none =>
    apply triple_ite
    · exact fun _ => hcreate none
    · intro _
      apply triple_bind (ready_keeps (hstab.keeps_lookupCourse locator true))
      intro _
      apply triple_bind (ready_keeps (keeps_checkIndexValid locator))
      exact fun _ => triple_throw fun _ h => h.1
  | some blockId =>
    apply triple_bind (ready_keeps (hstab.keeps_lookupCourse locator true))
    intro envelope
    apply triple_bind (ready_keeps (keeps_checkIndexValid locator))
    intro _
    cases envelope.2.blocks.lookup ⟨blockType, blockId⟩ with
    | some original => exact updateBlock_agrees envelope _ original fields definition asides
    | none =>
      apply triple_ite
      · exact fun _ => hcreate (some blockId)
      · exact fun _ => triple_throw fun _ h => h.1

theorem newObjectId_agrees {course : CourseKey} : Triple (Agrees course) newObjectId
      (fun newId store => Agrees course store ∧ newId ∉ store.db.structures) (Agrees course) :=
  fun store hagr => ⟨stable_agrees course store _ .newId hagr, fun hmem => lt_irrefl _ (hagr.allocated _ hmem)⟩

theorem updateStructure_agrees {course : CourseKey} {id : ObjectId} (struct : Structure) :
    Triple (fun store => Agrees course store ∧ id ∉ store.db.structures) (updateStructure id struct)
      (fun _ store => Agrees course store ∧ id ∉ store.db.structures) (Agrees course) := by
  apply triple_modify
  rintro store ⟨hagr, hid⟩
  exact ⟨hagr.putStructure struct (lookup_ne_of_notMem hid), hid⟩

theorem copy_agrees (source : CourseLocator) (subtrees : List BlockKey) (blacklist : Blacklist) :
    Triple (Ready locator) (copy platform source locator subtrees blacklist)
      (fun _ => Agrees locator.course) (Agrees locator.course) := by
  have hstab := stable_ready locator
  apply triple_bind (ready_keeps (hstab.keeps_lookupCourse source true))
  intro sourceEnvelope
  apply triple_bind (ready_keeps (keeps_getCourseIndex locator.course))
  intro index
  apply triple_bind (ready_keeps (keeps_orRaise index _))
  intro index
  apply triple_ite
  · intro _
    apply triple_bind (ready_keeps (hstab.keeps_lookupCourse locator true))
    intro envelope
    apply triple_bind (editVersion_agrees locator.branch envelope _)
    exact fun _ => triple_pure fun _ h => h.1
  · intro _
    apply triple_bind (ready_keeps (keeps_raiseIf _ _))
    intro _
    apply triple_bind (ready_keeps (keeps_orRaise _ _))
    intro rootSource
    apply triple_bind (newObjectId_agrees.pre (fun _ h => h.1))
    intro newId
    apply triple_bind ((keeps_editedStructure _ _).raise fun _ h => h.1)
    intro struct
    apply triple_bind (updateStructure_agrees struct)
    intro _
    exact (updateHead_agrees locator.branch).post (fun _ _ h => h.1)

theorem copyFromTemplate_agrees (keys : List TemplateKey) (blockKey : BlockKey) (headValidation : Bool) :
    Triple (Ready locator) (copyFromTemplate platform keys locator blockKey headValidation)
      (fun _ => Agrees locator.course) (Agrees locator.course) := by
  have hstab := stable_ready locator
  apply triple_bind (ready_keeps (hstab.keeps_lookupSources keys headValidation))
  intro sources
  apply triple_bind (ready_keeps (keeps_getCourseIndex locator.course))
  intro index
  apply triple_bind (ready_keeps (keeps_raiseIf _ _))
  intro _
  apply triple_bind (ready_keeps (hstab.keeps_lookupCourse locator true))
  intro envelope
  apply triple_bind (editVersion_agrees locator.branch envelope _)
  exact fun _ => triple_pure fun _ h => h.1

theorem writeOperation_agrees (locator : CourseLocator) (operation : WriteOperation) :
    Triple (Ready locator) (operation.run platform locator)
      (fun _ => Agrees locator.course) (Agrees locator.course) := by
  cases operation with
  | createItem blockType blockId definition fields asides =>
    apply triple_bind (createItem_agrees blockType blockId definition fields asides)
    exact fun _ => triple_pure fun _ h => h.1
  | createChild parent blockType blockId fields asides position =>
    apply triple_bind (createChild_agrees platform parent blockType blockId fields asides position)
    exact fun _ => triple_pure fun _ h => h
  | updateItem blockType blockId fields definition allowNotFound asides =>
    exact updateItem_agrees blockType blockId fields definition allowNotFound asides
  | deleteItem blockKey => exact deleteItem_agrees blockKey
  | copy source subtrees blacklist => exact copy_agrees platform source subtrees blacklist
  | copyFromTemplate keys blockKey headValidation =>
    exact copyFromTemplate_agrees platform keys blockKey headValidation

end Operations

/-! ## New courses -/

section Courses

variable {locator : CourseLocator}

def Unshared (course : CourseKey) (id : ObjectId) (store : Store) : Prop :=
  Agrees course store ∧ id ∉ store.db.structures

theorem stable_unshared (course : CourseKey) (id : ObjectId) : Stable (Unshared course id) := by
  refine stable_and (stable_agrees course) ?_
  intro store next hstep hstore
  cases hstep with
  | load => exact hstore
  | newId => exact hstore
  | definitions => exact hstore

theorem unshared_keeps {α : Type} {id : ObjectId} {program : StoreM α} (hkeep : Keeps (Unshared course id) program) :
    Triple (Unshared course id) program (fun _ => Unshared course id) (Agrees course) :=
  hkeep.raise fun _ h => h.1

theorem overrideRoot_agrees (fields : PartitionedFields) (newId : ObjectId) :
    Triple (Unshared course newId) (overrideRoot fields newId) (fun _ => Unshared course newId) (Agrees course) := by
  have hstab := stable_unshared course newId
  apply triple_bind (editStructure_agrees _)
  rintro ⟨root, block⟩
  apply triple_bind (unshared_keeps (hstab.keeps_getDefinition block.definition))
  intro oldDefinition
  apply triple_bind (unshared_keeps (hstab.keeps_updateDefinition _ _))
  intro _
  apply triple_bind (unshared_keeps (hstab.keeps_reviseDefinition _ oldDefinition _))
  intro definition
  exact editStructure_agrees _

variable {fields : PartitionedFields}

theorem courseStructure_agrees {branch : Branch} {versionGuid : Option ObjectId} (root : BlockKey) :
    Triple (fun store => (Agrees course store ∧ store.record.index = none) ∧
        ∀ id, versionGuid = some id → fields.isEmpty → DescriptorSaved platform store id)
      (courseStructure branch fields versionGuid root)
      (fun newId store => Agrees course store ∧
        (newId ∉ store.db.structures ∨ DescriptorSaved platform store newId)) (Agrees course) := by
  cases versionGuid with
  | none =>
    have hstab := stable_agrees course
    apply triple_bind ((hstab.keeps_createDefinitionFromData fields.content root.type).pre (fun _ h => h.1.1))
    intro definition
    apply triple_bind newObjectId_agrees
    intro newId
    apply triple_bind (updateStructure_agrees _)
    exact fun _ => triple_pure fun _ h => ⟨h.1, .inl h.2⟩
  | some versionGuid =>
    apply triple_of_state
    rintro store ⟨⟨hagr, hidx⟩, hdscr⟩
    apply triple_bind (triple_get (Q := fun got next => got = store ∧ next = store)
      (by rintro _ rfl; exact ⟨rfl, rfl⟩))
    intro got
    apply triple_of_state
    rintro _ ⟨rfl, rfl⟩
    apply triple_bind ((orRaise_triple _ _).raise (by rintro _ rfl; exact hagr))
    intro struct
    apply triple_of_state
    rintro _ ⟨hstr, rfl⟩
    apply triple_ite
    · intro hemp
      apply triple_bind (M := fun _ next => Agrees course next ∧ DescriptorSaved platform next versionGuid)
      · apply triple_modify
        rintro _ rfl
        refine ⟨hagr.putStructure struct fun saved hsaved => ?_, hdscr _ rfl hemp⟩
        exact some_unique hstr hsaved
      · exact fun _ => triple_pure fun _ h => ⟨h.1, .inr h.2⟩
    · intro _
      apply triple_bind ((versionStructure_unsaved branch versionGuid struct).pre ?_)
      · intro newId
        apply triple_bind (overrideRoot_agrees fields newId)
        exact fun _ => triple_pure fun _ h => ⟨h.1, .inl h.2⟩
      · rintro _ rfl
        refine ⟨hagr, fun hdirty => ?_⟩
        obtain ⟨id, hhead, -⟩ := mem_dirtyBranches.mp hdirty
        rw [SplitBulkWriteRecord.head, hidx] at hhead
        cases hhead

/-- The saved head of a branch, and the definition of its root, in the record. -/
structure SharedRoot (locator : CourseLocator) (id : ObjectId) (struct : Structure)
    (root : ObjectId) (definition : Definition) (store : Store) : Prop where
  agrees : Agrees locator.course store
  head : store.record.head locator.branch = some id
  struct : store.record.structures.lookup id = some struct
  definition : store.record.definitions.lookup root = some definition

theorem SharedRoot.loads {id root : ObjectId} {struct : Structure} {definition : Definition}
    (store next : Store) (hlds : Loads store next)
    (hroot : SharedRoot locator id struct root definition store) :
    SharedRoot locator id struct root definition next := by
  have hagr := (stable_agrees locator.course).loads hlds hroot.agrees
  rcases hlds with rfl | ⟨loaded, content, hnone, -, rfl⟩
  · exact hroot
  · refine ⟨hagr, hroot.head, ?_, hroot.definition⟩
    change (store.record.putStructure loaded content).structures.lookup id = some struct
    rw [lookup_putStructure]
    split
    · next heq =>
        rw [← heq, hroot.struct] at hnone
        cases hnone
    · exact hroot.struct

theorem updateItem_sharedRoot {id : ObjectId} {struct : Structure} {block : BlockData} {definition : Definition}
    (hblk : struct.blocks.lookup struct.root = some block)
    (hcont : fields.content.entries.isEmpty ∨ Dict.same fields.content definition.fields)
    (hflds : fieldsUpdated block false fields = false) :
    Triple (SharedRoot locator id struct block.definition definition)
      (updateItem locator struct.root.type (some struct.root.id) fields (some block.definition)
        false []) (fun _ => Agrees locator.course) (Agrees locator.course) := by
  apply triple_bind (M := fun envelope store =>
    SharedRoot locator id struct block.definition definition store ∧ envelope.2 = struct)
  · refine triple_weaken (lookupCourse_found SharedRoot.loads locator true) (fun _ h => h) ?_ fun _ h => h.agrees
    rintro envelope store ⟨hroot, hfnd⟩
    obtain ⟨hstr, hhead⟩ := hfnd hroot.agrees.course.symm
    obtain rfl := some.inj ((hhead rfl).symm.trans hroot.head)
    exact ⟨hroot, some_unique hstr hroot.struct⟩
  · intro envelope
    apply triple_of_state
    rintro store ⟨hroot, rfl⟩
    apply triple_bind ((keeps_checkIndexValid (P := (· = store)) locator).raise (by rintro _ rfl; exact hroot.agrees))
    intro _
    rw [hblk]
    -- the definition is found as it was
    apply triple_bind (M := fun updated next => updated.2 = false ∧ Agrees locator.course next)
    · apply triple_ite
      · intro _
        exact triple_pure fun _ h => ⟨rfl, h ▸ hroot.agrees⟩
      · intro hnon
        have hsame := hcont.resolve_left hnon
        apply triple_bind (M := fun found next => found = definition ∧ next = store)
        · apply triple_of_run
          rw [getDefinition, getD_some, hroot.definition]
          exact ⟨rfl, rfl⟩
        · intro found
          apply triple_of_state
          rintro _ ⟨rfl, rfl⟩
          rw [if_pos hsame]
          exact triple_pure fun _ h => ⟨rfl, h ▸ hroot.agrees⟩
    · rintro ⟨found, updated⟩
      apply triple_of_state
      rintro next ⟨rfl, hagr⟩
      simp only [hflds, List.isEmpty_nil]
      exact triple_pure fun _ h => h ▸ hagr

variable (locator : CourseLocator)

theorem updateCourse_agrees :
    Triple (fun store => Agrees locator.course store ∧ ∃ id, store.record.head locator.branch = some id ∧
        (id ∉ store.db.structures ∨ DescriptorSaved platform store id))
      (updateCourse platform locator) (fun _ => Agrees locator.course)
      (Agrees locator.course) := by
  apply triple_of_state
  rintro store ⟨hagr, id, hhead, huns⟩
  by_cases hsaved : id ∈ store.db.structures
  · have hdscr := huns.resolve_left (not_not.mpr hsaved)
    obtain ⟨saved, hdb⟩ := mem_iff_lookup.mp hsaved
    apply triple_bind ((lookupCourse_triple locator true).raise (by rintro _ rfl; exact hagr))
    intro envelope
    apply triple_of_state
    rintro loaded ⟨hlds, hfnd⟩
    rw [if_pos hagr.course.symm] at hfnd
    obtain rfl := some.inj ((hfnd.2 rfl).symm.trans hhead)
    have hload := (stable_agrees locator.course).loads hlds hagr
    obtain ⟨hsame, hidx, -, hdef⟩ := hlds.record_eq
    have hstr : envelope.2 = saved := hload.agree _ saved envelope.2 (hsame ▸ hdb) hfnd.1
    have hloade : loaded.record.head locator.branch = some envelope.1 := by
      rw [← hhead]
      unfold SplitBulkWriteRecord.head
      rw [hidx]
    apply triple_bind ((orRaise_triple _ _).raise (by rintro _ rfl; exact hload))
    intro block
    apply triple_of_state
    rintro found ⟨hblk, rfl⟩
    apply triple_bind (M := fun definition next =>
      SharedRoot locator envelope.1 envelope.2 block.definition definition next ∧
      (store.record.definitions.lookup block.definition).or
        (store.db.definitions.lookup block.definition) = some definition)
    · refine ((getDefinition_triple block.definition).post ?_).raise (by rintro _ rfl; exact hload)
      rintro definition next ⟨hdefn, hnxt, definitions, inDb, rfl⟩
      rw [hdef, hsame] at hdefn
      exact ⟨⟨stable_agrees _ _ _ (.definitions definitions inDb) hload, hloade, hfnd.1, hnxt⟩, hdefn⟩
    · intro definition
      apply triple_of_state
      rintro next ⟨hroot, hdefn⟩
      obtain ⟨hcont, hflds⟩ := hdscr envelope.2 block definition (hstr ▸ hdb) hblk hdefn
      exact (updateItem_sharedRoot hblk hcont hflds).pre (by rintro _ rfl; exact hroot)
  · have hrdy : Ready locator store := by
      refine ⟨hagr, fun _ other hoth => ?_⟩
      obtain rfl := some_unique hoth hhead
      exact hsaved
    have hstab := stable_ready locator
    have hupd : Triple (Ready locator) (updateCourse platform locator)
        (fun _ => Agrees locator.course) (Agrees locator.course) := by
      apply triple_bind (ready_keeps (hstab.keeps_lookupCourse locator true))
      intro envelope
      apply triple_bind (ready_keeps (keeps_orRaise _ _))
      intro block
      apply triple_bind (ready_keeps (hstab.keeps_getDefinition block.definition))
      exact fun definition => updateItem_agrees _ _ _ _ _ _
    exact hupd.pre (by rintro _ rfl; exact hrdy)

theorem createCourse_agrees {versionsDict : Option (Dict Branch ObjectId)} (root : BlockKey) :
    Triple (fun store => Agrees locator.course store ∧ (store.record.index = none →
        StartsUnshared platform store locator.branch fields (versionsDict.getD ∅)))
      (createCourse platform locator fields versionsDict root)
      (fun _ => Agrees locator.course) (Agrees locator.course) := by
  apply triple_of_state
  rintro store ⟨hagr, hstar⟩
  apply triple_bind ((getCourseIndex_triple locator.course).raise (by rintro _ rfl; exact hagr))
  intro index
  apply triple_of_state
  rintro _ ⟨rfl, hidx⟩
  rw [if_pos hagr.course.symm] at hidx
  apply triple_bind ((raiseIf_triple _ _).raise (by rintro _ rfl; exact hagr))
  intro _
  apply triple_bind ((courseStructure_agrees platform root).pre ?_)
  · intro newId
    apply triple_bind (M := fun _ next => Agrees locator.course next ∧
      (newId ∉ next.db.structures ∨ DescriptorSaved platform next newId))
    · exact fun next hnxt => ⟨stable_agrees locator.course next _ .newId hnxt.1, hnxt.2⟩
    · intro indexId
      apply triple_bind (M := fun _ next => Agrees locator.course next ∧ ∃ id,
        next.record.head locator.branch = some id ∧
        (id ∉ next.db.structures ∨ DescriptorSaved platform next id))
      · apply triple_modify
        rintro next ⟨hnxt, huns⟩
        refine ⟨{ hnxt with kept := fun hnone => nomatch hnone }, newId, ?_, huns⟩
        exact lookup_insert_self locator.branch newId _
      · exact fun _ => updateCourse_agrees platform { locator with versionGuid := some newId }
  · rintro _ ⟨hnone, rfl⟩
    rw [Option.isSome_eq_false_iff, Option.isNone_iff_eq_none, hidx] at hnone
    exact ⟨⟨hagr, hnone⟩, hstar hnone⟩

theorem bulkAction_agrees {store : Store} {action : BulkAction} {course : CourseKey}
    (hagr : Agrees course store) (hunsv : EditsUnsaved platform store action) :
    Agrees course (bulkStep platform store action) := by
  obtain rfl := hagr.course
  obtain ⟨branch, versionGuid, write⟩ := action
  unfold bulkStep BulkAction.run
  cases write with
  | createCourse fields versionsDict root =>
    exact storeAfter_of_triple (createCourse_agrees platform
      ⟨store.record.courseKey, branch, versionGuid⟩ root) ⟨hagr, fun _ => hunsv⟩
  | cloneCourse source fields root =>
    refine storeAfter_of_triple (P := (· = store)) ?_ rfl
    apply triple_bind ((getCourseIndex_triple source).raise (by rintro _ rfl; exact hagr))
    intro index
    apply triple_of_state
    rintro current ⟨rfl, hidx⟩
    apply triple_bind ((orRaise_triple _ _).raise (by rintro _ rfl; exact hagr))
    intro found
    apply triple_of_state
    rintro current ⟨hfnd, rfl⟩
    refine (createCourse_agrees platform ⟨current.record.courseKey, branch, versionGuid⟩ root).pre ?_
    rintro _ rfl
    refine ⟨hagr, fun hnone => ?_⟩
    apply hunsv found
    -- a course that is being created is not the source of the clone
    split at hidx
    · rw [hidx, hnone] at hfnd
      cases hfnd
    · exact hidx.symm.trans hfnd
  | write operation =>
    exact storeAfter_of_triple (writeOperation_agrees platform
      ⟨store.record.courseKey, branch, versionGuid⟩ operation) ⟨hagr, hunsv⟩

end Courses

/-! ## Runs of a bulk operation -/

theorem started_agrees {db : Database} (course : CourseKey)
    (hall : ∀ id ∈ db.structures, id < db.nextObjectId) : Agrees course (started db course) where
  course := rfl
  agree := fun _ _ _ _ hrec => nomatch hrec
  inDb := fun _ hmem => nomatch hmem
  allocated := hall
  initial := rfl
  kept := id

/-- If no operation edits a branch that is dirty but points to a saved structure, the
bulk operation may end after any of the operations without losing an edit. -/
theorem flushKeepsBranches_of_editsUnsaved {platform : Platform} {db : Database}
    {course : CourseKey} {actions : List BulkAction}
    (hallocated : ∀ id ∈ db.structures, id < db.nextObjectId)
    (heach : Each (bulkStep platform) (EditsUnsaved platform) (started db course) actions) :
    Always (bulkStep platform) FlushKeepsBranches (started db course) actions := by
  have halways : Always (bulkStep platform) (Agrees course) (started db course) actions :=
    always_of_each (fun _ _ => bulkAction_agrees platform) (started_agrees course hallocated) heach
  exact halways.imp fun _ => Agrees.flushKeepsBranches

def plainRoot : BlockKey := ⟨"course", "course"⟩

def plainDatabase : Database where
  activeVersions := (∅ : Dict CourseKey CourseIndex).insert "course"
    { id := 2, versions := (∅ : Dict Branch ObjectId).insert "draft-branch" 0 }
  structures := (∅ : Dict ObjectId Structure).insert 0 (newStructure plainRoot ∅ (some []) 1 0)
  definitions := (∅ : Dict ObjectId Definition).insert 1 { blockType := "course", fields := ∅ }
  nextObjectId := 3

def cloneAndEdit (fields : PartitionedFields) : List BulkAction :=
  [⟨"draft-branch", none, .cloneCourse "course" fields plainRoot⟩,
    ⟨"draft-branch", none, .write (.createItem "chapter" (some "week_1") none {} [])⟩]

theorem plainDatabase_allocated : ∀ id ∈ plainDatabase.structures, id < plainDatabase.nextObjectId := by
  decide +kernel

/-- A clone whose fields are given starts with a structure of its own. -/
theorem flushKeepsBranches_renamedClone :
    Always (bulkStep plainPlatform) FlushKeepsBranches (started plainDatabase "clone")
      (cloneAndEdit { settings := (∅ : Fields).insert "display_name" "Clone" }) := by
  apply flushKeepsBranches_of_editsUnsaved plainDatabase_allocated
  refine ⟨fun _ _ _ _ hempty => absurd hempty (by decide), fun _ id hhead => ?_, trivial⟩
  have hown : (bulkStep plainPlatform (started plainDatabase "clone") ⟨"draft-branch", none, .cloneCourse "course"
        { settings := (∅ : Fields).insert "display_name" "Clone" } plainRoot⟩).record.head
          "draft-branch" = some 3 := by decide +kernel
  obtain rfl := some_unique hown hhead
  decide +kernel

def hasChapter (store : Store) : Bool :=
  (readBranch store "draft-branch").toOption.any fun envelope => ⟨"chapter", "week_1"⟩ ∈ envelope.2.blocks

theorem hasChapter_reopened (hkeep : FlushKeepsBranches store) (now : Timestamp) :
    hasChapter (reopened store now) = hasChapter store := by
  unfold hasChapter
  rw [hkeep now "draft-branch"]

/-- The branch of a clone is dirty, but points to the structure of the source; what is
edited there is not saved. -/
theorem not_flushKeepsBranches_clone :
    ¬ Always (bulkStep plainPlatform) FlushKeepsBranches (started plainDatabase "clone") (cloneAndEdit {}) := by
  rintro ⟨-, -, hkeeps⟩
  have hedited : hasChapter ((cloneAndEdit {}).foldl (bulkStep plainPlatform)
      (started plainDatabase "clone")) = true := by decide +kernel
  have hlost : hasChapter (reopened ((cloneAndEdit {}).foldl (bulkStep plainPlatform)
      (started plainDatabase "clone")) 10) = false := by decide +kernel
  exact false_ne_true (hlost.symm.trans ((hasChapter_reopened hkeeps.head 10).trans hedited))

end EdxPlatform.Split

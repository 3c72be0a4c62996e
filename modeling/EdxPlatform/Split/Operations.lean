import EdxPlatform.Split.Store

/-!
# Write operations

The operations of `SplitMongoModuleStore` on single blocks, and the creation of
courses.  Fields come partitioned by scope, and each operation runs in the bulk
operation of the course that it writes.
-/

namespace EdxPlatform.Split

/-- Fields by their scope; `children` is there if it was set. -/
structure PartitionedFields where
  content : Fields := ∅
  settings : Fields := ∅
  children : Option (List BlockKey) := none

def PartitionedFields.isEmpty (fields : PartitionedFields) : Bool :=
  fields.settings.entries.isEmpty && fields.children.isNone && fields.content.entries.isEmpty

/-- What the operations get from the block classes and the interpreter. -/
structure Platform where
  /-- Whether a block class has the tag `detached`. -/
  detached : String → Bool
  /-- The explicitly set fields of the course descriptor built from a root block
  and its definition, with the values set when it is initialised. -/
  courseFields : BlockData → Fields → PartitionedFields
  /-- The first 20 digits of the SHA-1 hash of the source course, block id and parent id. -/
  derivedId : CourseKey → Branch → String → String → String
  /-- The text of the usage key of a block, without branch and version. -/
  usageText : CourseKey → BlockKey → String
  /-- The order in which a set is iterated over. -/
  setOrder : List BlockKey → List BlockKey
  /-- How deep calls may nest. -/
  recursionLimit : Nat

def updateDefinition (id : ObjectId) (definition : Definition) : StoreM Unit :=
  modify fun store => { store with
    record := { store.record with
      definitions := store.record.definitions.insert id definition } }

/-- The definition with the given id, which is loaded into the record if it is not there. -/
def getDefinition (id : ObjectId) : StoreM Definition := fun store =>
  match store.record.definitions.lookup id, store.db.definitions.lookup id with
  | some definition, _ => .ok definition store
  | none, some definition =>
    .ok definition { store with
      record := { store.record with
        definitions := store.record.definitions.insert id definition
        definitionsInDb := id :: store.record.definitionsInDb } }
  | none, none => .error .typeError store

def createDefinitionFromData (newDefData : Fields) (category : String) : StoreM ObjectId := do
  let newId ← newObjectId
  updateDefinition newId { blockType := category, fields := newDefData }
  pure newId

/-- `_update_definition_from_data` -/
def reviseDefinition (id : ObjectId) (definition : Definition) (newDefData : Fields) :
    StoreM ObjectId := do
  let newId ← newObjectId
  updateDefinition newId { definition with fields := newDefData, previousVersion := some id }
  pure newId

def updateDefinitionFromData (id : ObjectId) (newDefData : Fields) : StoreM (ObjectId × Bool) := do
  let oldDefinition ← getDefinition id
  if Dict.same newDefData oldDefinition.fields then pure (id, false)
  else do
    let newId ← reviseDefinition id oldDefinition newDefData
    pure (newId, true)

/-! ## Items -/

section

variable (locator : CourseLocator)

/-- `_get_index_if_valid`, for its checks. -/
def checkIndexValid : StoreM Unit := do
  let index ← getCourseIndex locator.course
  match locator.versionGuid with
  | none => pure ()
  | some versionGuid => do
    let index ← orRaise index .typeError
    let head ← orRaise (index.versions.lookup locator.branch) .keyError
    raiseIf (head ≠ versionGuid) .versionConflictError

def getItem (blockKey : BlockKey) : StoreM BlockData := do
  let envelope ← lookupCourse locator
  orRaise (envelope.2.blocks.lookup blockKey) .itemNotFoundError

def CourseLocator.versionAgnostic : CourseLocator := { locator with versionGuid := none }

/-- The first free id made of the category and a serial number, from `serial` on. -/
def firstFreeKey (blocks : Blocks) (category : String) : Nat → Nat → BlockKey
  | 0, serial => ⟨category, category ++ toString serial⟩
  | tries + 1, serial =>
    let potentialKey : BlockKey := ⟨category, category ++ toString serial⟩
    if potentialKey ∈ blocks then firstFreeKey blocks category tries (serial + 1)
    else potentialKey

/-- `_generate_block_key`; more than one id for every block need not be tried. -/
def generateBlockKey (blocks : Blocks) (category : String) : BlockKey :=
  firstFreeKey blocks category blocks.keys.length 1

section

variable (blockType : String) (blockId : Option String)

def insertBlock (block : BlockData) :
    EStateM StoreError Structure BlockKey := do
  let struct ← get
  match blockId with
  | some blockId => do
    let blockKey : BlockKey := ⟨blockType, blockId⟩
    raiseIf (blockKey ∈ struct.blocks) .duplicateItemError
    set { struct with blocks := struct.blocks.insert blockKey block }
    pure blockKey
  | none => do
    let blockKey := generateBlockKey struct.blocks blockType
    set { struct with blocks := struct.blocks.insert blockKey block }
    pure blockKey

def itemDefinition (definitionLocator : Option ObjectId) (newDefData : Fields)
    (blockType : String) : StoreM ObjectId :=
  match definitionLocator with
  | none => createDefinitionFromData newDefData blockType
  | some id =>
    if newDefData.entries.isEmpty then pure id
    else do
      let revised ← updateDefinitionFromData id newDefData
      pure revised.1

def createItem (definitionLocator : Option ObjectId) (fields : PartitionedFields) (asides : List Aside) :
    StoreM BlockKey := do
  checkIndexValid locator
  let envelope ← lookupCourse locator
  let definition ← itemDefinition definitionLocator fields.content blockType
  let created ← editVersion locator.branch envelope fun newId => insertBlock blockType blockId
    (newBlock fields.settings fields.children definition newId asides)
  let _ ← getItem locator.versionAgnostic created.2
  pure created.2

/-- `list.insert`, which takes positions from the end if they are negative. -/
def insertAt {α : Type} (values : List α) (position : Int) (value : α) : List α :=
  let index := if position < 0 then (values.length + position).toNat else position.toNat
  values.take index ++ value :: values.drop index

def BlockData.addChild (block : BlockData) (child : BlockKey) (position : Option Int) :
    BlockData :=
  { block with
    children := some (match position with
      | none => block.childKeys ++ [child]
      | some position => insertAt block.childKeys position child) }

/-- Adds a child to a block of the structure `newId`. -/
def attachChild (parent child : BlockKey) (position : Option Int) (newId : ObjectId) :
    EStateM StoreError Structure Unit := do
  let struct ← get
  let block ← orRaise (struct.blocks.lookup parent) .itemNotFoundError
  set { struct with
    blocks := struct.blocks.insert parent (versionBlock (block.addChild child position) newId) }

def createChild (platform : Platform) (locator : CourseLocator) (parent : BlockKey)
    (blockType : String) (blockId : Option String) (fields : PartitionedFields)
    (asides : List Aside) (position : Option Int) : StoreM BlockKey := do
  let blockKey ← createItem locator blockType blockId none fields asides
  if platform.detached blockType then pure blockKey
  else do
    -- the structure was versioned by `create_item`
    let envelope ← lookupCourse locator.versionAgnostic
    editStructure envelope.1 (attachChild parent blockKey position envelope.1)
    pure blockKey

/-- `_get_asides_to_update_from_structure`: the asides with those of the given types replaced. -/
def asidesToUpdate (existing asides : List Aside) : List Aside :=
  let byType : Dict String Aside := Dict.ofList (asides.map fun aside => (aside.asideType, aside))
  let replaced := existing.foldl (fun (result : List Aside × Dict String Aside) aside =>
      match result.2.lookup aside.asideType with
      | some new => (result.1 ++ [new], result.2.erase aside.asideType)
      | none => (result.1 ++ [aside], result.2)) ([], byType)
  replaced.1 ++ replaced.2.entries.map fun entry => entry.2

def fieldsUpdated (original : BlockData) (definitionUpdated : Bool) (fields : PartitionedFields) :
    Bool :=
  definitionUpdated || !Dict.same fields.settings original.settings || fields.children.any (original.childKeys ≠ ·)

/-- The block with the fields of an update.  The children are put among the settings
only if more than the asides is updated. -/
def BlockData.update (block : BlockData) (definition : ObjectId) (isUpdated : Bool)
    (fields : PartitionedFields) (asides : List Aside) : BlockData :=
  { block with
    definition := definition
    settings := fields.settings
    children := if isUpdated then fields.children else none
    asides := if asides.isEmpty then block.asides else asidesToUpdate block.asides asides
    editInfo := { block.editInfo with sourceVersion := none } }

def updatedDefinition (original : BlockData) (definitionLocator : Option ObjectId)
    (definitionFields : Fields) : StoreM (ObjectId × Bool) :=
  let definition := definitionLocator.getD original.definition
  if definitionFields.entries.isEmpty then pure (definition, false)
  else updateDefinitionFromData definition definitionFields

/-- Replaces a block of the structure `newId`, which must be there. -/
def replaceBlock (blockKey : BlockKey) (newId : ObjectId) (change : BlockData → BlockData) :
    EStateM StoreError Structure Unit := do
  let struct ← get
  let block ← orRaise (struct.blocks.lookup blockKey) .attributeError
  set { struct with blocks := struct.blocks.insert blockKey (versionBlock (change block) newId) }

/-- The part of `_update_item_from_fields` for a block that is there. -/
def updateBlock (envelope : ObjectId × Structure) (blockKey : BlockKey)
    (original : BlockData) (fields : PartitionedFields) (definitionLocator : Option ObjectId)
    (asides : List Aside) : StoreM Unit := do
  let definition ← updatedDefinition original definitionLocator fields.content
  let isUpdated := fieldsUpdated original definition.2 fields
  if isUpdated || !asides.isEmpty then do
    let edited ← editVersion locator.branch envelope fun newId =>
      replaceBlock blockKey newId fun block => block.update definition.1 isUpdated fields asides
    let _ ← getItem { locator with versionGuid := some edited.1 } blockKey
    pure ()
  else pure ()

/-- `_update_item_from_fields`; without a block id the block has a local id. -/
def updateItem (fields : PartitionedFields) (definitionLocator : Option ObjectId) (allowNotFound : Bool)
    (asides : List Aside) : StoreM Unit :=
  match blockId with
  | none =>
    if allowNotFound then do
      let _ ← createItem locator blockType none none fields asides
      pure ()
    else do
      let _ ← lookupCourse locator
      checkIndexValid locator
      throw .itemNotFoundError
  | some blockId => do
    let envelope ← lookupCourse locator
    checkIndexValid locator
    match envelope.2.blocks.lookup ⟨blockType, blockId⟩ with
    | some original => updateBlock locator envelope ⟨blockType, blockId⟩ original fields definitionLocator asides
    | none =>
      if allowNotFound then do
        let _ ← createItem locator blockType (some blockId) none fields asides
        pure ()
      else throw .itemNotFoundError

end

def nextTier (blocks : Blocks) (toDelete : List BlockKey) : List BlockKey → Except StoreError (List BlockKey)
  | [] => .ok []
  | blockKey :: tier =>
    match blocks.lookup blockKey with
    | none => .error .keyError
    | some block =>
      (nextTier blocks toDelete tier).map fun rest =>
        (block.childKeys.filter fun child => (getParentsFromStructure child blocks).all (· ∈ toDelete)) ++ rest

/-- The tiers of a subtree to delete, of which there is at most one for every block. -/
def tiersToDelete (blocks : Blocks) : Nat → List BlockKey → List BlockKey → Except StoreError (List BlockKey)
  | 0, _, _ => .error .endlessLoop
  | tiers + 1, tier, toDelete =>
    if tier.isEmpty then .ok toDelete
    else
      match nextTier blocks toDelete tier with
      | .error error => .error error
      | .ok next => tiersToDelete blocks tiers next (toDelete ++ next)

/-- `_remove_subtree`: only blocks without other parents are removed. -/
def removeSubtree (root : BlockKey) : EStateM StoreError Structure Unit := do
  let struct ← get
  match tiersToDelete struct.blocks (struct.blocks.keys.length + 1) [root] [root] with
  | .error error => throw error
  | .ok toDelete =>
    set { struct with
      blocks := toDelete.foldl (fun (blocks : Blocks) blockKey => blocks.erase blockKey) struct.blocks }

/-- The parent of a deleted block, as edited in the structure `newId`. -/
def BlockData.removeChild (block : BlockData) (child : BlockKey) (newId : ObjectId) : BlockData :=
  { block with
    children := block.children.map fun children => children.erase child
    editInfo := { block.editInfo with
      previousVersion := block.editInfo.updateVersion
      updateVersion := some newId
      sourceVersion := none } }

def unlinkFrom (child : BlockKey) (newId : ObjectId) (parent : BlockKey) :
    EStateM StoreError Structure Unit := do
  let struct ← get
  let block ← orRaise (struct.blocks.lookup parent) .keyError
  set { struct with blocks := struct.blocks.insert parent (block.removeChild child newId) }

def removeBlock (blockKey : BlockKey) (parents : List BlockKey) (newId : ObjectId) :
    EStateM StoreError Structure Unit := do
  parents.forM (unlinkFrom blockKey newId)
  removeSubtree blockKey

def deleteItem (blockKey : BlockKey) : StoreM Unit := do
  let envelope ← lookupCourse locator
  raiseIf (envelope.2.root = blockKey) .valueError
  raiseIf (blockKey ∉ envelope.2.blocks) .valueError
  checkIndexValid locator
  let _ ← editVersion locator.branch envelope
    (removeBlock blockKey (getParentsFromStructure blockKey envelope.2.blocks))
  pure ()

end

/-- `_new_structure`, with the root as its only block. -/
def newStructure (root : BlockKey) (settings : Fields) (children : Option (List BlockKey))
    (definition newId : ObjectId) : Structure :=
  { root := root
    blocks := (∅ : Blocks).insert root (newBlock settings children definition newId) }

/-- Overrides the fields of the root of the structure `newId`. -/
def overrideRoot (fields : PartitionedFields) (newId : ObjectId) : StoreM Unit := do
  let (root, block) ← editStructure newId do
    let struct ← get
    let block ← orRaise (struct.blocks.lookup struct.root) .keyError
    let updated : BlockData :=
      { block with
        settings := Dict.update block.settings fields.settings
        children := fields.children.or block.children }
    set { struct with blocks := struct.blocks.insert struct.root updated }
    pure (struct.root, updated)
  let oldDefinition ← getDefinition block.definition
  let newFields := Dict.update oldDefinition.fields fields.content
  -- the fields of the old definition are updated in place
  updateDefinition block.definition { oldDefinition with fields := newFields }
  let definition ← reviseDefinition block.definition oldDefinition newFields
  editStructure newId (modify fun struct => { struct with
    blocks := struct.blocks.insert root { block with
      definition := definition
      editInfo := { block.editInfo with
        previousVersion := block.editInfo.updateVersion
        updateVersion := some newId } } })

def courseStructure (branch : Branch) (fields : PartitionedFields) (versionGuid : Option ObjectId)
    (root : BlockKey) : StoreM ObjectId := do
  match versionGuid with
  | none => do
    let definition ← createDefinitionFromData fields.content root.type
    let newId ← newObjectId
    updateStructure newId (newStructure root fields.settings fields.children definition newId)
    pure newId
  | some versionGuid => do
    -- a locator with a version only is looked up outside of the bulk operation
    let store ← get
    let struct ← orRaise (store.db.structures.lookup versionGuid) .typeError
    if fields.isEmpty then do
      updateStructure versionGuid struct
      pure versionGuid
    else do
      let newId ← versionStructure branch versionGuid struct
      overrideRoot fields newId
      pure newId

/-- Saves the values that the course descriptor has after it was initialised. -/
def updateCourse (platform : Platform) (locator : CourseLocator) : StoreM Unit := do
  let envelope ← lookupCourse locator
  let block ← orRaise (envelope.2.blocks.lookup envelope.2.root) .itemNotFoundError
  let definition ← getDefinition block.definition
  updateItem locator envelope.2.root.type (some envelope.2.root.id)
    (platform.courseFields block definition.fields) (some block.definition) false []

/-- `_create_courselike` -/
def createCourse (platform : Platform) (locator : CourseLocator) (fields : PartitionedFields)
    (versionsDict : Option (Dict Branch ObjectId)) (root : BlockKey) : StoreM Unit := do
  let index ← getCourseIndex locator.course
  raiseIf index.isSome .duplicateCourseError
  let versions := versionsDict.getD ∅
  let newId ← courseStructure locator.branch fields (versions.lookup locator.branch) root
  let indexId ← newObjectId
  modify fun store => { store with
    record := { store.record with
      index := some { id := indexId, versions := versions.insert locator.branch newId } } }
  updateCourse platform { locator with versionGuid := some newId }

def cloneCourse (platform : Platform) (source : CourseKey) (locator : CourseLocator)
    (fields : PartitionedFields) (root : BlockKey) : StoreM Unit := do
  let index ← getCourseIndex source
  let index ← orRaise index .itemNotFoundError
  createCourse platform locator fields (some index.versions) root

end EdxPlatform.Split

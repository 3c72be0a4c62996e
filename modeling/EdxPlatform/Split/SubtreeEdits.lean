import EdxPlatform.Split.Operations

/-!
# Edit times of subtrees

`get_subtree_edited_on` and `get_subtree_edited_by` look for the latest edit in a subtree, and
memoise what they find in the editing info of each of its blocks and in the descriptor.  The
editing info is copied into the next version of a structure as it is.
-/

namespace EdxPlatform.Split

abbrev UserId := Int

/-- A `BlockData` object with the rest of its editing info: who edited the block and when, and
what is memoised of its subtree. -/
structure EditedBlock where
  data : BlockData
  editedOn : Timestamp
  editedBy : Option UserId
  subtreeEditedOn : Option Timestamp := none
  subtreeEditedBy : Option UserId := none

/-- A descriptor: the runtime that it was loaded in, and the attributes for its subtree once they
are set. -/
structure Descriptor where
  runtime : Nat
  subtreeEditedOn : Option Timestamp := none
  subtreeEditedBy : Option (Option UserId) := none

/-- The head of a branch in a bulk operation.  `blocks` and the `module_data` of runtimes refer to
objects; runtimes and descriptors are those of the head's version. -/
structure EditRecord where
  objects : Dict Nat EditedBlock
  root : BlockKey
  head : ObjectId
  dirty : Bool
  blocks : Dict BlockKey Nat
  runtimes : Dict Nat (Dict BlockKey Nat) := ∅
  courseCache : Option Nat := none
  modules : Dict BlockKey Descriptor := ∅
  /-- Numbers from here on are not in use. -/
  next : Nat
  /-- Whether runtimes are kept in a request cache. -/
  requestCache : Bool

abbrev RecordM := EStateM StoreError EditRecord

namespace EditRecord

def block (state : EditRecord) (key : BlockKey) : Option EditedBlock :=
  (state.blocks.lookup key).bind fun ref => state.objects.lookup ref

def structureBlocks (state : EditRecord) : Blocks :=
  Dict.ofList (state.blocks.keys.filterMap fun key => (state.block key).map fun block => (key, block.data))

/-- The record that an edit works on.  The first edit copies the objects, which keep their numbers
here, and leaves runtimes and descriptors of the old version behind. -/
def versioned (state : EditRecord) : EditRecord :=
  if state.dirty then state
  else
    { state with
      head := state.next
      dirty := true
      runtimes := ∅
      courseCache := none
      modules := ∅
      next := state.next + 1 }

end EditRecord

def getObject (ref : Nat) : RecordM EditedBlock := do
  let state ← get
  orRaise (state.objects.lookup ref) .attributeError

def modifyObject (ref : Nat) (change : EditedBlock → EditedBlock) : RecordM Unit :=
  modify fun state => { state with objects := Dict.modify ref change state.objects }

/-- `get_module_data`, which loads a block of the structure into the runtime. -/
def getModuleData (runtime : Nat) (key : BlockKey) : RecordM Nat := do
  let state ← get
  match ((state.runtimes.lookup runtime).getD ∅).lookup key with
  | some ref => pure ref
  | none => do
    let ref ← orRaise (state.blocks.lookup key) .itemNotFoundError
    set { state with
      runtimes := Dict.modify runtime (fun moduleData => moduleData.insert key ref) state.runtimes }
    pure ref

/-- `load_item` of a runtime: the descriptor is kept if it was not there. -/
def loadItem (runtime : Nat) (key : BlockKey) : RecordM Unit := do
  let state ← get
  if key ∈ state.modules then pure ()
  else do
    let _ ← getModuleData runtime key
    modify fun state => { state with
      modules := state.modules.insert key { runtime := runtime } }

/-- A new runtime for the head's version.  It begins with the blocks that are there of those to be
loaded. -/
def EditRecord.createRuntime (state : EditRecord) (preloaded : List BlockKey) : EditRecord :=
  { state with
    runtimes := state.runtimes.insert state.next (Dict.ofList (preloaded.filterMap fun key =>
      (state.blocks.lookup key).map fun ref => (key, ref)))
    courseCache := if state.requestCache then some state.next else none
    next := state.next + 1 }

def courseRuntime (preloaded : List BlockKey) : RecordM Nat := do
  let state ← get
  match state.courseCache with
  | some runtime => pure runtime
  | none => do
    set (state.createRuntime preloaded)
    pure state.next

/-- `get_item`; `descendants` are the other blocks within the depth that it is called with. -/
def EditRecord.getItem (key : BlockKey) (descendants : List BlockKey) : RecordM Unit := do
  let runtime ← courseRuntime (key :: descendants)
  loadItem runtime key

/-- `get_item` of a child, in the runtime of the descriptor of its parent. -/
def getChild (parent key : BlockKey) : RecordM Unit := do
  let state ← get
  let descriptor ← orRaise (state.modules.lookup parent) .attributeError
  loadItem descriptor.runtime key

/-! ## The latest edit of a subtree -/

/-- A child takes over if its subtree was edited later; an unknown time cannot be compared. -/
def laterEdit (latest : Timestamp × Option UserId) (child : EditedBlock) : RecordM (Timestamp × Option UserId) :=
  match child.subtreeEditedOn with
  | none => throw .typeError
  | some editedOn => pure (if latest.1 < editedOn then (editedOn, child.subtreeEditedBy) else latest)

/-- The loop over the children of the object `ref`; `compute` goes on with the object of a child. -/
def latestOfChildren (compute : Nat → RecordM Unit) (runtime ref : Nat) :
    List BlockKey → Timestamp × Option UserId → RecordM (Timestamp × Option UserId)
  | [], latest => pure latest
  | child :: children, latest => do
    let childRef ← getModuleData runtime child
    let block ← getObject ref
    -- the test is about the block, not about its child
    (if block.subtreeEditedOn.isNone then compute childRef else pure () : RecordM Unit)
    let childBlock ← getObject childRef
    let latest ← laterEdit latest childBlock
    latestOfChildren compute runtime ref children latest

/-- `_compute_subtree_edited_internal`, for so many levels. -/
def computeSubtreeEdited (runtime : Nat) : Nat → Nat → RecordM Unit
  | 0, _ => throw .runtimeError
  | levels + 1, ref => do
    let block ← getObject ref
    let latest ← latestOfChildren (computeSubtreeEdited runtime levels) runtime ref
      block.data.childKeys (block.editedOn, block.editedBy)
    modifyObject ref fun block => { block with
      subtreeEditedOn := some latest.1
      subtreeEditedBy := latest.2 }

/-- The computation for a descriptor.  There are at most as many levels as blocks, or it recurses
until Python raises. -/
def computeSubtree (descriptor : Descriptor) (ref : Nat) : RecordM Unit := do
  let state ← get
  computeSubtreeEdited descriptor.runtime (state.blocks.keys.length + 1) ref

section

variable (descriptor : Descriptor) (key : BlockKey)

def descriptorObject : RecordM Nat := do
  let state ← get
  orRaise (((state.runtimes.lookup descriptor.runtime).getD ∅).lookup key) .keyError

/-- The attribute is set to what the object has, which is computed if it has nothing. -/
def setSubtreeEditedOn : RecordM (Option Timestamp) := do
  let ref ← descriptorObject descriptor key
  let block ← getObject ref
  (if block.subtreeEditedOn.isNone then computeSubtree descriptor ref else pure () : RecordM Unit)
  let block ← getObject ref
  modify fun state => { state with
    modules := Dict.modify key (fun descriptor => { descriptor with
      subtreeEditedOn := block.subtreeEditedOn }) state.modules }
  pure block.subtreeEditedOn

/-- `get_subtree_edited_on` of the descriptor of a block. -/
def getSubtreeEditedOn (key : BlockKey) : RecordM (Option Timestamp) := do
  let state ← get
  let descriptor ← orRaise (state.modules.lookup key) .attributeError
  match descriptor.subtreeEditedOn with
  | some editedOn => pure (some editedOn)
  | none => setSubtreeEditedOn descriptor key

def setSubtreeEditedBy : RecordM (Option UserId) := do
  let ref ← descriptorObject descriptor key
  let block ← getObject ref
  (if block.subtreeEditedBy.isNone then computeSubtree descriptor ref else pure () : RecordM Unit)
  let block ← getObject ref
  modify fun state => { state with
    modules := Dict.modify key (fun descriptor => { descriptor with
      subtreeEditedBy := some block.subtreeEditedBy }) state.modules }
  pure block.subtreeEditedBy

end

/-- `get_subtree_edited_by` of the descriptor of a block. -/
def getSubtreeEditedBy (key : BlockKey) : RecordM (Option UserId) := do
  let state ← get
  let descriptor ← orRaise (state.modules.lookup key) .attributeError
  match descriptor.subtreeEditedBy with
  | some editedBy => pure editedBy
  | none => setSubtreeEditedBy descriptor key

/-! ## Edits -/

/-- Who edits, and when. -/
structure Edit where
  user : Option UserId
  now : Timestamp

/-- `version_block` -/
def EditedBlock.version (edit : Edit) (newId : ObjectId) (block : EditedBlock) : EditedBlock :=
  if block.data.editInfo.updateVersion = some newId then block
  else
    { block with
      data := versionBlock block.data newId
      editedOn := edit.now
      editedBy := edit.user }

/-- `version_structure`, with the id of the version. -/
def EditRecord.versionStructure : RecordM ObjectId := do
  let state ← get
  set state.versioned
  pure state.versioned.head

/-- `update_structure`, for the cached runtime. -/
def clearCourseCache : RecordM Unit := modify fun state => { state with courseCache := none }

/-- `decache_block` -/
def decacheBlock (key : BlockKey) : RecordM Unit :=
  modify fun state => { state with modules := state.modules.erase key }

section

variable (edit : Edit) (key : BlockKey)

/-- `update_item`, with the definition that it ends up with and whether that is a new one. -/
def EditRecord.updateItem (definition : ObjectId)
    (definitionUpdated : Bool) (fields : PartitionedFields) (asides : List Aside) :
    RecordM Unit := do
  let state ← get
  let ref ← orRaise (state.blocks.lookup key) .itemNotFoundError
  let original ← getObject ref
  let isUpdated := fieldsUpdated original.data definitionUpdated fields
  if isUpdated || !asides.isEmpty then do
    let newId ← EditRecord.versionStructure
    modifyObject ref fun block =>
      { block with data := block.data.update definition isUpdated fields asides }.version edit newId
    clearCourseCache
    EditRecord.getItem key []
  else pure ()

/-- `create_item`, with the key that is given or was generated. -/
def EditRecord.createItem (definition : ObjectId)
    (fields : PartitionedFields) (asides : List Aside) : RecordM Unit := do
  let newId ← EditRecord.versionStructure
  let state ← get
  raiseIf (key ∈ state.blocks) .duplicateItemError
  set { state with
    objects := state.objects.insert state.next
      { data := newBlock fields.settings fields.children definition newId asides
        editedOn := edit.now
        editedBy := edit.user }
    blocks := state.blocks.insert key state.next
    next := state.next + 1 }
  clearCourseCache
  EditRecord.getItem key []

/-- `create_child` of a block that is not detached. -/
def EditRecord.createChild (edit : Edit) (parent key : BlockKey) (definition : ObjectId)
    (fields : PartitionedFields) (asides : List Aside) (position : Option Int) : RecordM Unit := do
  EditRecord.createItem edit key definition fields asides
  let state ← get
  let ref ← orRaise (state.blocks.lookup parent) .itemNotFoundError
  modifyObject ref fun block => { block with data := block.data.addChild key position }.version edit state.head
  decacheBlock parent
  clearCourseCache

def unlinkEdited (newId : ObjectId) (parent : BlockKey) :
    RecordM Unit := do
  let state ← get
  let ref ← orRaise (state.blocks.lookup parent) .keyError
  modifyObject ref fun block =>
    { block with
      data := block.data.removeChild key newId
      editedOn := edit.now
      editedBy := edit.user }
  decacheBlock parent

/-- `_remove_subtree` -/
def removeEdited (key : BlockKey) : RecordM Unit := do
  let state ← get
  match tiersToDelete state.structureBlocks (state.blocks.keys.length + 1) [key] [key] with
  | .error error => throw error
  | .ok toDelete =>
    set { state with
      blocks := toDelete.foldl (fun (blocks : Dict BlockKey Nat) removed => blocks.erase removed) state.blocks }

def EditRecord.deleteItem : RecordM Unit := do
  let state ← get
  raiseIf (state.root = key) .valueError
  raiseIf (key ∉ state.blocks) .valueError
  let newId ← EditRecord.versionStructure
  (getParentsFromStructure key state.structureBlocks).forM (unlinkEdited edit key newId)
  removeEdited key
  clearCourseCache

end

/-- What happens to a branch within a bulk operation. -/
inductive SubtreeEvent where
  | getItem (key : BlockKey) (descendants : List BlockKey)
  | getChild (parent key : BlockKey)
  | getSubtreeEditedOn (key : BlockKey)
  | getSubtreeEditedBy (key : BlockKey)
  | updateItem (edit : Edit) (key : BlockKey) (definition : ObjectId) (definitionUpdated : Bool)
      (fields : PartitionedFields) (asides : List Aside)
  | createItem (edit : Edit) (key : BlockKey) (definition : ObjectId) (fields : PartitionedFields)
      (asides : List Aside)
  | createChild (edit : Edit) (parent key : BlockKey) (definition : ObjectId)
      (fields : PartitionedFields) (asides : List Aside) (position : Option Int)
  | deleteItem (edit : Edit) (key : BlockKey)

def SubtreeEvent.run : SubtreeEvent → RecordM Unit
  | .getItem key descendants => EditRecord.getItem key descendants
  | .getChild parent key => Split.getChild parent key
  | .getSubtreeEditedOn key => do
    let _ ← Split.getSubtreeEditedOn key
    pure ()
  | .getSubtreeEditedBy key => do
    let _ ← Split.getSubtreeEditedBy key
    pure ()
  | .updateItem edit key definition definitionUpdated fields asides =>
    EditRecord.updateItem edit key definition definitionUpdated fields asides
  | .createItem edit key definition fields asides => EditRecord.createItem edit key definition fields asides
  | .createChild edit parent key definition fields asides position =>
    EditRecord.createChild edit parent key definition fields asides position
  | .deleteItem edit key => EditRecord.deleteItem edit key

namespace EditRecord

def step (state : EditRecord) (event : SubtreeEvent) : EditRecord :=
  match event.run state with
  | .ok _ next => next
  | .error _ next => next

end EditRecord

end EdxPlatform.Split

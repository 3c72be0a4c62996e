import EdxPlatform.Lib.Programs
import EdxPlatform.Split.Operations

/-!
# Copying

`copy` brings subtrees of one branch to another, and `copy_from_template` makes
copies of blocks that inherit the settings of their sources.  The source blocks
may be those that are being written, when both branches have one structure.
-/

namespace EdxPlatform.Split

/-- The blocks that are not to be copied; `all` is `EXCLUDE_ALL`. -/
inductive Blacklist where
  | all
  | keys (blacklist : List BlockKey)

def Blacklist.excludes : Blacklist → BlockKey → Bool
  | .all, _ => true
  | .keys blacklist, blockKey => decide (blockKey ∈ blacklist)

/-- The blocks of a source, which are those of the destination if the two are one object. -/
def sourceBlocks (shared : Bool) (source destination : Blocks) : Blocks :=
  if shared then destination else source

/-! ## Copying a subtree -/

/-- The children of a block that is copied over another: position by position those
of the source that are copied, or stand for the first time and are there already. -/
def reorderedChildren (sourceChildren existingChildren : List BlockKey) (blacklist : Blacklist) : List BlockKey :=
  sourceChildren.zipIdx.filterMap fun (child, index) =>
    if !blacklist.excludes child || (child ∈ existingChildren && sourceChildren.idxOf child = index) then
      some child
    else none

def EditInfo.origin (editInfo : EditInfo) : Option ObjectId := editInfo.sourceVersion.or editInfo.updateVersion

def overwrittenBlock (source destination : BlockData) (destinationVersion : ObjectId)
    (blacklist : Blacklist) : BlockData :=
  { source with
    children := some (reorderedChildren source.childKeys destination.childKeys blacklist)
    editInfo := { source.editInfo with
      previousVersion := destination.editInfo.updateVersion
      updateVersion := some destinationVersion
      sourceVersion := source.editInfo.origin } }

def addedBlock (source : BlockData) (destinationVersion : ObjectId) (blacklist : Blacklist) :
    BlockData :=
  { newBlock source.settings
      (some (source.childKeys.filter fun child => !blacklist.excludes child)) source.definition
      destinationVersion [] source.defaults with
    editInfo := { source.editInfo with
      updateVersion := some destinationVersion
      sourceVersion := source.editInfo.origin } }

section

variable (source : BlockData) (destination : Option BlockData)

def copiedBlock (destinationVersion : ObjectId) (blacklist : Blacklist) : BlockData :=
  match destination with
  | some destination => overwrittenBlock source destination destinationVersion blacklist
  | none => addedBlock source destinationVersion blacklist

def discoveredOrphans : List BlockKey :=
  match destination with
  | some destination => destination.childKeys.filter (· ∉ source.childKeys)
  | none => []

end

/-- Updates the blocks below `blockKey`, and returns the orphans that this makes. -/
def copySubdag (shared : Bool) (destinationVersion : ObjectId) (source : Blocks)
    (blacklist : Blacklist) : Nat → BlockKey → EStateM StoreError Structure (List BlockKey)
  | 0, _ => throw .runtimeError
  | depth + 1, blockKey => do
    let struct ← get
    let newBlock ← orRaise ((sourceBlocks shared source struct.blocks).lookup blockKey) .keyError
    let destination := struct.blocks.lookup blockKey
    let block := copiedBlock newBlock destination destinationVersion blacklist
    let orphans ← collect (copySubdag shared destinationVersion source blacklist depth)
      (block.childKeys.filter fun child => !blacklist.excludes child)
    modify fun struct => { struct with blocks := struct.blocks.insert blockKey block }
    pure (discoveredOrphans newBlock destination ++ orphans.flatten)

/-- `_sync_children`: reorders the children of a parent, and returns those that are
no longer in the source. -/
def syncChildren (shared : Bool) (source : Blocks) (newChild parent : BlockKey) :
    EStateM StoreError Structure (List BlockKey) := do
  let struct ← get
  let destinationParent ← orRaise (struct.blocks.lookup parent) .keyError
  let destinationChildren ← orRaise destinationParent.children .keyError
  let sourceParent ← orRaise ((sourceBlocks shared source struct.blocks).lookup parent) .keyError
  let sourceChildren ← orRaise sourceParent.children .keyError
  set { struct with
    blocks := struct.blocks.insert parent { destinationParent with
        children := some (sourceChildren.filter fun child => child = newChild || child ∈ destinationChildren) } }
  pure (destinationChildren.filter (· ∉ sourceChildren))

/-- Puts the root of a subtree among the children of its parents, one of which must
be in the destination unless it has none. -/
def syncParents (shared : Bool) (source : Blocks) (sourceRoot subtreeRoot : BlockKey) :
    EStateM StoreError Structure (List BlockKey) := do
  if subtreeRoot = sourceRoot then pure []
  else do
    let struct ← get
    let parents := getParentsFromStructure subtreeRoot (sourceBlocks shared source struct.blocks)
    let found := parents.filter (· ∈ struct.blocks)
    let orphans ← collect (syncChildren shared source subtreeRoot) found
    raiseIf (!parents.isEmpty && found.isEmpty) .itemNotFoundError
    pure orphans.flatten

/-- Deletes a block without parents, and its descendants that have no others. -/
def deleteIfTrueOrphan : Nat → BlockKey → EStateM StoreError Structure Unit
  | 0, _ => throw .runtimeError
  | depth + 1, orphan => do
    let struct ← get
    if (getParentsFromStructure orphan struct.blocks).isEmpty then do
      let orphanData ← orRaise (struct.blocks.lookup orphan) .keyError
      set { struct with blocks := struct.blocks.erase orphan }
      orphanData.childKeys.forM (deleteIfTrueOrphan depth)
    else pure ()

section

variable (platform : Platform)

/-- Copies subtrees into the structure `destinationVersion`. -/
def copySubtrees (shared : Bool) (destinationVersion : ObjectId)
    (source : Structure) (subtrees : List BlockKey) (blacklist : Blacklist) :
    EStateM StoreError Structure Unit := do
  let orphans ← collect (fun subtreeRoot => do
    let synced ← syncParents shared source.blocks source.root subtreeRoot
    let copied ← copySubdag shared destinationVersion source.blocks blacklist platform.recursionLimit subtreeRoot
    pure (synced ++ copied)) subtrees
  (platform.setOrder orphans.flatten).forM (deleteIfTrueOrphan platform.recursionLimit)

def editedStructure (struct : Structure) (edit : EStateM StoreError Structure Unit) : StoreM Structure :=
  match edit struct with
  | .ok _ edited => pure edited
  | .error error _ => throw error

def copy (sourceCourse destinationCourse : CourseLocator)
    (subtrees : List BlockKey) (blacklist : Blacklist) : StoreM Unit := do
  let source ← lookupCourse sourceCourse
  let index ← getCourseIndex destinationCourse.course
  let index ← orRaise index .itemNotFoundError
  if destinationCourse.branch ∈ index.versions then do
    let destination ← lookupCourse destinationCourse
    let _ ← editVersion destinationCourse.branch destination fun newId =>
      let shared := sourceCourse.course = destinationCourse.course && source.1 = newId
      copySubtrees platform shared newId source.2 subtrees blacklist
    pure ()
  else do
    -- the root of the course has to be copied if there is no branch yet
    raiseIf (source.2.root ∉ subtrees) .itemNotFoundError
    let rootSource ← orRaise (source.2.blocks.lookup source.2.root) .keyError
    let newId ← newObjectId
    let struct ← editedStructure (newStructure source.2.root ∅ none rootSource.definition newId)
      (copySubtrees platform false newId source.2 subtrees blacklist)
    updateStructure newId struct
    updateHead destinationCourse.branch newId

/-! ## Copying from a template -/

/-- The source of a template copy. -/
structure TemplateKey where
  course : CourseLocator
  block : BlockKey

/-- The structures of source courses, and whether each is that of the destination. -/
abbrev SourceStructures := List (CourseLocator × Bool × Structure)

def SourceStructures.blocks (sources : SourceStructures) (course : CourseLocator) (destination : Blocks) : Blocks :=
  match sources.lookup course with
  | none => ∅
  | some (shared, source) => sourceBlocks shared source.blocks destination

/-- The descendants of a block, itself included, added to those found before. -/
def descendants (blocks : Blocks) : Nat → BlockKey → List BlockKey → Except StoreError (List BlockKey)
  | 0, _, _ => .error .runtimeError
  | depth + 1, blockKey, found =>
    match blocks.lookup blockKey with
    | none => .ok found
    | some block =>
      block.childKeys.foldlM (fun found child => descendants blocks depth child found) (found ++ [blockKey])

/-- The settings that a copy of a block inherits; those of a problem leave out `markdown`. -/
def inheritedDefaults (blockKey : BlockKey) (settings : Fields) : Fields :=
  if blockKey.type = "problem" then settings.erase "markdown" else settings

/-- The copy of a source block, over the one of an earlier copy if there is one. -/
def templateBlock (key : TemplateKey) (source : BlockData)
    (existing : Option BlockData) (destinationVersion : ObjectId) : BlockData :=
  let editInfo := (existing.map BlockData.editInfo).getD {}
  { source with
    defaults := inheritedDefaults key.block source.settings
    settings := (existing.map BlockData.settings).getD ∅
    children := existing.bind BlockData.children
    editInfo := { editInfo with
      previousVersion := editInfo.updateVersion
      updateVersion := some destinationVersion
      originalUsage := some (platform.usageText key.course.course key.block)
      originalUsageVersion := source.editInfo.updateVersion } }

def derivedKey (key : TemplateKey) (newParent : BlockKey) : BlockKey :=
  ⟨key.block.type, platform.derivedId key.course.course key.course.branch key.block.id newParent.id⟩

def setChildren (parent : BlockKey) (children : List BlockKey) :
    EStateM StoreError Structure Unit := do
  let struct ← get
  let block ← orRaise (struct.blocks.lookup parent) .keyError
  set { struct with blocks := struct.blocks.insert parent { block with children := some children } }

/-- Copies blocks and their subtrees below a parent, and returns the new descendants. -/
def copyTemplates (platform : Platform) (sources : SourceStructures) (destinationVersion : ObjectId) :
    Nat → List TemplateKey → BlockKey → EStateM StoreError Structure (List BlockKey)
  | 0, _, _ => throw .runtimeError
  | depth + 1, keys, newParent => do
    let copied ← collect (fun key => do
      let struct ← get
      let source ← orRaise ((sources.blocks key.course struct.blocks).lookup key.block) .itemNotFoundError
      let newKey := derivedKey platform key newParent
      let block := templateBlock platform key source (struct.blocks.lookup newKey) destinationVersion
      set { struct with blocks := struct.blocks.insert newKey block }
      if source.childKeys.isEmpty then pure (newKey, [newKey])
      else do
        let below ← copyTemplates platform sources destinationVersion depth
          (source.childKeys.map fun child => { key with block := child }) newKey
        pure (newKey, newKey :: below)) keys
    setChildren newParent (copied.map Prod.fst)
    pure (copied.map Prod.snd).flatten

/-- The edit info of the parent, and the end of the descendants that were not copied again. -/
def finishTemplates (blockKey : BlockKey) (oldVersion : ObjectId) (orphans : List BlockKey) :
    EStateM StoreError Structure Unit := do
  let struct ← get
  let block ← orRaise (struct.blocks.lookup blockKey) .keyError
  let blocks := struct.blocks.insert blockKey { block with
    editInfo := { block.editInfo with
      previousVersion := block.editInfo.updateVersion
      updateVersion := some oldVersion } }
  set { struct with
    blocks := orphans.foldl (fun (blocks : Blocks) orphan => blocks.erase orphan) blocks }

def replaceDescendants (sources : SourceStructures)
    (keys : List TemplateKey) (blockKey : BlockKey) (oldVersion newId : ObjectId) :
    EStateM StoreError Structure Unit := do
  let struct ← get
  match descendants struct.blocks platform.recursionLimit blockKey [] with
  | .error error => throw error
  | .ok original => do
    raiseIf (blockKey ∉ original) .keyError
    let new ← copyTemplates platform sources newId platform.recursionLimit keys blockKey
    finishTemplates blockKey oldVersion (original.filter fun orphan => orphan ≠ blockKey && orphan ∉ new)

def lookupSources (keys : List TemplateKey) (headValidation : Bool) :
    StoreM (List (CourseLocator × ObjectId × Structure)) :=
  collect (fun key => do
    let envelope ← lookupCourse key.course headValidation
    pure (key.course, envelope)) keys

def copyFromTemplate (keys : List TemplateKey)
    (destination : CourseLocator) (blockKey : BlockKey) (headValidation : Bool) :
    StoreM Unit := do
  let sources ← lookupSources keys headValidation
  let index ← getCourseIndex destination.course
  raiseIf index.isNone .itemNotFoundError
  let envelope ← lookupCourse destination
  let _ ← editVersion destination.branch envelope fun newId =>
    let shared : SourceStructures := sources.map fun source =>
      (source.1, source.1.course = destination.course && source.2.1 = newId, source.2.2)
    replaceDescendants platform shared keys blockKey envelope.1 newId
  pure ()

end

end EdxPlatform.Split

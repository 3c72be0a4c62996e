import EdxPlatform.Lib.Dict
import EdxPlatform.Lib.Documents

/-!
# Structures

A structure is one saved version of the blocks of a course branch.  It is stored
under its `_id`; a definition holds the content fields of a block.
-/

namespace EdxPlatform.Split

/-- A Mongo `ObjectId`. -/
abbrev ObjectId := Nat

abbrev Value := String

abbrev Fields := Dict String Value

structure BlockKey where
  type : String
  id : String
  deriving DecidableEq, Repr

/-- The editing info of a block, less who edited it and when. -/
structure EditInfo where
  previousVersion : Option ObjectId := none
  updateVersion : Option ObjectId := none
  sourceVersion : Option ObjectId := none
  originalUsage : Option String := none
  originalUsageVersion : Option ObjectId := none
  deriving DecidableEq

structure Aside where
  asideType : String
  fields : Fields
  deriving DecidableEq

/-- The data of a block.  `settings` and `children` are its `fields`; the key
`children` is only there once children were set. -/
structure BlockData where
  definition : ObjectId
  settings : Fields := ∅
  children : Option (List BlockKey) := none
  defaults : Fields := ∅
  asides : List Aside := []
  editInfo : EditInfo := {}
  deriving DecidableEq

/-- `fields.get('children', [])`. -/
def BlockData.childKeys (block : BlockData) : List BlockKey := block.children.getD []

abbrev Blocks := Dict BlockKey BlockData

/-- A leaf of the value of an asset's attribute. -/
inductive AssetAtom where
  | none
  | dateTime (time : Nat)
  /-- Any other value, as JSON text. -/
  | json (text : Value)
  deriving DecidableEq

abbrev AssetValue := Document AssetAtom

structure AssetEditInfo where
  currVersion : AssetValue
  prevVersion : AssetValue
  createdBy : AssetValue
  createdByEmail : AssetValue
  createdOn : AssetValue
  editedBy : AssetValue
  editedByEmail : AssetValue
  editedOn : AssetValue

/-- The metadata of an asset as they are stored. -/
structure AssetDocument where
  filename : String
  assetType : String
  pathname : AssetValue
  internalName : AssetValue
  locked : AssetValue
  contenttype : AssetValue
  thumbnail : AssetValue
  fields : AssetValue
  editInfo : AssetEditInfo

structure Structure where
  root : BlockKey
  previousVersion : Option ObjectId := none
  blocks : Blocks := ∅
  assets : Dict String (List AssetDocument) := ∅

structure Definition where
  blockType : String
  fields : Fields
  previousVersion : Option ObjectId := none

/-- The exceptions raised by the operations of the store. -/
inductive StoreError where
  | itemNotFoundError
  | versionConflictError
  | duplicateItemError
  | duplicateCourseError
  | invalidVersionError
  | keyError
  | indexError
  | valueError
  | typeError
  | attributeError
  | runtimeError
  /-- No exception: a loop that goes on forever. -/
  | endlessLoop
  deriving DecidableEq, Repr

/-- The blocks that have `blockKey` as a child. -/
def getParentsFromStructure (blockKey : BlockKey) (blocks : Blocks) : List BlockKey :=
  blocks.keys.filter fun parent =>
    match blocks.lookup parent with
    | none => false
    | some block => decide (blockKey ∈ block.childKeys)

/-- Marks a block as edited in the structure `updateVersion`. -/
def versionBlock (block : BlockData) (updateVersion : ObjectId) : BlockData :=
  if block.editInfo.updateVersion = some updateVersion then block
  else
    { block with
      editInfo := { block.editInfo with
        previousVersion := block.editInfo.updateVersion
        updateVersion := some updateVersion } }

/-- A block as first saved in the structure `newId`. -/
def newBlock (settings : Fields) (children : Option (List BlockKey)) (definition newId : ObjectId)
    (asides : List Aside := []) (defaults : Fields := ∅) : BlockData :=
  { definition := definition
    settings := settings
    children := children
    defaults := defaults
    asides := asides
    editInfo := { updateVersion := some newId } }

section

variable (block : BlockData) (updateVersion : ObjectId)

@[simp]
theorem childKeys_versionBlock : (versionBlock block updateVersion).childKeys = block.childKeys := by
  unfold versionBlock
  split <;> rfl

@[simp]
theorem updateVersion_versionBlock :
    (versionBlock block updateVersion).editInfo.updateVersion = some updateVersion := by
  unfold versionBlock
  split
  · assumption
  · rfl

end

end EdxPlatform.Split

import EdxPlatform.Split.Structure

/-!
# Documents of structures

`structure_to_mongo` and `structure_from_mongo`.  A `BlockKey` is a named tuple.  Contracts, which
may be disabled, tell it from a list, which is what the database makes of it.
-/

namespace EdxPlatform.Split.Mongo

/-- What is neither a list nor a dictionary: a text, a `BlockKey`, or any other value. -/
inductive Atom where
  | text (value : String)
  | key (key : BlockKey)
  | other (value : Value)
  deriving DecidableEq

abbrev Doc := Document Atom

def null : Doc := .atom (.other "null")

def text (value : String) : Doc := .atom (.text value)

inductive MongoError where
  | contractNotRespected
  | keyError
  | typeError
  deriving DecidableEq

/-- The editing info of a block, with what is memoised of its subtree. -/
structure EditInfo where
  previousVersion : Doc := null
  updateVersion : Doc := null
  sourceVersion : Doc := null
  editedOn : Doc := null
  editedBy : Doc := null
  originalUsage : Doc := null
  originalUsageVersion : Doc := null
  subtreeEditedOn : Doc := null
  subtreeEditedBy : Doc := null

structure BlockData where
  fields : Entries Atom := []
  blockType : Doc := null
  definition : Doc := null
  defaults : Doc := .dict []
  asides : Doc := .dict []
  editInfo : EditInfo := {}
  definitionLoaded : Bool := false

/-- A structure, with its other entries as they are stored. -/
structure Structure where
  root : BlockKey
  blocks : Dict BlockKey BlockData
  others : Entries Atom := []
  separate : ∀ entry ∈ others, entry.1 ≠ "root" ∧ entry.1 ≠ "blocks" := by simp

/-- `entries[key]` -/
def getItem (key : String) (entries : Entries Atom) : Except MongoError Doc :=
  match Entries.get key entries with
  | some value => .ok value
  | none => .error .keyError

def dictEntries : Doc → Except MongoError (Entries Atom)
  | .dict entries => .ok entries
  | _ => .error .typeError

def listElements : Doc → Except MongoError (List Doc)
  | .list elements => .ok elements
  | _ => .error .typeError

section

variable (contracts : Bool)

/-- `check`, if contracts are enabled. -/
def check (respected : Bool) : Except MongoError Unit :=
  if contracts && !respected then .error .contractNotRespected else .ok ()

/-- `BlockKey(type, id)`, whose contract is that the type is not empty. -/
def newBlockKey (type id : String) : Except MongoError BlockKey := do
  check contracts (type ≠ "")
  pure { type := type, id := id }

/-- `BlockKey(*value)`.  A text is unpacked into its letters. -/
def unpackKey : Doc → Except MongoError BlockKey
  | .atom (.key key) => newBlockKey contracts key.type key.id
  | .list [.atom (.text type), .atom (.text id)] => newBlockKey contracts type id
  | .atom (.text value) =>
    match value.toList with
    | [type, id] => newBlockKey contracts (String.singleton type) (String.singleton id)
    | _ => .error .typeError
  | _ => .error .typeError

namespace EditInfo

def toStorable (editInfo : EditInfo) : Entries Atom :=
  [("previous_version", editInfo.previousVersion), ("update_version", editInfo.updateVersion),
    ("source_version", editInfo.sourceVersion),
    ("edited_on", editInfo.editedOn),
    ("edited_by", editInfo.editedBy),
    ("original_usage", editInfo.originalUsage),
    ("original_usage_version", editInfo.originalUsageVersion)]

/-- `EditInfo(**editInfo)` -/
def fromStorable (editInfo : Entries Atom) : EditInfo where
  previousVersion := (Entries.get "previous_version" editInfo).getD null
  updateVersion := (Entries.get "update_version" editInfo).getD null
  sourceVersion := (Entries.get "source_version" editInfo).getD null
  editedOn := (Entries.get "edited_on" editInfo).getD null
  editedBy := (Entries.get "edited_by" editInfo).getD null
  originalUsage := (Entries.get "original_usage" editInfo).getD null
  originalUsageVersion := (Entries.get "original_usage_version" editInfo).getD null
  subtreeEditedOn := (Entries.get "_subtree_edited_on" editInfo).getD null
  subtreeEditedBy := (Entries.get "_subtree_edited_by" editInfo).getD null

end EditInfo

namespace BlockData

def toStorable (block : BlockData) : Entries Atom :=
  [("fields", .dict block.fields), ("block_type", block.blockType), ("definition", block.definition),
    ("defaults", block.defaults),
    ("asides", block.asides),
    ("edit_info", .dict block.editInfo.toStorable)]

/-- `BlockData(**blockData)` -/
def fromStorable (blockData : Entries Atom) : Except MongoError BlockData := do
  let fields ← dictEntries ((Entries.get "fields" blockData).getD (.dict []))
  let editInfo ← dictEntries ((Entries.get "edit_info" blockData).getD (.dict []))
  pure
    { fields := fields
      blockType := (Entries.get "block_type" blockData).getD null
      definition := (Entries.get "definition" blockData).getD null
      defaults := (Entries.get "defaults" blockData).getD (.dict [])
      asides := (Entries.get "asides" blockData).getD (.dict [])
      editInfo := EditInfo.fromStorable editInfo }

def unloaded (block : BlockData) : BlockData :=
  { block with
    editInfo := { block.editInfo with subtreeEditedOn := null, subtreeEditedBy := null }
    definitionLoaded := false }

end BlockData

def isBlockKey : Doc → Bool
  | .atom (.key _) => true
  | _ => false

/-- The contract `list(BlockKey)`. -/
def isKeyList : Doc → Bool
  | .list elements => elements.all isBlockKey
  | _ => false

def blockDocument (key : BlockKey) (block : BlockData) : Doc :=
  .dict (Entries.set "block_id" (text key.id) (Entries.setDefault "block_type" (text key.type) block.toStorable))

def structureToMongo (struct : Structure) : Except MongoError (Entries Atom) := do
  struct.blocks.entries.forM fun entry => check contracts ((Entries.get "children" entry.2.fields).all isKeyList)
  pure (("root", .atom (.key struct.root)) ::
    ("blocks", .list (struct.blocks.entries.map fun entry => blockDocument entry.1 entry.2)) ::
    struct.others)

/-! ## From the document -/

/-- The contract `seq[2]`. -/
def isPair : Doc → Bool
  | .list elements => elements.length = 2
  | .atom (.key _) => true
  | .atom (.text value) => value.length = 2
  | _ => false

/-- The contract `list[2]`. -/
def isPairList : Doc → Bool
  | .list elements => elements.length = 2
  | _ => false

/-- The contract `list(list[2])`. -/
def isChildList : Doc → Bool
  | .list elements => elements.all isPairList
  | _ => false

def isDict : Doc → Bool
  | .dict _ => true
  | _ => false

/-- The contract `list(dict)`. -/
def isDictList : Doc → Bool
  | .list elements => elements.all isDict
  | _ => false

def fieldsOf (block : Doc) : Except MongoError (Entries Atom) := do
  let entries ← dictEntries block
  let fields ← getItem "fields" entries
  dictEntries fields

def checkBlock (block : Doc) : Except MongoError Unit := do
  let fields ← fieldsOf block
  check contracts ((Entries.get "children" fields).all isChildList)

/-- The fields with `BlockKey`s for children. -/
def convertChildren (fields : Entries Atom) : Except MongoError (Entries Atom) :=
  match Entries.get "children" fields with
  | none => .ok fields
  | some children => do
    let elements ← listElements children
    let keys ← elements.mapM (unpackKey contracts)
    pure (Entries.set "children" (.list (keys.map fun key => .atom (.key key))) fields)

def convertBlock (block : Doc) : Except MongoError (BlockKey × BlockData) := do
  let entries ← dictEntries block
  let fields ← fieldsOf block
  let fields ← convertChildren contracts fields
  let type ← getItem "block_type" entries
  let id ← getItem "block_id" entries
  let key ← unpackKey contracts (.list [type, id])
  let data ← BlockData.fromStorable (Entries.set "fields" (.dict fields) (Entries.pop "block_id" entries))
  pure (key, data)

def structureFromMongo (document : Entries Atom) : Except MongoError Structure := do
  let blocks ← getItem "blocks" document
  let root ← getItem "root" document
  check contracts (isPair root)
  check contracts (isDictList blocks)
  let elements ← listElements blocks
  elements.forM (checkBlock contracts)
  let key ← unpackKey contracts root
  let pairs ← elements.mapM (convertBlock contracts)
  pure
    { root := key
      blocks := Dict.ofList pairs
      others := Entries.pop "blocks" (Entries.pop "root" document)
      separate := by
        intro entry hentry
        simp only [Entries.pop, List.mem_filter, decide_eq_true_eq] at hentry
        exact ⟨hentry.1.2, hentry.2⟩ }

end

end EdxPlatform.Split.Mongo

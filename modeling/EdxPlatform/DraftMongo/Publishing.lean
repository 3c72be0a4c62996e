import EdxPlatform.DraftMongo.Subtrees

/-!
# Editing and publishing

An edit goes to the draft of a block; publishing copies the drafts of a subtree over the
published documents.  The parents that a request has seen are kept in its cache.  The
inheritance of settings, the edit information and the signals are left out.
-/

namespace EdxPlatform.DraftMongo

variable {Data : Type}

/-- The part of `for_branch_setting` that is about the revision. -/
def forBranchSetting (branchSetting : Branch) (location : Location) : DocumentId :=
  if location.directOnly then ⟨location, .published⟩
  else if branchSetting = .draftPreferred then ⟨location, .draft⟩
  else ⟨location, .published⟩

/-- `_update_single_item`: a document that is not there is made when that is allowed. -/
def updateSingleItem (id : DocumentId) (document : Document Data) (allowNotFound : Bool)
    (collection : Collection Data) : Outcome Data :=
  if id ∈ collection ∨ allowNotFound then ⟨collection.insert id document, none⟩
  else ⟨collection, some (.itemNotFound id.location)⟩

/-- `update_item`.  With `allowNotFound` it also creates. -/
def updateItem (branchSetting : Branch) (fuel : Nat) (location : Location) (document : Document Data)
    (allowNotFound : Bool) (collection : Collection Data) : Option (Outcome Data) :=
  let draftLoc := forBranchSetting branchSetting location
  if draftLoc.revision = .published ∨ draftLoc ∈ collection then
    some (updateSingleItem draftLoc document allowNotFound collection)
  else
    match convertToDraft branchSetting false true fuel location collection with
    | none => none
    | some ⟨collection, some error⟩ => some ⟨collection, some error⟩
    | some ⟨collection, none⟩ => some (updateSingleItem draftLoc document allowNotFound collection)

/-! ## Publishing -/

/-- The collection, and the `ParentLocationCache` of the request. -/
structure Store (Data : Type) where
  collection : Collection Data
  parentCache : Dict Location (Option DocumentId) := ∅

/-- What a call of `publish` works on. -/
structure Publishing (Data : Type) extends Store Data where
  toBeDeleted : List DocumentId := []

namespace Store

/-- `parent_cache.set` for each of the children. -/
def setParents (parent : DocumentId) (children : List Location) (store : Store Data) : Store Data :=
  { store with parentCache := children.foldl (fun cache child => cache.insert child (some parent)) store.parentCache }

/-- `MongoModuleStore.get_item`; `_cache_children` notes the document as a parent. -/
def loadItem (id : DocumentId) (store : Store Data) : Option (Document Data) × Store Data :=
  match store.collection.lookup id with
  | none => (none, store)
  | some document => (some document, store.setParents id document.children)

/-- `get_item` under the draft-preferred setting, with `is_draft`. -/
def getItem (location : Location) (store : Store Data) : Option (Document Data × Bool) × Store Data :=
  if location.directOnly then
    match store.loadItem (asPublished location) with
    | (document, store) => (document.map (·, false), store)
  else
    match store.loadItem ⟨location, .draft⟩ with
    | (some document, store) => (some (document, true), store)
    | (none, store) =>
      match store.loadItem (asPublished location) with
      | (document, store) => (document.map (·, false), store)

/-- `_get_raw_parent_location` under the draft-preferred setting.  What is not cached is
queried, which can also clean up orphans. -/
def getRawParentLocation (queryParent : Location → Collection Data → Option DocumentId × Collection Data)
    (location : Location) (store : Store Data) : Option DocumentId × Store Data :=
  match store.parentCache.lookup location with
  | some parent => (parent, store)
  | none =>
    match queryParent location store.collection with
    | (parent, collection) => (parent, { collection, parentCache := store.parentCache.insert location parent })

/-- `MongoModuleStore.update_item` of a published document. -/
def updatePublished (location : Location) (document : Document Data) (store : Store Data) : Store Data :=
  let parentCache : Dict Location (Option DocumentId) :=
    Dict.filter (fun parent => parent ≠ some (asPublished location)) store.parentCache
  { store with
    collection := store.collection.insert (asPublished location) document
    parentCache }.setParents (asPublished location) document.children

end Store

def unqueried (_ : Location) (collection : Collection Data) : Option DocumentId × Collection Data := (none, collection)

section Publish

variable (queryParent : Location → Collection Data → Option DocumentId × Collection Data)

def deleteDropped (fuel : Nat) (itemLocation : Location) (children : List Location) :
    List Location → Store Data → Option (Store Data)
  | [], store => some store
  | origChild :: origChildren, store =>
    if origChild ∈ children then deleteDropped fuel itemLocation children origChildren store
    else
      match store.getRawParentLocation queryParent origChild with
      | (publishedParent, store) =>
        if publishedParent = some (asPublished itemLocation) then
          -- the child was deleted in the draft
          match deleteSubtree fuel origChild [asPublished] false store.collection with
          | none => none
          | some outcome =>
            deleteDropped fuel itemLocation children origChildren { store with collection := outcome.collection }
        else
          -- the child was moved to another draft parent
          deleteDropped fuel itemLocation children origChildren store

/-- The part of `_internal_depth_first` after the children, for an item that is a draft. -/
def publishItem (fuel : Nat) (itemLocation : Location) (item : Document Data)
    (publishing : Publishing Data) : Option (Publishing Data) :=
  let dropped :=
    match publishing.loadItem (asPublished itemLocation) with
    | (none, store) => some store
    | (some originalPublished, store) =>
      deleteDropped queryParent fuel itemLocation item.children originalPublished.children store
  dropped.map fun store =>
    { store.updatePublished itemLocation item with
      toBeDeleted := publishing.toBeDeleted ++ [asDraft itemLocation] }

def eachInTurn {State : Type} (call : Location → State → Option State) : List Location → State → Option State
  | [], state => some state
  | location :: locations, state => (call location state).bind (eachInTurn call locations)

/-- `_internal_depth_first` of `publish`. -/
def internalDepthFirst : Nat → Location → Publishing Data → Option (Publishing Data)
  | 0, _, _ => none
  | fuel + 1, itemLocation, publishing =>
    match publishing.getItem itemLocation with
    | (none, _) => some publishing
    | (some (item, isDraft), store) =>
      (eachInTurn (internalDepthFirst fuel) item.children { publishing with toStore := store }).bind fun publishing =>
          if itemLocation.directOnly ∨ ¬ isDraft then some publishing
          else publishItem queryParent (fuel + 1) itemLocation item publishing

/-- `publish` -/
def publish (branchSetting : Branch) (fuel : Nat) (location : Location) (store : Store Data) : Option (Outcome Data) :=
  if branchSetting ≠ .draftPreferred then
    some ⟨store.collection, some (.invalidBranchSetting .draftPreferred branchSetting)⟩
  else
    (internalDepthFirst queryParent fuel location { store with }).map fun publishing =>
      let collection := publishing.collection.remove publishing.toBeDeleted
      match (Store.getItem location { collection }).1 with
      | some _ => ⟨collection, none⟩
      | none => ⟨collection, some (.itemNotFound location)⟩

end Publish

end EdxPlatform.DraftMongo

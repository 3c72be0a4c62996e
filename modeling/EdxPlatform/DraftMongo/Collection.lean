import EdxPlatform.Lib.Dict

/-!
# The documents of the draft store

A course is a collection of documents, of which a block can have two: the published one
and the draft.  Of a document the children and the rest of its content are kept, without
the edit information.  The order of the entries stands for the order in which the
database gives the documents, which no result depends on.
-/

namespace EdxPlatform.DraftMongo

/-- A usage key without its revision, within one course. -/
structure Location where
  category : String
  name : String
  deriving DecidableEq

/-- `DIRECT_ONLY_CATEGORIES` -/
def directOnlyCategories : List String := ["course", "chapter", "sequential", "about", "static_tab", "course_info"]

def Location.directOnly (location : Location) : Bool := directOnlyCategories.contains location.category

/-- `MongoRevisionKey` -/
inductive Revision where
  | draft
  | published
  deriving DecidableEq

/-- The `_id` of a document. -/
structure DocumentId where
  location : Location
  revision : Revision
  deriving DecidableEq

/-- `as_draft` -/
def asDraft (location : Location) : DocumentId :=
  if location.directOnly then ⟨location, .published⟩ else ⟨location, .draft⟩

/-- `as_published` -/
def asPublished (location : Location) : DocumentId := ⟨location, .published⟩

structure Document (Data : Type) where
  children : List Location
  data : Data
  deriving DecidableEq

abbrev Collection (Data : Type) := Dict DocumentId (Document Data)

abbrev Entry (Data : Type) := Sigma fun _ : DocumentId => Document Data

/-- `ModuleStoreEnum.Branch` -/
inductive Branch where
  | publishedOnly
  | draftPreferred
  deriving DecidableEq

inductive StoreError where
  | itemNotFound (location : Location)
  | invalidVersion (location : Location)
  | invalidBranchSetting (expected actual : Branch)
  | duplicateItem (id : DocumentId)
  | assertion
  deriving DecidableEq

/-- What a call leaves behind, and what it raises. -/
structure Outcome (Data : Type) where
  collection : Collection Data
  raised : Option StoreError

variable {Data : Type}

namespace Collection

def draft (collection : Collection Data) (location : Location) : Option (Document Data) :=
  collection.lookup ⟨location, .draft⟩

def published (collection : Collection Data) (location : Location) : Option (Document Data) :=
  collection.lookup ⟨location, .published⟩

section

variable (collection : Collection Data)

/-- The query `{'_id': {'$in': tier}}`. -/
def find (tier : List DocumentId) : List (Entry Data) := collection.entries.filter fun entry => entry.1 ∈ tier

/-- `collection.remove({'_id': {'$in': ids}})` -/
def remove (ids : List DocumentId) : Collection Data := ids.foldl (fun collection id => collection.erase id) collection

def listing (location : Location) : List DocumentId :=
  let parents := (collection.entries.filter fun entry => location ∈ entry.2.children).map Sigma.fst
  parents.filter (fun id => id.revision = .draft) ++ parents.filter fun id => id.revision = .published

/-- `_get_raw_parent_locations`, where `none` stands for `RevisionOption.all`. -/
def getRawParentLocations (location : Location) (keyRevision : Option Revision) : List DocumentId :=
  (collection.listing location).filter fun parent =>
    keyRevision = none ∨ parent.location.directOnly ∨ some parent.revision = keyRevision

end

variable {collection : Collection Data}

theorem mem_find {tier : List DocumentId} {entry : Entry Data} : entry ∈ collection.find tier ↔
      entry.1 ∈ tier ∧ collection.lookup entry.1 = some entry.2 := by
  rw [find, mem_filter, decide_eq_true_iff, ← mem_lookup_iff, and_comm]
  rfl

theorem nodup_keys_find (collection : Collection Data) (tier : List DocumentId) :
    ((collection.find tier).map Sigma.fst).Nodup :=
  (List.filter_sublist.map Sigma.fst).nodup collection.nodupKeys

theorem lookup_remove (collection : Collection Data) (ids : List DocumentId) (id : DocumentId) :
    (collection.remove ids).lookup id = if id ∈ ids then none else collection.lookup id :=
  Dict.lookup_eraseAll ids collection id

theorem mem_listing {location : Location} {id : DocumentId} : id ∈ collection.listing location ↔
      ∃ document, collection.lookup id = some document ∧ location ∈ document.children := by
  have hmem : id ∈ collection.listing location ↔
      id ∈ (collection.entries.filter fun entry => location ∈ entry.2.children).map Sigma.fst := by
    rw [listing, mem_append, mem_filter, mem_filter]
    cases id.revision <;> simp
  rw [hmem, mem_map]
  constructor
  · rintro ⟨entry, hent, rfl⟩
    obtain ⟨hsto, hls⟩ := mem_filter.mp hent
    exact ⟨entry.2, mem_lookup_iff.mpr hsto, of_decide_eq_true hls⟩
  · rintro ⟨document, hlook, hls⟩
    exact ⟨⟨id, document⟩, mem_filter.mpr ⟨mem_lookup_iff.mp hlook, decide_eq_true hls⟩, rfl⟩

theorem mem_getRawParentLocations {location : Location} {keyRevision : Option Revision} {parent : DocumentId} :
    parent ∈ collection.getRawParentLocations location keyRevision ↔
      (∃ document, collection.lookup parent = some document ∧ location ∈ document.children) ∧
        (keyRevision = none ∨ parent.location.directOnly ∨ some parent.revision = keyRevision) := by
  rw [getRawParentLocations, mem_filter, mem_listing, decide_eq_true_iff]

end Collection

/-- What a call of `_breadth_first` has done so far. -/
structure Walk (Data : Type) where
  collection : Collection Data
  toBeDeleted : List DocumentId := []

/-- A function that `_breadth_first` calls on each document: it gives items for the next
tier, or raises. -/
abbrev Visit (Data : Type) := Entry Data → Walk Data → Walk Data × Except StoreError (List DocumentId)

def visitTier (function : Visit Data) : List (Entry Data) → Walk Data → Walk Data × Except StoreError (List DocumentId)
  | [], walk => (walk, .ok [])
  | entry :: entries, walk =>
    match function entry walk with
    | (walk, .error error) => (walk, .error error)
    | (walk, .ok items) =>
      match visitTier function entries walk with
      | (walk, .error error) => (walk, .error error)
      | (walk, .ok nextTier) => (walk, .ok (items ++ nextTier))

/-- `_internal` of `_breadth_first`; it gives nothing when the fuel runs out. -/
def visitTiers (function : Visit Data) :
    Nat → List DocumentId → Walk Data → Option (Walk Data × Except StoreError Unit)
  | 0, _, _ => none
  | fuel + 1, tier, walk =>
    match visitTier function (walk.collection.find tier) walk with
    | (walk, .error error) => some (walk, .error error)
    | (walk, .ok nextTier) =>
      if nextTier.length > 0 then visitTiers function fuel nextTier walk
      else some (walk, .ok ())

/-- The mass deletion at the end of `_breadth_first`. -/
def finish : Walk Data × Except StoreError Unit → Outcome Data
  | (walk, .error error) => ⟨walk.collection, some error⟩
  | (walk, .ok _) => ⟨walk.collection.remove walk.toBeDeleted, none⟩

/-- `_breadth_first` -/
def breadthFirst (function : Visit Data) (fuel : Nat) (rootUsages : List DocumentId)
    (collection : Collection Data) : Option (Outcome Data) :=
  if rootUsages.length = 0 then some ⟨collection, none⟩
  else (visitTiers function fuel rootUsages { collection }).map finish

theorem breadthFirst_singleton (function : Visit Data) (fuel : Nat) (root : DocumentId)
    (collection : Collection Data) : breadthFirst function fuel [root] collection =
      (visitTiers function fuel [root] { collection }).map finish :=
  if_neg Nat.one_ne_zero

/-- `convert_item` of `_convert_to_draft`. -/
def convertItem (deletePublished ignoreIfDraft : Bool) : Visit Data := fun item walk =>
  let draftId : DocumentId := ⟨item.1.location, .draft⟩
  let toBeDeleted :=
    if deletePublished then walk.toBeDeleted ++ [⟨item.1.location, .published⟩] else walk.toBeDeleted
  let nextTier := item.2.children.map asPublished
  if draftId ∈ walk.collection then
    -- the key is there already
    if ignoreIfDraft then ({ walk with toBeDeleted }, .ok nextTier)
    else (walk, .error (.duplicateItem draftId))
  else ({ collection := walk.collection.insert draftId item.2, toBeDeleted }, .ok nextTier)

/-- `_convert_to_draft` -/
def convertToDraft (branchSetting : Branch) (deletePublished ignoreIfDraft : Bool) (fuel : Nat)
    (location : Location) (collection : Collection Data) : Option (Outcome Data) :=
  if branchSetting ≠ .draftPreferred then
    some ⟨collection, some (.invalidBranchSetting .draftPreferred branchSetting)⟩
  else if location.directOnly then some ⟨collection, some (.invalidVersion location)⟩
  else breadthFirst (convertItem deletePublished ignoreIfDraft) fuel [asPublished location] collection

/-- `unpublish` -/
def unpublish (branchSetting : Branch) (fuel : Nat) (location : Location)
    (collection : Collection Data) : Option (Outcome Data) :=
  if location.directOnly then some ⟨collection, some (.invalidVersion location)⟩
  else if branchSetting ≠ .draftPreferred then
    some ⟨collection, some (.invalidBranchSetting .draftPreferred branchSetting)⟩
  else convertToDraft branchSetting true false fuel location collection

end EdxPlatform.DraftMongo

import EdxPlatform.Split.Copying
import EdxPlatform.Split.StoreRules

/-!
# Bulk operations that only read

What a bulk operation has cached is written at its end, unless it is known to be from the
database.  A single definition that is read is recorded as such; several that are read at
once are not.
-/

namespace EdxPlatform.Split

open Dict SplitBulkWriteRecord

/-- A write that the end of a bulk operation attempts. -/
inductive Write where
  | insertStructure (id : ObjectId)
  | insertDefinition (id : ObjectId)
  | insertCourseIndex (index : CourseIndex)
  | updateCourseIndex (index fromIndex : CourseIndex)

inductive Signal where
  | prePublish
  | coursePublished
  | libraryUpdated
  deriving DecidableEq

/-- The record of a course, with what it has as a `BulkOpsRecord`. -/
structure BulkRecord extends SplitBulkWriteRecord where
  activeCount : Nat := 0
  hasPublishItem : Bool := false
  hasLibraryUpdatedItem : Bool := false

/-- The database, the record of one course, and what was written and sent so far. -/
structure BulkStore where
  db : Database
  record : BulkRecord
  hasSignalHandler : Bool
  writes : List Write := []
  signals : List Signal := []

abbrev ReadM := EStateM StoreError BulkStore

def BulkRecord.active (record : BulkRecord) : Bool := decide (0 < record.activeCount)

/-! ## The bulk operation -/

namespace SplitBulkWriteRecord

def newDocuments {δ : Type} (documents : Dict ObjectId δ) (inDb : List ObjectId) : List ObjectId :=
  documents.keys.filter fun id => decide (id ∉ inDb)

def indexWrites (record : SplitBulkWriteRecord) : List Write :=
  match record.index, record.initialIndex with
  | none, _ => []
  | some index, none => [Write.insertCourseIndex index]
  | some index, some initialIndex =>
    if index.same initialIndex then [] else [Write.updateCourseIndex index initialIndex]

/-- The writes of `_end_outermost_bulk_operation`.  Each of them sets `dirty`. -/
def attemptedWrites (record : SplitBulkWriteRecord) : List Write :=
  (newDocuments record.structures record.structuresInDb).map Write.insertStructure ++
    (newDocuments record.definitions record.definitionsInDb).map Write.insertDefinition ++
    record.indexWrites

end SplitBulkWriteRecord

namespace BulkStore

section

variable (store : BulkStore)

def setRecord (record : BulkRecord) : BulkStore := { store with record := record }

def nest : BulkStore := store.setRecord { store.record with activeCount := store.record.activeCount + 1 }

def unnest : BulkStore := store.setRecord { store.record with activeCount := store.record.activeCount - 1 }

/-- `_start_outermost_bulk_operation`; what the record has cached before stays there. -/
def startOutermostBulkOperation : BulkStore :=
  let initialIndex := store.db.activeVersions.lookup store.record.courseKey
  store.setRecord { store.record with initialIndex := initialIndex, index := initialIndex }

/-- `_begin_bulk_operation` -/
def beginBulkOperation : BulkStore :=
  let store := store.nest
  if store.record.activeCount = 1 then store.startOutermostBulkOperation else store

/-- `_end_outermost_bulk_operation`: whether the content was dirty, and the store after it. -/
def endOutermostBulkOperation (now : Timestamp) : Bool × BulkStore :=
  let writes := store.record.attemptedWrites
  (!writes.isEmpty,
    { store with
      db := endBulk ⟨store.db, store.record.toSplitBulkWriteRecord⟩ now
      writes := store.writes ++ writes })

def send (flag : Bool) (signal : Signal) : BulkStore :=
  if store.hasSignalHandler && flag then { store with signals := store.signals ++ [signal] }
  else store

def sendBulkSignals : BulkStore :=
  (store.send store.record.hasPublishItem .coursePublished).send store.record.hasLibraryUpdatedItem .libraryUpdated

def clearBulkOpsRecord : BulkStore :=
  store.setRecord { courseKey := store.record.courseKey, initialIndex := none, index := none }

/-- `_end_bulk_operation` -/
def endBulkOperation (emitSignals : Bool) (now : Timestamp) : BulkStore :=
  if !store.record.active then store
  else
    let store := if emitSignals && store.record.activeCount = 1 then
        store.send store.record.hasPublishItem .prePublish
      else store
    let store := store.unnest
    if store.record.active then store
    else
      let (dirty, store) := store.endOutermostBulkOperation now
      let store := store.nest
      let store := if emitSignals && dirty then store.sendBulkSignals else store
      store.unnest.clearBulkOpsRecord

end

end BulkStore

open BulkStore

/-- `with self.bulk_operations(...)`: the end is reached also when the body raises. -/
def bulkOperations {α : Type} (emitSignals : Bool) (now : Timestamp) (body : ReadM α) : ReadM α :=
  fun store =>
    match body store.beginBulkOperation with
    | .ok result store => .ok result (store.endBulkOperation emitSignals now)
    | .error error store => .error error (store.endBulkOperation emitSignals now)

/-! ## Reading -/

/-- `get_structure` -/
def readStructure (versionGuid : ObjectId) : ReadM Structure := fun store =>
  match store.record.active, store.record.structures.lookup versionGuid, store.db.structures.lookup versionGuid with
  | true, some struct, _ => .ok struct store
  | true, none, some struct =>
    .ok struct (store.setRecord { store.record with
      structures := store.record.structures.insert versionGuid struct
      structuresInDb := versionGuid :: store.record.structuresInDb })
  | false, _, some struct => .ok struct store
  | _, _, none => .error .typeError store

/-- `get_definition`.  The fields of a document that was not found cannot be measured. -/
def readDefinition (definitionGuid : ObjectId) : ReadM Definition := fun store =>
  match store.record.active, store.record.definitions.lookup definitionGuid,
      store.db.definitions.lookup definitionGuid with
  | true, some definition, _ => .ok definition store
  | true, none, some definition =>
    .ok definition (store.setRecord { store.record with
      definitions := store.record.definitions.insert definitionGuid definition
      definitionsInDb := definitionGuid :: store.record.definitionsInDb })
  | false, _, some definition => .ok definition store
  | _, _, none => .error .typeError store

/-- The definitions with the given ids that the record of an active bulk operation has. -/
def BulkRecord.cachedDefinitions (record : BulkRecord) (ids : List ObjectId) : List (ObjectId × Definition) :=
  if record.active then
    (record.definitions.entries.map fun entry => (entry.1, entry.2)).filter fun cached => decide (cached.1 ∈ ids)
  else []

/-- `get_definitions`.  The record, active or not, caches what the query finds; the cursor is
at its end after that, and adds nothing to the result. -/
def readDefinitions (ids : List ObjectId) : ReadM (List (ObjectId × Definition)) := fun store =>
  let cached := store.record.cachedDefinitions ids
  let remaining := ids.filter fun id => decide (id ∉ cached.map Prod.fst)
  let found := remaining.filterMap fun id => (store.db.definitions.lookup id).map fun definition => (id, definition)
  .ok cached (store.setRecord { store.record with
    definitions := store.record.definitions.update (ofList found) })

/-- `get_course_index` -/
def readCourseIndex : ReadM (Option CourseIndex) := fun store =>
  .ok (if store.record.active then store.record.index else store.db.activeVersions.lookup store.record.courseKey) store

/-- `descendants`: the descendants of a block out to a depth, added to those found before. -/
def descendantsWithin (blocks : Blocks) : Nat → BlockKey → Option Int → List (BlockKey × BlockData) →
      Except StoreError (List (BlockKey × BlockData))
  | 0, _, _, _ => .error .runtimeError
  | limit + 1, blockKey, depth, found =>
    match blocks.lookup blockKey with
    | none => .ok found
    | some block =>
      let found := if blockKey ∈ found.map Prod.fst then found else found ++ [(blockKey, block)]
      if depth.all (0 < ·) then
        block.childKeys.foldlM (fun found child =>
          descendantsWithin blocks limit child (depth.map (· - 1)) found) found
      else .ok found

section

variable (blocks : Blocks) (limit : Nat) (baseBlockIds : List BlockKey) (depth : Option Int)

/-- The blocks that `cache_items` adds to the module data. -/
def newModuleData : Except StoreError (List (BlockKey × BlockData)) :=
  baseBlockIds.foldlM (fun found blockKey => descendantsWithin blocks limit blockKey depth found) []

/-- The new module data when the definitions are loaded: their fields go over those of the
blocks. -/
def loadDefinitions (moduleData : List (BlockKey × BlockData))
    (definitions : List (ObjectId × Definition)) : List (BlockKey × BlockData) :=
  moduleData.map fun entry =>
    match definitions.lookup entry.2.definition with
    | none => entry
    | some definition => (entry.1, { entry.2 with settings := entry.2.settings.update definition.fields })

/-- The body of `cache_items`. -/
def readModuleData (isLazy : Bool) : ReadM (List (BlockKey × BlockData)) :=
  match newModuleData blocks limit baseBlockIds depth with
  | .error error => throw error
  | .ok moduleData =>
    if isLazy then pure moduleData
    else do
      let definitions ← readDefinitions (moduleData.map fun entry => entry.2.definition)
      pure (loadDefinitions moduleData definitions)

/-- `cache_items` of the blocks of a structure. -/
def cacheItems (isLazy : Bool) (now : Timestamp) : ReadM (List (BlockKey × BlockData)) :=
  bulkOperations false now (readModuleData blocks limit baseBlockIds depth isLazy)

end

inductive ReadOperation where
  | getStructure (versionGuid : ObjectId)
  | getDefinition (definitionGuid : ObjectId)
  | getDefinitions (ids : List ObjectId)
  | getCourseIndex
  | cacheItems (blocks : Blocks) (baseBlockIds : List BlockKey) (depth : Option Int) (isLazy : Bool)

def storeAfterRead {α : Type} (operation : ReadM α) (store : BulkStore) : BulkStore :=
  match operation store with
  | .ok _ store => store
  | .error _ store => store

namespace ReadOperation

def perform (limit : Nat) (now : Timestamp) (store : BulkStore) : ReadOperation → BulkStore
  | getStructure versionGuid => storeAfterRead (readStructure versionGuid) store
  | getDefinition definitionGuid => storeAfterRead (readDefinition definitionGuid) store
  | getDefinitions ids => storeAfterRead (readDefinitions ids) store
  | getCourseIndex => storeAfterRead readCourseIndex store
  | cacheItems blocks baseBlockIds depth isLazy =>
    storeAfterRead (EdxPlatform.Split.cacheItems blocks limit baseBlockIds depth isLazy now) store

def definitionIds (limit : Nat) : ReadOperation → List ObjectId
  | getDefinitions ids => ids
  | cacheItems blocks baseBlockIds depth isLazy =>
    if isLazy then []
    else
      match newModuleData blocks limit baseBlockIds depth with
      | .error _ => []
      | .ok moduleData => moduleData.map fun entry => entry.2.definition
  | _ => []

end ReadOperation

/-- The record of a course on which no bulk operation is active.  It may have cached some
definitions. -/
structure BulkStore.Idle (store : BulkStore) : Prop where
  inactive : store.record.activeCount = 0
  noIndex : store.record.index = none
  noStructures : store.record.structures = ∅
  noneInDb : store.record.definitionsInDb = []
  unpublished : store.record.hasPublishItem = false
  notUpdated : store.record.hasLibraryUpdatedItem = false

/-- Inside of the outermost bulk operation, which so far has only read. -/
structure BulkStore.Reading (started store : BulkStore) : Prop where
  database : store.db = started.db
  outermost : store.record.activeCount = 1
  index : store.record.index = store.record.initialIndex
  structures : ∀ id ∈ store.record.structures, id ∈ store.record.structuresInDb
  cached : ∀ id ∈ store.record.definitionsInDb, id ∈ store.record.definitions
  writes : store.writes = started.writes
  signals : store.signals = started.signals
  unpublished : store.record.hasPublishItem = false
  notUpdated : store.record.hasLibraryUpdatedItem = false

def BulkStore.Tidy (store : BulkStore) : Prop := ∀ id ∈ store.record.definitions, id ∈ store.record.definitionsInDb

/-! ## One read -/

variable {store started : BulkStore}

section Reads

theorem active_of_outermost (hout : store.record.activeCount = 1) : store.record.active = true := by
  unfold BulkRecord.active
  rw [hout]
  rfl

section

variable (hact : store.record.active = true)
include hact

theorem storeAfterRead_readStructure (versionGuid : ObjectId) :
    storeAfterRead (readStructure versionGuid) store = store ∨
      ∃ struct, storeAfterRead (readStructure versionGuid) store = store.setRecord { store.record with
        structures := store.record.structures.insert versionGuid struct
        structuresInDb := versionGuid :: store.record.structuresInDb } := by
  unfold storeAfterRead readStructure
  rw [hact]
  cases store.record.structures.lookup versionGuid with
  | some struct => exact .inl rfl
  | none =>
    cases store.db.structures.lookup versionGuid with
    | some struct => exact .inr ⟨struct, rfl⟩
    | none => exact .inl rfl

theorem storeAfterRead_readDefinition (definitionGuid : ObjectId) :
    (storeAfterRead (readDefinition definitionGuid) store = store ∧
        (definitionGuid ∈ store.record.definitions ∨ definitionGuid ∉ store.db.definitions)) ∨
      ∃ definition, definitionGuid ∈ store.db.definitions ∧ definitionGuid ∉ store.record.definitions ∧
        storeAfterRead (readDefinition definitionGuid) store = store.setRecord { store.record with
          definitions := store.record.definitions.insert definitionGuid definition
          definitionsInDb := definitionGuid :: store.record.definitionsInDb } := by
  unfold storeAfterRead readDefinition
  rw [hact, mem_iff_lookup, mem_iff_lookup]
  cases store.record.definitions.lookup definitionGuid with
  | some definition => exact .inl ⟨rfl, .inl ⟨definition, rfl⟩⟩
  | none =>
    cases store.db.definitions.lookup definitionGuid with
    | some definition => exact .inr ⟨definition, ⟨definition, rfl⟩, nofun, rfl⟩
    | none => exact .inl ⟨rfl, .inr nofun⟩

theorem storeAfterRead_readDefinitions (ids : List ObjectId) :
    ∃ definitions, storeAfterRead (readDefinitions ids) store =
        store.setRecord { store.record with definitions := definitions } ∧
      ∀ id, id ∈ definitions ↔ id ∈ store.record.definitions ∨ id ∈ ids ∧ id ∈ store.db.definitions := by
  refine ⟨_, rfl, fun id => ?_⟩
  have hcach : id ∈ (store.record.cachedDefinitions ids).map Prod.fst ↔ id ∈ store.record.definitions ∧ id ∈ ids := by
    unfold BulkRecord.cachedDefinitions
    rw [hact, if_pos rfl, mem_map]
    constructor
    · rintro ⟨cached, hmem, rfl⟩
      obtain ⟨hent, hids⟩ := mem_filter.mp hmem
      exact ⟨mem_iff_lookup.mpr ⟨_, mem_items_iff.mp hent⟩, of_decide_eq_true hids⟩
    · rintro ⟨hdefn, hids⟩
      obtain ⟨definition, hlook⟩ := mem_iff_lookup.mp hdefn
      exact ⟨(id, definition), mem_filter.mpr ⟨mem_items_iff.mpr hlook, decide_eq_true hids⟩, rfl⟩
  rw [mem_update, mem_ofList]
  simp only [mem_map, mem_filterMap, mem_filter, map_eq_some_iff, decide_eq_true_eq, mem_iff_lookup] at hcach ⊢
  grind

end

theorem beginBulkOperation_of_outermost (hout : store.record.activeCount = 1) :
    store.beginBulkOperation = store.nest := by
  unfold beginBulkOperation
  rw [if_neg]
  change store.record.activeCount + 1 ≠ 1
  omega

theorem endBulkOperation_of_nested (hnest : store.record.activeCount = 2) (emitSignals : Bool)
    (now : Timestamp) : store.endBulkOperation emitSignals now = store.unnest := by
  have hact : store.record.active = true := decide_eq_true (by omega)
  have hroot : (emitSignals && decide (store.record.activeCount = 1)) = false := by
    rw [hnest, Bool.and_comm]
    rfl
  have hunn : store.unnest.record.active = true := by
    apply decide_eq_true
    change 0 < store.record.activeCount - 1
    omega
  simp only [endBulkOperation, hact, hroot, hunn, Bool.not_true, false_eq_true, if_false, if_true]

theorem storeAfterRead_bulkOperations {α : Type} (body : ReadM α) (emitSignals : Bool) (now : Timestamp) :
    storeAfterRead (bulkOperations emitSignals now body) store =
      (storeAfterRead body store.beginBulkOperation).endBulkOperation emitSignals now := by
  simp only [storeAfterRead, bulkOperations]
  cases body store.beginBulkOperation with
  | ok result next => rfl
  | error error next => rfl

theorem storeAfterRead_readDefinitions_nil (store : BulkStore) :
    storeAfterRead (readDefinitions []) store = store := by
  change store.setRecord { store.record with
    definitions := store.record.definitions.update ∅ } = store
  unfold Dict.update
  rw [AList.empty_union]
  rfl

theorem storeAfterRead_readModuleData (store : BulkStore) (limit : Nat) (blocks : Blocks)
    (baseBlockIds : List BlockKey) (depth : Option Int) (isLazy : Bool) :
    storeAfterRead (readModuleData blocks limit baseBlockIds depth isLazy) store = storeAfterRead (readDefinitions
        ((ReadOperation.cacheItems blocks baseBlockIds depth isLazy).definitionIds limit)) store := by
  have hnone := (storeAfterRead_readDefinitions_nil store).symm
  simp only [readModuleData, ReadOperation.definitionIds]
  cases newModuleData blocks limit baseBlockIds depth with
  | error error => cases isLazy <;> exact hnone
  | ok moduleData =>
    cases isLazy with
    | true => exact hnone
    | false => rfl

theorem perform_cacheItems (hout : store.record.activeCount = 1) (limit : Nat) (now : Timestamp)
    (blocks : Blocks) (baseBlockIds : List BlockKey) (depth : Option Int) (isLazy : Bool) :
    (ReadOperation.cacheItems blocks baseBlockIds depth isLazy).perform limit now store =
      storeAfterRead (readDefinitions
        ((ReadOperation.cacheItems blocks baseBlockIds depth isLazy).definitionIds limit)) store := by
  have hnest : store.nest.record.activeCount = 2 := congrArg (· + 1) hout
  have hbody := storeAfterRead_readModuleData store.nest limit blocks baseBlockIds depth isLazy
  rw [ReadOperation.perform, cacheItems, storeAfterRead_bulkOperations,
    beginBulkOperation_of_outermost hout, hbody, endBulkOperation_of_nested]
  · unfold storeAfterRead readDefinitions BulkRecord.cachedDefinitions
    rw [active_of_outermost hout]
    rfl
  · exact hnest

/-- What a read can do in a bulk operation. -/
inductive CacheStep (limit : Nat) (store : BulkStore) : ReadOperation → BulkStore → Prop where
  | unchanged {read : ReadOperation} (hnone : read.definitionIds limit = [])
      (hknown : ∀ id, read = .getDefinition id → id ∈ store.db.definitions →
        id ∈ store.record.definitions) : CacheStep limit store read store
  | loadStructure (id : ObjectId) (struct : Structure) :
      CacheStep limit store (.getStructure id) (store.setRecord { store.record with
        structures := store.record.structures.insert id struct
        structuresInDb := id :: store.record.structuresInDb })
  | loadDefinition {id : ObjectId} (definition : Definition) (hsaved : id ∈ store.db.definitions)
      (hnew : id ∉ store.record.definitions) :
      CacheStep limit store (.getDefinition id) (store.setRecord { store.record with
        definitions := store.record.definitions.insert id definition
        definitionsInDb := id :: store.record.definitionsInDb })
  | cacheDefinitions {read : ReadOperation} {definitions : Dict ObjectId Definition}
      (hmany : ∀ id, read ≠ .getDefinition id)
      (hdefinitions : ∀ id, id ∈ definitions ↔ id ∈ store.record.definitions ∨
        id ∈ read.definitionIds limit ∧ id ∈ store.db.definitions) :
      CacheStep limit store read (store.setRecord { store.record with definitions := definitions })

theorem perform_step (hout : store.record.activeCount = 1) (limit : Nat) (now : Timestamp)
    (read : ReadOperation) : CacheStep limit store read (read.perform limit now store) := by
  have hact := active_of_outermost hout
  cases read with
  | getStructure versionGuid =>
    obtain hsame | ⟨struct, hload⟩ := storeAfterRead_readStructure hact versionGuid
    · rw [ReadOperation.perform, hsame]
      exact CacheStep.unchanged rfl nofun
    · rw [ReadOperation.perform, hload]
      exact CacheStep.loadStructure versionGuid struct
  | getDefinition definitionGuid =>
    obtain ⟨hsame, hknown⟩ | ⟨definition, hsaved, hnew, hload⟩ := storeAfterRead_readDefinition hact definitionGuid
    · rw [ReadOperation.perform, hsame]
      refine CacheStep.unchanged rfl ?_
      rintro id heq hsaved
      obtain rfl := ReadOperation.getDefinition.inj heq
      exact hknown.resolve_right (not_not_intro hsaved)
    · rw [ReadOperation.perform, hload]
      exact CacheStep.loadDefinition definition hsaved hnew
  | getDefinitions ids =>
    obtain ⟨definitions, hcach, hmem⟩ := storeAfterRead_readDefinitions hact ids
    rw [ReadOperation.perform, hcach]
    exact CacheStep.cacheDefinitions nofun hmem
  | getCourseIndex => exact CacheStep.unchanged rfl nofun
  | cacheItems blocks baseBlockIds depth isLazy =>
    obtain ⟨definitions, hcach, hmem⟩ := storeAfterRead_readDefinitions hact
      ((ReadOperation.cacheItems blocks baseBlockIds depth isLazy).definitionIds limit)
    rw [perform_cacheItems hout, hcach]
    exact CacheStep.cacheDefinitions nofun hmem

variable {next : BulkStore} {read : ReadOperation}

section

variable {limit : Nat} (hstep : CacheStep limit store read next)
include hstep

theorem CacheStep.mem_definitions (id : ObjectId) : id ∈ next.record.definitions ↔ id ∈ store.record.definitions ∨
      id ∈ store.db.definitions ∧ (read = .getDefinition id ∨ id ∈ read.definitionIds limit) := by
  cases hstep with
  | unchanged hnone hknown =>
    rw [hnone]
    refine ⟨.inl, ?_⟩
    rintro (hold | ⟨hsaved, hread | hmem⟩)
    · exact hold
    · exact hknown id hread hsaved
    · cases hmem
  | loadStructure versionGuid struct =>
    refine ⟨.inl, ?_⟩
    rintro (hold | ⟨-, hread | hmem⟩)
    · exact hold
    · cases hread
    · cases hmem
  | @loadDefinition definitionGuid definition hsaved hnew =>
    refine (mem_insert _).trans ⟨?_, ?_⟩
    · rintro (rfl | hold)
      · exact .inr ⟨hsaved, .inl rfl⟩
      · exact .inl hold
    · rintro (hold | ⟨-, hread | hmem⟩)
      · exact .inr hold
      · exact .inl (ReadOperation.getDefinition.inj hread).symm
      · cases hmem
  | cacheDefinitions hmany hdef =>
    refine (hdef id).trans (or_congr_right ?_)
    rw [or_iff_right (hmany id)]
    exact And.comm

/-- A read keeps the cached definitions known if and only if those that it reads at once
were cached before. -/
theorem CacheStep.tidy_iff : next.Tidy ↔ store.Tidy ∧
      ∀ id ∈ read.definitionIds limit, id ∈ store.db.definitions → id ∈ store.record.definitionsInDb := by
  cases hstep with
  | unchanged hnone hknown => simp [hnone]
  | loadStructure id struct => exact (and_iff_left nofun).symm
  | @loadDefinition definitionGuid definition hsaved hnew =>
    refine Iff.trans ?_ (and_iff_left nofun).symm
    constructor
    · intro htidy id hmem
      refine (mem_cons.mp (htidy id ((mem_insert _).mpr (.inr hmem)))).resolve_left ?_
      rintro rfl
      exact hnew hmem
    · intro htidy id hmem
      rcases (mem_insert _).mp hmem with rfl | hold
      · exact mem_cons_self
      · exact mem_cons_of_mem definitionGuid (htidy id hold)
  | cacheDefinitions hmany hdef =>
    constructor
    · intro htidy
      exact ⟨fun id hmem => htidy id ((hdef id).mpr (.inl hmem)),
        fun id hread hsaved => htidy id ((hdef id).mpr (.inr ⟨hread, hsaved⟩))⟩
    · rintro ⟨htidy, hreads⟩ id hmem
      rcases (hdef id).mp hmem with hold | ⟨hread, hsaved⟩
      · exact htidy id hold
      · exact hreads id hread hsaved

end

theorem BulkStore.Reading.step {limit : Nat}
    (hreadi : started.Reading store) (hstep : CacheStep limit store read next) :
    started.Reading next := by
  have hkept := fun id (hmem : id ∈ store.record.definitions) => (hstep.mem_definitions id).mpr (.inl hmem)
  cases hstep with
  | unchanged => exact hreadi
  | loadStructure id struct =>
    refine { hreadi with structures := fun other hmem => ?_ }
    rcases (mem_insert _).mp hmem with rfl | hold
    · exact mem_cons_self
    · exact mem_cons_of_mem id (hreadi.structures other hold)
  | loadDefinition definition hsaved hnew =>
    refine { hreadi with cached := fun other hmem => ?_ }
    rcases mem_cons.mp hmem with rfl | hold
    · exact (mem_insert _).mpr (.inl rfl)
    · exact hkept other (hreadi.cached other hold)
  | cacheDefinitions hmany hdef => exact { hreadi with cached := fun id hmem => hkept id (hreadi.cached id hmem) }

end Reads

/-! ## A bulk operation of reads -/

section Runs

variable {store : BulkStore} (limit : Nat) (now : Timestamp)

def performed (store : BulkStore) (reads : List ReadOperation) : BulkStore :=
  reads.foldl (fun store read => read.perform limit now store) store.beginBulkOperation

/-- Every definition that is read at once and found was read as a single one before. -/
def DefinitionsReadFirst (db : Database) (reads : List ReadOperation) : Prop :=
  ∀ before read after, reads = before ++ read :: after →
    ∀ id ∈ read.definitionIds limit, id ∈ db.definitions → ReadOperation.getDefinition id ∈ before

theorem performed_append (store : BulkStore) (reads : List ReadOperation) (read : ReadOperation) :
    performed limit now store (reads ++ [read]) = read.perform limit now (performed limit now store reads) :=
  foldl_append

section

variable (hidle : store.Idle)
include hidle

theorem beginBulkOperation_of_idle : store.beginBulkOperation = store.nest.startOutermostBulkOperation := by
  unfold beginBulkOperation
  rw [if_pos]
  exact congrArg (· + 1) hidle.inactive

theorem reading_begin : store.Reading store.beginBulkOperation := by
  rw [beginBulkOperation_of_idle hidle]
  exact
    { database := rfl
      outermost := congrArg (· + 1) hidle.inactive
      index := rfl
      structures := by
        intro id hmem
        change id ∈ store.record.structures at hmem
        rw [hidle.noStructures] at hmem
        cases hmem
      cached := by
        intro id hmem
        change id ∈ store.record.definitionsInDb at hmem
        rw [hidle.noneInDb] at hmem
        cases hmem
      writes := rfl
      signals := rfl
      unpublished := hidle.unpublished
      notUpdated := hidle.notUpdated }

variable (reads : List ReadOperation)

theorem reading_performed : store.Reading (performed limit now store reads) := by
  induction reads using reverseRecOn with
  | nil => exact reading_begin hidle
  | append_singleton reads read ih =>
    rw [performed_append]
    exact ih.step (perform_step ih.outermost limit now read)

theorem mem_definitions_performed (id : ObjectId) :
    id ∈ (performed limit now store reads).record.definitions ↔ id ∈ store.record.definitions ∨
      id ∈ store.db.definitions ∧ ∃ read ∈ reads, read = .getDefinition id ∨ id ∈ read.definitionIds limit := by
  induction reads using reverseRecOn with
  | nil =>
    have hbegin : (performed limit now store []).record.definitions = store.record.definitions := by
      change store.beginBulkOperation.record.definitions = _
      rw [beginBulkOperation_of_idle hidle]
      rfl
    rw [hbegin]
    simp
  | append_singleton reads read ih =>
    have hreadi := reading_performed limit now hidle reads
    rw [performed_append, (perform_step hreadi.outermost limit now read).mem_definitions, ih,
      hreadi.database, or_assoc, ← and_or_left]
    simp only [mem_append, mem_singleton, or_and_right, exists_or, exists_eq_left]

end

theorem definitionsReadFirst_append {db : Database} {reads : List ReadOperation} {read : ReadOperation} :
    DefinitionsReadFirst limit db (reads ++ [read]) ↔ DefinitionsReadFirst limit db reads ∧
      ∀ id ∈ read.definitionIds limit, id ∈ db.definitions → ReadOperation.getDefinition id ∈ reads := by
  constructor
  · intro hfst
    refine ⟨fun before other after heq => hfst before other (after ++ [read]) ?_, hfst reads read [] rfl⟩
    rw [heq, append_assoc, cons_append]
  · rintro ⟨hfst, hlast⟩ before other after heq
    rcases List.eq_nil_or_concat after with rfl | ⟨rest, last, rfl⟩
    · obtain ⟨rfl, hsame⟩ := append_inj' heq rfl
      obtain rfl := List.singleton_inj.mp hsame
      exact hlast
    · rw [List.concat_eq_append, ← cons_append, ← append_assoc] at heq
      exact hfst before other rest (append_inj' heq rfl).1

/-- The cached definitions are all known if and only if none was cached before the bulk
operation, and those read at once were read as single ones first. -/
theorem tidy_performed_iff (hidle : store.Idle) (reads : List ReadOperation) :
    (performed limit now store reads).Tidy ↔ (∀ id, id ∉ store.record.definitions) ∧
      DefinitionsReadFirst limit store.db reads := by
  induction reads using reverseRecOn with
  | nil =>
    have hmem := mem_definitions_performed limit now hidle []
    have hnone : (performed limit now store []).record.definitionsInDb = [] := by
      change store.beginBulkOperation.record.definitionsInDb = []
      rw [beginBulkOperation_of_idle hidle]
      exact hidle.noneInDb
    have hfst : DefinitionsReadFirst limit store.db [] := by
      intro before read after heq
      simp at heq
    unfold BulkStore.Tidy
    rw [hnone, and_iff_left hfst]
    simp only [hmem, not_mem_nil, false_and, exists_false, and_false, or_false]
  | append_singleton reads read ih =>
    have hreadi := reading_performed limit now hidle reads
    rw [performed_append, (perform_step hreadi.outermost limit now read).tidy_iff, ih,
      definitionsReadFirst_append, ← and_assoc, hreadi.database]
    refine and_congr_right fun ⟨hnone, hfst⟩ => forall₂_congr fun id _ => imp_congr_right fun hsaved => ?_
    have hmem := mem_definitions_performed limit now hidle reads id
    rw [or_iff_right (hnone id), and_iff_right hsaved] at hmem
    constructor
    · intro hknown
      obtain ⟨other, hoth, rfl | hids⟩ := hmem.mp (hreadi.cached id hknown)
      · exact hoth
      · obtain ⟨before, after, rfl⟩ := append_of_mem hoth
        exact mem_append_left _ (hfst before other after rfl id hids hsaved)
    · intro hread
      exact ih.mpr ⟨hnone, hfst⟩ id (hmem.mpr ⟨_, hread, .inl rfl⟩)

end Runs

section Ends

/-- The end of the bulk operation attempts no write, reports the content as not dirty, and
sends no signal. -/
def BulkStore.EndsClean (started store : BulkStore) (emitSignals : Bool) (now : Timestamp) : Prop :=
  (store.unnest.endOutermostBulkOperation now).1 = false ∧
    (store.endBulkOperation emitSignals now).writes = started.writes ∧
    (store.endBulkOperation emitSignals now).signals = started.signals

theorem send_false (store : BulkStore) (signal : Signal) : store.send false signal = store := by
  unfold send
  rw [Bool.and_false]
  rfl

theorem endBulkOperation_of_reading (hreadi : started.Reading store) (emitSignals : Bool)
    (now : Timestamp) : store.endBulkOperation emitSignals now =
      (store.unnest.endOutermostBulkOperation now).2.nest.unnest.clearBulkOpsRecord := by
  have hact := active_of_outermost hreadi.outermost
  have hpre : (if emitSignals && decide (store.record.activeCount = 1) then
      store.send store.record.hasPublishItem .prePublish else store) = store := by
    rw [hreadi.unpublished, send_false, ite_self]
  have hended : store.unnest.record.active = false := by
    apply decide_eq_false
    change ¬ 0 < store.record.activeCount - 1
    rw [hreadi.outermost]
    exact Nat.lt_irrefl 0
  have hsig : (store.unnest.endOutermostBulkOperation now).2.nest.sendBulkSignals =
      (store.unnest.endOutermostBulkOperation now).2.nest := by
    have hunp : (store.unnest.endOutermostBulkOperation now).2.nest.record.hasPublishItem =
        false := hreadi.unpublished
    have hnotUpdated : (store.unnest.endOutermostBulkOperation now).2.nest.record.hasLibraryUpdatedItem =
        false := hreadi.notUpdated
    unfold sendBulkSignals
    rw [hunp, send_false, hnotUpdated, send_false]
  simp only [endBulkOperation, hact, Bool.not_true, false_eq_true, if_false, hpre, hended]
  split
  · rw [hsig]
  · rfl

theorem attemptedWrites_eq_nil_iff (hreadi : started.Reading store) :
    store.record.attemptedWrites = [] ↔ store.Tidy := by
  have hstrs : newDocuments store.record.structures store.record.structuresInDb = [] := by
    refine filter_eq_nil_iff.mpr fun id hmem hnew => ?_
    exact of_decide_eq_true hnew (hreadi.structures id (mem_keys.mp hmem))
  have hidx : store.record.indexWrites = [] := by
    unfold indexWrites
    rw [hreadi.index]
    cases store.record.initialIndex with
    | none => rfl
    | some index =>
      have hsame : index.same index = true := by
        simp [CourseIndex.same, same_iff]
      simp only [hsame, if_true]
  unfold attemptedWrites
  rw [hstrs, hidx, append_nil, map_nil, nil_append, map_eq_nil_iff,
    newDocuments, filter_eq_nil_iff]
  refine forall_congr' fun id => imp_congr mem_keys ?_
  simp

/-- A bulk operation of reads ends clean if and only if nothing was cached before it, and
every definition that is read at once and found was read as a single one before. -/
theorem readOnly_clean_iff (hidle : store.Idle) (limit : Nat) (now : Timestamp) (emitSignals : Bool)
    (reads : List ReadOperation) :
    store.EndsClean (performed limit now store reads) emitSignals now ↔
      (∀ id, id ∉ store.record.definitions) ∧ DefinitionsReadFirst limit store.db reads := by
  have hreading := reading_performed limit now hidle reads
  rw [← tidy_performed_iff limit now hidle reads, ← attemptedWrites_eq_nil_iff hreading]
  unfold BulkStore.EndsClean
  rw [endBulkOperation_of_reading hreading]
  constructor
  · rintro ⟨hclean, -⟩
    have hnone : (performed limit now store reads).unnest.record.attemptedWrites = [] := by
      simpa [BulkStore.endOutermostBulkOperation] using hclean
    exact hnone
  · intro hnone
    have hwrites : (performed limit now store reads).unnest.record.attemptedWrites = [] := hnone
    refine ⟨?_, ?_, hreading.signals⟩
    · simp only [BulkStore.endOutermostBulkOperation, hwrites]
      rfl
    · refine Eq.trans ?_ hreading.writes
      change _ ++ (performed limit now store reads).unnest.record.attemptedWrites = _
      rw [hwrites, append_nil]
      rfl

def savedDefinition : BulkStore :=
  { db := { definitions := ofList [(0, { blockType := "problem", fields := ∅ })] }
    record := { courseKey := "course", initialIndex := none, index := none }
    hasSignalHandler := true }

theorem savedDefinition_idle : savedDefinition.Idle := ⟨rfl, rfl, rfl, rfl, rfl, rfl⟩

theorem readFirst_clean_iff : savedDefinition.Idle ∧ (savedDefinition.EndsClean
        (performed 10 0 savedDefinition [.getDefinition 0, .getDefinitions [0]]) true 0 ↔
      (∀ id, id ∉ savedDefinition.record.definitions) ∧
        DefinitionsReadFirst 10 savedDefinition.db [.getDefinition 0, .getDefinitions [0]]) :=
  ⟨savedDefinition_idle, readOnly_clean_iff savedDefinition_idle 10 0 true _⟩

/-- The definition that is read is taken for a new one. -/
theorem readAtOnce_not_clean : savedDefinition.Idle ∧
    ¬ savedDefinition.EndsClean (performed 10 0 savedDefinition [.getDefinitions [0]]) true 0 :=
  ⟨savedDefinition_idle, fun hclean => absurd hclean.1 (by decide)⟩

end Ends

end EdxPlatform.Split

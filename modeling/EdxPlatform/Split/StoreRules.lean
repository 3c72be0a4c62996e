import EdxPlatform.Lib.Programs
import EdxPlatform.Split.Store

/-!
# Rules of the store

What the primitives of the store do to the heads of the branches, to the
structures in the record and to the documents in the database.
-/

namespace EdxPlatform.Split

open Database SplitBulkWriteRecord Database

section

variable {δ : Type}

theorem lookup_insertDocument (collection : Dict ObjectId δ) (document : Sigma fun _ : ObjectId => δ) (id : ObjectId) :
    (insertDocument collection document).lookup id =
      (collection.lookup id).or (if id = document.1 then some document.2 else none) := by
  unfold insertDocument
  split
  · next hmem =>
      obtain ⟨value, hval⟩ := mem_iff_lookup.mp hmem
      by_cases heq : id = document.1
      · rw [heq, hval]; rfl
      · rw [if_neg heq, or_none]
  · next hmem =>
      rw [lookup_insert]
      by_cases heq : id = document.1
      · rw [heq, lookup_eq_none.mpr hmem, if_pos rfl]; rfl
      · rw [if_neg heq, if_neg heq, or_none]

section

variable (documents : List (Sigma fun _ : ObjectId => δ))

theorem lookup_foldl_insertDocument (collection : Dict ObjectId δ) (id : ObjectId) :
    (documents.foldl insertDocument collection).lookup id = (collection.lookup id).or (documents.dlookup id) := by
  induction documents generalizing collection with
  | nil => rw [foldl_nil, List.dlookup_nil, or_none]
  | cons document documents ih =>
    rw [foldl_cons, ih, lookup_insertDocument, Option.or_assoc]
    congr 1
    obtain ⟨key, value⟩ := document
    by_cases heq : id = key
    · subst heq
      rw [if_pos rfl, dlookup_cons_eq]
      rfl
    · rw [if_neg heq, dlookup_cons_ne _ _ heq, none_or]

theorem dlookup_filter_notMem (inDb : List ObjectId) (id : ObjectId) :
    (documents.filter fun document => document.1 ∉ inDb).dlookup id =
      if id ∈ inDb then none else documents.dlookup id := by
  induction documents with
  | nil => rw [filter_nil, List.dlookup_nil, ite_self]
  | cons document documents ih =>
    obtain ⟨key, value⟩ := document
    rw [filter_cons]
    by_cases heq : id = key
    · subst heq
      by_cases hmem : id ∈ inDb
      · rw [if_neg (by simpa using hmem), ih, if_pos hmem, if_pos hmem]
      · rw [if_pos (by simpa using hmem), if_neg hmem, dlookup_cons_eq, dlookup_cons_eq]
    · rw [dlookup_cons_ne _ _ heq, ← ih]
      split
      · exact dlookup_cons_ne _ _ heq
      · rfl

end

/-- What was in the database stays; a document that was not and is not known to
be comes from the record. -/
theorem lookup_insertDocuments (documents : Dict ObjectId δ) (inDb : List ObjectId)
    (collection : Dict ObjectId δ) (id : ObjectId) :
    (insertDocuments documents inDb collection).lookup id =
      (collection.lookup id).or (if id ∈ inDb then none else documents.lookup id) := by
  unfold insertDocuments
  rw [lookup_foldl_insertDocument, dlookup_filter_notMem]
  rfl

end

/-! ## Heads of branches -/

namespace SplitBulkWriteRecord

variable {record : SplitBulkWriteRecord}

def initialHead (record : SplitBulkWriteRecord) (branch : Branch) : Option ObjectId :=
  record.initialIndex.bind fun index => index.versions.lookup branch

theorem mem_dirtyBranches {branch : Branch} : branch ∈ record.dirtyBranches ↔
      ∃ id, record.head branch = some id ∧ record.initialHead branch ≠ some id := by
  unfold dirtyBranches head initialHead
  cases record.index with
  | none => simp
  | some index =>
    cases record.initialIndex with
    | none =>
      simp only [bind_some, bind_none]
      rw [← mem_keys, mem_iff_lookup]
      simp
    | some initialIndex =>
      simp only [bind_some, mem_filter, decide_eq_true_eq]
      rw [← mem_keys, mem_iff_lookup]
      constructor
      · rintro ⟨⟨id, hid⟩, hne⟩
        exact ⟨id, hid, hid ▸ hne⟩
      · rintro ⟨id, hid, hne⟩
        exact ⟨⟨id, hid⟩, hid ▸ hne⟩

section

variable (branch : Branch) (id : ObjectId)

theorem head_setHead (other : Branch) : (record.setHead branch id).head other =
      if other = branch ∧ record.index.isSome then some id else record.head other := by
  unfold setHead head
  cases record.index with
  | none => simp
  | some index => simp only [map_some, bind_some, lookup_insert, isSome_some, and_true]

theorem head_eq_of_not_dirty {branch : Branch} {id : ObjectId}
    (hclean : branch ∉ record.dirtyBranches) (hhead : record.head branch = some id) :
    record.initialHead branch = some id := by
  rw [mem_dirtyBranches] at hclean
  exact Classical.byContradiction fun hne => hclean ⟨id, hhead, hne⟩

section

variable (struct : Structure)

@[simp] theorem head_putStructure : (record.putStructure id struct).head = record.head := rfl

@[simp] theorem initialHead_putStructure : (record.putStructure id struct).initialHead = record.initialHead := rfl

end

@[simp] theorem structures_setHead : (record.setHead branch id).structures = record.structures := rfl

@[simp] theorem initialHead_setHead : (record.setHead branch id).initialHead = record.initialHead := rfl

end

theorem lookup_putStructure (id other : ObjectId) (struct : Structure) :
    (record.putStructure id struct).structures.lookup other =
      if other = id then some struct else record.structures.lookup other :=
  lookup_insert id other struct record.structures

end SplitBulkWriteRecord

/-! ## Primitives -/

/-- The store after a structure of the database was loaded into the record. -/
def Store.load (store : Store) (id : ObjectId) (struct : Structure) : Store :=
  { store with
    record := { store.record.putStructure id struct with
      structuresInDb := id :: store.record.structuresInDb } }

def Loads (store next : Store) : Prop :=
  next = store ∨ ∃ id struct, store.record.structures.lookup id = none ∧
    store.db.structures.lookup id = some struct ∧ next = store.load id struct

variable {store : Store}

theorem Loads.record_eq {next : Store} (hlds : Loads store next) :
    next.db = store.db ∧ next.record.index = store.record.index ∧
      next.record.initialIndex = store.record.initialIndex ∧
      next.record.definitions = store.record.definitions := by
  rcases hlds with rfl | ⟨loaded, content, -, -, rfl⟩
  · exact ⟨rfl, rfl, rfl, rfl⟩
  · exact ⟨rfl, rfl, rfl, rfl⟩

/-- The store after a new version of a branch was made from `struct`. -/
def Store.addVersion (store : Store) (branch : Branch) (id : ObjectId) (struct : Structure) :
    Store :=
  { db := { store.db with nextObjectId := store.db.nextObjectId + 1 }
    record := store.record.setStructureForBranch branch store.db.nextObjectId
      { struct with previousVersion := some id } }

theorem orRaise_triple {σ α : Type} {state : σ} (value : Option α) (error : StoreError) :
    Triple (· = state) (orRaise value error) (fun result next => value = some result ∧ next = state) (· = state) := by
  unfold orRaise
  cases value with
  | none => exact triple_throw fun _ h => h
  | some value => exact triple_pure fun _ h => ⟨rfl, h⟩

theorem raiseIf_triple {σ : Type} {state : σ} (condition : Bool) (error : StoreError) :
    Triple (· = state) (raiseIf condition error) (fun _ next => condition = false ∧ next = state) (· = state) := by
  unfold raiseIf
  cases condition with
  | true => exact triple_throw fun _ h => h
  | false => exact triple_pure fun _ h => ⟨rfl, h⟩

section

variable {σ α β : Type} {P : σ → Prop} {Q : β → σ → Prop} {R : σ → Prop} {error : StoreError}

theorem triple_found {value : Option α} {next : α → EStateM StoreError σ β}
    (hnxt : ∀ result, value = some result → Triple P (next result) Q R)
    (hrais : ∀ state, P state → R state) : Triple P (orRaise value error >>= next) Q R := by
  cases value with
  | none => exact triple_bind (M := fun _ _ => False) (triple_throw hrais) fun _ _ h => h.elim
  | some result => exact hnxt result rfl

variable {next : Unit → EStateM StoreError σ β}

theorem triple_checked {condition : Bool} (hnxt : condition = false → Triple P (next ()) Q R)
    (hrais : ∀ state, P state → R state) : Triple P (raiseIf condition error >>= next) Q R := by
  cases condition with
  | true => exact triple_bind (M := fun _ _ => False) (triple_throw hrais) fun _ _ h => h.elim
  | false => exact hnxt rfl

theorem outcome_found {E : StoreError → Prop} {value : Option α} {next : α → EStateM StoreError σ β}
    (hnxt : ∀ result, value = some result → Outcome P (next result) Q E)
    (hrais : value = none → ∀ state, P state → E error) :
    Outcome P (orRaise value error >>= next) Q E := by
  cases value with
  | none => exact outcome_bind (M := fun _ _ => False) (outcome_throw (hrais rfl)) fun _ _ h => h.elim
  | some result => exact hnxt result rfl

theorem outcome_checked {E : StoreError → Prop} {condition : Bool} (hnxt : condition = false → Outcome P (next ()) Q E)
    (hrais : condition = true → ∀ state, P state → E error) :
    Outcome P (raiseIf condition error >>= next) Q E := by
  cases condition with
  | true => exact outcome_bind (M := fun _ _ => False) (outcome_throw (hrais rfl)) fun _ _ h => h.elim
  | false => exact hnxt rfl

end

theorem getStructure_triple (course : CourseKey) (id : ObjectId) :
    Triple (· = store) (getStructure course id) (fun struct next => Loads store next ∧
        if course = store.record.courseKey then next.record.structures.lookup id = some struct
        else store.db.structures.lookup id = some struct) (· = store) := by
  by_cases hcrs : course = store.record.courseKey
  · apply triple_of_run
    rw [getStructure, if_pos hcrs]
    simp only [if_pos hcrs]
    cases hrec : store.record.structures.lookup id with
    | some struct => exact ⟨.inl rfl, hrec⟩
    | none =>
      cases hdb : store.db.structures.lookup id with
      | some struct => exact ⟨.inr ⟨id, struct, hrec, hdb, rfl⟩, lookup_insert_self id struct _⟩
      | none => rfl
  · apply triple_of_run
    rw [getStructure, if_neg hcrs]
    simp only [if_neg hcrs]
    cases hdb : store.db.structures.lookup id with
    | some struct => exact ⟨.inl rfl, rfl⟩
    | none => rfl

theorem getCourseIndex_triple (course : CourseKey) : Triple (· = store) (getCourseIndex course)
      (fun index next => next = store ∧ index = if course = store.record.courseKey then store.record.index
          else store.db.activeVersions.lookup course) (· = store) :=
  triple_of_run ⟨rfl, rfl⟩

/-- The head that a locator stands for; that of another course is in the database. -/
def Store.headOf (store : Store) (locator : CourseLocator) : Option ObjectId :=
  if locator.course = store.record.courseKey then store.record.head locator.branch
  else store.db.headOf locator.course locator.branch

section

variable (locator : CourseLocator)

theorem lookupHead_triple : Triple (· = store) (lookupHead locator)
      (fun versionGuid next => next = store ∧ store.headOf locator = some versionGuid)
      (· = store) := by
  apply triple_bind (getCourseIndex_triple locator.course)
  intro index
  apply triple_of_state
  rintro _ ⟨rfl, rfl⟩
  apply triple_bind (orRaise_triple _ _)
  intro versionGuid
  apply triple_of_state
  rintro _ ⟨hver, rfl⟩
  apply triple_bind (raiseIf_triple _ _)
  intro _
  apply triple_pure
  rintro _ ⟨-, rfl⟩
  refine ⟨rfl, ?_⟩
  rw [← hver]
  unfold Store.headOf
  split <;> rfl

theorem lookupVersion_triple (headValidation : Bool) :
    Triple (· = store) (lookupVersion locator headValidation) (fun versionGuid next => next = store ∧
        (headValidation = true → store.headOf locator = some versionGuid)) (· = store) := by
  unfold lookupVersion
  split
  · exact triple_pure fun _ h => ⟨h, fun hfalse => nomatch hfalse⟩
  · apply triple_weaken (lookupHead_triple locator) (fun _ h => h) _ (fun _ h => h)
    rintro versionGuid next ⟨hnxt, hhead⟩
    exact ⟨hnxt, fun _ => hhead⟩

theorem lookupCourse_triple (headValidation : Bool) : Triple (· = store) (lookupCourse locator headValidation)
      (fun envelope next => Loads store next ∧ if locator.course = store.record.courseKey then
          next.record.structures.lookup envelope.1 = some envelope.2 ∧
          (headValidation = true → store.record.head locator.branch = some envelope.1)
        else store.db.structures.lookup envelope.1 = some envelope.2 ∧ (headValidation = true →
            store.db.headOf locator.course locator.branch = some envelope.1)) (· = store) := by
  apply triple_bind (lookupVersion_triple locator headValidation)
  intro versionGuid
  apply triple_of_state
  rintro _ ⟨rfl, hhead⟩
  apply triple_bind (getStructure_triple locator.course versionGuid)
  intro struct
  apply triple_pure
  rintro next ⟨hlds, hstr⟩
  refine ⟨hlds, ?_⟩
  split
  · next hcrs =>
      rw [if_pos hcrs] at hstr
      rw [Store.headOf, if_pos hcrs] at hhead
      exact ⟨hstr, hhead⟩
  · next hcrs =>
      rw [if_neg hcrs] at hstr
      rw [Store.headOf, if_neg hcrs] at hhead
      exact ⟨hstr, hhead⟩

end

theorem versionStructure_triple (branch : Branch) (id : ObjectId) (struct : Structure) :
    Triple (· = store) (versionStructure branch id struct) (fun newId next =>
        (branch ∈ store.record.dirtyBranches ∧ next = store ∧
          store.record.head branch = some newId ∧ newId ∈ store.record.structures) ∨
        (branch ∉ store.record.dirtyBranches ∧ newId = store.db.nextObjectId ∧
          next = store.addVersion branch id struct)) (· = store) := by
  apply triple_bind (triple_get (Q := fun got next => got = store ∧ next = store) (by rintro _ rfl; exact ⟨rfl, rfl⟩))
  intro got
  apply triple_of_state
  rintro _ ⟨rfl, rfl⟩
  apply triple_ite
  · intro hdirty
    apply triple_bind (orRaise_triple _ _)
    intro head
    apply triple_pure
    rintro _ ⟨hhead, rfl⟩
    refine .inl ⟨hdirty, rfl, ?_⟩
    unfold structureForBranch at hhead
    obtain ⟨found, hfnd, hstr⟩ := bind_eq_some_iff.mp hhead
    obtain ⟨content, hcont, rfl⟩ := map_eq_some_iff.mp hstr
    exact ⟨hfnd, mem_of_lookup hcont⟩
  · intro hclean
    exact triple_of_run (.inr ⟨hclean, rfl, rfl⟩)

theorem editStructure_triple {α : Type} {id : ObjectId}
    {edit : EStateM StoreError Structure α} {Q : α → Structure → Prop}
    {R : Structure → Prop}
    (hedit : ∀ struct, store.record.structures.lookup id = some struct → Triple (· = struct) edit Q R) :
    Triple (· = store) (editStructure id edit)
      (fun result next => ∃ struct edited, store.record.structures.lookup id = some struct ∧ Q result edited ∧
        next = { store with record := store.record.putStructure id edited })
      (fun next => store.record.structures.lookup id = none ∧ next = store ∨ ∃ struct edited,
        store.record.structures.lookup id = some struct ∧ R edited ∧
        next = { store with record := store.record.putStructure id edited }) := by
  apply triple_of_run
  unfold editStructure
  cases hstr : store.record.structures.lookup id with
  | none => exact .inl ⟨rfl, rfl⟩
  | some struct =>
    have hrun := hedit struct hstr struct rfl
    cases hres : edit struct with
    | ok result edited =>
      rw [hres] at hrun
      simp only [hres]
      exact ⟨struct, edited, rfl, hrun, rfl⟩
    | error error edited =>
      rw [hres] at hrun
      simp only [hres]
      exact .inr ⟨struct, edited, rfl, hrun, rfl⟩

/-! ## The end of a bulk operation -/

section

variable (db : Database) (record : SplitBulkWriteRecord)

theorem lookup_flushDocuments (id : ObjectId) :
    (flushDocuments db record).structures.lookup id = (db.structures.lookup id).or
      (if id ∈ record.structuresInDb then none else record.structures.lookup id) :=
  lookup_insertDocuments _ _ _ id

theorem headOf_flushDocuments (course : CourseKey) (db : Database) (record : SplitBulkWriteRecord) :
    (flushDocuments db record).headOf course = db.headOf course := rfl

theorem structures_flushIndex (now : Timestamp) : (flushIndex db record now).structures = db.structures ∧
      (flushIndex db record now).nextObjectId = db.nextObjectId := by
  unfold flushIndex
  split
  · exact ⟨rfl, rfl⟩
  · exact ⟨rfl, rfl⟩
  · split
    · exact ⟨rfl, rfl⟩
    · unfold updateCourseIndex
      split
      · exact ⟨rfl, rfl⟩
      · split <;> exact ⟨rfl, rfl⟩

theorem lookup_endBulk (store : Store) (now : Timestamp) (id : ObjectId) :
    (endBulk store now).structures.lookup id = (store.db.structures.lookup id).or
      (if id ∈ store.record.structuresInDb then none else store.record.structures.lookup id) := by
  unfold endBulk
  rw [(structures_flushIndex _ _ _).1]
  exact lookup_flushDocuments _ _ id

theorem headOf_insert (db : Database) (course : CourseKey) (index : CourseIndex) :
    ({ db with activeVersions := db.activeVersions.insert course index } : Database).headOf course =
      fun branch => index.versions.lookup branch := by
  funext branch
  unfold headOf
  rw [lookup_insert_self, bind_some]

theorem headOf_insert_of_ne (db : Database) {course other : CourseKey} (hne : other ≠ course) (index : CourseIndex) :
    ({ db with activeVersions := db.activeVersions.insert course index } : Database).headOf other =
      db.headOf other := by
  funext branch
  unfold headOf
  rw [lookup_insert_of_ne hne]

theorem headOf_flushIndex (now : Timestamp) :
    (flushIndex db record now).headOf record.courseKey = db.headOf record.courseKey ∨
      (flushIndex db record now).headOf record.courseKey = record.head := by
  unfold flushIndex head
  cases record.index with
  | none => exact .inl rfl
  | some index =>
    cases record.initialIndex with
    | none => exact .inr (headOf_insert db record.courseKey { index with lastUpdate := some now })
    | some initialIndex =>
      simp only
      split
      · exact .inl rfl
      · unfold updateCourseIndex
        split
        · exact .inl rfl
        · split
          · exact .inr (headOf_insert db record.courseKey { index with lastUpdate := some now })
          · exact .inl rfl

theorem headOf_flushIndex_of_initial {db : Database} {record : SplitBulkWriteRecord}
    (hinit : record.initialIndex = db.activeVersions.lookup record.courseKey)
    (hnone : record.index = none → ∀ branch, record.initialHead branch = none)
    (now : Timestamp) : (flushIndex db record now).headOf record.courseKey = record.head := by
  have hheads : db.headOf record.courseKey = record.initialHead := by
    funext branch
    unfold headOf initialHead
    rw [hinit]
  unfold flushIndex
  cases hidx : record.index with
  | none =>
    rw [hheads]
    funext branch
    rw [hnone hidx branch, head, hidx]
    rfl
  | some index =>
    have hhead : record.head = fun branch => index.versions.lookup branch := by
      funext branch
      rw [head, hidx, bind_some]
    rw [hhead]
    cases hsto : record.initialIndex with
    | none => exact headOf_insert db record.courseKey { index with lastUpdate := some now }
    | some initialIndex =>
      simp only
      split
      · next hsame =>
          rw [hheads]
          funext branch
          rw [initialHead, hsto, bind_some]
          unfold CourseIndex.same at hsame
          exact (Dict.same_iff.mp (of_decide_eq_true hsame).2.1 branch).symm
      · unfold updateCourseIndex
        rw [← hinit, hsto]
        have hsels : selects initialIndex initialIndex := by
          unfold selects
          exact decide_eq_true ⟨rfl, .inr rfl⟩
        simp only [hsels, if_true]
        exact headOf_insert db record.courseKey { index with lastUpdate := some now }

theorem headOf_flushIndex_of_ne (now : Timestamp) {other : CourseKey} (hne : other ≠ record.courseKey) :
    (flushIndex db record now).headOf other = db.headOf other := by
  unfold flushIndex
  split
  · rfl
  · exact headOf_insert_of_ne db hne _
  · split
    · rfl
    · unfold updateCourseIndex
      split
      · rfl
      · split
        · exact headOf_insert_of_ne db hne _
        · rfl

end

end EdxPlatform.Split

import EdxPlatform.Split.StoreRules
import EdxPlatform.Split.Copying

/-!
# Operations that only read

Looking up structures, items and definitions, and making definitions, loads
documents into the record and hands out ids.  A property of the store that neither
can break is kept by all of these operations.
-/

namespace EdxPlatform.Split

/-- What operations do that write no structure. -/
inductive ReadStep (store : Store) : Store → Prop
  | load {id : ObjectId} {struct : Structure} (hrecord : store.record.structures.lookup id = none)
      (hdb : store.db.structures.lookup id = some struct) :
      ReadStep store (store.load id struct)
  | newId : ReadStep store { store with db := { store.db with nextObjectId := store.db.nextObjectId + 1 } }
  | definitions (definitions : Dict ObjectId Definition) (inDb : List ObjectId) : ReadStep store { store with
        record := { store.record with definitions := definitions, definitionsInDb := inDb } }

def Stable (P : Store → Prop) : Prop := ∀ store next, ReadStep store next → P store → P next

theorem stable_and {first second : Store → Prop} (hfst : Stable first) (hsec : Stable second) :
    Stable fun store => first store ∧ second store :=
  fun store next hstep hstore => ⟨hfst store next hstep hstore.1, hsec store next hstep hstore.2⟩

def Keeps {σ α : Type} (P : σ → Prop) (program : EStateM StoreError σ α) : Prop := Triple P program (fun _ => P) P

section

variable {σ α β : Type} {P : σ → Prop}

theorem keeps_bind {program : EStateM StoreError σ α} {next : α → EStateM StoreError σ β}
    (hprog : Keeps P program) (hnxt : ∀ result, Keeps P (next result)) :
    Keeps P (program >>= next) :=
  triple_bind hprog hnxt

theorem keeps_pure (result : α) : Keeps P (pure result : EStateM StoreError σ α) := triple_pure fun _ h => h

theorem keeps_throw (error : StoreError) : Keeps P (throw error : EStateM StoreError σ α) := triple_throw fun _ h => h

theorem keeps_orRaise (value : Option α) (error : StoreError) :
    Keeps P (orRaise value error : EStateM StoreError σ α) := by
  unfold orRaise
  cases value with
  | none => exact keeps_throw error
  | some value => exact keeps_pure value

theorem keeps_raiseIf (condition : Bool) (error : StoreError) :
    Keeps P (raiseIf condition error : EStateM StoreError σ Unit) := by
  unfold raiseIf
  split
  · exact keeps_throw error
  · exact keeps_pure ()

theorem keeps_collect {values : List α} {body : α → EStateM StoreError σ β}
    (hbody : ∀ value ∈ values, Keeps P (body value)) : Keeps P (collect body values) := by
  have hkeep := triple_collect (F := fun _ _ => True) fun value hval =>
    (hbody value hval).post (fun _ _ h => ⟨trivial, h⟩)
  exact hkeep.post (fun _ _ h => h.2)

end

/-! ## Structures -/

variable {P : Store → Prop} (hstab : Stable P)

theorem Stable.loads (hstab : Stable P) {store next : Store} (hlds : Loads store next)
    (hstore : P store) : P next := by
  rcases hlds with rfl | ⟨id, struct, hrec, hdb, rfl⟩
  · exact hstore
  · exact hstab _ _ (.load hrec hdb) hstore

theorem lookupCourse_found (hlds : ∀ store next, Loads store next → P store → P next)
    (locator : CourseLocator) (headValidation : Bool) :
    Triple P (lookupCourse locator headValidation)
      (fun envelope next => P next ∧ (locator.course = next.record.courseKey →
        next.record.structures.lookup envelope.1 = some envelope.2 ∧
        (headValidation = true → next.record.head locator.branch = some envelope.1))) P := by
  apply triple_of_state
  intro store hstore
  refine ((lookupCourse_triple locator headValidation).post ?_).raise ?_
  · rintro envelope next ⟨hnxt, hfnd⟩
    refine ⟨hlds _ _ hnxt hstore, fun hcrs => ?_⟩
    rcases hnxt with rfl | ⟨id, struct, hrec, hdb, rfl⟩
    · rwa [if_pos hcrs] at hfnd
    · rw [if_pos (show locator.course = store.record.courseKey from hcrs)] at hfnd
      exact hfnd
  · rintro _ rfl
    exact hstore

section

variable (locator : CourseLocator) (headValidation : Bool)
include hstab

theorem Stable.lookupCourse : Triple P (lookupCourse locator headValidation)
      (fun envelope next => P next ∧ (locator.course = next.record.courseKey →
        next.record.structures.lookup envelope.1 = some envelope.2 ∧
        (headValidation = true → next.record.head locator.branch = some envelope.1))) P :=
  lookupCourse_found (fun _ _ h => hstab.loads h) locator headValidation

theorem Stable.keeps_lookupCourse : Keeps P (Split.lookupCourse locator headValidation) :=
  (hstab.lookupCourse locator headValidation).post (fun _ _ h => h.1)

end

theorem keeps_getCourseIndex (course : CourseKey) : Keeps P (getCourseIndex course) :=
  fun _ hstore => hstore

theorem keeps_checkIndexValid (locator : CourseLocator) : Keeps P (checkIndexValid locator) := by
  apply keeps_bind (keeps_getCourseIndex locator.course)
  intro index
  cases locator.versionGuid with
  | none => exact keeps_pure ()
  | some versionGuid =>
    apply keeps_bind (keeps_orRaise _ _)
    intro index
    apply keeps_bind (keeps_orRaise _ _)
    exact fun head => keeps_raiseIf _ _

theorem Stable.keeps_getItem (hstab : Stable P) (locator : CourseLocator)
    (blockKey : BlockKey) : Keeps P (getItem locator blockKey) :=
  keeps_bind (hstab.keeps_lookupCourse locator true) fun _ => keeps_orRaise _ _

theorem Stable.keeps_lookupSources (hstab : Stable P) (keys : List TemplateKey)
    (headValidation : Bool) : Keeps P (lookupSources keys headValidation) :=
  keeps_collect fun key _ => keeps_bind (hstab.keeps_lookupCourse key.course headValidation) fun _ => keeps_pure _

theorem keeps_editedStructure (struct : Structure) (edit : EStateM StoreError Structure Unit) :
    Keeps P (editedStructure struct edit) := by
  unfold editedStructure
  split
  · exact keeps_pure _
  · exact keeps_throw _

/-! ## Definitions -/

theorem Stable.keeps_newObjectId (hstab : Stable P) : Keeps P newObjectId :=
  fun store hstore => hstab store _ .newId hstore

theorem Stable.keeps_updateDefinition (hstab : Stable P) (id : ObjectId)
    (definition : Definition) : Keeps P (updateDefinition id definition) :=
  fun store hstore => hstab store _ (.definitions _ _) hstore

theorem Stable.keeps_getDefinition (hstab : Stable P) (id : ObjectId) : Keeps P (getDefinition id) := by
  intro store hstore
  rw [getDefinition]
  cases store.record.definitions.lookup id with
  | some definition => exact hstore
  | none =>
    cases store.db.definitions.lookup id with
    | some definition => exact hstab store _ (.definitions _ _) hstore
    | none => exact hstore

theorem getDefinition_triple {store : Store} (id : ObjectId) : Triple (· = store) (getDefinition id)
      (fun definition next =>
        (store.record.definitions.lookup id).or (store.db.definitions.lookup id) = some definition ∧
        next.record.definitions.lookup id = some definition ∧
        ∃ definitions inDb, next = { store with
          record := { store.record with definitions := definitions, definitionsInDb := inDb } })
      (· = store) := by
  apply triple_of_run
  rw [getDefinition]
  cases hrec : store.record.definitions.lookup id with
  | some definition => exact ⟨rfl, hrec, _, _, rfl⟩
  | none =>
    cases hdb : store.db.definitions.lookup id with
    | some definition => exact ⟨rfl, lookup_insert_self id definition _, _, _, rfl⟩
    | none => rfl

section

include hstab

theorem Stable.keeps_createDefinitionFromData (newDefData : Fields)
    (category : String) : Keeps P (createDefinitionFromData newDefData category) :=
  keeps_bind hstab.keeps_newObjectId fun newId =>
    keeps_bind (hstab.keeps_updateDefinition newId _) fun _ => keeps_pure newId

theorem Stable.keeps_reviseDefinition (id : ObjectId) (definition : Definition) (newDefData : Fields) :
    Keeps P (reviseDefinition id definition newDefData) :=
  keeps_bind hstab.keeps_newObjectId fun newId =>
    keeps_bind (hstab.keeps_updateDefinition newId _) fun _ => keeps_pure newId

theorem Stable.keeps_updateDefinitionFromData (id : ObjectId)
    (newDefData : Fields) : Keeps P (updateDefinitionFromData id newDefData) := by
  apply keeps_bind (hstab.keeps_getDefinition id)
  intro oldDefinition
  apply triple_ite
  · exact fun _ => keeps_pure _
  · intro _
    exact keeps_bind (hstab.keeps_reviseDefinition id oldDefinition newDefData) fun _ => keeps_pure _

theorem Stable.keeps_itemDefinition (definitionLocator : Option ObjectId) (newDefData : Fields) (blockType : String) :
    Keeps P (itemDefinition definitionLocator newDefData blockType) := by
  cases definitionLocator with
  | none => exact hstab.keeps_createDefinitionFromData newDefData blockType
  | some id =>
    apply triple_ite
    · exact fun _ => keeps_pure _
    · intro _
      exact keeps_bind (hstab.keeps_updateDefinitionFromData id newDefData) fun _ => keeps_pure _

theorem Stable.keeps_updatedDefinition (original : BlockData)
    (definitionLocator : Option ObjectId) (definitionFields : Fields) :
    Keeps P (updatedDefinition original definitionLocator definitionFields) := by
  apply triple_ite
  · exact fun _ => keeps_pure _
  · exact fun _ => hstab.keeps_updateDefinitionFromData _ _

end

end EdxPlatform.Split

import EdxPlatform.Lib.Runs
import EdxPlatform.Split.Marks
import EdxPlatform.Split.Sessions
import EdxPlatform.Split.WriteOperations

/-!
# The versions of field values

The update version of a block names the structure in which the block got its fields.
A copy that reorders the children of a parent does not mark the parent, and a copy
from a template marks its destination with the version before the copy.
-/

namespace EdxPlatform.Split

open Structure SplitBulkWriteRecord

/-- The structure has a block with the same children, settings and definition. -/
def Structure.Holds (struct : Structure) (key : BlockKey) (block : BlockData) : Prop :=
  ∃ found, struct.blocks.lookup key = some found ∧ found.children = block.children ∧
    found.settings = block.settings ∧ found.definition = block.definition

/-- The structure that a block names as its update version is there, and holds the block. -/
def UpdateVersionsHold (store : Store) : Prop :=
  ∀ id struct, store.struct id = some struct → ∀ key block, struct.blocks.lookup key = some block →
    ∃ version holder, block.editInfo.updateVersion = some version ∧
      store.struct version = some holder ∧ holder.Holds key block

/-- A write operation on a branch of the course of the bulk operation, or the end of the
bulk operation and the beginning of one on another course. -/
inductive SessionAction where
  | write (branch : Branch) (versionGuid : Option ObjectId) (operation : WriteOperation)
  | nextBulk (course : CourseKey) (now : Timestamp)

section

variable (platform : Platform) (store : Store)

def sessionStep : SessionAction → Store
  | .write branch versionGuid operation => storeAfter (operation.run platform
        { course := store.record.courseKey, branch := branch, versionGuid := versionGuid }) store
  | .nextBulk course now => store.nextBulk course now

/-- The copy reorders the children of marked parents only, or leaves them as they are. -/
def CopyKeepsParents (store : Store) (branch : Branch) (source : CourseLocator) (subtrees : List BlockKey) : Prop :=
  ∀ sourceEnvelope id struct, store.envelope source = some sourceEnvelope →
    store.record.head branch = some id → store.struct id = some struct →
    ∀ subtree ∈ subtrees, subtree ≠ sourceEnvelope.2.root →
      ∀ parent ∈ getParentsFromStructure subtree sourceEnvelope.2.blocks,
        ParentKept (store.versionOf branch id) struct.blocks sourceEnvelope.2.blocks subtree parent

def TemplateKeepsParent (branch : Branch) (keys : List TemplateKey) (blockKey : BlockKey) : Prop :=
  branch ∈ store.record.dirtyBranches ∨ NeverReplaced platform blockKey ∧
    ∀ id struct block, store.record.head branch = some id → store.struct id = some struct →
      struct.blocks.lookup blockKey = some block →
      block.children = some (keys.map fun key => derivedKey platform key blockKey)

def KeepsParents : SessionAction → Prop
  | .write branch _ (.copy source subtrees _) => CopyKeepsParents store branch source subtrees
  | .write branch _ (.copyFromTemplate keys blockKey _) => TemplateKeepsParent platform store branch keys blockKey
  | _ => True

end

/-! ## What is recorded -/

def Database.HoldsMarked (db : Database) (key : BlockKey) (block : BlockData) : Prop :=
  ∃ version saved, block.editInfo.updateVersion = some version ∧
    db.structures.lookup version = some saved ∧ saved.Holds key block

/-- Each block is marked with the version, or with a saved one that holds it. -/
def Recorded (db : Database) (id : ObjectId) (struct : Structure) : Prop :=
  ∀ key block, struct.blocks.lookup key = some block →
    block.editInfo.updateVersion = some id ∨ db.HoldsMarked key block

structure FieldsRecorded (store : Store) : Prop where
  valid : store.Valid
  saved : ∀ id struct, store.db.structures.lookup id = some struct → Recorded store.db id struct
  loaded : ∀ id struct, store.record.structures.lookup id = some struct → Recorded store.db id struct

theorem Structure.holds_self {struct : Structure} {key : BlockKey} {block : BlockData}
    (hblk : struct.blocks.lookup key = some block) : struct.Holds key block :=
  ⟨block, hblk, rfl, rfl, rfl⟩

variable {store : Store}

theorem FieldsRecorded.updateVersionsHold (hrecd : FieldsRecorded store) : UpdateVersionsHold store := by
  intro id struct hstr key block hblk
  have hheld : Recorded store.db id struct := by
    rw [Store.struct, or_eq_some_iff] at hstr
    rcases hstr with hrecord | ⟨-, hdb⟩
    · exact hrecd.loaded id struct hrecord
    · exact hrecd.saved id struct hdb
  rcases hheld key block hblk with hown | ⟨version, saved, hver, hsaved, hhold⟩
  · exact ⟨id, struct, hown, hstr, holds_self hblk⟩
  · exact ⟨version, saved, hver, hrecd.valid.agrees.struct_of_saved hsaved, hhold⟩

theorem stable_fieldsRecorded : Stable FieldsRecorded := by
  intro store next hstep hrecd
  have hval := Store.Valid.stable store next hstep hrecd.valid
  cases hstep with
  | @load id struct hrecord hdb =>
    refine ⟨hval, hrecd.saved, fun other content hcont => ?_⟩
    change (store.record.putStructure id struct).structures.lookup other = _ at hcont
    rw [lookup_putStructure] at hcont
    split at hcont
    · next heq =>
        obtain rfl := some.inj hcont
        exact heq ▸ hrecd.saved id struct hdb
    · exact hrecd.loaded other content hcont
  | newId => exact ⟨hval, hrecd.saved, hrecd.loaded⟩
  | definitions => exact ⟨hval, hrecd.saved, hrecd.loaded⟩

theorem FieldsRecorded.edited {next : Store} (hrecd : FieldsRecorded store)
    {branch : Branch} {id : ObjectId} {edited : Structure}
    (hed : BranchEdited branch id edited store next) (hblks : Recorded store.db id edited) :
    FieldsRecorded next := by
  have hdb : ∀ other struct, Recorded store.db other struct → Recorded next.db other struct := by
    intro other struct hstr
    unfold Recorded Database.HoldsMarked
    rw [hed.structures]
    exact hstr
  refine ⟨(hrecd.valid.edited hed).1, fun other struct hstr => ?_, fun other struct hstr => ?_⟩
  · rw [hed.structures] at hstr
    exact hdb other struct (hrecd.saved other struct hstr)
  · rw [hed.replaces.lookup] at hstr
    split at hstr
    · next heq =>
        obtain rfl := some.inj hstr
        exact hdb other edited (heq ▸ hblks)
    · exact hdb other struct (hrecd.loaded other struct hstr)

theorem FieldsRecorded.nextBulk (hrecd : FieldsRecorded store)
    (course : CourseKey) (now : Timestamp) : FieldsRecorded (store.nextBulk course now) := by
  have hval := hrecd.valid
  refine ⟨hval.nextBulk course now, fun id struct hstr key block hblk => ?_, fun _ _ hstr => nomatch hstr⟩
  rw [hval.lookup_nextBulk course now] at hstr
  have hheld : Recorded store.db id struct := by
    rw [Store.struct, or_eq_some_iff] at hstr
    rcases hstr with hrecord | ⟨-, hdb⟩
    · exact hrecd.loaded id struct hrecord
    · exact hrecd.saved id struct hdb
  rcases hheld key block hblk with hown | ⟨version, saved, hver, hsaved, hhold⟩
  · exact .inl hown
  · refine .inr ⟨version, saved, hver, ?_, hhold⟩
    rw [hval.lookup_nextBulk course now]
    exact hval.agrees.struct_of_saved hsaved

/-! ## Editing a version -/

def Recording (course : CourseKey) (store : Store) : Prop := FieldsRecorded store ∧ store.record.courseKey = course

/-- The head of a branch was looked up. -/
structure AtHead (course : CourseKey) (branch : Branch) (envelope : ObjectId × Structure)
    (store : Store) : Prop where
  recorded : FieldsRecorded store
  course : store.record.courseKey = course
  head : store.record.head branch = some envelope.1
  struct : store.record.structures.lookup envelope.1 = some envelope.2

def WrittenTo (course : CourseKey) (branch : Branch) (store : Store) : Prop :=
  Recording course store ∧ branch ∈ store.record.dirtyBranches

section Editing

variable {course : CourseKey} {branch : Branch} {envelope : ObjectId × Structure}

theorem stable_recording : Stable (Recording course) := by
  intro store next hstep hrdy
  refine ⟨stable_fieldsRecorded store next hstep hrdy.1, ?_⟩
  cases hstep <;> exact hrdy.2

theorem stable_writtenTo : Stable (WrittenTo course branch) := by
  intro store next hstep hwrt
  refine ⟨stable_recording store next hstep hwrt.1, ?_⟩
  cases hstep <;> exact hwrt.2

theorem stable_atHead : Stable (AtHead course branch envelope) := by
  intro store next hstep hat
  have hrecd := stable_fieldsRecorded store next hstep hat.recorded
  cases hstep with
  | @load id struct hrecord hdb =>
    refine ⟨hrecd, hat.course, hat.head, ?_⟩
    change (store.record.putStructure id struct).structures.lookup envelope.1 = _
    rw [lookup_putStructure]
    split
    · next heq =>
        rw [← heq, hat.struct] at hrecord
        cases hrecord
    · exact hat.struct
  | newId => exact ⟨hrecd, hat.course, hat.head, hat.struct⟩
  | definitions => exact ⟨hrecd, hat.course, hat.head, hat.struct⟩

theorem keeps_recording {α : Type} {program : StoreM α} (hkeep : Keeps (AtHead course branch envelope)
    program) : Triple (AtHead course branch envelope) program
      (fun _ => AtHead course branch envelope) (Recording course) :=
  triple_weaken hkeep (fun _ h => h) (fun _ _ h => h) fun _ h => ⟨h.recorded, h.course⟩

theorem lookupCourse_atHead (locator : CourseLocator) : Triple (Recording locator.course) (lookupCourse locator)
      (fun envelope => AtHead locator.course locator.branch envelope) (Recording locator.course) := by
  refine (stable_recording.lookupCourse locator true).post ?_
  rintro envelope store ⟨hrdy, hfnd⟩
  obtain ⟨hstr, hhead⟩ := hfnd hrdy.2.symm
  exact ⟨hrdy.1, hrdy.2, hhead rfl, hstr⟩

variable {store : Store}

theorem AtHead.recorded_original (hat : AtHead course branch envelope store)
    {key : BlockKey} {block : BlockData} (hblk : envelope.2.blocks.lookup key = some block) :
    block.editInfo.updateVersion = some (store.versionOf branch envelope.1) ∨ store.db.HoldsMarked key block := by
  rcases hat.recorded.loaded _ _ hat.struct key block hblk with hown | hheld
  · unfold Store.versionOf
    split
    · exact .inl hown
    · next hclean =>
        have hsaved := hat.recorded.valid.saved_of_clean hclean hat.head hat.struct
        exact .inr ⟨envelope.1, envelope.2, hown, hsaved, holds_self hblk⟩
  · exact .inr hheld

theorem AtHead.recorded_of_marked (hat : AtHead course branch envelope store)
    {struct : Structure} (hmrk : Marked (store.versionOf branch envelope.1) envelope.2.blocks struct) :
    Recorded store.db (store.versionOf branch envelope.1) struct := by
  intro key block hblk
  rcases hmrk key block hblk with hown | horig
  · exact .inl hown
  · exact hat.recorded_original horig

theorem AtHead.recording {next : Store} (hat : AtHead course branch envelope store)
    {id : ObjectId} {edited : Structure} (hed : BranchEdited branch id edited store next)
    (hblks : Recorded store.db id edited) : Recording course next :=
  ⟨hat.recorded.edited hed hblks, hed.replaces.courseKey.trans hat.course⟩

theorem editVersion_recorded {α : Type} (hat : AtHead course branch envelope store)
    (edit : ObjectId → EStateM StoreError Structure α)
    (hedit : Triple (fun struct => struct.blocks = envelope.2.blocks) (edit (store.versionOf branch envelope.1))
      (fun _ => Recorded store.db (store.versionOf branch envelope.1))
      (Recorded store.db (store.versionOf branch envelope.1))) :
    Triple (· = store) (editVersion branch envelope edit) (fun _ => WrittenTo course branch) (Recording course) := by
  have hrun := hedit (store.copyOf branch envelope) (store.blocks_copyOf branch envelope)
  refine ((editVersion_triple hat.head hat.struct edit).post ?_).raise ?_
  · rintro result next ⟨-, edited, hres, hed⟩
    rw [hres] at hrun
    exact ⟨hat.recording hed hrun, (hat.recorded.valid.edited hed).2⟩
  · rintro next ⟨error, edited, hres, hed⟩
    rw [hres] at hrun
    exact hat.recording hed hrun

theorem editVersion_marked {α : Type} {edit : ObjectId → EStateM StoreError Structure α}
    (hedit : ∀ newId original, Keeps (Marked newId original) (edit newId)) :
    Triple (AtHead course branch envelope) (editVersion branch envelope edit)
      (fun _ => WrittenTo course branch) (Recording course) := by
  apply triple_of_state
  intro store hat
  apply editVersion_recorded hat
  refine triple_weaken (hedit _ envelope.2.blocks) ?_ (fun _ _ h => hat.recorded_of_marked h)
    fun _ h => hat.recorded_of_marked h
  exact fun struct hstr => hstr ▸ marked_self struct

end Editing

/-! ## Operations -/

section Operations

variable {platform : Platform} {locator : CourseLocator} (blockType : String) (blockId : Option String)

theorem createItem_recorded (definition : Option ObjectId) (fields : PartitionedFields) (asides : List Aside) :
    Triple (Recording locator.course) (createItem locator blockType blockId definition fields asides)
      (fun _ => WrittenTo locator.course locator.branch) (Recording locator.course) := by
  apply triple_bind (keeps_checkIndexValid locator)
  intro _
  apply triple_bind (lookupCourse_atHead locator)
  intro envelope
  apply triple_bind (keeps_recording (stable_atHead.keeps_itemDefinition definition fields.content blockType))
  intro definition
  apply triple_bind (editVersion_marked fun _ _ => marked_insertBlock blockType blockId rfl)
  intro created
  apply triple_bind ((stable_writtenTo.keeps_getItem _ created.2).raise fun _ h => h.1)
  exact fun _ => triple_pure fun _ h => h

theorem createChild_recorded (parent : BlockKey) (blockType : String) (blockId : Option String)
    (fields : PartitionedFields) (asides : List Aside) (position : Option Int) :
    Triple (Recording locator.course) (createChild platform locator parent blockType blockId fields asides position)
      (fun _ => Recording locator.course) (Recording locator.course) := by
  apply triple_bind (createItem_recorded blockType blockId none fields asides)
  intro blockKey
  apply triple_ite
  · exact fun _ => triple_pure fun _ h => h.1
  · intro _
    apply triple_bind (M := fun envelope store => AtHead locator.course locator.branch envelope store ∧
      locator.branch ∈ store.record.dirtyBranches)
    · refine ((stable_writtenTo.lookupCourse locator.versionAgnostic true).post ?_).raise fun _ h => h.1
      rintro envelope store ⟨⟨hrdy, hdirty⟩, hfnd⟩
      obtain ⟨hstr, hhead⟩ := hfnd hrdy.2.symm
      exact ⟨⟨hrdy.1, hrdy.2, hhead rfl, hstr⟩, hdirty⟩
    · intro envelope
      apply triple_of_state
      rintro store ⟨hat, hdirty⟩
      apply triple_bind (M := fun _ => Recording locator.course)
      · have hver : store.versionOf locator.branch envelope.1 = envelope.1 := if_pos hdirty
        have hatt : Keeps (Marked envelope.1 envelope.2.blocks) (attachChild parent blockKey position envelope.1) :=
          marked_attachChild parent blockKey position
        have hrun := hatt envelope.2 (marked_self _)
        refine ((editStructure_edited hdirty hat.head hat.struct _).post ?_).raise ?_
        · rintro result next ⟨edited, hres, hed⟩
          rw [hres] at hrun
          exact hat.recording hed (hver ▸ hat.recorded_of_marked (hver.symm ▸ hrun))
        · rintro next ⟨error, edited, hres, hed⟩
          rw [hres] at hrun
          exact hat.recording hed (hver ▸ hat.recorded_of_marked (hver.symm ▸ hrun))
      · exact fun _ => triple_pure fun _ h => h

theorem updateBlock_recorded (envelope : ObjectId × Structure) (blockKey : BlockKey)
    (original : BlockData) (fields : PartitionedFields) (definition : Option ObjectId)
    (asides : List Aside) :
    Triple (AtHead locator.course locator.branch envelope)
      (updateBlock locator envelope blockKey original fields definition asides)
      (fun _ => Recording locator.course) (Recording locator.course) := by
  apply triple_bind (keeps_recording (stable_atHead.keeps_updatedDefinition original definition fields.content))
  intro updated
  apply triple_ite
  · intro _
    apply triple_bind (editVersion_marked fun _ _ => marked_replaceBlock blockKey _)
    intro edited
    apply triple_bind ((stable_writtenTo.keeps_getItem _ blockKey).raise fun _ h => h.1)
    exact fun _ => triple_pure fun _ h => h.1
  · exact fun _ => triple_pure fun _ h => ⟨h.recorded, h.course⟩

theorem updateItem_recorded (fields : PartitionedFields) (definition : Option ObjectId) (allowNotFound : Bool)
    (asides : List Aside) :
    Triple (Recording locator.course) (updateItem locator blockType blockId fields definition allowNotFound asides)
      (fun _ => Recording locator.course) (Recording locator.course) := by
  have hcreate : ∀ id, Triple (Recording locator.course)
      (do
        let _ ← createItem locator blockType id none fields asides
        pure ()) (fun _ => Recording locator.course) (Recording locator.course) := by
    intro id
    apply triple_bind (createItem_recorded blockType id none fields asides)
    exact fun _ => triple_pure fun _ h => h.1
  cases blockId with
  | none =>
    apply triple_ite
    · exact fun _ => hcreate none
    · intro _
      apply triple_bind (stable_recording.keeps_lookupCourse locator true)
      intro _
      apply triple_bind (keeps_checkIndexValid locator)
      exact fun _ => triple_throw fun _ h => h
  | some blockId =>
    apply triple_bind (lookupCourse_atHead locator)
    intro envelope
    apply triple_bind (keeps_recording (keeps_checkIndexValid locator))
    intro _
    cases envelope.2.blocks.lookup ⟨blockType, blockId⟩ with
    | some original => exact updateBlock_recorded envelope _ original fields definition asides
    | none =>
      apply triple_ite
      · intro _
        exact (hcreate (some blockId)).pre (fun _ h => ⟨h.recorded, h.course⟩)
      · exact fun _ => triple_throw fun _ h => ⟨h.recorded, h.course⟩

theorem deleteItem_recorded (blockKey : BlockKey) : Triple (Recording locator.course) (deleteItem locator blockKey)
      (fun _ => Recording locator.course) (Recording locator.course) := by
  apply triple_bind (lookupCourse_atHead locator)
  intro envelope
  apply triple_bind (keeps_recording (keeps_raiseIf _ _))
  intro _
  apply triple_bind (keeps_recording (keeps_raiseIf _ _))
  intro _
  apply triple_bind (keeps_recording (keeps_checkIndexValid locator))
  intro _
  apply triple_bind (editVersion_marked fun _ _ => marked_removeBlock blockKey _)
  exact fun _ => triple_pure fun _ h => h.1

theorem recorded_newBranch (platform : Platform) (db : Database) (newId : ObjectId)
    (source : Structure) (definition : ObjectId) (subtrees : List BlockKey) (blacklist : Blacklist) :
    Triple (· = newStructure source.root ∅ none definition newId)
      (copySubtrees platform false newId source subtrees blacklist)
      (fun _ => Recorded db newId) (fun _ => True) := by
  have hkeep : Keeps (Marked newId ∅) (copySubtrees platform false newId source subtrees blacklist) :=
    marked_copySubtrees platform blacklist fun _ _ _ _ _ _ _ _ _ _ h => nomatch h
  refine triple_weaken hkeep ?_ (fun _ struct hmrk key block hblk => ?_) fun _ _ => trivial
  · rintro _ rfl key block hblk
    refine .inl ?_
    rw [newStructure, lookup_insert] at hblk
    split at hblk
    · obtain rfl := some.inj hblk
      rfl
    · cases hblk
  · exact (hmrk key block hblk).elim .inl fun h => nomatch h

theorem copy_recorded (source : CourseLocator) (subtrees : List BlockKey) (blacklist : Blacklist) :
    Triple (fun store => Recording locator.course store ∧ CopyKeepsParents store locator.branch source subtrees)
      (copy platform source locator subtrees blacklist)
      (fun _ => Recording locator.course) (Recording locator.course) := by
  apply triple_of_state
  rintro store ⟨hrec, hkeep⟩
  apply triple_bind ((lookupCourse_envelope source).raise (by rintro _ rfl; exact hrec))
  intro sourceEnvelope
  apply triple_of_state
  rintro loaded ⟨hsrc, hlds, -⟩
  have hload : Recording locator.course loaded := stable_recording.loads hlds hrec
  apply triple_bind ((getCourseIndex_triple locator.course).raise (by rintro _ rfl; exact hload))
  intro index
  apply triple_of_state
  rintro current ⟨rfl, hidx⟩
  rw [if_pos hload.2.symm] at hidx
  apply triple_found
  · rintro index rfl
    apply triple_ite
    · intro _
      apply triple_bind ((lookupCourse_envelope locator).raise (by rintro _ rfl; exact hload))
      intro envelope
      apply triple_of_state
      rintro found ⟨henv, hfnd, hstr⟩
      have hrdy : Recording locator.course found := stable_recording.loads hfnd hload
      obtain ⟨hhead, hcont⟩ := Store.head_of_envelope henv hload.2.symm
      have hat : AtHead locator.course locator.branch envelope found :=
        ⟨hrdy.1, hrdy.2, hfnd.head ▸ hhead, hstr hload.2.symm⟩
      refine triple_bind (editVersion_recorded hat _ ?_) fun _ => triple_pure fun _ h => h.1
      refine triple_weaken (marked_copySubtrees platform blacklist fun _ subtree hsub hroot
        parent hpar => ?_) ?_ (fun _ _ h => hat.recorded_of_marked h)
        fun _ h => hat.recorded_of_marked h
      · rw [hfnd.versionOf, hlds.versionOf]
        rw [hlds.head] at hhead
        rw [hlds.struct] at hcont
        exact hkeep _ _ _ hsrc hhead hcont subtree hsub hroot parent hpar
      · exact fun struct hblks => hblks ▸ marked_self struct
    · intro hnone
      have hhead : current.record.head locator.branch = none := by
        rw [SplitBulkWriteRecord.head, ← hidx, bind_some]
        exact lookup_eq_none.mpr hnone
      apply triple_checked
      · intro _
        apply triple_found
        · rintro root -
          refine newBranch_triple (hidx ▸ rfl) hhead (fun edited next hedit hed => ?_)
            (stable_recording current _ .newId hload)
          have hblks := recorded_newBranch platform current.db current.db.nextObjectId
            sourceEnvelope.2 root.definition subtrees blacklist _ rfl
          rw [hedit] at hblks
          exact ⟨hload.1.edited hed hblks, hed.replaces.courseKey.trans hload.2⟩
        · rintro _ rfl
          exact hload
      · rintro _ rfl
        exact hload
  · rintro _ rfl
    exact hload

theorem stable_templateKeepsParent (platform : Platform) (branch : Branch)
    (keys : List TemplateKey) (blockKey : BlockKey) :
    Stable fun store => TemplateKeepsParent platform store branch keys blockKey := by
  intro store next hstep hkeep
  cases hstep with
  | @load id struct hrecord hdb =>
    have hlds : Loads store (store.load id struct) := .inr ⟨id, struct, hrecord, hdb, rfl⟩
    unfold TemplateKeepsParent
    rw [hlds.dirtyBranches, hlds.head, hlds.struct]
    exact hkeep
  | newId => exact hkeep
  | definitions => exact hkeep

theorem copyFromTemplate_recorded (keys : List TemplateKey) (blockKey : BlockKey) (headValidation : Bool) :
    Triple (fun store => Recording locator.course store ∧
        TemplateKeepsParent platform store locator.branch keys blockKey)
      (copyFromTemplate platform keys locator blockKey headValidation)
      (fun _ => Recording locator.course) (Recording locator.course) := by
  have hrec : Stable (Recording locator.course) := stable_recording
  have hstab := stable_and hrec (stable_templateKeepsParent platform locator.branch keys blockKey)
  apply triple_bind ((hstab.keeps_lookupSources keys headValidation).raise fun _ h => h.1)
  intro sources
  apply triple_bind ((keeps_getCourseIndex locator.course).raise fun _ h => h.1)
  intro index
  apply triple_checked _ fun _ h => h.1
  intro _
  apply triple_of_state
  rintro store ⟨hrec, hkeep⟩
  apply triple_bind ((lookupCourse_envelope locator).raise (by rintro _ rfl; exact hrec))
  intro envelope
  apply triple_of_state
  rintro found ⟨henv, hfnd, hstr⟩
  have hrdy : Recording locator.course found := stable_recording.loads hfnd hrec
  obtain ⟨hhead, hcont⟩ := Store.head_of_envelope henv hrec.2.symm
  have hat : AtHead locator.course locator.branch envelope found :=
    ⟨hrdy.1, hrdy.2, hfnd.head ▸ hhead, hstr hrec.2.symm⟩
  refine triple_bind (editVersion_recorded hat _ ?_) fun _ => triple_pure fun _ h => h.1
  refine triple_weaken (markedBelow_replaceDescendants keys envelope.1) (fun _ h => h) ?_
    fun _ h => hat.recorded_of_marked h
  intro _ struct hmrk key block hblk
  rcases hmrk key block hblk with hown | horig | ⟨rfl, hver, hbef⟩
  · exact .inl hown
  · exact hat.recorded_original horig
  · by_cases hdirty : locator.branch ∈ found.record.dirtyBranches
    · rw [Store.versionOf, if_pos hdirty]
      exact .inl hver
    · have hclean := hdirty
      rw [hfnd.dirtyBranches] at hclean
      obtain ⟨hnever, hkids⟩ := hkeep.resolve_left hclean
      obtain ⟨before, hdest, heq⟩ := hbef hnever
      have hsaved := hat.recorded.valid.saved_of_clean hdirty hat.head hat.struct
      refine .inr ⟨envelope.1, envelope.2, hver, hsaved, before, hdest, ?_⟩
      rw [heq]
      exact ⟨hkids _ _ _ hhead hcont hdest, rfl, rfl⟩

theorem write_recorded {store : Store} (hrecd : FieldsRecorded store) {branch : Branch}
    {versionGuid : Option ObjectId} {operation : WriteOperation}
    (hkeep : KeepsParents platform store (.write branch versionGuid operation)) :
    FieldsRecorded (sessionStep platform store (.write branch versionGuid operation)) := by
  have hrdy : Recording store.record.courseKey store := ⟨hrecd, rfl⟩
  have hwrt : ∀ {program : StoreM Unit} {P : Store → Prop},
      Triple P program (fun _ => Recording store.record.courseKey)
        (Recording store.record.courseKey) → P store → FieldsRecorded (storeAfter program store) :=
    fun htrip hstore => (storeAfter_of_triple htrip hstore).1
  cases operation with
  | createItem blockType blockId definition fields asides =>
    refine hwrt (triple_bind (createItem_recorded blockType blockId definition fields asides)
      fun _ => triple_pure fun _ h => h.1) hrdy
  | createChild parent blockType blockId fields asides position =>
    refine hwrt (triple_bind (createChild_recorded parent blockType blockId fields asides
      position) fun _ => triple_pure fun _ h => h) hrdy
  | updateItem blockType blockId fields definition allowNotFound asides =>
    exact hwrt (updateItem_recorded blockType blockId fields definition allowNotFound asides) hrdy
  | deleteItem blockKey => exact hwrt (deleteItem_recorded blockKey) hrdy
  | copy source subtrees blacklist => exact hwrt (copy_recorded source subtrees blacklist) ⟨hrdy, hkeep⟩
  | copyFromTemplate keys blockKey headValidation =>
    exact hwrt (copyFromTemplate_recorded keys blockKey headValidation) ⟨hrdy, hkeep⟩

end Operations

theorem started_recorded {db : Database} {course : CourseKey} (hdb : db.Allocated)
    (hhold : UpdateVersionsHold (started db course)) : FieldsRecorded (started db course) := by
  refine ⟨hdb.valid course, fun id struct hstr key block hblk => ?_, fun _ _ hstr => nomatch hstr⟩
  obtain ⟨version, holder, hver, hhol, hheld⟩ := hhold id struct hstr key block hblk
  exact .inr ⟨version, holder, hver, hhol, hheld⟩

/-- In a session whose copies change no block that they do not mark, each block is at
any time held by the structure that it names as its update version. -/
theorem updateVersionsHold_of_keepsParents {platform : Platform} {db : Database}
    {course : CourseKey} {actions : List SessionAction} (hdb : db.Allocated)
    (hholds : UpdateVersionsHold (started db course))
    (heach : Each (sessionStep platform) (KeepsParents platform) (started db course) actions) :
    Always (sessionStep platform) UpdateVersionsHold (started db course) actions := by
  have hstep : ∀ store action, FieldsRecorded store → KeepsParents platform store action →
      FieldsRecorded (sessionStep platform store action) := by
    intro store action hrecorded hkeeps
    cases action with
    | write branch versionGuid operation => exact write_recorded hrecorded hkeeps
    | nextBulk course now => exact hrecorded.nextBulk course now
  exact (always_of_each hstep (started_recorded hdb hholds) heach).imp fun _ => FieldsRecorded.updateVersionsHold

/-! ## A library -/

def libraryContent : BlockKey := ⟨"library_content", "quiz"⟩

def libraryProblem : TemplateKey := ⟨{ course := "library", branch := "library" }, ⟨"problem", "sum"⟩⟩

/-- A course with an empty randomized content block, and a library with a problem. -/
def libraryDatabase : Database where
  activeVersions := ((∅ : Dict CourseKey CourseIndex).insert "course"
    { id := 2, versions := (∅ : Dict Branch ObjectId).insert "draft-branch" 0 }).insert "library"
    { id := 3, versions := (∅ : Dict Branch ObjectId).insert "library" 1 }
  structures := ((∅ : Dict ObjectId Structure).insert 0
    { root := ⟨"course", "course"⟩
      blocks := ((∅ : Blocks).insert libraryContent (newBlock ∅ none 4 0)).insert
        ⟨"course", "course"⟩ (newBlock ∅ (some [libraryContent]) 4 0) }).insert 1
    { root := ⟨"library", "library"⟩
      blocks := ((∅ : Blocks).insert libraryProblem.block (newBlock ∅ none 4 1)).insert
        ⟨"library", "library"⟩ (newBlock ∅ (some [libraryProblem.block]) 4 1) }
  definitions := (∅ : Dict ObjectId Definition).insert 4 { blockType := "problem", fields := ∅ }
  nextObjectId := 5

theorem libraryDatabase_allocated : libraryDatabase.Allocated where
  saved := by decide +kernel
  stored := by
    intro course branch id hhead
    simp only [libraryDatabase, Database.headOf, lookup_insert] at hhead ⊢
    split at hhead
    · rw [bind_some, lookup_insert] at hhead
      split at hhead
      · cases hhead; decide
      · cases hhead
    · split at hhead
      · rw [bind_some, lookup_insert] at hhead
        split at hhead
        · cases hhead; decide
        · cases hhead
      · cases hhead

theorem libraryDatabase_holds : UpdateVersionsHold (started libraryDatabase "course") := by
  intro id struct hstr key block hblk
  refine ⟨id, struct, ?_, hstr, holds_self hblk⟩
  change libraryDatabase.structures.lookup id = some struct at hstr
  simp only [libraryDatabase, lookup_insert] at hstr
  split at hstr
  · next heq =>
      cases hstr
      rw [lookup_insert, lookup_insert] at hblk
      split at hblk
      · cases hblk; exact heq ▸ rfl
      · split at hblk
        · cases hblk; exact heq ▸ rfl
        · cases hblk
  · split at hstr
    · next heq =>
        cases hstr
        rw [lookup_insert, lookup_insert] at hblk
        split at hblk
        · cases hblk; exact heq ▸ rfl
        · split at hblk
          · cases hblk; exact heq ▸ rfl
          · cases hblk
    · cases hstr

def copyProblem : SessionAction := .write "draft-branch" none (.copyFromTemplate [libraryProblem] libraryContent true)

/-- A copy to a branch that was edited in the same bulk operation. -/
theorem updateVersionsHold_editedBefore :
    Always (sessionStep plainPlatform) UpdateVersionsHold (started libraryDatabase "course")
      [.write "draft-branch" none (.createItem "chapter" (some "week_1") none {} []), copyProblem,
        .nextBulk "course" 10] := by
  apply updateVersionsHold_of_keepsParents libraryDatabase_allocated libraryDatabase_holds
  refine ⟨trivial, .inl ?_, trivial, trivial⟩
  decide +kernel

/-- Whether the block is held by the structure that it names as its update version. -/
def updateVersionHolds (store : Store) (id : ObjectId) (key : BlockKey) : Bool :=
  ((store.struct id).bind fun struct => struct.blocks.lookup key).any fun block =>
    (block.editInfo.updateVersion.bind fun version =>
      (store.struct version).bind fun holder => holder.blocks.lookup key).any fun found =>
        found.children = block.children

theorem UpdateVersionsHold.holds (hhold : UpdateVersionsHold store) {id : ObjectId}
    {key : BlockKey} (hblk : ((store.struct id).bind fun struct => struct.blocks.lookup key).isSome) :
    updateVersionHolds store id key = true := by
  obtain ⟨block, hblk⟩ := isSome_iff_exists.mp hblk
  obtain ⟨struct, hstr, hlook⟩ := bind_eq_some_iff.mp hblk
  obtain ⟨version, holder, hver, hhol, found, hfnd, hkids, -⟩ := hhold id struct hstr key block hlook
  rw [updateVersionHolds, hblk, any_some, hver, bind_some, hhol, bind_some, hfnd, any_some, hkids]
  exact decide_eq_true rfl

/-- The destination is marked with the version in which it had no children yet. -/
theorem not_updateVersionsHold_template :
    ¬ Always (sessionStep plainPlatform) UpdateVersionsHold (started libraryDatabase "course")
      [copyProblem, .nextBulk "course" 10] := by
  rintro ⟨-, -, hholds⟩
  have hfails : updateVersionHolds ([copyProblem, .nextBulk "course" 10].foldl
      (sessionStep plainPlatform) (started libraryDatabase "course")) 5 libraryContent = false := by
    decide +kernel
  exact false_ne_true (hfails.symm.trans (hholds.head.holds (by decide +kernel)))

end EdxPlatform.Split

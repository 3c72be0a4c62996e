import EdxPlatform.Split.HeadRuns

/-!
# The fields of an updated item

An update of a block replaces its fields.  The children are among the new fields only
if something besides the asides differs, and a descriptor whose children are not set
does not count as different from a block that has some.
-/

namespace EdxPlatform.Split

open Store

def Store.definition (store : Store) (id : ObjectId) : Option Definition :=
  (store.record.definitions.lookup id).or (store.db.definitions.lookup id)

def Store.ContentDiffers (store : Store) (id : ObjectId) (content : Fields) : Prop :=
  content.entries ≠ [] ∧ ∃ definition, store.definition id = some definition ∧
    Dict.same content definition.fields = false

/-- The block has the settings and the children that are set in the descriptor. -/
def BlockData.HasFields (block : BlockData) (fields : PartitionedFields) : Prop :=
  Dict.same block.settings fields.settings = true ∧ block.childKeys = fields.children.getD []

section

variable (store : Store) (original : BlockData) (definitionLocator : Option ObjectId) (fields : PartitionedFields)

/-- The content, the settings or the set children differ from what is stored. -/
def FieldsDiffer : Prop :=
  store.ContentDiffers (definitionLocator.getD original.definition) fields.content ∨
    Dict.same original.settings fields.settings = false ∨
    ∃ children, fields.children = some children ∧ children ≠ original.childKeys

/-- When the update leaves the fields of the descriptor: they differ from the stored ones,
or the asides alone are updated and there are no children to lose, or nothing is updated
and the stored children are those of the descriptor. -/
def UpdateKeepsFields (asides : List Aside) : Prop :=
  FieldsDiffer store original definitionLocator fields ∨ asides ≠ [] ∧ fields.children.getD [] = [] ∨
    asides = [] ∧ original.childKeys = fields.children.getD []

end

def Store.headBlock (store : Store) (locator : CourseLocator) (key : BlockKey) : Option BlockData :=
  (store.envelope locator).bind fun envelope => envelope.2.blocks.lookup key

section

variable {store : Store} {original : BlockData} {definitionLocator : Option ObjectId} {fields : PartitionedFields}

theorem fieldsUpdated_iff {definitionUpdated : Bool} (hdefn : definitionUpdated = true ↔
      store.ContentDiffers (definitionLocator.getD original.definition) fields.content) :
    fieldsUpdated original definitionUpdated fields = true ↔ FieldsDiffer store original definitionLocator fields := by
  have hkids : fields.children.any (original.childKeys ≠ ·) = true ↔
      ∃ children, fields.children = some children ∧ children ≠ original.childKeys := by
    cases fields.children with
    | none => simp
    | some children => simp [ne_comm]
  unfold fieldsUpdated FieldsDiffer
  rw [or_eq_true, or_eq_true, hdefn, or_assoc, hkids, Dict.same_comm fields.settings, not_eq_true']

theorem update_hasFields_iff (original : BlockData) (definition : ObjectId) (isUpdated : Bool)
    (fields : PartitionedFields) (asides : List Aside) (newId : ObjectId) :
    (versionBlock (original.update definition isUpdated fields asides) newId).HasFields fields ↔
      isUpdated = true ∨ fields.children.getD [] = [] := by
  have hset : (versionBlock (original.update definition isUpdated fields asides)
      newId).settings = fields.settings := by
    unfold versionBlock
    split <;> rfl
  have hsame : Dict.same fields.settings fields.settings = true := Dict.same_iff.mpr fun _ => rfl
  unfold BlockData.HasFields
  rw [hset, childKeys_versionBlock, and_iff_right hsame]
  cases isUpdated with
  | true => simp [BlockData.update, BlockData.childKeys]
  | false =>
    rw [or_iff_right false_ne_true]
    exact ⟨Eq.symm, Eq.symm⟩

theorem hasFields_iff_of_not_differ (hsame : ¬ FieldsDiffer store original definitionLocator fields) :
    original.HasFields fields ↔ original.childKeys = fields.children.getD [] := by
  unfold FieldsDiffer at hsame
  push Not at hsame
  unfold BlockData.HasFields
  rw [and_iff_right]
  simpa using hsame.2.1

end

theorem Loads.updateKeepsFields {store next : Store} (hlds : Loads store next) :
    UpdateKeepsFields next = UpdateKeepsFields store := by
  funext original definitionLocator fields asides
  have hdef : next.definition = store.definition := by
    funext id
    unfold Store.definition
    rcases hlds with rfl | ⟨id, struct, -, -, rfl⟩
    · rfl
    · rfl
  unfold UpdateKeepsFields FieldsDiffer ContentDiffers
  rw [hdef]

/-! ## The operation -/

/-- What an update has looked up, from the beginning to the edit. -/
structure HeadHeld (locator : CourseLocator) (envelope : ObjectId × Structure) (store : Store) :
    Prop where
  course : locator.course = store.record.courseKey
  head : store.record.head locator.branch = some envelope.1
  struct : store.record.structures.lookup envelope.1 = some envelope.2

section

variable {locator : CourseLocator} {envelope : ObjectId × Structure}

theorem stable_headHeld : Stable (HeadHeld locator envelope) := by
  intro store next hstep hheld
  cases hstep with
  | @load id struct hrec hdb =>
    refine ⟨hheld.course, hheld.head, ?_⟩
    change (store.record.putStructure id struct).structures.lookup envelope.1 = _
    rw [SplitBulkWriteRecord.lookup_putStructure, if_neg, hheld.struct]
    rintro rfl
    rw [hheld.struct] at hrec
    cases hrec
  | newId => exact ⟨hheld.course, hheld.head, hheld.struct⟩
  | definitions => exact ⟨hheld.course, hheld.head, hheld.struct⟩

theorem stable_headBlock (locator : CourseLocator) (key : BlockKey) (block : BlockData) :
    Stable fun store => store.headBlock locator key = some block := by
  intro store next hstep hblk
  cases hstep with
  | @load id struct hrec hdb =>
    have hlds : Loads store (store.load id struct) := .inr ⟨id, struct, hrec, hdb, rfl⟩
    unfold Store.headBlock
    rwa [hlds.envelope]
  | newId => exact hblk
  | definitions => exact hblk

theorem HeadHeld.headBlock {store : Store} (hheld : HeadHeld locator envelope store) (key : BlockKey) :
    store.headBlock locator key = envelope.2.blocks.lookup key := by
  unfold Store.headBlock Store.envelope
  rw [if_pos hheld.course, hheld.head, bind_some, struct_of_record hheld.struct]
  rfl

theorem updateDefinitionFromData_differs {store : Store} (id : ObjectId) {content : Fields}
    (hcont : content.entries ≠ []) :
    Triple (· = store) (updateDefinitionFromData id content)
      (fun updated _ => updated.2 = true ↔ store.ContentDiffers id content) (fun _ => True) := by
  apply triple_bind ((getDefinition_triple id).raise fun _ _ => trivial)
  intro definition
  apply triple_of_state
  rintro loaded ⟨hdefn, -⟩
  have hdiff : store.ContentDiffers id content ↔ Dict.same content definition.fields = false := by
    unfold ContentDiffers Store.definition
    rw [hdefn]
    simp [hcont]
  apply triple_ite
  · intro hsame
    exact triple_pure fun _ _ => by simp [hdiff, hsame]
  · intro hsame
    apply triple_bind (M := fun _ _ => True)
    · exact (Stable.keeps_reviseDefinition (fun _ _ _ h => h) id definition content).pre (fun _ _ => trivial)
    · exact fun _ => triple_pure fun _ _ => by simp [hdiff, hsame]

theorem updatedDefinition_differs {store : Store} (original : BlockData)
    (definitionLocator : Option ObjectId) (content : Fields) :
    Triple (· = store) (updatedDefinition original definitionLocator content) (fun updated _ => updated.2 = true ↔
        store.ContentDiffers (definitionLocator.getD original.definition) content)
      (fun _ => True) := by
  apply triple_ite
  · intro hemp
    refine triple_pure fun _ _ => ?_
    simp [ContentDiffers, isEmpty_iff.mp hemp]
  · intro hsome
    exact updateDefinitionFromData_differs _ fun hnil => hsome (isEmpty_iff.mpr hnil)

theorem editVersion_replaceBlock {store : Store} (hheld : HeadHeld locator envelope store)
    {key : BlockKey} {original : BlockData} (hblk : envelope.2.blocks.lookup key = some original)
    (change : BlockData → BlockData) :
    Triple (· = store) (editVersion locator.branch envelope fun newId => replaceBlock key newId change)
      (fun _ next => ∃ newId, next.headBlock locator key = some (versionBlock (change original) newId))
      (fun _ => True) := by
  refine ((editVersion_triple hheld.head hheld.struct _).post ?_).raise fun _ _ => trivial
  rintro result next ⟨-, edited, hrun, hedit⟩
  have hrepd : replaceBlock key (store.versionOf locator.branch envelope.1) change
      (store.copyOf locator.branch envelope) = .ok () { store.copyOf locator.branch envelope with
          blocks := envelope.2.blocks.insert key (versionBlock (change original)
            (store.versionOf locator.branch envelope.1)) } := by
    unfold replaceBlock
    change (orRaise ((store.copyOf locator.branch envelope).blocks.lookup key) _ >>= _ :
      EStateM StoreError Structure Unit) _ = _
    rw [blocks_copyOf, hblk]
    rw [← blocks_copyOf store locator.branch envelope]
    rfl
  rw [hrepd] at hrun
  injection hrun with _ hrun
  subst hrun
  refine ⟨store.versionOf locator.branch envelope.1, ?_⟩
  have henv := hedit.envelope_eq locator.versionGuid
  rw [← hheld.course] at henv
  unfold Store.headBlock
  rw [henv, bind_some]
  exact lookup_insert_self _ _ _

theorem updateBlock_keeps {store : Store} (hheld : HeadHeld locator envelope store)
    {key : BlockKey} {original : BlockData} (hblk : envelope.2.blocks.lookup key = some original)
    (fields : PartitionedFields) (definitionLocator : Option ObjectId) (asides : List Aside) :
    Triple (· = store) (updateBlock locator envelope key original fields definitionLocator asides)
      (fun _ next => ∃ block, next.headBlock locator key = some block ∧ (block.HasFields fields ↔
          UpdateKeepsFields store original definitionLocator fields asides))
      (fun _ => True) := by
  apply triple_bind ((triple_and (updatedDefinition_differs original definitionLocator fields.content)
    ((stable_headHeld.keeps_updatedDefinition original definitionLocator fields.content).pre (by rintro _ rfl; exact hheld))).raise fun _ _ => trivial)
  intro updated
  apply triple_of_state
  rintro middle ⟨hdefn, hheld⟩
  have hupd := fieldsUpdated_iff hdefn
  apply triple_ite
  · intro hedits
    apply triple_bind (editVersion_replaceBlock hheld hblk _)
    intro edited
    apply triple_of_state
    rintro next ⟨newId, hnxt⟩
    refine triple_bind ((((stable_headBlock locator key _).keeps_getItem _ key).pre (by rintro _ rfl; exact hnxt)).raise fun _ _ => trivial) fun _ => ?_
    refine triple_pure fun _ hfinal => ⟨_, hfinal, ?_⟩
    rw [update_hasFields_iff, hupd]
    rw [or_eq_true, hupd, not_eq_true', List.isEmpty_eq_false_iff] at hedits
    unfold UpdateKeepsFields
    by_cases hdif : FieldsDiffer store original definitionLocator fields
    · exact iff_of_true (.inl hdif) (.inl hdif)
    · have hasides := hedits.resolve_left hdif
      simp [hdif, hasides]
  · intro hedits
    refine triple_pure ?_
    rintro _ rfl
    refine ⟨original, by rw [hheld.headBlock, hblk], ?_⟩
    rw [or_eq_true, hupd, not_eq_true', List.isEmpty_eq_false_iff, not_or, not_not] at hedits
    rw [hasFields_iff_of_not_differ hedits.1]
    simp [UpdateKeepsFields, hedits.1, hedits.2]

/-- After an update that returned, the block has the fields of the descriptor if and only
if they differ from the stored ones, or none of the stored children is lost. -/
theorem updateItem_keeps_iff {store next : Store} {key : BlockKey} {original : BlockData}
    {fields : PartitionedFields} {definitionLocator : Option ObjectId} {allowNotFound : Bool}
    {asides : List Aside} (hcourse : locator.course = store.record.courseKey)
    (hblock : store.headBlock locator key = some original)
    (hrun : updateItem locator key.type (some key.id) fields definitionLocator allowNotFound asides
      store = .ok () next) :
    ∃ block, next.headBlock locator key = some block ∧ (block.HasFields fields ↔
        UpdateKeepsFields store original definitionLocator fields asides) := by
  have htriple : Triple (· = store)
      (updateItem locator key.type (some key.id) fields definitionLocator allowNotFound asides)
      (fun _ next => ∃ block, next.headBlock locator key = some block ∧
        (block.HasFields fields ↔ UpdateKeepsFields store original definitionLocator fields asides))
      (fun _ => True) := by
    apply triple_bind ((lookupCourse_envelope locator).raise fun _ _ => trivial)
    intro envelope
    apply triple_of_state
    rintro loaded ⟨henvelope, hloads, hfound⟩
    have hheld : HeadHeld locator envelope loaded := by
      refine ⟨by rw [hloads.courseKey, hcourse], ?_, hfound hcourse⟩
      rw [hloads.head]
      exact (head_of_envelope henvelope hcourse).1
    rw [Store.headBlock, henvelope, bind_some] at hblock
    apply triple_bind ((keeps_checkIndexValid locator).raise fun _ _ => trivial)
    intro _
    rw [hblock]
    have hkeeps := updateBlock_keeps hheld hblock fields definitionLocator asides
    rwa [hloads.updateKeepsFields] at hkeeps
  have hresult := htriple store rfl
  rwa [hrun] at hresult

end

def chapterKey : BlockKey := ⟨"chapter", "one"⟩

def chapterBlocks : Blocks := Dict.ofList [(rootKey, newBlock ∅ (some [chapterKey]) 0 0),
    (chapterKey, newBlock ∅ (some [⟨"vertical", "unit"⟩]) 0 0),
    (⟨"vertical", "unit"⟩, newBlock ∅ none 0 0)]

def chapterFields : PartitionedFields := { children := some [⟨"vertical", "unit"⟩] }

def renamedFields : PartitionedFields := { chapterFields with settings := (∅ : Fields).insert "display_name" "Week 1" }

theorem renamed_keeps_iff : ∃ next block, updateItem draftLocator "chapter" (some "one") renamedFields none false []
        (courseWith chapterBlocks) = .ok () next ∧
      next.headBlock draftLocator chapterKey = some block ∧
      (block.HasFields renamedFields ↔ UpdateKeepsFields (courseWith chapterBlocks)
        (newBlock ∅ (some [⟨"vertical", "unit"⟩]) 0 0) none renamedFields []) := by
  obtain ⟨_, next, hrun, -⟩ := exists_run (updateItem draftLocator "chapter" (some "one") renamedFields none false [])
    (courseWith chapterBlocks) (fun _ _ => true) (by decide +kernel)
  have hchapter : (courseWith chapterBlocks).headBlock draftLocator chapterKey =
      some (newBlock ∅ (some [⟨"vertical", "unit"⟩]) 0 0) := by
    rw [Store.headBlock, (courseWith_standsFor chapterBlocks).found]
    rfl
  obtain ⟨block, hblock, hkeeps⟩ := updateItem_keeps_iff rfl hchapter hrun
  exact ⟨next, block, hrun, hblock, hkeeps⟩

/-- An update of the asides alone loses the children. -/
theorem tagged_not_hasFields : ∃ next block, updateItem draftLocator "chapter" (some "one") chapterFields none false
        [{ asideType := "tags", fields := ∅ }] (courseWith chapterBlocks) = .ok () next ∧
      next.headBlock draftLocator chapterKey = some block ∧ ¬ block.HasFields chapterFields := by
  obtain ⟨_, next, hrun, hnext⟩ := exists_run (updateItem draftLocator "chapter" (some "one") chapterFields none false
      [{ asideType := "tags", fields := ∅ }])
    (courseWith chapterBlocks)
    (fun _ next => (next.headBlock draftLocator chapterKey).any fun (block : BlockData) =>
      decide (block.childKeys = [])) (by decide +kernel)
  obtain ⟨block, hblock, hlost⟩ := (Option.any_eq_true _ _).mp hnext
  refine ⟨next, block, hrun, hblock, fun hfields => ?_⟩
  have hchildren := hfields.2
  rw [of_decide_eq_true hlost] at hchildren
  cases hchildren

end EdxPlatform.Split

import EdxPlatform.Split.StoreRules
import EdxPlatform.Split.Concurrency

/-!
# Versions of their own

The record of a bulk operation is valid when what it edits are versions of its own,
which are not in the database until it inserts them.  An edit of a branch keeps a
record valid, and the end of the operation writes its heads.
-/

namespace EdxPlatform.Split

open SplitBulkWriteRecord SplitBulkWriteRecord

/-- No id that is still to be handed out occurs in the database, and a version is
younger than the one it was made from. -/
structure Database.Valid (db : Database) : Prop where
  allocated : ∀ id struct, db.structures.lookup id = some struct → id < db.nextObjectId
  previous : ∀ id struct older, db.structures.lookup id = some struct →
    struct.previousVersion = some older → older < id
  heads : ∀ course branch id, db.headOf course branch = some id → id < db.nextObjectId

namespace SplitBulkWriteRecord

/-- A structure of the record that the end of the bulk operation is to insert. -/
def Unsaved (record : SplitBulkWriteRecord) (id : ObjectId) (struct : Structure) : Prop :=
  record.structures.lookup id = some struct ∧ id ∉ record.structuresInDb

/-- The record of a bulk operation whose edits are in versions of their own. -/
structure Valid (course : CourseKey) (db : Database) (inserted : Bool)
    (record : SplitBulkWriteRecord) : Prop where
  course : record.courseKey = course
  initial : ∀ branch id, record.initialHead branch = some id → id < db.nextObjectId
  inDb : ∀ id ∈ record.structuresInDb, id < db.nextObjectId
  allocated : ∀ id struct, record.Unsaved id struct → id < db.nextObjectId
  previous : ∀ id struct, record.Unsaved id struct → ∀ older, struct.previousVersion = some older → older < id
  younger : ∀ id struct, record.Unsaved id struct → ∀ branch head, record.initialHead branch = some head → head < id
  saved : ∀ id struct, record.Unsaved id struct → db.structures.lookup id = if inserted then some struct else none
  heads : ∀ branch, record.head branch = record.initialHead branch ∨
    ∃ id struct, record.head branch = some id ∧ record.Unsaved id struct ∧
      struct.previousVersion = record.initialHead branch

variable {course : CourseKey} {db : Database} {inserted : Bool} {record : SplitBulkWriteRecord}

theorem Valid.dirty (hval : record.Valid course db inserted) {branch : Branch}
    (hdirty : branch ∈ record.dirtyBranches) :
    ∃ id struct, record.head branch = some id ∧ record.Unsaved id struct ∧
      struct.previousVersion = record.initialHead branch := by
  obtain ⟨id, hhead, hne⟩ := mem_dirtyBranches.mp hdirty
  rcases hval.heads branch with hclean | hver
  · exact absurd (hclean.symm.trans hhead) hne
  · exact hver

theorem Valid.headOf_flushIndex (hval : record.Valid course db inserted)
    (hinit : record.initialIndex = db.activeVersions.lookup course) (now : Timestamp) :
    (flushIndex db record now).headOf course = record.head := by
  rw [← hval.course] at hinit ⊢
  apply headOf_flushIndex_of_initial hinit
  intro hnone branch
  have hhead : record.head branch = none := by
    rw [head, hnone]
    rfl
  rcases hval.heads branch with hclean | ⟨id, struct, hid, -, -⟩
  · exact hclean.symm.trans hhead
  · rw [hhead] at hid
    cases hid

end SplitBulkWriteRecord

/-! ## An edit -/

variable {next store : Store}

theorem unsaved_of_loads (hlds : Loads store next) (id : ObjectId) (struct : Structure) :
    next.record.Unsaved id struct ↔ store.record.Unsaved id struct := by
  rcases hlds with rfl | ⟨loaded, content, hnone, -, rfl⟩
  · rfl
  · unfold SplitBulkWriteRecord.Unsaved Store.load
    simp only [lookup_putStructure, mem_cons, not_or]
    by_cases heq : id = loaded
    · subst heq
      simp [hnone]
    · simp [heq]

/-- What an edit of a branch leaves as it was, and what it makes dirty. -/
structure Edited (course : CourseKey) (branch : Branch) (store next : Store) : Prop where
  structures : next.db.structures = store.db.structures
  activeVersions : next.db.activeVersions = store.db.activeVersions
  later : store.db.nextObjectId ≤ next.db.nextObjectId
  valid : next.record.Valid course next.db false
  initialIndex : next.record.initialIndex = store.record.initialIndex
  unsaved : ∀ id struct, next.record.Unsaved id struct →
    (∃ old, store.record.Unsaved id old) ∨ store.db.nextObjectId ≤ id
  dirty : ∀ other, other ∈ next.record.dirtyBranches ↔ other = branch ∨ other ∈ store.record.dirtyBranches

/-- The second record has the version `id` as head of a branch, with a new content. -/
structure ReplacesHead (branch : Branch) (id : ObjectId) (edited : Structure)
    (record next : SplitBulkWriteRecord) : Prop where
  courseKey : next.courseKey = record.courseKey
  initialIndex : next.initialIndex = record.initialIndex
  structuresInDb : next.structuresInDb = record.structuresInDb
  lookup : ∀ other, next.structures.lookup other = if other = id then some edited else record.structures.lookup other
  head : ∀ other, next.head other = if other = branch then some id else record.head other

/-- The version of a branch in which it can be edited. -/
structure EditableIn (course : CourseKey) (branch : Branch) (id : ObjectId) (edited : Structure)
    (db : Database) (record : SplitBulkWriteRecord) : Prop where
  notInDb : id ∉ record.structuresInDb
  allocated : id < db.nextObjectId
  unsaved : db.structures.lookup id = none
  younger : ∀ other head, record.initialHead other = some head → head < id
  previous : edited.previousVersion = record.initialHead branch
  replaced : ∀ struct, record.Unsaved id struct → struct.previousVersion = edited.previousVersion

namespace ReplacesHead

variable {branch : Branch} {id : ObjectId} {content : Structure} {record next : SplitBulkWriteRecord}

section

variable (hrepl : ReplacesHead branch id content record next)
include hrepl

theorem initialHead : next.initialHead = record.initialHead := by
  unfold SplitBulkWriteRecord.initialHead
  rw [hrepl.initialIndex]

theorem unsaved_self (hid : id ∉ record.structuresInDb) : next.Unsaved id content := by
  refine ⟨?_, hrepl.structuresInDb ▸ hid⟩
  rw [hrepl.lookup, if_pos rfl]

theorem unsaved_iff {other : ObjectId} (hne : other ≠ id) (struct : Structure) :
    next.Unsaved other struct ↔ record.Unsaved other struct := by
  unfold SplitBulkWriteRecord.Unsaved
  rw [hrepl.lookup, if_neg hne, hrepl.structuresInDb]

theorem eq_of_unsaved {struct : Structure} (hunsv : next.Unsaved id struct) : struct = content := by
  have hlook := hunsv.1
  rw [hrepl.lookup, if_pos rfl] at hlook
  exact (some.inj hlook).symm

end

theorem valid {course : CourseKey} {db later : Database} (hrepl : ReplacesHead branch id content record next)
    (hval : record.Valid course db false)
    (hedi : EditableIn course branch id content later record)
    (hstrs : later.structures = db.structures)
    (hlat : db.nextObjectId ≤ later.nextObjectId) : next.Valid course later false where
  course := hrepl.courseKey.trans hval.course
  initial := by
    intro other head hhead
    rw [hrepl.initialHead] at hhead
    exact lt_of_lt_of_le (hval.initial other head hhead) hlat
  inDb := by
    intro other hoth
    rw [hrepl.structuresInDb] at hoth
    exact lt_of_lt_of_le (hval.inDb other hoth) hlat
  allocated := by
    intro other struct hunsv
    by_cases heq : other = id
    · exact heq ▸ hedi.allocated
    · rw [hrepl.unsaved_iff heq] at hunsv
      exact lt_of_lt_of_le (hval.allocated other struct hunsv) hlat
  previous := by
    intro other struct hunsv older holder
    by_cases heq : other = id
    · subst heq
      rw [hrepl.eq_of_unsaved hunsv, hedi.previous] at holder
      exact hedi.younger branch older holder
    · rw [hrepl.unsaved_iff heq] at hunsv
      exact hval.previous other struct hunsv older holder
  younger := by
    intro other struct hunsv branch head hhead
    rw [hrepl.initialHead] at hhead
    by_cases heq : other = id
    · exact heq ▸ hedi.younger branch head hhead
    · rw [hrepl.unsaved_iff heq] at hunsv
      exact hval.younger other struct hunsv branch head hhead
  saved := by
    intro other struct hunsv
    by_cases heq : other = id
    · exact heq ▸ hedi.unsaved
    · rw [hrepl.unsaved_iff heq] at hunsv
      rw [hstrs]
      exact hval.saved other struct hunsv
  heads := by
    intro other
    rw [hrepl.head, hrepl.initialHead]
    by_cases hoth : other = branch
    · subst hoth
      rw [if_pos rfl]
      exact .inr ⟨id, content, rfl, hrepl.unsaved_self hedi.notInDb, hedi.previous⟩
    · rw [if_neg hoth]
      rcases hval.heads other with hclean | ⟨version, struct, hhead, hunsv, hprv⟩
      · exact .inl hclean
      · by_cases heq : version = id
        · subst heq
          refine .inr ⟨version, content, hhead, hrepl.unsaved_self hedi.notInDb, ?_⟩
          rw [← hedi.replaced struct hunsv, hprv]
        · exact .inr ⟨version, struct, hhead, (hrepl.unsaved_iff heq struct).mpr hunsv, hprv⟩

theorem dirty_iff (hrepl : ReplacesHead branch id content record next)
    (hyoun : ∀ other head, record.initialHead other = some head → head < id)
    (other : Branch) :
    other ∈ next.dirtyBranches ↔ other = branch ∨ other ∈ record.dirtyBranches := by
  rw [mem_dirtyBranches, mem_dirtyBranches, hrepl.head, hrepl.initialHead]
  by_cases hoth : other = branch
  · subst hoth
    rw [if_pos rfl]
    refine iff_of_true ⟨id, rfl, fun hhead => ?_⟩ (.inl rfl)
    exact lt_irrefl id (hyoun other id hhead)
  · rw [if_neg hoth]
    exact ⟨.inr, fun h => h.resolve_left hoth⟩

theorem edited {course : CourseKey} {store later : Store}
    (hrepl : ReplacesHead branch id content store.record later.record)
    (hval : store.record.Valid course store.db false)
    (hedi : EditableIn course branch id content later.db store.record)
    (hstrs : later.db.structures = store.db.structures)
    (hact : later.db.activeVersions = store.db.activeVersions)
    (hlat : store.db.nextObjectId ≤ later.db.nextObjectId)
    (hid : (∃ struct, store.record.Unsaved id struct) ∨ store.db.nextObjectId ≤ id) :
    Edited course branch store later where
  structures := hstrs
  activeVersions := hact
  later := hlat
  valid := hrepl.valid hval hedi hstrs hlat
  initialIndex := hrepl.initialIndex
  unsaved := by
    intro other struct hunsv
    by_cases heq : other = id
    · exact heq ▸ hid
    · exact .inl ⟨struct, (hrepl.unsaved_iff heq struct).mp hunsv⟩
  dirty := hrepl.dirty_iff hedi.younger

end ReplacesHead

variable {course : CourseKey}

theorem Loads.valid (hlds : Loads store next)
    (hdb : store.db.Valid) (hval : store.record.Valid course store.db false) :
    next.record.Valid course next.db false := by
  have hunsv := unsaved_of_loads hlds
  rcases hlds with rfl | ⟨loaded, content, -, hcont, rfl⟩
  · exact hval
  · exact {
      course := hval.course
      initial := hval.initial
      inDb := by
        intro id hid
        rcases mem_cons.mp hid with rfl | hid
        · exact hdb.allocated id content hcont
        · exact hval.inDb id hid
      allocated := fun id struct h => hval.allocated id struct ((hunsv id struct).mp h)
      previous := fun id struct h => hval.previous id struct ((hunsv id struct).mp h)
      younger := fun id struct h => hval.younger id struct ((hunsv id struct).mp h)
      saved := fun id struct h => hval.saved id struct ((hunsv id struct).mp h)
      heads := by
        intro branch
        rcases hval.heads branch with hclean | ⟨id, struct, hhead, hstr, hprv⟩
        · exact .inl hclean
        · exact .inr ⟨id, struct, hhead, (hunsv id struct).mpr hstr, hprv⟩ }

variable {branch : Branch}

theorem Loads.edited {middle : Store} (hlds : Loads store middle) (hedit : Edited course branch middle next) :
    Edited course branch store next := by
  have hunsv := unsaved_of_loads hlds
  obtain ⟨hdb, hidx, hinit, -⟩ := hlds.record_eq
  have hdirty : middle.record.dirtyBranches = store.record.dirtyBranches := by
    unfold dirtyBranches
    rw [hidx, hinit]
  exact {
    structures := hedit.structures.trans (congrArg Database.structures hdb)
    activeVersions := hedit.activeVersions.trans (congrArg Database.activeVersions hdb)
    later := hdb ▸ hedit.later
    valid := hedit.valid
    initialIndex := hedit.initialIndex.trans hinit
    unsaved := by
      intro id struct h
      rcases hedit.unsaved id struct h with ⟨old, hold⟩ | hnew
      · exact .inl ⟨old, (hunsv id old).mp hold⟩
      · exact .inr (hdb ▸ hnew)
    dirty := fun other => hdirty ▸ hedit.dirty other }

/-- `newId` is a version in which the branch can be edited. -/
structure Versioned (course : CourseKey) (branch : Branch) (newId : ObjectId)
    (content : Structure) (store next : Store) : Prop where
  structures : next.db.structures = store.db.structures
  activeVersions : next.db.activeVersions = store.db.activeVersions
  later : store.db.nextObjectId ≤ next.db.nextObjectId
  editable : EditableIn course branch newId content next.db store.record
  replaces : ReplacesHead branch newId content store.record next.record
  version : (∃ struct, store.record.Unsaved newId struct) ∨ store.db.nextObjectId ≤ newId

theorem versionStructure_versioned (hdb : store.db.Valid)
    (hval : store.record.Valid course store.db false) {id : ObjectId}
    (struct : Structure) (hhead : store.record.head branch = some id) :
    Triple (· = store) (versionStructure branch id struct)
      (fun newId next => ∃ content, Versioned course branch newId content store next)
      (fun _ => True) := by
  refine ((versionStructure_triple branch id struct).post ?_).raise fun _ _ => trivial
  rintro newId next (⟨hdirty, rfl, hnew, -⟩ | ⟨hclean, rfl, rfl⟩)
  · obtain ⟨version, content, hver, hcont, hprv⟩ := hval.dirty hdirty
    obtain rfl : newId = version := some_unique hnew hver
    refine ⟨content, rfl, rfl, le_rfl, ?_, ?_, .inl ⟨content, hcont⟩⟩
    · exact {
        notInDb := hcont.2
        allocated := hval.allocated newId content hcont
        unsaved := hval.saved newId content hcont
        younger := hval.younger newId content hcont
        previous := hprv
        replaced := fun other hoth => by
          rw [some.inj (hoth.1.symm.trans hcont.1)] }
    · refine ⟨rfl, rfl, rfl, fun other => ?_, fun other => ?_⟩
      · by_cases heq : other = newId
        · rw [if_pos heq, heq, hcont.1]
        · rw [if_neg heq]
      · by_cases heq : other = branch
        · rw [if_pos heq, heq, hnew]
        · rw [if_neg heq]
  · have hinit := head_eq_of_not_dirty hclean hhead
    have hidx : store.record.index.isSome := by
      cases hidx : store.record.index with
      | none => rw [head, hidx] at hhead; cases hhead
      | some index => rfl
    refine ⟨{ struct with previousVersion := some id }, rfl, rfl, le_succ _, ?_, ?_, .inr le_rfl⟩
    · exact {
        notInDb := fun hmem => lt_irrefl _ (hval.inDb _ hmem)
        allocated := lt_succ_self _
        unsaved := by
          cases hlook : store.db.structures.lookup store.db.nextObjectId with
          | none => exact hlook
          | some saved => exact absurd (hdb.allocated _ saved hlook) (lt_irrefl _)
        younger := hval.initial
        previous := hinit.symm
        replaced := fun other hoth => absurd (hval.allocated _ other hoth) (lt_irrefl _) }
    · refine ⟨rfl, rfl, rfl, fun other => ?_, fun other => ?_⟩
      · exact lookup_putStructure _ other _
      · unfold Store.addVersion setStructureForBranch
        rw [head_putStructure, head_setHead]
        simp only [hidx, and_true]

theorem Versioned.edited {newId : ObjectId} {content edited : Structure} {versioned : Store}
    (hversd : Versioned course branch newId content store versioned)
    (hval : store.record.Valid course store.db false)
    (hprv : edited.previousVersion = content.previousVersion) :
    Edited course branch store { versioned with
      record := (versioned.record.putStructure newId edited).setHead branch newId } := by
  have hold := hversd.replaces
  have hrepl : ReplacesHead branch newId edited store.record
      ((versioned.record.putStructure newId edited).setHead branch newId) := by
    refine ⟨hold.courseKey, hold.initialIndex, hold.structuresInDb, fun other => ?_, fun other => ?_⟩
    · rw [structures_setHead, lookup_putStructure, hold.lookup]
      split <;> rfl
    · rw [head_setHead, head_putStructure, hold.head]
      by_cases heq : other = branch
      · simp [heq]
      · simp [heq]
  have hedi := hversd.editable
  exact hrepl.edited hval { hedi with
      previous := hprv.trans hedi.previous
      replaced := fun struct hstr => (hedi.replaced struct hstr).trans hprv.symm }
    hversd.structures hversd.activeVersions hversd.later hversd.version

theorem editBranch_triple (hdb : store.db.Valid) (hval : store.record.Valid course store.db false) (branch : Branch)
    (change : Blocks → Blocks) :
    Triple (· = store) (editBranch course branch change)
      (fun _ next => Edited course branch store next) (fun _ => True) := by
  unfold editBranch
  apply triple_bind ((lookupCourse_triple _ _).raise fun _ _ => trivial)
  intro envelope
  apply triple_of_state
  rintro loaded ⟨hlds, hlook⟩
  rw [if_pos hval.course.symm] at hlook
  have hload := hlds.valid hdb hval
  have hhead : loaded.record.head branch = some envelope.1 := by
    rw [← hlook.2 rfl]
    unfold head
    rw [hlds.record_eq.2.1]
  apply triple_bind (M := fun _ next => Edited course branch store next)
  · apply triple_bind (versionStructure_versioned (hlds.record_eq.1 ▸ hdb) hload envelope.2 hhead)
    intro newId
    apply triple_of_state
    rintro versioned ⟨content, hversd⟩
    have hcont : versioned.record.structures.lookup newId = some content := by
      rw [hversd.replaces.lookup, if_pos rfl]
    apply triple_bind (triple_weaken (editStructure_triple
      (Q := fun _ edited => edited.previousVersion = content.previousVersion)
      (R := fun _ => True) ?_) (fun _ h => h) (fun _ _ h => h) fun _ _ => trivial)
    · intro _
      apply triple_bind (M := fun _ next => Edited course branch store next)
      · apply triple_modify
        rintro _ ⟨struct, edited, -, hprv, rfl⟩
        exact hlds.edited (hversd.edited hload hprv)
      · exact fun _ => triple_pure fun _ h => h
    · intro struct hstr
      rw [hcont] at hstr
      apply triple_modify
      rintro _ rfl
      have hprv := congrArg Structure.previousVersion (some.inj hstr)
      exact hprv.symm
  · exact fun _ => triple_pure fun _ h => h

end EdxPlatform.Split

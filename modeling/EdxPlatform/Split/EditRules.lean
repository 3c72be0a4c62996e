import EdxPlatform.Split.ReadRules
import EdxPlatform.Split.VersionRules

/-!
# What an edit does to the store

A structure of the record hides the one that is saved under its id.  An edit of a
branch replaces one structure, that of its head, and leaves the others as they are.
-/

namespace EdxPlatform.Split

open Store SplitBulkWriteRecord

/-! ## Reading -/

def Store.struct (store : Store) (id : ObjectId) : Option Structure :=
  (store.record.structures.lookup id).or (store.db.structures.lookup id)

def Store.envelope (store : Store) (locator : CourseLocator) : Option (ObjectId × Structure) :=
  if locator.course = store.record.courseKey then
    (store.record.head locator.branch).bind fun id => (store.struct id).map fun struct => (id, struct)
  else
    (store.db.headOf locator.course locator.branch).bind fun id =>
      (store.db.structures.lookup id).map fun struct => (id, struct)

def Store.Agrees (store : Store) : Prop :=
  ∀ id saved struct, store.db.structures.lookup id = some saved →
    store.record.structures.lookup id = some struct → struct = saved

variable {id : ObjectId} {store : Store}

theorem Store.struct_of_record {struct : Structure}
    (hstr : store.record.structures.lookup id = some struct) : store.struct id = some struct := by
  rw [Store.struct, hstr, some_or]

theorem Store.Agrees.struct_of_saved (hagr : store.Agrees)
    {saved : Structure} (hsaved : store.db.structures.lookup id = some saved) :
    store.struct id = some saved := by
  unfold Store.struct
  cases hrec : store.record.structures.lookup id with
  | none => exact hsaved
  | some struct => exact congrArg some (hagr id saved struct hsaved hrec)

variable {next : Store}

section

variable (hlds : Loads store next)
include hlds

theorem Loads.struct : next.struct = store.struct := by
  rcases hlds with rfl | ⟨loaded, content, hnone, hcont, rfl⟩
  · rfl
  · funext id
    change Option.or ((store.record.putStructure loaded content).structures.lookup id) _ = _
    rw [lookup_putStructure]
    unfold Store.struct
    split
    · next heq =>
        rw [heq, hnone, hcont]
        rfl
    · rfl

theorem Loads.courseKey : next.record.courseKey = store.record.courseKey := by
  rcases hlds with rfl | ⟨_, _, -, -, rfl⟩
  · rfl
  · rfl

theorem Loads.head : next.record.head = store.record.head := by
  unfold SplitBulkWriteRecord.head
  rw [hlds.record_eq.2.1]

theorem Loads.dirtyBranches : next.record.dirtyBranches = store.record.dirtyBranches := by
  unfold SplitBulkWriteRecord.dirtyBranches
  rw [hlds.record_eq.2.1, hlds.record_eq.2.2.1]

theorem Loads.envelope : next.envelope = store.envelope := by
  funext locator
  unfold Store.envelope
  rw [hlds.courseKey, hlds.head, hlds.struct, hlds.record_eq.1]

end

variable {envelope : ObjectId × Structure}

theorem Store.head_of_envelope {locator : CourseLocator} (henv : store.envelope locator = some envelope)
    (hcrs : locator.course = store.record.courseKey) :
    store.record.head locator.branch = some envelope.1 ∧ store.struct envelope.1 = some envelope.2 := by
  rw [Store.envelope, if_pos hcrs] at henv
  obtain ⟨id, hid, hstr⟩ := bind_eq_some_iff.mp henv
  obtain ⟨struct, hfnd, rfl⟩ := map_eq_some_iff.mp hstr
  exact ⟨hid, hfnd⟩

theorem lookupCourse_envelope (locator : CourseLocator) : Triple (· = store) (lookupCourse locator)
      (fun envelope next => store.envelope locator = some envelope ∧ Loads store next ∧
        (locator.course = store.record.courseKey →
          next.record.structures.lookup envelope.1 = some envelope.2)) (· = store) := by
  refine (lookupCourse_triple locator true).post ?_
  rintro envelope next ⟨hlds, hfnd⟩
  refine ⟨?_, hlds, fun hcrs => ?_⟩
  · rw [← hlds.envelope, Store.envelope, hlds.courseKey, hlds.head, hlds.record_eq.1]
    split at hfnd
    · next hcrs =>
        rw [if_pos hcrs, hfnd.2 rfl, bind_some, struct_of_record hfnd.1]
        rfl
    · next hcrs =>
        rw [if_neg hcrs, hfnd.2 rfl, bind_some, hfnd.1]
        rfl
  · rw [if_pos hcrs] at hfnd
    exact hfnd.1

/-! ## Editing -/

def Store.versionOf (store : Store) (branch : Branch) (head : ObjectId) : ObjectId :=
  if branch ∈ store.record.dirtyBranches then head else store.db.nextObjectId

theorem Loads.versionOf (hlds : Loads store next) : next.versionOf = store.versionOf := by
  funext branch head
  unfold Store.versionOf
  rw [hlds.dirtyBranches, hlds.record_eq.1]

def Store.copyOf (store : Store) (branch : Branch) (envelope : ObjectId × Structure) : Structure :=
  if branch ∈ store.record.dirtyBranches then envelope.2
  else { envelope.2 with previousVersion := some envelope.1 }

section

variable (store : Store) (branch : Branch) (envelope : ObjectId × Structure)

@[simp]
theorem Store.blocks_copyOf : (store.copyOf branch envelope).blocks = envelope.2.blocks := by
  unfold copyOf
  split <;> rfl

@[simp]
theorem Store.root_copyOf : (store.copyOf branch envelope).root = envelope.2.root := by
  unfold copyOf
  split <;> rfl

end

/-- The second store is the first after a branch was edited to a new content. -/
structure BranchEdited (branch : Branch) (id : ObjectId) (edited : Structure)
    (store next : Store) : Prop where
  structures : next.db.structures = store.db.structures
  activeVersions : next.db.activeVersions = store.db.activeVersions
  definitions : next.db.definitions = store.db.definitions
  later : store.db.nextObjectId ≤ next.db.nextObjectId
  version : branch ∈ store.record.dirtyBranches ∧ store.record.head branch = some id ∨
    branch ∉ store.record.dirtyBranches ∧ id = store.db.nextObjectId ∧ id < next.db.nextObjectId
  replaces : ReplacesHead branch id edited store.record next.record

variable {branch : Branch}

theorem isSome_of_head {record : SplitBulkWriteRecord}
    (hhead : record.head branch = some id) : record.index.isSome := by
  cases hidx : record.index with
  | none =>
    rw [SplitBulkWriteRecord.head, hidx] at hhead
    cases hhead
  | some index => rfl

theorem replacesHead_setHead {record : SplitBulkWriteRecord} {head : ObjectId}
    (hhead : record.head branch = some head) (edited : Structure) :
    ReplacesHead branch id edited record ((record.putStructure id edited).setHead branch id) := by
  refine ⟨rfl, rfl, rfl, fun other => ?_, fun other => ?_⟩
  · exact lookup_putStructure id other edited
  · rw [head_setHead, head_putStructure]
    have hidx : (record.putStructure id edited).index.isSome := isSome_of_head hhead
    simp only [hidx, and_true]

theorem branchEdited_self (hdirty : branch ∈ store.record.dirtyBranches)
    (hhead : store.record.head branch = some envelope.1)
    (hstr : store.record.structures.lookup envelope.1 = some envelope.2) :
    BranchEdited branch envelope.1 envelope.2 store store := by
  refine ⟨rfl, rfl, rfl, le_rfl, .inl ⟨hdirty, hhead⟩, rfl, rfl, rfl, fun other => ?_, fun other => ?_⟩
  · split
    · next heq => rw [heq, hstr]
    · rfl
  · split
    · next heq => rw [heq, hhead]
    · rfl

theorem versionStructure_edited (hhead : store.record.head branch = some envelope.1)
    (hstr : store.record.structures.lookup envelope.1 = some envelope.2) :
    Triple (· = store) (versionStructure branch envelope.1 envelope.2)
      (fun newId next => newId = store.versionOf branch envelope.1 ∧
        BranchEdited branch newId (store.copyOf branch envelope) store next) (fun _ => False) := by
  by_cases hdirty : branch ∈ store.record.dirtyBranches
  · apply triple_of_run
    have hfnd : store.record.structureForBranch branch = some envelope := by
      rw [structureForBranch, hhead, bind_some, hstr]
      rfl
    have hrun : versionStructure branch envelope.1 envelope.2 store = .ok envelope.1 store := by
      unfold versionStructure
      rw [run_bind]
      change (if _ then _ else _ : StoreM ObjectId) store = _
      rw [if_pos hdirty, hfnd]
      rfl
    rw [hrun, Store.versionOf, copyOf, if_pos hdirty, if_pos hdirty]
    exact ⟨rfl, branchEdited_self hdirty hhead hstr⟩
  · apply triple_of_run
    have hrun : versionStructure branch envelope.1 envelope.2 store =
        .ok store.db.nextObjectId (store.addVersion branch envelope.1 envelope.2) := by
      unfold versionStructure
      rw [run_bind]
      change (if _ then _ else _ : StoreM ObjectId) store = _
      rw [if_neg hdirty]
      rfl
    rw [hrun, Store.versionOf, copyOf, if_neg hdirty, if_neg hdirty]
    exact ⟨rfl, rfl, rfl, rfl, le_succ _, .inr ⟨hdirty, rfl, lt_succ_self _⟩, replacesHead_setHead hhead _⟩

section

variable {content : Structure} (hed : BranchEdited branch id content store next)
include hed

theorem BranchEdited.put (edited : Structure) :
    BranchEdited branch id edited store { next with record := next.record.putStructure id edited } := by
  refine { hed with replaces := ?_ }
  have hrepl := hed.replaces
  refine ⟨hrepl.courseKey, hrepl.initialIndex, hrepl.structuresInDb, fun other => ?_, hrepl.head⟩
  rw [lookup_putStructure, hrepl.lookup]
  split <;> rfl

theorem BranchEdited.setHead :
    BranchEdited branch id content store { next with record := next.record.setHead branch id } := by
  refine { hed with replaces := ?_ }
  have hrepl := hed.replaces
  refine ⟨hrepl.courseKey, hrepl.initialIndex, hrepl.structuresInDb, hrepl.lookup, fun other => ?_⟩
  rw [head_setHead, hrepl.head]
  by_cases heq : other = branch
  · rw [if_pos heq, ite_self]
  · rw [if_neg fun h => heq h.1]

end

theorem editVersion_triple {α : Type} (hhead : store.record.head branch = some envelope.1)
    (hstr : store.record.structures.lookup envelope.1 = some envelope.2)
    (edit : ObjectId → EStateM StoreError Structure α) :
    Triple (· = store) (editVersion branch envelope edit)
      (fun result next => result.1 = store.versionOf branch envelope.1 ∧ ∃ edited,
        edit (store.versionOf branch envelope.1) (store.copyOf branch envelope) = .ok result.2 edited ∧
        BranchEdited branch (store.versionOf branch envelope.1) edited store next)
      (fun next => ∃ error edited, edit (store.versionOf branch envelope.1) (store.copyOf branch envelope) =
          .error error edited ∧
        BranchEdited branch (store.versionOf branch envelope.1) edited store next) := by
  apply triple_bind (triple_weaken (versionStructure_edited hhead hstr) (fun _ h => h)
    (fun _ _ h => h) fun _ h => h.elim)
  intro newId
  apply triple_of_state
  rintro versioned ⟨rfl, hversd⟩
  have hcopy : versioned.record.structures.lookup (store.versionOf branch envelope.1) =
      some (store.copyOf branch envelope) := by
    rw [hversd.replaces.lookup, if_pos rfl]
  apply triple_bind (triple_weaken (editStructure_triple
    (Q := fun result edited => edit (store.versionOf branch envelope.1)
      (store.copyOf branch envelope) = .ok result edited)
    (R := fun edited => ∃ error, edit (store.versionOf branch envelope.1)
      (store.copyOf branch envelope) = .error error edited) ?_) (fun _ h => h) (fun _ _ h => h) ?_)
  · intro result
    apply triple_bind (M := fun _ next => ∃ edited,
      edit (store.versionOf branch envelope.1) (store.copyOf branch envelope) = .ok result edited ∧
      BranchEdited branch (store.versionOf branch envelope.1) edited store next)
    · apply triple_modify
      rintro _ ⟨struct, edited, -, hres, rfl⟩
      exact ⟨edited, hres, (hversd.put edited).setHead⟩
    · exact fun _ => triple_pure fun _ h => ⟨rfl, h⟩
  · intro struct hfnd
    obtain rfl := some_unique hfnd hcopy
    apply triple_of_run
    cases hres : edit (store.versionOf branch envelope.1) (store.copyOf branch envelope) with
    | ok result edited => rfl
    | error error edited => exact ⟨error, rfl⟩
  · rintro _ (⟨hnone, -⟩ | ⟨struct, edited, hfnd, ⟨error, hres⟩, rfl⟩)
    · rw [hcopy] at hnone
      cases hnone
    · exact ⟨error, edited, hres, hversd.put edited⟩

theorem editStructure_edited {α : Type} (hdirty : branch ∈ store.record.dirtyBranches)
    (hhead : store.record.head branch = some envelope.1)
    (hstr : store.record.structures.lookup envelope.1 = some envelope.2)
    (edit : EStateM StoreError Structure α) :
    Triple (· = store) (editStructure envelope.1 edit)
      (fun result next => ∃ edited, edit envelope.2 = .ok result edited ∧
        BranchEdited branch envelope.1 edited store next)
      (fun next => ∃ error edited, edit envelope.2 = .error error edited ∧
        BranchEdited branch envelope.1 edited store next) := by
  have hself := branchEdited_self hdirty hhead hstr
  apply triple_of_run
  unfold editStructure
  rw [hstr]
  cases hres : edit envelope.2 with
  | ok result edited =>
    simp only [hres]
    exact ⟨edited, rfl, hself.put edited⟩
  | error error edited =>
    simp only [hres]
    exact ⟨error, edited, rfl, hself.put edited⟩

theorem branchEdited_new (hidx : store.record.index.isSome)
    (hhead : store.record.head branch = none) (struct : Structure) :
    BranchEdited branch store.db.nextObjectId struct store
      { db := { store.db with nextObjectId := store.db.nextObjectId + 1 }
        record := (store.record.putStructure store.db.nextObjectId struct).setHead branch store.db.nextObjectId } := by
  refine ⟨rfl, rfl, rfl, le_succ _, .inr ⟨fun hdirty => ?_, rfl, lt_succ_self _⟩, rfl, rfl,
    rfl, fun other => ?_, fun other => ?_⟩
  · obtain ⟨id, hid, -⟩ := mem_dirtyBranches.mp hdirty
    rw [hhead] at hid
    cases hid
  · exact lookup_putStructure _ other struct
  · have hput : (store.record.putStructure store.db.nextObjectId struct).index.isSome := hidx
    rw [head_setHead, head_putStructure]
    simp only [hput, and_true]

theorem newBranch_triple {current : Store} {struct : ObjectId → Structure}
    {program : ObjectId → EStateM StoreError Structure Unit} {Q : Unit → Store → Prop} {R : Store → Prop}
    (hidx : current.record.index.isSome) (hhead : current.record.head branch = none)
    (hedits : ∀ edited next, program current.db.nextObjectId (struct current.db.nextObjectId) = .ok () edited →
        BranchEdited branch current.db.nextObjectId edited current next → Q () next)
    (hfails : R { current with db := { current.db with nextObjectId := current.db.nextObjectId + 1 } }) :
    Triple (· = current) (do
      let newId ← newObjectId
      let edited ← editedStructure (struct newId) (program newId)
      updateStructure newId edited
      updateHead branch newId) Q R := by
  apply triple_bind (M := fun newId next => newId = current.db.nextObjectId ∧
    next = { current with db := { current.db with nextObjectId := newId + 1 } })
  · rintro _ rfl
    exact ⟨rfl, rfl⟩
  · intro newId
    apply triple_of_state
    rintro _ ⟨rfl, rfl⟩
    unfold editedStructure
    cases hedit : program current.db.nextObjectId (struct current.db.nextObjectId) with
    | error error edited =>
      refine triple_throw ?_
      rintro _ rfl
      exact hfails
    | ok result edited =>
      rintro _ rfl
      exact hedits edited _ hedit (branchEdited_new hidx hhead edited)

end EdxPlatform.Split

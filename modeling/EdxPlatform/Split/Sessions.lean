import EdxPlatform.Split.HeadRuns

/-!
# Sessions

A session is a sequence of bulk operations, one after the other, on any courses.
The branches that are edited in it have versions of their own.
-/

namespace EdxPlatform.Split

open SplitBulkWriteRecord

/-- In the bulk operation, what is saved is not edited, and what is edited is not saved. -/
structure Store.Valid (store : Store) : Prop where
  agrees : store.Agrees
  inDb : ∀ id ∈ store.record.structuresInDb, id ∈ store.db.structures
  saved : ∀ id ∈ store.db.structures, id < store.db.nextObjectId
  loaded : ∀ id ∈ store.record.structures, id < store.db.nextObjectId
  stored : ∀ course branch id, store.db.headOf course branch = some id → id < store.db.nextObjectId
  initial : store.record.initialIndex = store.db.activeVersions.lookup store.record.courseKey
  kept : store.record.index = none → store.record.initialIndex = none
  dirty : ∀ branch ∈ store.record.dirtyBranches, ∀ id, store.record.head branch = some id →
    id ∈ store.record.structures ∧ id ∉ store.db.structures
  clean : ∀ course branch id, store.db.headOf course branch = some id →
    id ∈ store.record.structures → id ∈ store.db.structures

/-- No id that is still to be handed out occurs in the database. -/
structure Database.Allocated (db : Database) : Prop where
  saved : ∀ id ∈ db.structures, id < db.nextObjectId
  stored : ∀ course branch id, db.headOf course branch = some id → id < db.nextObjectId

theorem Database.Allocated.valid {db : Database} (hall : db.Allocated) (course : CourseKey) :
    (started db course).Valid where
  __ := hall
  agrees := fun _ _ _ _ hrec => nomatch hrec
  inDb := fun _ hmem => nomatch hmem
  loaded := fun _ hmem => nomatch hmem
  initial := rfl
  kept := id
  dirty := by
    intro branch hdirty
    obtain ⟨id, hhead, hne⟩ := mem_dirtyBranches.mp hdirty
    exact absurd hhead hne
  clean := fun _ _ _ _ hmem => nomatch hmem

namespace Store.Valid

variable {store next : Store}

theorem initialHead (hval : store.Valid) (branch : Branch) :
    store.record.initialHead branch = store.db.headOf store.record.courseKey branch := by
  unfold SplitBulkWriteRecord.initialHead Database.headOf
  rw [hval.initial]

variable {branch : Branch}

theorem saved_of_clean (hval : store.Valid) {envelope : ObjectId × Structure}
    (hclean : branch ∉ store.record.dirtyBranches)
    (hhead : store.record.head branch = some envelope.1)
    (hstr : store.record.structures.lookup envelope.1 = some envelope.2) :
    store.db.structures.lookup envelope.1 = some envelope.2 := by
  have hinit := head_eq_of_not_dirty hclean hhead
  rw [hval.initialHead] at hinit
  have hmem := hval.clean _ _ _ hinit (mem_of_lookup hstr)
  obtain ⟨saved, hsaved⟩ := mem_iff_lookup.mp hmem
  rw [hsaved, hval.agrees _ _ _ hsaved hstr]

theorem stable : Stable Store.Valid := by
  intro store next hstep hval
  cases hstep with
  | @load id struct hrec hdb =>
    have hmem : id ∈ store.db.structures := mem_of_lookup hdb
    have hlook : ∀ other ∈ (store.load id struct).record.structures, other = id ∨ other ∈ store.record.structures := by
      intro other hoth
      exact (mem_insert _).mp hoth
    exact { hval with
      agrees := by
        intro other saved content hsaved hcont
        change (store.record.putStructure id struct).structures.lookup other = _ at hcont
        rw [lookup_putStructure] at hcont
        split at hcont
        · next heq =>
            subst heq
            exact (some.inj hcont).symm.trans (some_unique hdb hsaved)
        · exact hval.agrees other saved content hsaved hcont
      inDb := by
        intro other hoth
        rcases mem_cons.mp hoth with rfl | hoth
        · exact hmem
        · exact hval.inDb other hoth
      loaded := by
        intro other hoth
        rcases hlook other hoth with rfl | hoth
        · exact hval.saved other hmem
        · exact hval.loaded other hoth
      dirty := by
        intro branch hdirty head hhead
        obtain ⟨hload, hunsv⟩ := hval.dirty branch hdirty head hhead
        exact ⟨(mem_insert _).mpr (.inr hload), hunsv⟩
      clean := by
        intro course branch head hhead hload
        rcases hlook head hload with rfl | hload
        · exact hmem
        · exact hval.clean course branch head hhead hload }
  | newId =>
    exact { hval with
      saved := fun id hid => lt_succ_of_lt (hval.saved id hid)
      loaded := fun id hid => lt_succ_of_lt (hval.loaded id hid)
      stored := fun course branch id hid => lt_succ_of_lt (hval.stored course branch id hid) }
  | definitions => exact { hval with }

section

variable (hval : store.Valid)
include hval

theorem notMem_of_edited {id : ObjectId} {edited : Structure} (hedit : BranchEdited branch id edited store next) :
    id ∉ store.db.structures := by
  rcases hedit.version with ⟨hdirty, hhead⟩ | ⟨-, rfl, -⟩
  · exact (hval.dirty branch hdirty id hhead).2
  · exact fun hmem => lt_irrefl _ (hval.saved _ hmem)

theorem edited {id : ObjectId} {edited : Structure} (hedit : BranchEdited branch id edited store next) :
    next.Valid ∧ branch ∈ next.record.dirtyBranches := by
  have hunsv := hval.notMem_of_edited hedit
  have hrepl := hedit.replaces
  have hmem : ∀ other, other ∈ next.record.structures ↔ other = id ∨ other ∈ store.record.structures := by
    intro other
    rw [mem_iff_lookup, mem_iff_lookup, hrepl.lookup]
    by_cases heq : other = id
    · simp [heq]
    · simp [heq]
  have hinit : next.record.initialHead = store.record.initialHead := hrepl.initialHead
  have hid : id < next.db.nextObjectId := by
    rcases hedit.version with ⟨hdirty, hhead⟩ | ⟨-, -, hlt⟩
    · exact lt_of_lt_of_le (hval.loaded id (hval.dirty branch hdirty id hhead).1) hedit.later
    · exact hlt
  have hdirty : branch ∈ next.record.dirtyBranches := by
    rw [mem_dirtyBranches, hrepl.head, if_pos rfl, hinit]
    refine ⟨id, rfl, fun hhead => ?_⟩
    rcases hedit.version with ⟨hdirty, hid⟩ | ⟨-, rfl, -⟩
    · obtain ⟨other, hoth, hne⟩ := mem_dirtyBranches.mp hdirty
      exact hne (hhead.trans (hid.symm.trans hoth))
    · rw [hval.initialHead] at hhead
      exact lt_irrefl _ (hval.stored _ _ _ hhead)
  refine ⟨?_, hdirty⟩
  have hheadOf : next.db.headOf = store.db.headOf := by
    unfold Database.headOf
    rw [hedit.activeVersions]
  exact {
    agrees := by
      intro other saved struct hsaved hstr
      rw [hedit.structures] at hsaved
      rw [hrepl.lookup] at hstr
      split at hstr
      · next heq => exact absurd (mem_iff_lookup.mpr ⟨saved, heq ▸ hsaved⟩) hunsv
      · exact hval.agrees other saved struct hsaved hstr
    inDb := by
      intro other hoth
      rw [hrepl.structuresInDb] at hoth
      rw [hedit.structures]
      exact hval.inDb other hoth
    saved := by
      intro other hoth
      rw [hedit.structures] at hoth
      exact lt_of_lt_of_le (hval.saved other hoth) hedit.later
    loaded := by
      intro other hoth
      rcases (hmem other).mp hoth with rfl | hoth
      · exact hid
      · exact lt_of_lt_of_le (hval.loaded other hoth) hedit.later
    stored := by
      intro course other head hhead
      rw [hheadOf] at hhead
      exact lt_of_lt_of_le (hval.stored course other head hhead) hedit.later
    initial := by
      rw [hrepl.initialIndex, hrepl.courseKey, hedit.activeVersions]
      exact hval.initial
    kept := by
      intro hnone
      have hhead := hrepl.head branch
      rw [if_pos rfl, SplitBulkWriteRecord.head, hnone] at hhead
      cases hhead
    dirty := by
      intro other hoth head hhead
      rw [hrepl.head] at hhead
      rw [hmem, hedit.structures]
      split at hhead
      · obtain rfl := some.inj hhead
        exact ⟨.inl rfl, hunsv⟩
      · next hne =>
          rw [mem_dirtyBranches, hinit, hrepl.head, if_neg hne] at hoth
          have hold := hval.dirty other (mem_dirtyBranches.mpr hoth) head hhead
          exact ⟨.inr hold.1, hold.2⟩
    clean := by
      intro course other head hhead hoth
      rw [hheadOf] at hhead
      rw [hedit.structures]
      rcases (hmem head).mp hoth with rfl | hoth
      · rcases hedit.version with ⟨hdirty, hid⟩ | ⟨-, rfl, -⟩
        · exact hval.clean course other head hhead (hval.dirty branch hdirty head hid).1
        · exact absurd (hval.stored _ _ _ hhead) (lt_irrefl _)
      · exact hval.clean course other head hhead hoth }

theorem lookup_nextBulk (course : CourseKey) (now : Timestamp)
    (id : ObjectId) : (store.nextBulk course now).db.structures.lookup id = store.struct id := by
  have hlook : (store.nextBulk course now).db.structures.lookup id = (store.db.structures.lookup id).or
        (if id ∈ store.record.structuresInDb then none else store.record.structures.lookup id) :=
    lookup_endBulk store now id
  rw [hlook]
  cases hsaved : store.db.structures.lookup id with
  | some saved => rw [hval.agrees.struct_of_saved hsaved, some_or]
  | none =>
    have hnotin : id ∉ store.record.structuresInDb := fun hmem => lookup_eq_none.mp hsaved (hval.inDb id hmem)
    rw [if_neg hnotin, none_or, Store.struct, hsaved, or_none]

theorem headOf_nextBulk (course : CourseKey) (now : Timestamp) (other : CourseKey) (branch : Branch) :
    (store.nextBulk course now).db.headOf other branch = store.headOf { course := other, branch := branch } := by
  have hinit : store.record.initialIndex =
      (flushDocuments store.db store.record).activeVersions.lookup store.record.courseKey :=
    hval.initial
  unfold Store.headOf
  split
  · next heq =>
      obtain rfl : other = store.record.courseKey := heq
      have hnone : store.record.index = none → ∀ branch, store.record.initialHead branch = none := by
        intro hidx branch
        rw [SplitBulkWriteRecord.initialHead, hval.kept hidx, bind_none]
      exact congrFun (headOf_flushIndex_of_initial hinit hnone now) branch
  · next hne => exact congrFun (headOf_flushIndex_of_ne _ _ now hne) branch

theorem headOf_lt {locator : CourseLocator} {id : ObjectId}
    (hhead : store.headOf locator = some id) : id < store.db.nextObjectId := by
  unfold Store.headOf at hhead
  split at hhead
  · by_cases hdirty : locator.branch ∈ store.record.dirtyBranches
    · exact hval.loaded id (hval.dirty _ hdirty id hhead).1
    · have hinit := head_eq_of_not_dirty hdirty hhead
      rw [hval.initialHead] at hinit
      exact hval.stored _ _ id hinit
  · exact hval.stored _ _ id hhead

theorem nextBulk (course : CourseKey) (now : Timestamp) : (store.nextBulk course now).Valid := by
  have hnxt : (store.nextBulk course now).db.nextObjectId = store.db.nextObjectId := (structures_flushIndex _ _ _).2
  suffices hall : (store.nextBulk course now).db.Allocated from hall.valid course
  constructor
  · intro id hid
    obtain ⟨struct, hstr⟩ := mem_iff_lookup.mp hid
    rw [hval.lookup_nextBulk course now, Store.struct, or_eq_some_iff] at hstr
    rw [hnxt]
    rcases hstr with hrec | ⟨-, hdb⟩
    · exact hval.loaded id (mem_of_lookup hrec)
    · exact hval.saved id (mem_of_lookup hdb)
  · intro other branch id hid
    rw [hval.headOf_nextBulk course now] at hid
    rw [hnxt]
    exact hval.headOf_lt hid

end

end Store.Valid

theorem branchesDatabase_allocated (published draft : Blocks) : (branchesDatabase published draft).Allocated := by
  constructor
  · intro id hid
    change id ∈ ((∅ : Dict ObjectId Structure).insert 0 _).insert 1 _ at hid
    rw [mem_insert, mem_insert] at hid
    rcases hid with rfl | rfl | hid
    · exact Nat.one_lt_two
    · exact Nat.zero_lt_two
    · exact absurd hid (notMem_empty id)
  · intro course branch id hhead
    change (((∅ : Dict CourseKey CourseIndex).insert "course" _).lookup course).bind _ = _ at hhead
    rw [lookup_insert] at hhead
    split at hhead
    · change (((∅ : Dict Branch ObjectId).insert "published-branch" 0).insert "draft-branch" 1).lookup
        branch = _ at hhead
      rw [lookup_insert, lookup_insert] at hhead
      split at hhead
      · obtain rfl := some.inj hhead
        exact Nat.one_lt_two
      · split at hhead
        · obtain rfl := some.inj hhead
          exact Nat.zero_lt_two
        · cases hhead
    · cases hhead

end EdxPlatform.Split

import EdxPlatform.Lib.Programs
import EdxPlatform.Split.CourseClones

/-!
# Writes to shared entries

What an operation on one course leaves of the others: their records and stored entries stay, and
of the dictionaries in memory only the ones that it works on change.
-/

namespace EdxPlatform.Split.CourseStore

open Heap

/-- The entries of bulk operations are in memory, and all heads were handed out. -/
structure Valid (store : CourseStore) : Prop where
  live : ∀ course record index, store.records.lookup course = some record → record.index = some index →
    store.versions.Holds index.versions ∧ store.searchTargets.Holds index.searchTargets
  initial : ∀ course record, store.records.lookup course = some record → record.index = none →
    record.initialIndex = none
  heads : ∀ ref branch id, (store.versionsAt ref).lookup branch = some id → id < store.nextObjectId
  stored : ∀ course entry, store.activeVersions.lookup course = some entry →
    ∀ branch id, entry.versions.lookup branch = some id → id < store.nextObjectId

def SameVersions (store next : CourseStore) (ref : Ref) : Prop :=
  ∀ branch, (next.versionsAt ref).lookup branch = (store.versionsAt ref).lookup branch

/-- What happens to the store when an operation on a course changes just the versions in the places
`moved`, and saves the fields `saved` in the search targets. -/
structure Wrote (course : CourseKey) (moved : Ref → Prop) (saved : Ref → List PartitionedFields)
    (store next : CourseStore) : Prop where
  valid : next.Valid
  records : ∀ other, other ≠ course → next.records.lookup other = store.records.lookup other
  stored : ∀ other, other ≠ course → next.activeVersions.lookup other = store.activeVersions.lookup other
  holdsVersions : ∀ ref, store.versions.Holds ref → next.versions.Holds ref
  holdsTargets : ∀ ref, store.searchTargets.Holds ref → next.searchTargets.Holds ref
  ids : store.nextObjectId ≤ next.nextObjectId
  versions : ∀ ref, store.versions.Holds ref → (SameVersions store next ref ↔ ¬ moved ref)
  targets : ∀ ref, store.searchTargets.Holds ref →
    next.searchTargetsAt ref = (saved ref).foldl saveTargets (store.searchTargetsAt ref)

abbrev Leaves (course : CourseKey) (store next : CourseStore) : Prop :=
  Wrote course (fun _ => False) (fun _ => []) store next

variable {store middle next : CourseStore} {course : CourseKey} {moved moved' : Ref → Prop}
  {saved saved' : Ref → List PartitionedFields} {ref : Ref}

theorem SameVersions.trans (hfst : SameVersions store middle ref)
    (hsec : SameVersions middle next ref) : SameVersions store next ref :=
  fun branch => (hsec branch).trans (hfst branch)

theorem SameVersions.symm (hsame : SameVersions store next ref) : SameVersions next store ref :=
  fun branch => (hsame branch).symm

theorem Valid.leaves_self (hval : store.Valid) (course : CourseKey) : Leaves course store store where
  valid := hval
  records := fun _ _ => rfl
  stored := fun _ _ => rfl
  holdsVersions := fun _ h => h
  holdsTargets := fun _ h => h
  ids := Nat.le_refl _
  versions := fun _ _ => iff_of_true (fun _ => rfl) not_false
  targets := fun _ _ => rfl

theorem Wrote.trans (hfst : Wrote course moved saved store middle) (hsec : Wrote course moved' saved' middle next)
    (honce : ∀ ref, store.versions.Holds ref → ¬ moved ref ∨ ¬ moved' ref) :
    Wrote course (fun ref => moved ref ∨ moved' ref) (fun ref => saved ref ++ saved' ref) store next where
  valid := hsec.valid
  records := fun other hne => (hsec.records other hne).trans (hfst.records other hne)
  stored := fun other hne => (hsec.stored other hne).trans (hfst.stored other hne)
  holdsVersions := fun ref h => hsec.holdsVersions ref (hfst.holdsVersions ref h)
  holdsTargets := fun ref h => hsec.holdsTargets ref (hfst.holdsTargets ref h)
  ids := Nat.le_trans hfst.ids hsec.ids
  versions := fun ref hhold => by
    have hst := hfst.versions ref hhold
    have hrest := hsec.versions ref (hfst.holdsVersions ref hhold)
    rw [not_or]
    rcases honce ref hhold with hmoved | hmoved
    · have hsame := hst.mpr hmoved
      rw [← hrest]
      exact ⟨fun h => ⟨hmoved, hsame.symm.trans h⟩, fun h => hsame.trans h.2⟩
    · have hsame := hrest.mpr hmoved
      rw [← hst]
      exact ⟨fun h => ⟨h.trans hsame.symm, hmoved⟩, fun h => h.1.trans hsame⟩
  targets := fun ref hhold => by
    rw [foldl_append, ← hfst.targets ref hhold]
    exact hsec.targets ref (hfst.holdsTargets ref hhold)

theorem Wrote.congr (hwrote : Wrote course moved saved store next)
    (hmoved : ∀ ref, store.versions.Holds ref → (moved ref ↔ moved' ref))
    (hsaved : ∀ ref, store.searchTargets.Holds ref → saved ref = saved' ref) :
    Wrote course moved' saved' store next where
  __ := hwrote
  versions := fun ref hhold => by rw [hwrote.versions ref hhold, hmoved ref hhold]
  targets := fun ref hhold => by rw [hwrote.targets ref hhold, hsaved ref hhold]

theorem Leaves.wrote (hfst : Leaves course store middle)
    (hsec : Wrote course moved saved middle next) : Wrote course moved saved store next :=
  (Wrote.trans hfst hsec fun _ _ => .inl not_false).congr (fun _ _ => iff_of_eq (false_or _)) fun _ _ => nil_append _

theorem Wrote.leaves (hfst : Wrote course moved saved store middle)
    (hsec : Leaves course middle next) : Wrote course moved saved store next :=
  (hfst.trans hsec fun _ _ => .inr not_false).congr (fun _ _ => iff_of_eq (or_false _)) fun _ _ => append_nil _

/-! ## The primitives -/

theorem versionsAt_putVersion (store : CourseStore) (hhold : store.versions.Holds ref)
    (branch : Branch) (id : ObjectId) (other : Ref) :
    (store.putVersion ref branch id).versionsAt other =
      if other = ref then (store.versionsAt ref).insert branch id else store.versionsAt other := by
  unfold versionsAt putVersion
  rw [read_update]
  by_cases heq : other = ref
  · subst heq
    obtain ⟨versions, hread⟩ := hhold.exists_read
    simp [hread]
  · rw [if_neg heq, if_neg heq]

theorem searchTargetsAt_putTargets (store : CourseStore)
    (hhold : store.searchTargets.Holds ref) (fields : PartitionedFields) (other : Ref) :
    (store.putTargets ref fields).searchTargetsAt other =
      if other = ref then saveTargets (store.searchTargetsAt ref) fields
      else store.searchTargetsAt other := by
  unfold searchTargetsAt putTargets
  rw [read_update]
  by_cases heq : other = ref
  · subst heq
    obtain ⟨targets, hread⟩ := hhold.exists_read
    simp [hread]
  · rw [if_neg heq, if_neg heq]

section

variable (hval : store.Valid)
include hval

theorem putVersion_wrote (hhold : store.versions.Holds ref)
    (branch : Branch) {id : ObjectId} (hid : id < store.nextObjectId) :
    Wrote course (fun other => other = ref ∧ (store.versionsAt ref).lookup branch ≠ some id)
      (fun _ => []) store (store.putVersion ref branch id) where
  __ := hval.leaves_self course
  valid :=
    { hval with
      live := fun other record index hrec hidx =>
        (hval.live other record index hrec hidx).imp_left (holds_update _ _).mpr
      heads := fun other branch' id' hhead => by
        rw [versionsAt_putVersion store hhold] at hhead
        split at hhead
        · rw [lookup_insert] at hhead
          split at hhead
          · exact some.inj hhead ▸ hid
          · exact hval.heads ref branch' id' hhead
        · exact hval.heads other branch' id' hhead }
  holdsVersions := fun other h => (holds_update _ _).mpr h
  versions := fun other _ => by
    unfold SameVersions
    rw [versionsAt_putVersion store hhold]
    by_cases heq : other = ref
    · subst heq
      simp only [if_true, true_and, not_not]
      constructor
      · intro hsame
        rw [← hsame branch, lookup_insert_self]
      · intro hhead branch'
        rw [lookup_insert]
        split
        · next h => rw [h, hhead]
        · rfl
    · simp [heq]

theorem putTargets_wrote (hhold : store.searchTargets.Holds ref) (fields : PartitionedFields) :
    Wrote course (fun _ => False) (fun other => if other = ref then [fields] else [])
      store (store.putTargets ref fields) where
  __ := hval.leaves_self course
  valid :=
    { hval with
      live := fun other record index hrec hidx =>
        (hval.live other record index hrec hidx).imp_right (holds_update _ _).mpr }
  holdsTargets := fun other h => (holds_update _ _).mpr h
  targets := fun other _ => by
    rw [searchTargetsAt_putTargets store hhold]
    by_cases heq : other = ref
    · rw [if_pos heq, if_pos heq, heq]; rfl
    · rw [if_neg heq, if_neg heq]; rfl

theorem setRecord_leaves {record : CourseRecord} (hlive : ∀ index, record.index = some index →
      store.versions.Holds index.versions ∧ store.searchTargets.Holds index.searchTargets)
    (hinit : record.index = none → record.initialIndex = none) :
    Leaves course store (store.setRecord course record) where
  __ := hval.leaves_self course
  valid :=
    { hval with
      live := fun other found index hfnd hidx => by
        by_cases heq : other = course
        · subst heq
          obtain rfl := some.inj ((lookup_insert_self _ _ _).symm.trans hfnd)
          exact hlive index hidx
        · exact hval.live other found index ((lookup_insert_of_ne heq _ _).symm.trans hfnd) hidx
      initial := fun other found hfnd hidx => by
        by_cases heq : other = course
        · subst heq
          obtain rfl := some.inj ((lookup_insert_self _ _ _).symm.trans hfnd)
          exact hinit hidx
        · exact hval.initial other found ((lookup_insert_of_ne heq _ _).symm.trans hfnd) hidx }
  records := fun other hne => lookup_insert_of_ne hne _ _

theorem newId_leaves : Leaves course store store.withNextId where
  __ := hval.leaves_self course
  valid :=
    { hval with
      heads := fun ref branch id h => lt_succ_of_lt (hval.heads ref branch id h)
      stored := fun other entry h branch id hid => lt_succ_of_lt (hval.stored other entry h branch id hid) }
  ids := le_succ _

theorem stored_leaves {activeVersions : Dict CourseKey CourseEntry} {structures : List ObjectId}
    (hoth : ∀ other, other ≠ course → activeVersions.lookup other = store.activeVersions.lookup other)
    (hheads : ∀ entry, activeVersions.lookup course = some entry →
      ∀ branch id, entry.versions.lookup branch = some id → id < store.nextObjectId) :
    Leaves course store { store with activeVersions := activeVersions, structures := structures } where
  __ := hval.leaves_self course
  valid :=
    { hval with
      stored := fun other entry hent => by
        by_cases heq : other = course
        · exact hheads entry (heq ▸ hent)
        · exact hval.stored other entry ((hoth other heq).symm.trans hent) }
  stored := hoth

theorem eraseRecord_leaves : Leaves course store { store with records := store.records.erase course } where
  __ := hval.leaves_self course
  valid :=
    { hval with
      live := fun other record index hrec => by
        rw [lookup_erase] at hrec
        split at hrec
        · cases hrec
        · exact hval.live other record index hrec
      initial := fun other record hrec => by
        rw [lookup_erase] at hrec
        split at hrec
        · cases hrec
        · exact hval.initial other record hrec }
  records := fun other hne => (lookup_erase _ _ _).trans (if_neg hne)

end

theorem versionsAt_addVersions (store : CourseStore) (versions : Dict Branch ObjectId)
    (hhold : store.versions.Holds ref) :
    (store.addVersions versions).versionsAt ref = store.versionsAt ref := by
  unfold versionsAt addVersions
  rw [read_alloc hhold]

theorem addVersions_leaves (hval : store.Valid) {versions : Dict Branch ObjectId}
    (hheads : ∀ branch id, versions.lookup branch = some id → id < store.nextObjectId) :
    Leaves course store (store.addVersions versions) where
  __ := hval.leaves_self course
  valid :=
    { hval with
      live := fun other record index hrec hidx =>
        (hval.live other record index hrec hidx).imp_left fun h => h.alloc versions
      heads := fun ref branch id hhead => by
        by_cases hhold : store.versions.Holds ref
        · rw [versionsAt_addVersions store versions hhold] at hhead
          exact hval.heads ref branch id hhead
        · unfold versionsAt addVersions at hhead
          cases hread : (store.versions.alloc versions).read ref with
          | none => rw [hread] at hhead; cases hhead
          | some found =>
            rw [hread] at hhead
            exact hheads branch id (read_alloc_of_not_holds hhold hread ▸ hhead) }
  holdsVersions := fun _ h => h.alloc versions
  versions := fun ref hhold =>
    iff_of_true (fun branch => by rw [versionsAt_addVersions store versions hhold]) not_false

theorem addTargets_leaves (hval : store.Valid) (targets : Fields) :
    Leaves course store (store.addTargets targets) where
  __ := hval.leaves_self course
  valid :=
    { hval with
      live := fun other record index hrec hidx =>
        (hval.live other record index hrec hidx).imp_right fun h => h.alloc targets }
  holdsTargets := fun _ h => h.alloc targets
  targets := fun ref hhold => by
    unfold searchTargetsAt addTargets
    rw [read_alloc hhold]
    rfl

theorem load_leaves (hval : store.Valid) {entry : CourseEntry}
    (hheads : ∀ branch id, entry.versions.lookup branch = some id → id < store.nextObjectId) :
    Leaves course store (store.load entry).2 := by
  have halloc : Leaves course store _ := addVersions_leaves hval hheads
  exact halloc.wrote (addTargets_leaves halloc.valid _)

theorem load_holds (store : CourseStore) (entry : CourseEntry) :
    (store.load entry).2.versions.Holds (store.load entry).1.versions ∧
      (store.load entry).2.searchTargets.Holds (store.load entry).1.searchTargets :=
  ⟨holds_alloc_fresh _ _, holds_alloc_fresh _ _⟩

theorem putIndex_leaves (hval : store.Valid) {index : EntryObject}
    (hhold : store.versions.Holds index.versions ∧ store.searchTargets.Holds index.searchTargets) :
    Leaves course store (store.putIndex course index) := by
  unfold putIndex
  cases hrec : store.records.lookup course with
  | some record => exact setRecord_leaves hval (fun _ h => some.inj h ▸ hhold) fun h => nomatch h
  | none =>
    refine stored_leaves hval (fun other hne => lookup_insert_of_ne hne _ _) ?_
    intro entry hent branch id hid
    obtain rfl := some.inj ((lookup_insert_self _ _ _).symm.trans hent)
    exact hval.heads index.versions branch id hid

theorem putStructure_eq (store : CourseStore) (course : CourseKey) (id : ObjectId) :
    store.putStructure course id = match store.records.lookup course with
      | none => store
      | some record => store.setRecord course { record with structures := id :: record.structures } := by
  unfold putStructure Dict.modify
  cases store.records.lookup course with
  | none => rfl
  | some record => rfl

theorem putStructure_leaves (hval : store.Valid) (id : ObjectId) :
    Leaves course store (store.putStructure course id) := by
  rw [putStructure_eq]
  cases hrec : store.records.lookup course with
  | none => exact hval.leaves_self course
  | some record =>
    exact setRecord_leaves hval (fun index h => hval.live course record index hrec h) (hval.initial course record hrec)

theorem beginBulk_leaves (hval : store.Valid) : Leaves course store (store.beginBulk course) := by
  unfold beginBulk
  cases hrec : store.records.lookup course with
  | some record =>
    exact setRecord_leaves hval (fun index h => hval.live course record index hrec h) (hval.initial course record hrec)
  | none =>
    cases hent : store.activeVersions.lookup course with
    | none => exact setRecord_leaves hval (fun _ h => nomatch h) fun _ => rfl
    | some entry =>
      have hload : Leaves course store _ := load_leaves hval (hval.stored course entry hent)
      exact hload.wrote (setRecord_leaves hload.valid
        (fun _ h => some.inj h ▸ store.load_holds entry) fun h => nomatch h)

theorem endBulk_leaves (hval : store.Valid) : Leaves course store (store.endBulk course) := by
  unfold endBulk
  split
  · exact hval.leaves_self course
  · next record hrec =>
      split
      · exact setRecord_leaves hval (fun index h => hval.live course record index hrec h)
          (hval.initial course record hrec)
      · have herase : Leaves course store _ := eraseRecord_leaves hval
        refine herase.wrote (stored_leaves herase.valid ?_ ?_)
        · intro other hne
          unfold flushEntry
          split
          · rfl
          · split
            · rfl
            · exact lookup_insert_of_ne hne _ _
        · intro entry hent branch id hid
          unfold flushEntry at hent
          split at hent
          · exact hval.stored course entry hent branch id hid
          · next index hidx =>
              split at hent
              · exact hval.stored course entry hent branch id hid
              · obtain rfl := some.inj ((lookup_insert_self _ _ _).symm.trans hent)
                exact hval.heads index.versions branch id hid

end EdxPlatform.Split.CourseStore

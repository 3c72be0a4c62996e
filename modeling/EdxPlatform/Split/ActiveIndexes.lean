import EdxPlatform.Lib.Programs
import EdxPlatform.Split.Store

/-!
# The indexes that match a query

The indexes of the database that match are found first.  Then the indexes of the active bulk
operations replace those of the same course, or are appended, if they pass the same filters.
-/

namespace EdxPlatform.Split

open Dict

structure CourseRun where
  org : String
  course : String
  run : String
  deriving DecidableEq

/-- An entry of the active versions with its search targets.  A target is a text, or null. -/
structure IndexEntry extends CourseIndex where
  searchTargets : Dict String (Option String) := ∅

abbrev IndexDocument := CourseRun × IndexEntry

/-- The index in the record of an active bulk operation. -/
structure IndexRecord where
  initialIndex : Option IndexEntry
  index : Option IndexEntry

structure IndexQuery where
  branch : Option Branch := none
  searchTargets : Dict String (Option String) := ∅
  orgTarget : Option String := none

/-! ## Finding -/

namespace IndexQuery

section

variable (query : IndexQuery) (document : IndexDocument)

def selectsOrg : Bool := query.orgTarget.all fun org => decide (org = "" ∨ document.1.org = org)

/-- The query of `MongoConnection.find_matching_course_indexes`.  For the database a target
that is not there equals null. -/
def selects : Bool :=
  (query.branch.all fun branch => decide (branch ∈ document.2.versions)) &&
    (query.searchTargets.entries.all fun target =>
      decide ((document.2.searchTargets.lookup target.1).join = target.2)) &&
    query.selectsOrg document

def accepts : Bool :=
  (query.branch.all fun branch => decide (branch = "" ∨ branch ∈ document.2.versions)) &&
    (query.searchTargets.entries.all fun target =>
      decide (document.2.searchTargets.lookup target.1 = some target.2)) &&
    query.selectsOrg document

end

/-- What the first filter raises on an index that is `None`, if there is a filter. -/
def absentError (query : IndexQuery) : Option StoreError :=
  if query.branch.any (· ≠ "") then some .attributeError
  else if !query.searchTargets.entries.isEmpty || query.orgTarget.any (· ≠ "") then some .typeError
  else none

end IndexQuery

/-- `_replace_or_append_index` -/
def replaceOrAppendIndex (alteredIndex : Option IndexDocument) :
    List (Option IndexDocument) → Except StoreError (List (Option IndexDocument))
  | [] => .ok [alteredIndex]
  | existing :: indexes =>
    match existing, alteredIndex with
    | some document, some altered =>
      if document.1 = altered.1 then .ok (some altered :: indexes)
      else do
        let replaced ← replaceOrAppendIndex alteredIndex indexes
        pure (existing :: replaced)
    | _, _ => .error .typeError

def addActiveIndex (query : IndexQuery) (indexes : List (Option IndexDocument))
    (active : Sigma fun _ : CourseRun => IndexRecord) :
    Except StoreError (List (Option IndexDocument)) :=
  match active.2.index with
  | none =>
    match query.absentError with
    | some error => .error error
    | none => replaceOrAppendIndex none indexes
  | some index =>
    if query.accepts (active.1, index) then replaceOrAppendIndex (some (active.1, index)) indexes
    else .ok indexes

def selectedIndexes (db : Dict CourseRun IndexEntry) (query : IndexQuery) : List IndexDocument :=
  (db.entries.map fun entry => (entry.1, entry.2)).filter query.selects

def findMatchingCourseIndexes (db : Dict CourseRun IndexEntry) (records : Dict CourseRun IndexRecord)
    (query : IndexQuery) : Except StoreError (List (Option IndexDocument)) :=
  records.entries.foldlM (addActiveIndex query) ((selectedIndexes db query).map some)

def IndexEntry.same (entry other : IndexEntry) : Bool :=
  entry.toCourseIndex.same other.toCourseIndex && Dict.same entry.searchTargets other.searchTargets

/-- The index that the end of a bulk operation writes over the stored one.  The insert of
an entry for a course that has one raises `DuplicateKeyError`. -/
def IndexRecord.written (record : IndexRecord) (stored : Option IndexEntry) : Option IndexEntry :=
  match record.index, record.initialIndex, stored with
  | some index, none, none => some index
  | some index, some initialIndex, some entry =>
    if !index.same initialIndex && Database.selects initialIndex.toCourseIndex entry.toCourseIndex then
      some index
    else none
  | _, _, _ => none

section

variable (now : Timestamp) (db : Dict CourseRun IndexEntry)

def flushIndexEntry (active : Sigma fun _ : CourseRun => IndexRecord) : Dict CourseRun IndexEntry :=
  match active.2.written (db.lookup active.1) with
  | none => db
  | some index => db.insert active.1 { index with lastUpdate := some now }

def flushIndexes (records : Dict CourseRun IndexRecord) : Dict CourseRun IndexEntry :=
  records.entries.foldl (flushIndexEntry now) db

/-- Entries that are equal up to the time of their last update. -/
structure IndexEntry.Alike (entry other : IndexEntry) : Prop where
  id : entry.id = other.id
  versions : ∀ branch, entry.versions.lookup branch = other.versions.lookup branch
  searchTargets : ∀ field, entry.searchTargets.lookup field = other.searchTargets.lookup field

def SameIndexes (indexes others : List (Option IndexDocument)) : Prop :=
  let alike := Option.Rel fun document other : IndexDocument =>
    document.1 = other.1 ∧ document.2.Alike other.2
  (∀ index ∈ indexes, ∃ other ∈ others, alike index other) ∧ ∀ other ∈ others, ∃ index ∈ indexes, alike index other

/-- The query returns what it would return after the end of the bulk operations. -/
def FindsFlushed (records : Dict CourseRun IndexRecord) (query : IndexQuery) : Prop :=
  ∃ indexes flushed, findMatchingCourseIndexes db records query = .ok indexes ∧
    findMatchingCourseIndexes (flushIndexes now db records) ∅ query = .ok flushed ∧
    SameIndexes indexes flushed

end

def Holds (stored : Option IndexEntry) (index : IndexEntry) : Prop := ∃ entry, stored = some entry ∧ entry.Alike index

/-- What a bulk operation must satisfy: an index that is accepted is selected, and it is
stored or will be written; if one that is not accepted will be written, then it is stored
too, or else neither the stored entry nor the index is selected. -/
def IndexRecord.Settled (query : IndexQuery) (run : CourseRun) (stored : Option IndexEntry)
    (record : IndexRecord) : Prop :=
  ∃ index, record.index = some index ∧ if query.accepts (run, index) then
      query.selects (run, index) ∧ (record.written stored = none → Holds stored index)
    else record.written stored = none ∨ query.selects (run, index) ∧ Holds stored index ∨
      ¬ query.selects (run, index) ∧ ∀ entry, stored = some entry → ¬ query.selects (run, entry)

/-- The documents are those that are found, one for a course. -/
structure Lists (documents : List IndexDocument) (found : CourseRun → Option IndexEntry) : Prop where
  mem : ∀ run entry, (run, entry) ∈ documents ↔ found run = some entry
  nodup : (documents.map Prod.fst).Nodup

variable {documents : List IndexDocument} {found other : CourseRun → Option IndexEntry} {others : List IndexDocument}

section

variable (hfnd : Lists documents found) (hoth : Lists others other)
include hfnd hoth

theorem matched_iff (R : IndexEntry → IndexEntry → Prop) :
    (∀ document ∈ documents, ∃ same ∈ others, document.1 = same.1 ∧ R document.2 same.2) ↔
      ∀ run entry, found run = some entry → ∃ same, other run = some same ∧ R entry same := by
  constructor
  · intro hall run entry hent
    obtain ⟨⟨otherRun, same⟩, hmem, heq, hlike⟩ := hall _ ((hfnd.mem run entry).mpr hent)
    obtain rfl : run = otherRun := heq
    exact ⟨same, (hoth.mem run same).mp hmem, hlike⟩
  · rintro hall ⟨run, entry⟩ hmem
    obtain ⟨same, hsame, hlike⟩ := hall run entry ((hfnd.mem run entry).mp hmem)
    exact ⟨(run, same), (hoth.mem run same).mpr hsame, rfl, hlike⟩

theorem sameIndexes_iff : SameIndexes (documents.map some) (others.map some) ↔
      ∀ run, Option.Rel IndexEntry.Alike (found run) (other run) := by
  have hforth := matched_iff hfnd hoth IndexEntry.Alike
  have hback : (∀ document ∈ others, ∃ same ∈ documents, same.1 = document.1 ∧ same.2.Alike document.2) ↔
      ∀ run entry, other run = some entry → ∃ same, found run = some same ∧ same.Alike entry := by
    rw [← matched_iff hoth hfnd fun entry same => same.Alike entry]
    simp only [eq_comm]
  simp only [SameIndexes, mem_map, forall_exists_index, and_imp, forall_apply_eq_imp_iff₂,
    exists_exists_and_eq_and, Option.rel_some_some, hforth, hback]
  rw [← forall_and]
  refine forall_congr' fun run => ?_
  cases found run with
  | none =>
    cases other run with
    | none => simp
    | some same => simp
  | some entry =>
    cases other run with
    | none => simp
    | some same => simp

end

theorem lists_selectedIndexes (db : Dict CourseRun IndexEntry) (query : IndexQuery) : Lists (selectedIndexes db query)
      fun run => (db.lookup run).filter fun entry => query.selects (run, entry) where
  mem := by
    intro run entry
    unfold selectedIndexes
    rw [mem_filter, mem_items_iff, filter_eq_some_iff]
  nodup := by
    refine List.Nodup.sublist (List.filter_sublist.map Prod.fst) ?_
    rw [map_map]
    exact db.nodupKeys

theorem replaceOrAppendIndex_lists (altered : IndexDocument) (hnod : (documents.map Prod.fst).Nodup) :
    ∃ replaced : List IndexDocument,
      replaceOrAppendIndex (some altered) (documents.map some) = .ok (replaced.map some) ∧
      (replaced.map Prod.fst).Nodup ∧ ∀ document, document ∈ replaced ↔
        document = altered ∨ document ∈ documents ∧ document.1 ≠ altered.1 := by
  induction documents with
  | nil => exact ⟨[altered], rfl, nodup_singleton _, by simp⟩
  | cons existing documents ih =>
    obtain ⟨hnew, hrest⟩ := nodup_cons.mp hnod
    have hoths : ∀ document ∈ documents, document.1 ≠ existing.1 := fun document hmem heq =>
      hnew (heq ▸ mem_map_of_mem hmem)
    by_cases heq : existing.1 = altered.1
    · refine ⟨altered :: documents, ?_, ?_, fun document => ?_⟩
      · simp only [map_cons, replaceOrAppendIndex, heq, if_true]
      · rw [map_cons, ← heq]
        exact hnod
      · rw [mem_cons, mem_cons, or_and_right, ← heq]
        refine or_congr_right ⟨fun hmem => .inr ⟨hmem, hoths document hmem⟩, ?_⟩
        rintro (⟨rfl, hne⟩ | ⟨hmem, -⟩)
        · exact absurd rfl hne
        · exact hmem
    · obtain ⟨replaced, hrepd, hnod', hmem⟩ := ih hrest
      refine ⟨existing :: replaced, ?_, ?_, fun document => ?_⟩
      · simp only [map_cons, replaceOrAppendIndex, heq, if_false, hrepd]
        rfl
      · refine nodup_cons.mpr ⟨fun hthere => ?_, hnod'⟩
        obtain ⟨document, hdoc, hsame⟩ := mem_map.mp hthere
        rcases (hmem document).mp hdoc with rfl | ⟨hold, -⟩
        · exact heq hsame.symm
        · exact hoths document hold hsame
      · rw [mem_cons, mem_cons, hmem, or_and_right]
        constructor
        · rintro (rfl | halt | hold)
          · exact .inr (.inl ⟨rfl, heq⟩)
          · exact .inl halt
          · exact .inr (.inr hold)
        · rintro (halt | ⟨rfl, -⟩ | hold)
          · exact .inr (.inl halt)
          · exact .inl rfl
          · exact .inr (.inr hold)

/-- What is found for the course of a bulk operation in place of what was found before. -/
def overlaid (query : IndexQuery) (run : CourseRun) (record : IndexRecord)
    (found : Option IndexEntry) : Option IndexEntry :=
  match record.index with
  | none => found
  | some index => if query.accepts (run, index) then some index else found

variable {active : Sigma fun _ : CourseRun => IndexRecord} {query : IndexQuery}

theorem addActiveIndex_lists (hls : Lists documents found) (hpres : active.2.index ≠ none) :
    ∃ next : List IndexDocument, addActiveIndex query (documents.map some) active = .ok (next.map some) ∧
        Lists next (changeAt (overlaid query) found active) := by
  obtain ⟨index, hidx⟩ := ne_none_iff_exists'.mp hpres
  unfold addActiveIndex changeAt overlaid
  simp only [hidx]
  split
  · obtain ⟨replaced, hrepd, hnod, hmem⟩ := replaceOrAppendIndex_lists (active.1, index) hls.nodup
    refine ⟨replaced, hrepd, fun run entry => ?_, hnod⟩
    rw [hmem, hls.mem]
    by_cases heq : run = active.1
    · subst heq
      simp [eq_comm]
    · simp [heq]
  · rw [Function.update_eq_self]
    exact ⟨documents, rfl, hls⟩

theorem findMatchingCourseIndexes_lists (db : Dict CourseRun IndexEntry)
    (records : Dict CourseRun IndexRecord) (query : IndexQuery)
    (hpres : ∀ active ∈ records.entries, active.2.index ≠ none) :
    ∃ documents : List IndexDocument, findMatchingCourseIndexes db records query = .ok (documents.map some) ∧
        Lists documents (overlay (overlaid query) records fun run =>
          (db.lookup run).filter fun entry => query.selects (run, entry)) := by
  have hloop : ∀ (entries : List (Sigma fun _ : CourseRun => IndexRecord)) documents found,
      (∀ active ∈ entries, active.2.index ≠ none) → Lists documents found →
      ∃ next : List IndexDocument, entries.foldlM (addActiveIndex query) (documents.map some) = .ok (next.map some) ∧
          Lists next (entries.foldl (changeAt (overlaid query)) found) := by
    intro entries
    induction entries with
    | nil => exact fun documents found _ hls => ⟨documents, rfl, hls⟩
    | cons active entries ih =>
      intro documents found hpres hls
      obtain ⟨next, hnxt, hls⟩ := addActiveIndex_lists hls (hpres active mem_cons_self)
      obtain ⟨last, hlast, hls⟩ := ih next _ (forall_mem_cons.mp hpres).2 hls
      refine ⟨last, ?_, hls⟩
      rw [foldlM_cons, hnxt]
      exact hlast
  obtain ⟨documents, hdocu, hls⟩ := hloop records.entries _ _ hpres (lists_selectedIndexes db query)
  rw [foldl_changeAt] at hls
  exact ⟨documents, hdocu, hls⟩

variable {indexes next : List (Option IndexDocument)}

theorem replaceOrAppendIndex_none {altered : Option IndexDocument}
    (hrepd : replaceOrAppendIndex altered indexes = .ok next) (hnone : none ∈ altered :: indexes) :
    none ∈ next := by
  induction indexes generalizing next with
  | nil =>
    obtain rfl := ok.inj hrepd
    exact hnone
  | cons existing indexes ih =>
    cases existing with
    | none => cases hrepd
    | some document =>
      cases altered with
      | none => cases hrepd
      | some altered =>
        have hthere : none ∈ indexes := by simpa using hnone
        unfold replaceOrAppendIndex at hrepd
        dsimp only at hrepd
        split at hrepd
        · obtain rfl := ok.inj hrepd
          exact mem_cons_of_mem _ hthere
        · cases hrest : replaceOrAppendIndex (some altered) indexes with
          | error error =>
            rw [hrest] at hrepd
            cases hrepd
          | ok replaced =>
            rw [hrest] at hrepd
            obtain rfl := ok.inj hrepd
            exact mem_cons_of_mem _ (ih hrest (mem_cons_of_mem _ hthere))

theorem addActiveIndex_none (hadded : addActiveIndex query indexes active = .ok next)
    (hnone : active.2.index = none ∨ none ∈ indexes) : none ∈ next := by
  unfold addActiveIndex at hadded
  split at hadded
  · split at hadded
    · cases hadded
    · exact replaceOrAppendIndex_none hadded mem_cons_self
  · next index hidx =>
      have hthere := hnone.resolve_left (by simp [hidx])
      split at hadded
      · exact replaceOrAppendIndex_none hadded (mem_cons_of_mem _ hthere)
      · obtain rfl := ok.inj hadded
        exact hthere

theorem findMatchingCourseIndexes_none {db : Dict CourseRun IndexEntry} {records : Dict CourseRun IndexRecord}
    (hfnd : findMatchingCourseIndexes db records query = .ok indexes) (hact : active ∈ records.entries)
    (habs : active.2.index = none) : none ∈ indexes := by
  have hloop : ∀ (entries : List (Sigma fun _ : CourseRun => IndexRecord)) found,
      entries.foldlM (addActiveIndex query) found = .ok indexes →
      active ∈ entries ∨ none ∈ found → none ∈ indexes := by
    intro entries
    induction entries with
    | nil =>
      intro found heq hor
      obtain rfl := ok.inj heq
      exact hor.resolve_left not_mem_nil
    | cons other entries ih =>
      intro found heq hor
      rw [foldlM_cons] at heq
      cases hadded : addActiveIndex query found other with
      | error error =>
        rw [hadded] at heq
        cases heq
      | ok next =>
        rw [hadded] at heq
        refine ih next heq ?_
        rcases hor with hmem | hnone
        · rcases mem_cons.mp hmem with rfl | hlat
          · exact .inr (addActiveIndex_none hadded (.inl habs))
          · exact .inl hlat
        · exact .inr (addActiveIndex_none hadded (.inr hnone))
  exact hloop records.entries _ hfnd (.inl hact)

def flushedEntry (now : Timestamp) (record : IndexRecord) (stored : Option IndexEntry) : Option IndexEntry :=
  match record.written stored with
  | none => stored
  | some index => some { index with lastUpdate := some now }

theorem lookup_flushIndexes (now : Timestamp) (db : Dict CourseRun IndexEntry)
    (records : Dict CourseRun IndexRecord) (run : CourseRun) :
    (flushIndexes now db records).lookup run =
      overlay (fun _ => flushedEntry now) records (fun run => db.lookup run) run := by
  have hstep : ∀ (db : Dict CourseRun IndexEntry) (active : Sigma fun _ : CourseRun => IndexRecord),
      (fun run => (flushIndexEntry now db active).lookup run) =
        changeAt (fun _ => flushedEntry now) (fun run => db.lookup run) active := by
    intro db active
    funext run
    unfold flushIndexEntry changeAt flushedEntry
    by_cases heq : run = active.1
    · subst heq
      rw [update_self]
      dsimp only
      cases active.2.written (db.lookup active.1) with
      | none => rfl
      | some index => exact lookup_insert_self _ _ _
    · rw [update_of_ne heq]
      split
      · rfl
      · exact lookup_insert_of_ne heq _ _
  have hloop : ∀ (entries : List (Sigma fun _ : CourseRun => IndexRecord)) (db : Dict CourseRun IndexEntry),
      (fun run => (entries.foldl (flushIndexEntry now) db).lookup run) =
        entries.foldl (changeAt fun _ => flushedEntry now) fun run => db.lookup run := by
    intro entries
    induction entries with
    | nil => exact fun db => rfl
    | cons active entries ih =>
      intro db
      rw [foldl_cons, ih, hstep]
      rfl
  have hrun := congrFun (hloop records.entries db) run
  rwa [foldl_changeAt] at hrun

/-! ## One bulk operation -/

theorem IndexEntry.Alike.refl (entry : IndexEntry) : entry.Alike entry := ⟨rfl, fun _ => rfl, fun _ => rfl⟩

theorem IndexEntry.Alike.symm {entry other : IndexEntry} (halike : entry.Alike other) : other.Alike entry :=
  ⟨halike.id.symm, fun branch => (halike.versions branch).symm, fun field => (halike.searchTargets field).symm⟩

theorem IndexEntry.Alike.trans {entry other third : IndexEntry} (halike : entry.Alike other)
    (hnxt : other.Alike third) : entry.Alike third :=
  ⟨halike.id.trans hnxt.id, fun branch => (halike.versions branch).trans (hnxt.versions branch),
    fun field => (halike.searchTargets field).trans (hnxt.searchTargets field)⟩

theorem IndexEntry.Alike.selects_eq {entry other : IndexEntry} (halike : entry.Alike other)
    (query : IndexQuery) (run : CourseRun) : query.selects (run, entry) = query.selects (run, other) := by
  have hver : ∀ branch, branch ∈ entry.versions ↔ branch ∈ other.versions := by
    intro branch
    rw [mem_iff_lookup, mem_iff_lookup, halike.versions]
  unfold IndexQuery.selects IndexQuery.selectsOrg
  simp only [hver, halike.searchTargets]

theorem rel_comm {first second : Option IndexEntry} :
    Option.Rel IndexEntry.Alike first second ↔ Option.Rel IndexEntry.Alike second first := by
  have hflip : ∀ {one two : Option IndexEntry}, Option.Rel IndexEntry.Alike one two →
      Option.Rel IndexEntry.Alike two one := by
    intro one two hrel
    cases hrel with
    | some halike => exact Option.Rel.some halike.symm
    | none => exact Option.Rel.none
  exact ⟨hflip, hflip⟩

theorem rel_some_filter_iff {keep : IndexEntry → Bool} (index : IndexEntry) (stored : Option IndexEntry) :
    Option.Rel IndexEntry.Alike (some index) (stored.filter keep) ↔
      ∃ entry, stored = some entry ∧ keep entry ∧ index.Alike entry := by
  constructor
  · intro hrel
    obtain ⟨entry, hent, halike⟩ : ∃ entry, stored.filter keep = some entry ∧ index.Alike entry := by
      cases hkept : stored.filter keep with
      | none =>
        rw [hkept] at hrel
        cases hrel
      | some entry =>
        rw [hkept] at hrel
        exact ⟨entry, rfl, Option.rel_some_some.mp hrel⟩
    obtain ⟨hsto, hkeep⟩ := filter_eq_some_iff.mp hent
    exact ⟨entry, hsto, hkeep, halike⟩
  · rintro ⟨entry, rfl, hkeep, halike⟩
    rw [filter_some, if_pos hkeep]
    exact Option.Rel.some halike

theorem rel_filter_none_iff {keep : IndexEntry → Bool} (stored : Option IndexEntry) :
    Option.Rel IndexEntry.Alike (stored.filter keep) none ↔ ∀ entry, stored = some entry → ¬ keep entry := by
  rw [← Option.filter_eq_none_iff]
  constructor
  · intro hrel
    cases hkept : stored.filter keep with
    | none => rfl
    | some entry =>
      rw [hkept] at hrel
      cases hrel
  · intro hnone
    rw [hnone]
    exact Option.Rel.none

/-- The entry that is found for a course is like the one that would be found after the flush if
and only if the bulk operation is settled. -/
theorem rel_overlaid_iff {record : IndexRecord} (hpres : record.index ≠ none) (query : IndexQuery)
    (now : Timestamp) (run : CourseRun) (stored : Option IndexEntry) :
    Option.Rel IndexEntry.Alike (overlaid query run record (stored.filter fun entry => query.selects (run, entry)))
        ((flushedEntry now record stored).filter fun entry => query.selects (run, entry)) ↔
      record.Settled query run stored := by
  obtain ⟨index, hidx⟩ := ne_none_iff_exists'.mp hpres
  have hwrt : ∀ other, record.written stored = some other → other = index := by
    intro other hoth
    unfold IndexRecord.written at hoth
    rw [hidx] at hoth
    grind
  have hstam : ({ index with lastUpdate := some now } : IndexEntry).Alike index := ⟨rfl, fun _ => rfl, fun _ => rfl⟩
  have hsels := hstam.selects_eq query run
  unfold IndexRecord.Settled overlaid flushedEntry Holds
  simp only [hidx, Option.some.injEq, exists_eq_left']
  split
  · cases hcase : record.written stored with
    | none =>
      rw [rel_some_filter_iff]
      constructor
      · rintro ⟨entry, hsto, hkeep, halike⟩
        exact ⟨halike.selects_eq query run ▸ hkeep, fun _ => ⟨entry, hsto, halike.symm⟩⟩
      · rintro ⟨hkeep, hhold⟩
        obtain ⟨entry, hsto, halike⟩ := hhold rfl
        exact ⟨entry, hsto, halike.selects_eq query run ▸ hkeep, halike.symm⟩
    | some other =>
      obtain rfl := hwrt other hcase
      rw [rel_some_filter_iff]
      simp only [Option.some.injEq, exists_eq_left', hsels, reduceCtorEq, false_imp_iff]
      exact and_congr_right fun _ => iff_of_true hstam.symm trivial
  · cases hcase : record.written stored with
    | none =>
      refine iff_of_true ?_ (.inl rfl)
      cases stored.filter fun entry => query.selects (run, entry) with
      | none => exact Option.Rel.none
      | some entry => exact Option.Rel.some (IndexEntry.Alike.refl entry)
    | some other =>
      obtain rfl := hwrt other hcase
      simp only [reduceCtorEq, false_or, filter_some, hsels]
      cases hkeep : query.selects (run, other) with
      | true =>
        simp only [if_true, true_and, not_true, false_and, or_false]
        rw [rel_comm, rel_some_filter_iff]
        constructor
        · rintro ⟨entry, hsto, -, halike⟩
          exact ⟨entry, hsto, halike.symm.trans hstam⟩
        · rintro ⟨entry, hsto, halike⟩
          refine ⟨entry, hsto, ?_, hstam.trans halike.symm⟩
          rw [halike.selects_eq query run, hkeep]
      | false =>
        simp only [false_eq_true, if_false, false_and, false_or, not_false_eq_true, true_and]
        exact rel_filter_none_iff stored

/-- The query returns what it would return after the end of the bulk operations if and only
if every one of them is settled. -/
theorem findsFlushed_iff (now : Timestamp) (db : Dict CourseRun IndexEntry)
    (records : Dict CourseRun IndexRecord) (query : IndexQuery) :
    FindsFlushed now db records query ↔
      ∀ run record, records.lookup run = some record → record.Settled query run (db.lookup run) := by
  obtain ⟨flushed, hflushed, hafter⟩ := findMatchingCourseIndexes_lists (flushIndexes now db records) ∅ query nofun
  by_cases hpresent : ∀ active ∈ records.entries, active.2.index ≠ none
  · obtain ⟨documents, hfound, hbefore⟩ := findMatchingCourseIndexes_lists db records query hpresent
    have hsame : FindsFlushed now db records query ↔ SameIndexes (documents.map some) (flushed.map some) := by
      unfold FindsFlushed
      rw [hfound, hflushed]
      simp
    rw [hsame, sameIndexes_iff hbefore hafter]
    refine forall_congr' fun run => ?_
    simp only [overlay, lookup_empty, lookup_flushIndexes]
    cases hrecord : records.lookup run with
    | none =>
      refine iff_of_true ?_ nofun
      cases (db.lookup run).filter fun entry => query.selects (run, entry) with
      | none => exact Option.Rel.none
      | some entry => exact Option.Rel.some (IndexEntry.Alike.refl entry)
    | some record =>
      have hthere := hpresent ⟨run, record⟩ (mem_lookup_iff.mp hrecord)
      simp only [rel_overlaid_iff hthere, Option.some.injEq, forall_eq']
  · obtain ⟨⟨run, record⟩, hactive, habsent⟩ : ∃ active ∈ records.entries, active.2.index = none := by
      simpa only [not_forall, not_not, exists_prop] using hpresent
    refine iff_of_false ?_ ?_
    · rintro ⟨indexes, others, hfound, hothers, hforth, -⟩
      obtain rfl := ok.inj (hflushed.symm.trans hothers)
      obtain ⟨other, hother, hrel⟩ := hforth none (findMatchingCourseIndexes_none hfound hactive habsent)
      obtain ⟨document, -, rfl⟩ := mem_map.mp hother
      cases hrel
    · intro hsettled
      obtain ⟨index, hindex, -⟩ := hsettled run record (mem_lookup_iff.mpr hactive)
      rw [habsent] at hindex
      cases hindex

/-- The filters of the loop are those of the database, unless the branch is the empty text
or a target is null. -/
theorem accepts_eq_selects (hbr : query.branch ≠ some "")
    (htar : ∀ field, query.searchTargets.lookup field ≠ some none) (document : IndexDocument) :
    query.accepts document = query.selects document := by
  unfold IndexQuery.accepts IndexQuery.selects
  congr 2
  · cases hcase : query.branch with
    | none => rfl
    | some branch =>
      have hne : branch ≠ "" := fun heq => hbr (heq ▸ hcase)
      simp [hne]
  · rw [eq_iff_iff, all_eq_true, all_eq_true]
    refine forall₂_congr fun target hmem => ?_
    have hlook := mem_lookup_iff.mpr hmem
    rw [decide_eq_true_iff, decide_eq_true_iff]
    cases hval : target.2 with
    | none => exact absurd (hval ▸ hlook) (htar target.1)
    | some value => exact Option.join_eq_some_iff.symm

/-- When the database still holds the entries with which the bulk operations began, a bulk
operation is settled if its index matches or the stored entry does not. -/
theorem settled_iff_of_started {record : IndexRecord} {stored : Option IndexEntry} (hbr : query.branch ≠ some "")
    (htar : ∀ field, query.searchTargets.lookup field ≠ some none)
    (hstar : record.initialIndex = stored) (run : CourseRun) :
    record.Settled query run stored ↔ ∃ index, record.index = some index ∧
      (query.selects (run, index) ∨ ∀ entry, stored = some entry → ¬ query.selects (run, entry)) := by
  subst hstar
  refine exists_congr fun index => and_congr_right fun hidx => ?_
  have hhold : record.written record.initialIndex = none → Holds record.initialIndex index := by
    intro hnone
    unfold IndexRecord.written at hnone
    rw [hidx] at hnone
    cases hinit : record.initialIndex with
    | none => simp [hinit] at hnone
    | some entry =>
      have hsel : Database.selects entry.toCourseIndex entry.toCourseIndex = true := by
        simp [Database.selects]
      rw [hinit] at hnone
      simp only [hsel, Bool.and_true, ite_eq_right_iff, reduceCtorEq, imp_false, not_eq_true', not_eq_false] at hnone
      refine ⟨entry, rfl, IndexEntry.Alike.symm ?_⟩
      unfold IndexEntry.same CourseIndex.same at hnone
      simp only [and_eq_true, decide_eq_true_eq, same_iff] at hnone
      exact ⟨hnone.1.1, hnone.1.2.1, hnone.2⟩
  rw [accepts_eq_selects hbr htar]
  cases hsels : query.selects (run, index) with
  | true => simpa using hhold
  | false =>
    simp only [false_eq_true, if_false, false_and, false_or, not_false_eq_true, true_and, or_iff_right_iff_imp]
    intro hnone entry hent hsel
    obtain ⟨other, hoth, halike⟩ := hhold hnone
    rw [hent] at hoth
    obtain rfl := some.inj hoth
    rw [halike.selects_eq query run, hsels] at hsel
    cases hsel

def wikiIndex (slug : String) : IndexEntry := { id := 1, searchTargets := ofList [("wiki_slug", some slug)] }

def storedWiki : Dict CourseRun IndexEntry := ofList [(⟨"org", "course", "run"⟩, wikiIndex "old")]

def renamingWiki : Dict CourseRun IndexRecord :=
  ofList [(⟨"org", "course", "run"⟩, { initialIndex := some (wikiIndex "old"), index := some (wikiIndex "new") })]

def wikiQuery (slug : String) : IndexQuery := { searchTargets := ofList [("wiki_slug", some slug)] }

/-- The query for the old name still finds the stored entry. -/
theorem renamedWiki_not_flushed : ¬ FindsFlushed 0 storedWiki renamingWiki (wikiQuery "old") := by
  rintro ⟨indexes, flushed, hfound, hflushed, hforth, -⟩
  have hstale : findMatchingCourseIndexes storedWiki renamingWiki (wikiQuery "old") =
      .ok [some (⟨"org", "course", "run"⟩, wikiIndex "old")] := rfl
  have hnone : findMatchingCourseIndexes (flushIndexes 0 storedWiki renamingWiki) ∅ (wikiQuery "old") = .ok [] := rfl
  obtain rfl := ok.inj (hstale.symm.trans hfound)
  obtain rfl := ok.inj (hnone.symm.trans hflushed)
  obtain ⟨other, hother, -⟩ := hforth _ mem_cons_self
  cases hother

end EdxPlatform.Split

import EdxPlatform.Split.ReadOnlyBulk

/-!
# Definitions read at once

`get_definitions` takes what it can from the record of the bulk operation and queries the
database for the rest.  The cursor of that query fills the record first, and is to extend the
result after that.
-/

namespace EdxPlatform.Split

open BulkStore

/-! ## The query -/

/-- A cursor of the database: the documents that it has not returned yet. -/
structure Cursor (δ : Type) where
  remaining : List δ

def Cursor.iterate {δ : Type} (cursor : Cursor δ) : List δ × Cursor δ := (cursor.remaining, { remaining := [] })

/-- `MongoConnection.get_definitions` -/
def Database.getDefinitions (db : Database) (ids : List ObjectId) : Cursor (ObjectId × Definition) where
  remaining := (db.definitions.entries.map fun entry => (entry.1, entry.2)).filter fun definition =>
    decide (definition.1 ∈ ids)

/-- The loop over the cached definitions: the ids that are left, and what was found. -/
def takeCached : List (ObjectId × Definition) → List ObjectId → List (ObjectId × Definition) →
    List ObjectId × List (ObjectId × Definition)
  | [], ids, definitions => (ids, definitions)
  | definition :: cached, ids, definitions =>
    if definition.1 ∈ ids then
      takeCached cached (ids.erase definition.1) (definitions ++ [definition])
    else takeCached cached ids definitions

def BulkStore.cacheDefinitions (store : BulkStore) (found : List (ObjectId × Definition)) : BulkStore :=
  store.setRecord { store.record with
    definitions := store.record.definitions.update (Dict.ofList found) }

/-- `get_definitions` -/
def getDefinitions (ids : List ObjectId) : ReadM (List (ObjectId × Definition)) := fun store =>
  let (ids, definitions) :=
    if store.record.active then
      takeCached (store.record.definitions.entries.map fun entry => (entry.1, entry.2)) ids.dedup []
    else (ids.dedup, [])
  if ids.length ≠ 0 then
    let defsFromDb := store.db.getDefinitions ids
    let (found, defsFromDb) := defsFromDb.iterate
    .ok (definitions ++ defsFromDb.iterate.1) (store.cacheDefinitions found)
  else .ok definitions store

/-- The definition that a bulk operation has under an id; the cached one is preferred. -/
def BulkStore.definition (store : BulkStore) (id : ObjectId) : Option Definition :=
  if store.record.active then
    (store.record.definitions.lookup id).or (store.db.definitions.lookup id)
  else store.db.definitions.lookup id

/-- The result has exactly one definition for each of the ids under which there is one. -/
structure ReturnsEach (store : BulkStore) (ids : List ObjectId)
    (definitions : List (ObjectId × Definition)) : Prop where
  each : ∀ id ∈ ids, ∀ definition, store.definition id = some definition →
    definitions.filter (fun found => decide (found.1 = id)) = [(id, definition)]
  only : ∀ found ∈ definitions, found.1 ∈ ids ∧ store.definition found.1 = some found.2

theorem takeCached_eq {cached : List (ObjectId × Definition)} (hnod : (cached.map Prod.fst).Nodup)
    (ids : List ObjectId) (definitions : List (ObjectId × Definition)) :
    (takeCached cached ids definitions).2 =
        definitions ++ cached.filter (fun definition => decide (definition.1 ∈ ids)) ∧
      ∀ id, ids.Nodup → (id ∈ (takeCached cached ids definitions).1 ↔ id ∈ ids ∧ id ∉ cached.map Prod.fst) := by
  induction cached generalizing ids definitions with
  | nil => simp [takeCached]
  | cons definition cached ih =>
    rw [map_cons, nodup_cons] at hnod
    obtain ⟨hnew, hnod⟩ := hnod
    unfold takeCached
    by_cases hmem : definition.1 ∈ ids
    · rw [if_pos hmem]
      obtain ⟨hfnd, hleft⟩ := ih hnod (ids.erase definition.1) (definitions ++ [definition])
      have hsame : cached.filter (fun other => decide (other.1 ∈ ids.erase definition.1)) =
          cached.filter (fun other => decide (other.1 ∈ ids)) := by
        refine filter_congr fun other hoth => ?_
        have hne : other.1 ≠ definition.1 := fun heq => hnew (heq ▸ mem_map_of_mem hoth)
        simp only [List.mem_erase_of_ne hne]
      refine ⟨?_, fun id hids => ?_⟩
      · rw [hfnd, hsame, filter_cons_of_pos (by simpa using hmem), append_assoc]
        rfl
      · rw [hleft id (hids.erase _), hids.mem_erase_iff, map_cons, mem_cons]
        tauto
    · rw [if_neg hmem]
      obtain ⟨hfnd, hleft⟩ := ih hnod ids definitions
      refine ⟨?_, fun id hids => ?_⟩
      · rw [hfnd, filter_cons_of_neg (by simpa using hmem)]
      · rw [hleft id hids, map_cons, mem_cons]
        refine and_congr_right fun hid => ?_
        rw [not_or, and_iff_right]
        rintro rfl
        exact hmem hid

theorem nodup_items (definitions : Dict ObjectId Definition) :
    ((definitions.entries.map fun entry => (entry.1, entry.2)).map Prod.fst).Nodup := by
  rw [map_map]
  exact definitions.keys_nodup

theorem filter_fst_eq {definitions : List (ObjectId × Definition)}
    (hnod : (definitions.map Prod.fst).Nodup) {id : ObjectId} {definition : Definition}
    (hmem : (id, definition) ∈ definitions) :
    definitions.filter (fun found => decide (found.1 = id)) = [(id, definition)] := by
  induction definitions with
  | nil => cases hmem
  | cons other definitions ih =>
    rw [map_cons, nodup_cons] at hnod
    rcases mem_cons.mp hmem with rfl | hrest
    · rw [filter_cons_of_pos (by simp), filter_eq_nil_iff.mpr]
      rintro found hfnd hid
      exact hnod.1 (mem_map.mpr ⟨found, hfnd, of_decide_eq_true hid⟩)
    · have hne : other.1 ≠ id := by
        rintro rfl
        exact hnod.1 (mem_map.mpr ⟨_, hrest, rfl⟩)
      rw [filter_cons_of_neg (by simpa using hne), ih hnod.2 hrest]

/-- The definitions that the record of an active bulk operation has cached. -/
def BulkStore.cached (store : BulkStore) : Dict ObjectId Definition :=
  if store.record.active then store.record.definitions else ∅

variable {store : BulkStore}

theorem BulkStore.cached_of_active (hact : store.record.active = true) : store.cached = store.record.definitions :=
  if_pos hact

theorem BulkStore.cached_cacheDefinitions (hact : store.record.active = true)
    (found : List (ObjectId × Definition)) : (store.cacheDefinitions found).cached =
      store.record.definitions.update (Dict.ofList found) :=
  if_pos hact

theorem BulkStore.definition_eq (store : BulkStore) (id : ObjectId) :
    store.definition id = (store.cached.lookup id).or (store.db.definitions.lookup id) := by
  unfold definition cached
  split
  · rfl
  · rw [lookup_empty, none_or]

section

variable (store : BulkStore) (ids : List ObjectId)

theorem takeCached_items : ∃ rest : List ObjectId, (if store.record.active then
        takeCached (store.record.definitions.entries.map fun entry => (entry.1, entry.2)) ids.dedup []
      else (ids.dedup, [])) = (rest, (store.cached.entries.map fun entry => (entry.1, entry.2)).filter
        fun definition => decide (definition.1 ∈ ids)) ∧
      ∀ id, id ∈ rest ↔ id ∈ ids ∧ id ∉ store.cached := by
  unfold cached
  cases store.record.active with
  | false => exact ⟨ids.dedup, rfl, fun id => by simp⟩
  | true =>
    obtain ⟨hfnd, hleft⟩ := takeCached_eq (nodup_items store.record.definitions) ids.dedup []
    refine ⟨_, Prod.ext rfl ?_, fun id => ?_⟩
    · simpa using hfnd
    · refine (hleft id ids.nodup_dedup).trans ?_
      rw [List.mem_dedup, map_map]
      rfl

theorem getDefinitions_run : ∃ next, getDefinitions ids store =
        .ok ((store.cached.entries.map fun entry => (entry.1, entry.2)).filter
          fun definition => decide (definition.1 ∈ ids)) next ∧
      next.db = store.db ∧ next.record.active = store.record.active ∧
      ∀ id ∈ ids, id ∈ store.db.definitions → id ∈ next.cached ∨ store.record.active = false := by
  obtain ⟨rest, htaken, hrest⟩ := takeCached_items store ids
  unfold getDefinitions
  rw [htaken]
  by_cases hemp : rest.length = 0
  · refine ⟨store, by simp [hemp], rfl, rfl, fun id hid _ => ?_⟩
    have hnone : id ∉ rest := by simp [length_eq_zero_iff.mp hemp]
    exact .inl (Classical.byContradiction fun hnew => hnone ((hrest id).mpr ⟨hid, hnew⟩))
  · refine ⟨store.cacheDefinitions (store.db.getDefinitions rest).remaining, ?_, rfl, rfl, ?_⟩
    · simp [hemp, Cursor.iterate]
    · intro id hid hdb
      cases hact : store.record.active with
      | false => exact .inr rfl
      | true =>
        have hrec := cached_of_active hact
        left
        rw [cached_cacheDefinitions hact]
        refine Dict.mem_update.mpr ?_
        by_cases hcach : id ∈ store.record.definitions
        · exact .inl hcach
        · right
          obtain ⟨definition, hdefn⟩ := mem_iff_lookup.mp hdb
          rw [Dict.mem_ofList, mem_map]
          refine ⟨(id, definition), mem_filter.mpr ⟨mem_items_iff.mpr hdefn, ?_⟩, rfl⟩
          exact decide_eq_true ((hrest id).mpr ⟨hid, hrec ▸ hcach⟩)

theorem returnsEach_iff : ReturnsEach store ids ((store.cached.entries.map fun entry => (entry.1, entry.2)).filter
        fun definition => decide (definition.1 ∈ ids)) ↔
      ∀ id ∈ ids, id ∈ store.db.definitions → id ∈ store.cached := by
  have hmem : ∀ found, found ∈ (store.cached.entries.map fun entry => (entry.1, entry.2)).filter
      (fun definition => decide (definition.1 ∈ ids)) ↔
      store.cached.lookup found.1 = some found.2 ∧ found.1 ∈ ids := by
    intro found
    rw [mem_filter, decide_eq_true_eq, ← mem_items_iff]
  constructor
  · intro hret id hid hdb
    have hdef : (store.definition id).isSome := by
      obtain ⟨saved, hsaved⟩ := mem_iff_lookup.mp hdb
      rw [store.definition_eq, hsaved]
      cases store.cached.lookup id <;> rfl
    obtain ⟨definition, hdefn⟩ := isSome_iff_exists.mp hdef
    have hone := hret.each id hid definition hdefn
    have hfnd : (id, definition) ∈ List.filter (fun found => decide (found.1 = id)) _ := hone ▸ mem_singleton_self _
    exact mem_iff_lookup.mpr ⟨definition, ((hmem _).mp (mem_filter.mp hfnd).1).1⟩
  · intro hcach
    constructor
    · intro id hid definition hdefn
      rw [store.definition_eq] at hdefn
      have hlook : store.cached.lookup id = some definition := by
        cases hfnd : store.cached.lookup id with
        | some found => rwa [hfnd, some_or] at hdefn
        | none =>
          rw [hfnd, none_or] at hdefn
          have hin := hcach id hid (mem_of_lookup hdefn)
          exact absurd hin (lookup_eq_none.mp hfnd)
      refine filter_fst_eq ?_ ((hmem _).mpr ⟨hlook, hid⟩)
      exact (List.filter_sublist.map Prod.fst).nodup (nodup_items store.cached)
    · intro found hfnd
      obtain ⟨hlook, hid⟩ := (hmem found).mp hfnd
      exact ⟨hid, by rw [store.definition_eq, hlook, some_or]⟩

end

/-- The definitions that are asked for are all returned if and only if none of them has to
come from the database. -/
theorem getDefinitions_returnsEach_iff (store : BulkStore) (ids : List ObjectId) :
    ∃ definitions next, getDefinitions ids store = .ok definitions next ∧
      (ReturnsEach store ids definitions ↔ ∀ id ∈ ids, id ∈ store.db.definitions → id ∈ store.cached) := by
  obtain ⟨next, hrun, -⟩ := getDefinitions_run store ids
  exact ⟨_, next, hrun, returnsEach_iff store ids⟩

/-- A bulk operation that has cached nothing, on a database with one definition. -/
def uncachedStore : BulkStore where
  db := { definitions := (∅ : Dict ObjectId Definition).insert 0 { blockType := "html", fields := ∅ } }
  record := { courseKey := "course", initialIndex := none, index := none, activeCount := 1 }
  hasSignalHandler := false

theorem uncached_not_returnsEach : ∃ definitions next,
    getDefinitions [0] uncachedStore = .ok definitions next ∧ ¬ ReturnsEach uncachedStore [0] definitions := by
  refine ⟨[], _, rfl, fun hreturns => ?_⟩
  exact absurd (hreturns.each 0 mem_cons_self { blockType := "html", fields := ∅ } rfl) (by simp)

end EdxPlatform.Split

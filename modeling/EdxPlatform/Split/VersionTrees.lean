import EdxPlatform.Lib.Acyclic
import EdxPlatform.Split.Store

/-!
# The successors of a version

The successors of a version are found level by level, in the active bulk operations and in
the database.  From the second level on, each of them is listed under the id of the last
one that was found on its level.
-/

namespace EdxPlatform.Split

open Relation

abbrev Found := ObjectId × Structure

def Structure.derivedFrom (struct : Structure) (ids : List ObjectId) : Bool := struct.previousVersion.any (· ∈ ids)

variable (records : List SplitBulkWriteRecord)

/-- The structures of active bulk operations that are derived from one of the given. -/
def cachedDerivedFrom (ids : List ObjectId) : List Found :=
  records.flatMap fun record =>
    (record.structures.entries.map fun entry => (entry.1, entry.2)).filter fun found => found.2.derivedFrom ids

/-- `find_structures_derived_from`: those of the database come after the others. -/
def findStructuresDerivedFrom (db : Database) (ids : List ObjectId) : List Found :=
  let structures := cachedDerivedFrom records ids
  structures ++ (db.structures.entries.map fun entry => (entry.1, entry.2)).filter fun found =>
    found.2.derivedFrom ids && decide (found.1 ∉ structures.map Prod.fst)

/-- `result.setdefault(version, []).append(successor)` -/
def addSuccessor (result : Dict ObjectId (List ObjectId)) (version successor : ObjectId) :
    Dict ObjectId (List ObjectId) :=
  result.insert version ((result.lookup version).getD [] ++ [successor])

/-- Enters the structures of a level.  The name `struct`, whose id is entered, is bound to
the last of them since they were listed. -/
def addLevel (result : Dict ObjectId (List ObjectId)) (nextVersions : List Found) : Dict ObjectId (List ObjectId) :=
  match nextVersions.getLast? with
  | none => result
  | some struct =>
    nextVersions.foldl (fun result courseStructure =>
      match courseStructure.2.previousVersion with
      | none => result
      | some version => addSuccessor result version struct.1) result

def addLevels (records : List SplitBulkWriteRecord) (db : Database) :
    Nat → List Found → Dict ObjectId (List ObjectId) → Dict ObjectId (List ObjectId)
  | 0, _, result => result
  | depth + 1, nextVersions, result =>
    if nextVersions.isEmpty then result
    else
      let following := findStructuresDerivedFrom records db (nextVersions.map Prod.fst)
      addLevels records db depth following (addLevel result following)

/-- What a `VersionTree` of the successors of a version is built from: the ids that are
listed under each version. -/
def getCourseSuccessors (db : Database)
    (versionGuid : ObjectId) (versionHistoryDepth : Int) : Option (Dict ObjectId (List ObjectId)) :=
  if versionHistoryDepth < 1 then none
  else
    let nextVersions := findStructuresDerivedFrom records db [versionGuid]
    let result := (∅ : Dict ObjectId (List ObjectId)).insert versionGuid (nextVersions.map Prod.fst)
    some (addLevels records db (versionHistoryDepth - 1).toNat nextVersions result)

section

variable (db : Database)

def IsStored (id : ObjectId) (struct : Structure) : Prop :=
  (∃ record ∈ records, record.structures.lookup id = some struct) ∨ db.structures.lookup id = some struct

def Derived (version successor : ObjectId) : Prop :=
  ∃ struct, IsStored records db successor struct ∧ struct.previousVersion = some version

/-- Every version has one previous version at most, and none leads back to itself. -/
structure IsForest : Prop where
  previous_unique : ∀ id struct other, IsStored records db id struct → IsStored records db id other →
    struct.previousVersion = other.previousVersion
  acyclic : Acyclic (Derived records db)

/-- The versions at a distance from `version`. -/
def AtDistance (version : ObjectId) : Nat → ObjectId → Prop
  | 0, id => id = version
  | distance + 1, id => ∃ between, AtDistance version distance between ∧ Derived records db between id

/-- The tree lists under each version at a distance less than the depth the versions that
were derived from it, each once. -/
def MapsSuccessors (tree : Dict ObjectId (List ObjectId)) (version : ObjectId) (depth : Int) : Prop :=
  ∀ distance : Nat, distance < depth → ∀ id, AtDistance records db version distance id →
    ((tree.lookup id).getD []).Nodup ∧
      ∀ successor, successor ∈ (tree.lookup id).getD [] ↔ Derived records db id successor

def cachings (id : ObjectId) : Nat := records.countP fun record => decide (id ∈ record.structures)

/-- No version that is listed is cached twice, and after the first level there is but one
on a level. -/
def ListedOnce (version : ObjectId) (depth : Int) : Prop :=
  (∀ id, Derived records db version id → cachings records id ≤ 1) ∧
    ∀ distance : Nat, 2 ≤ distance → distance ≤ depth → ∀ first second, AtDistance records db version distance first →
        AtDistance records db version distance second → first = second ∧ cachings records first ≤ 1

end

variable {records : List SplitBulkWriteRecord} {db : Database}

section Levels

variable {ids : List ObjectId}

theorem derivedFrom_iff {struct : Structure} : struct.derivedFrom ids = true ↔
    ∃ version ∈ ids, struct.previousVersion = some version := by
  unfold Structure.derivedFrom
  cases struct.previousVersion with
  | none => simp
  | some version => simp

theorem mem_cachedDerivedFrom {found : Found} : found ∈ cachedDerivedFrom records ids ↔
    (∃ record ∈ records, record.structures.lookup found.1 = some found.2) ∧ found.2.derivedFrom ids = true := by
  unfold cachedDerivedFrom
  simp only [mem_flatMap, mem_filter]
  constructor
  · rintro ⟨record, hrec, hent, hder⟩
    exact ⟨⟨record, hrec, mem_items_iff.mp hent⟩, hder⟩
  · rintro ⟨⟨record, hrec, hlook⟩, hder⟩
    exact ⟨record, hrec, mem_items_iff.mpr hlook, hder⟩

theorem found_isStored {found : Found} (hfnd : found ∈ findStructuresDerivedFrom records db ids) :
    IsStored records db found.1 found.2 ∧ found.2.derivedFrom ids = true := by
  rcases mem_append.mp hfnd with hcach | hsaved
  · obtain ⟨hrec, hder⟩ := mem_cachedDerivedFrom.mp hcach
    exact ⟨.inl hrec, hder⟩
  · obtain ⟨hent, hkeep⟩ := mem_filter.mp hsaved
    rw [and_eq_true] at hkeep
    exact ⟨.inr (mem_items_iff.mp hent), hkeep.1⟩

theorem mem_found_iff {id : ObjectId} : id ∈ (findStructuresDerivedFrom records db ids).map Prod.fst ↔
      ∃ version ∈ ids, Derived records db version id := by
  constructor
  · intro hmem
    obtain ⟨found, hfnd, rfl⟩ := mem_map.mp hmem
    obtain ⟨hsto, hder⟩ := found_isStored hfnd
    obtain ⟨version, hver, hprv⟩ := derivedFrom_iff.mp hder
    exact ⟨version, hver, found.2, hsto, hprv⟩
  · rintro ⟨version, hver, struct, hsto, hprv⟩
    have hder : struct.derivedFrom ids = true := derivedFrom_iff.mpr ⟨version, hver, hprv⟩
    unfold findStructuresDerivedFrom
    rw [map_append, mem_append]
    by_cases hcach : id ∈ (cachedDerivedFrom records ids).map Prod.fst
    · exact .inl hcach
    · have hsaved : db.structures.lookup id = some struct := by
        refine hsto.resolve_left fun hrec => hcach ?_
        exact mem_map.mpr ⟨(id, struct), mem_cachedDerivedFrom.mpr ⟨hrec, hder⟩, rfl⟩
      refine .inr (mem_map.mpr ⟨(id, struct), mem_filter.mpr ⟨mem_items_iff.mpr hsaved, ?_⟩, rfl⟩)
      rw [hder, Bool.true_and]
      exact decide_eq_true hcach

theorem nodup_filter_ids (structures : Dict ObjectId Structure) (keep : Found → Bool) :
    (((structures.entries.map fun entry => (entry.1, entry.2)).filter keep).map Prod.fst).Nodup := by
  refine List.Nodup.sublist (List.filter_sublist.map Prod.fst) ?_
  rw [map_map]
  exact structures.nodupKeys

theorem count_flatMap {α β : Type} [DecidableEq β] {values : List α} {lists : α → List β} {value : β}
    {has : α → Bool} (honce : ∀ other ∈ values, (lists other).count value = if has other then 1 else 0) :
    (values.flatMap lists).count value = values.countP has := by
  induction values with
  | nil => rfl
  | cons first values ih =>
    rw [flatMap_cons, count_append, honce first mem_cons_self,
      ih fun other hoth => honce other (mem_cons_of_mem first hoth), countP_cons,
      Nat.add_comm]

/-- A version that is derived from one of the given is found in each bulk operation that
has cached it. -/
theorem count_cached (hfor : IsForest records db) {version id : ObjectId} (hver : version ∈ ids)
    (hder : Derived records db version id) :
    ((cachedDerivedFrom records ids).map Prod.fst).count id = cachings records id := by
  obtain ⟨struct, hsto, hprv⟩ := hder
  unfold cachedDerivedFrom cachings
  rw [List.map_flatMap]
  apply count_flatMap
  intro record hrec
  rw [(nodup_filter_ids record.structures _).count]
  refine if_congr ?_ rfl rfl
  rw [decide_eq_true_eq, mem_iff_lookup, mem_map]
  constructor
  · rintro ⟨found, hfnd, rfl⟩
    exact ⟨found.2, mem_items_iff.mp (mem_filter.mp hfnd).1⟩
  · rintro ⟨other, hoth⟩
    have hsame := hfor.previous_unique id struct other hsto (.inl ⟨record, hrec, hoth⟩)
    refine ⟨(id, other), mem_filter.mpr ⟨mem_items_iff.mpr hoth, ?_⟩, rfl⟩
    exact derivedFrom_iff.mpr ⟨version, hver, hsame ▸ hprv⟩

theorem nodup_found_iff (hfor : IsForest records db) :
    ((findStructuresDerivedFrom records db ids).map Prod.fst).Nodup ↔
      ∀ version ∈ ids, ∀ id, Derived records db version id → cachings records id ≤ 1 := by
  rw [List.nodup_iff_count_le_one]
  have hcnt : ∀ id, (∃ version ∈ ids, Derived records db version id) →
      (((findStructuresDerivedFrom records db ids).map Prod.fst).count id ≤ 1 ↔ cachings records id ≤ 1) := by
    rintro id ⟨version, hver, hder⟩
    have hcach := count_cached hfor hver hder
    unfold findStructuresDerivedFrom
    rw [map_append, count_append, hcach]
    rcases Nat.eq_zero_or_pos (cachings records id) with hnone | hsome
    · rw [hnone, Nat.zero_add]
      exact iff_of_true (List.nodup_iff_count_le_one.mp (nodup_filter_ids db.structures _) id) (Nat.zero_le 1)
    · have hmem : id ∈ (cachedDerivedFrom records ids).map Prod.fst := by
        rw [← count_pos_iff, hcach]
        exact hsome
      rw [List.count_eq_zero.mpr, Nat.add_zero]
      intro hsaved
      obtain ⟨found, hfnd, rfl⟩ := mem_map.mp hsaved
      have hkeep := (mem_filter.mp hfnd).2
      rw [and_eq_true, decide_eq_true_eq] at hkeep
      exact hkeep.2 hmem
  constructor
  · exact fun hall version hver id hder => (hcnt id ⟨version, hver, hder⟩).mp (hall id)
  · intro hall id
    by_cases hder : ∃ version ∈ ids, Derived records db version id
    · exact (hcnt id hder).mpr (hder.elim fun version h => hall version h.1 id h.2)
    · rw [List.count_eq_zero.mpr fun hmem => hder (mem_found_iff.mp hmem)]
      exact Nat.zero_le 1

end Levels

/-! ## The entries of the tree -/

def listed (tree : Dict ObjectId (List ObjectId)) (version : ObjectId) : List ObjectId := (tree.lookup version).getD []

/-- What a level enters under a version: the last of its ids, for each of its successors. -/
def levelEntries (level : List Found) (version : ObjectId) : List ObjectId :=
  match level.getLast? with
  | none => []
  | some last => (level.filter fun found => found.2.previousVersion = some version).map fun _ => last.1

section

variable (result : Dict ObjectId (List ObjectId))

theorem listed_addSuccessor (version successor id : ObjectId) : listed (addSuccessor result version successor) id =
      listed result id ++ if version = id then [successor] else [] := by
  unfold listed addSuccessor
  rw [lookup_insert]
  by_cases heq : id = version
  · subst heq
    simp
  · simp [heq, Ne.symm heq]

theorem listed_addLevel (level : List Found) (id : ObjectId) :
    listed (addLevel result level) id = listed result id ++ levelEntries level id := by
  have hloop : ∀ (last : ObjectId) (founds : List Found) (result : Dict ObjectId (List ObjectId)),
      listed (founds.foldl (fun result courseStructure =>
        match courseStructure.2.previousVersion with
        | none => result
        | some version => addSuccessor result version last) result) id =
      listed result id ++ (founds.filter fun found => found.2.previousVersion = some id).map fun _ => last := by
    intro last founds
    induction founds with
    | nil => simp
    | cons found founds ih =>
      intro result
      rw [foldl_cons, ih, filter_cons]
      cases found.2.previousVersion with
      | none => simp
      | some version =>
        simp only [listed_addSuccessor]
        by_cases heq : version = id <;> simp [heq]
  unfold addLevel levelEntries
  cases level.getLast? with
  | none => simp
  | some last => exact hloop last.1 level result

end

section Trees

def levelBelow (records : List SplitBulkWriteRecord) (db : Database) (version : ObjectId) : Nat → List Found
  | 0 => findStructuresDerivedFrom records db [version]
  | level + 1 => findStructuresDerivedFrom records db ((levelBelow records db version level).map Prod.fst)

variable {version : ObjectId}

theorem mem_levelBelow (level : Nat) (id : ObjectId) : id ∈ (levelBelow records db version level).map Prod.fst ↔
      AtDistance records db version (level + 1) id := by
  induction level generalizing id with
  | zero =>
    unfold levelBelow
    rw [mem_found_iff]
    simp [AtDistance]
  | succ level ih =>
    unfold levelBelow
    rw [mem_found_iff]
    simp only [ih]
    rfl

theorem previous_levelBelow {level : Nat} {found : Found} (hfnd : found ∈ levelBelow records db version level) :
    ∃ previous, found.2.previousVersion = some previous ∧
      AtDistance records db version level previous ∧ Derived records db previous found.1 := by
  have hsto : ∃ ids, (∀ id ∈ ids, AtDistance records db version level id) ∧
      found ∈ findStructuresDerivedFrom records db ids := by
    cases level with
    | zero => exact ⟨[version], by simp [AtDistance], hfnd⟩
    | succ level =>
      exact ⟨(levelBelow records db version level).map Prod.fst, fun id hid => (mem_levelBelow level id).mp hid, hfnd⟩
  obtain ⟨ids, hids, hmem⟩ := hsto
  obtain ⟨hfnd, hder⟩ := found_isStored hmem
  obtain ⟨previous, hprv, heq⟩ := derivedFrom_iff.mp hder
  exact ⟨previous, heq, hids previous hprv, found.2, hfnd, heq⟩

theorem levelBelow_eq_nil {level : Nat} (hnil : levelBelow records db version level = []) (more : Nat) :
    levelBelow records db version (level + more) = [] := by
  induction more with
  | zero => exact hnil
  | succ more ih =>
    rw [← map_eq_nil_iff (f := Prod.fst), List.eq_nil_iff_forall_not_mem]
    intro id hid
    rw [mem_levelBelow, Nat.add_assoc] at hid
    obtain ⟨between, hbet, -⟩ := hid
    have hmem := (mem_levelBelow (level + more) between).mpr hbet
    rw [ih] at hmem
    cases hmem

theorem listed_addLevels (levels level : Nat) (result : Dict ObjectId (List ObjectId)) (id : ObjectId) :
    listed (addLevels records db levels (levelBelow records db version level) result) id =
      listed result id ++ (List.range levels).flatMap fun more =>
        levelEntries (levelBelow records db version (level + (more + 1))) id := by
  induction levels generalizing level result with
  | zero => simp [addLevels]
  | succ levels ih =>
    unfold addLevels
    split
    · next hemp =>
        have hnil := isEmpty_iff.mp hemp
        simp [levelBelow_eq_nil hnil, levelEntries]
    · have hrest := ih (level + 1) (addLevel result (levelBelow records db version (level + 1)))
      change listed (addLevels records db levels (levelBelow records db version (level + 1))
        (addLevel result (levelBelow records db version (level + 1)))) id = _
      rw [hrest, listed_addLevel, List.range_succ_eq_map, flatMap_cons, flatMap_map, append_assoc]
      simp only [Nat.zero_add, Nat.add_assoc, Nat.add_comm 1]

theorem IsForest.parent_unique (hfor : IsForest records db) {first second successor : ObjectId}
    (hfst : Derived records db first successor) (hsec : Derived records db second successor) :
    first = second := by
  obtain ⟨struct, hsto, hprv⟩ := hfst
  obtain ⟨other, hoth, hsame⟩ := hsec
  have heq := hfor.previous_unique successor struct other hsto hoth
  rw [hprv, hsame] at heq
  exact some.inj heq

theorem IsForest.distance_unique (hfor : IsForest records db) {first second : Nat} {id : ObjectId}
    (hfst : AtDistance records db version first id)
    (hsec : AtDistance records db version second id) : first = second := by
  have hcycle : ∀ distance {id}, AtDistance records db version (distance + 1) id →
      TransGen (Derived records db) version id := by
    intro distance
    induction distance with
    | zero =>
      rintro id ⟨between, rfl, hder⟩
      exact TransGen.single hder
    | succ distance ih =>
      rintro id ⟨between, hbet, hder⟩
      exact (ih hbet).tail hder
  induction first generalizing second id with
  | zero =>
    obtain rfl : id = version := hfst
    cases second with
    | zero => rfl
    | succ second => exact absurd (hcycle second hsec) (hfor.acyclic id)
  | succ first ih =>
    cases second with
    | zero =>
      obtain rfl : id = version := hsec
      exact absurd (hcycle first hfst) (hfor.acyclic id)
    | succ second =>
      obtain ⟨between, hbet, hder⟩ := hfst
      obtain ⟨other, hoth, hsame⟩ := hsec
      obtain rfl := hfor.parent_unique hder hsame
      exact congrArg (· + 1) (ih hbet hoth)

theorem flatMap_range_single {α : Type} {f : Nat → List α} (number : Nat) {count : Nat} (hless : number < count)
    (hoths : ∀ other, other ≠ number → f other = []) :
    (List.range count).flatMap f = f number := by
  induction count with
  | zero => omega
  | succ count ih =>
    rw [List.range_succ, flatMap_append, flatMap_singleton]
    by_cases heq : number = count
    · subst heq
      have hnone : (List.range number).flatMap f = [] := by
        rw [List.flatMap_eq_nil_iff]
        exact fun other hoth => hoths other (List.mem_range.mp hoth).ne
      rw [hnone, nil_append]
    · rw [hoths count (Ne.symm heq), append_nil]
      exact ih (by omega)

section

variable (hfor : IsForest records db)
include hfor

theorem levelEntries_eq_nil {distance level : Nat} {id : ObjectId}
    (hid : AtDistance records db version distance id) (hne : level ≠ distance) :
    levelEntries (levelBelow records db version level) id = [] := by
  unfold levelEntries
  cases (levelBelow records db version level).getLast? with
  | none => rfl
  | some last =>
    rw [map_eq_nil_iff, filter_eq_nil_iff]
    intro found hfnd heq
    obtain ⟨previous, hprv, hat, -⟩ := previous_levelBelow hfnd
    rw [decide_eq_true_eq, hprv] at heq
    obtain rfl := some.inj heq
    exact hne (hfor.distance_unique hat hid)

theorem getCourseSuccessors_listed (version : ObjectId) {depth : Int} (hdepth : 1 ≤ depth) :
    ∃ tree, getCourseSuccessors records db version depth = some tree ∧
      ∀ distance : Nat, distance < depth → ∀ id, AtDistance records db version distance id →
        listed tree id = if distance = 0 then (levelBelow records db version 0).map Prod.fst
          else levelEntries (levelBelow records db version distance) id := by
  refine ⟨_, by rw [getCourseSuccessors, if_neg (by omega)], fun distance hless id hid => ?_⟩
  have hroot : listed ((∅ : Dict ObjectId (List ObjectId)).insert version
      ((findStructuresDerivedFrom records db [version]).map Prod.fst)) id =
      if id = version then (levelBelow records db version 0).map Prod.fst else [] := by
    unfold listed
    rw [lookup_insert]
    split <;> rfl
  refine (listed_addLevels (depth - 1).toNat 0 _ id).trans ?_
  rw [hroot]
  cases distance with
  | zero =>
    have hnone : (List.range (depth - 1).toNat).flatMap (fun more =>
        levelEntries (levelBelow records db version (0 + (more + 1))) id) = [] := by
      rw [List.flatMap_eq_nil_iff]
      exact fun more _ => levelEntries_eq_nil hfor hid (by omega)
    rw [hnone, if_pos (show id = version from hid), if_pos rfl, append_nil]
  | succ distance =>
    have hne : id ≠ version := by
      rintro rfl
      have hroot : AtDistance records db id 0 id := rfl
      exact absurd (hfor.distance_unique hid hroot) (Nat.succ_ne_zero distance)
    rw [if_neg hne, if_neg (Nat.succ_ne_zero distance), nil_append, flatMap_range_single distance (by omega)
        fun other hoth => levelEntries_eq_nil hfor hid (by omega), Nat.zero_add]

theorem levelEntries_right_iff (distance : Nat) : (∀ id, AtDistance records db version distance id →
      (levelEntries (levelBelow records db version distance) id).Nodup ∧
        ∀ successor, successor ∈ levelEntries (levelBelow records db version distance) id ↔
          Derived records db id successor) ↔
      (levelBelow records db version distance).length ≤ 1 := by
  have hprv := fun found (hfnd : found ∈ levelBelow records db version distance) => previous_levelBelow hfnd
  have hmem : ∀ {id successor}, AtDistance records db version distance id → Derived records db id successor →
      successor ∈ (levelBelow records db version distance).map Prod.fst := by
    intro id successor hid hder
    exact (mem_levelBelow distance successor).mpr ⟨id, hid, hder⟩
  unfold levelEntries
  generalize levelBelow records db version distance = level at hprv hmem ⊢
  match level with
  | [] =>
    refine iff_of_true (fun id hid => ⟨nodup_nil, fun successor => ?_⟩) (Nat.zero_le 1)
    exact iff_of_false not_mem_nil fun hder => not_mem_nil (hmem hid hder)
  | [found] =>
    refine iff_of_true (fun id hid => ?_) le_rfl
    obtain ⟨previous, heq, -, hder⟩ := hprv found mem_cons_self
    rw [List.getLast?_singleton, List.filter_singleton, heq]
    by_cases hsame : previous = id
    · subst hsame
      simp only [decide_true, cond_true, map_singleton]
      refine ⟨nodup_singleton _, fun successor => ⟨fun hsuc => ?_, hmem hid⟩⟩
      rwa [mem_singleton.mp hsuc]
    · have hdiff : ¬ some previous = some id := fun h => hsame (some.inj h)
      simp only [hdiff, decide_false, cond_false, map_nil]
      refine ⟨nodup_nil, fun successor => iff_of_false not_mem_nil fun hsuc => ?_⟩
      obtain rfl := mem_singleton.mp (hmem hid hsuc)
      exact hsame (hfor.parent_unique hder hsuc)
  | first :: second :: rest =>
    refine iff_of_false (fun hrgt => ?_) (by simp)
    obtain ⟨last, hlast⟩ : ∃ last, (first :: second :: rest).getLast? = some last :=
      ⟨_, List.getLast?_eq_some_getLast (cons_ne_nil _ _)⟩
    rw [hlast] at hrgt
    have hsec : second ∈ first :: second :: rest := mem_cons_of_mem first mem_cons_self
    obtain ⟨one, hone, hat, -⟩ := hprv first mem_cons_self
    obtain ⟨two, htwo, hoth, -⟩ := hprv second hsec
    -- the last of the level is listed under the previous versions of both
    have hlis := fun found previous hfnd hfoundAt heq =>
      ((hrgt previous hfoundAt).2 last.1).mp (mem_map.mpr ⟨(found : Found),
        mem_filter.mpr ⟨hfnd, decide_eq_true heq⟩, rfl⟩)
    obtain rfl := hfor.parent_unique (hlis first one mem_cons_self hat hone) (hlis second two hsec hoth htwo)
    have htwice := (hrgt one hat).1
    simp [hone, htwo] at htwice

section

variable (version : ObjectId) (level : Nat)

theorem nodup_levelBelow_iff : ((levelBelow records db version level).map Prod.fst).Nodup ↔
      ∀ id, AtDistance records db version (level + 1) id → cachings records id ≤ 1 := by
  cases level with
  | zero =>
    unfold levelBelow
    rw [nodup_found_iff hfor]
    simp [AtDistance]
  | succ level =>
    unfold levelBelow
    rw [nodup_found_iff hfor]
    simp only [mem_levelBelow]
    constructor
    · rintro hall id ⟨between, hbet, hder⟩
      exact hall between hbet id hder
    · exact fun hall between hbet id hder => hall id ⟨between, hbet, hder⟩

theorem length_levelBelow_iff : (levelBelow records db version level).length ≤ 1 ↔
      ∀ first second, AtDistance records db version (level + 1) first →
        AtDistance records db version (level + 1) second → first = second ∧ cachings records first ≤ 1 := by
  have hnod := nodup_levelBelow_iff hfor version level
  have hmem : ∀ id, id ∈ (levelBelow records db version level).map Prod.fst ↔
      AtDistance records db version (level + 1) id := mem_levelBelow level
  simp only [← hmem] at hnod ⊢
  rw [← length_map (f := Prod.fst)]
  generalize (levelBelow records db version level).map Prod.fst = ids at hnod ⊢
  match ids with
  | [] => simp
  | [id] => simpa using hnod
  | first :: second :: rest =>
    refine iff_of_false (by simp) fun hall => ?_
    have hsec : second ∈ first :: second :: rest := mem_cons_of_mem first mem_cons_self
    have hdif := hnod.mpr fun id hid => (hall id first hid mem_cons_self).2
    obtain rfl := (hall first second mem_cons_self hsec).1
    simp at hdif

end

end

/-- The tree that is built maps each version at a distance less than the depth to its
successors if and only if none of them is found twice, and after the first level only one
is found on a level. -/
theorem getCourseSuccessors_maps_iff (hforest : IsForest records db) (version : ObjectId)
    {depth : Int} (hdepth : 1 ≤ depth) :
    ∃ tree, getCourseSuccessors records db version depth = some tree ∧
      (MapsSuccessors records db tree version depth ↔ ListedOnce records db version depth) := by
  obtain ⟨tree, htree, hlisted⟩ := getCourseSuccessors_listed hforest version hdepth
  refine ⟨tree, htree, ?_⟩
  have hroot : (((levelBelow records db version 0).map Prod.fst).Nodup ∧
      ∀ successor, successor ∈ (levelBelow records db version 0).map Prod.fst ↔ Derived records db version successor) ↔
      ∀ id, Derived records db version id → cachings records id ≤ 1 := by
    have hnodup := nodup_levelBelow_iff hforest version 0
    have hmem : ∀ id, id ∈ (levelBelow records db version 0).map Prod.fst ↔
        AtDistance records db version 1 id := mem_levelBelow 0
    simp only [AtDistance, exists_eq_left] at hnodup hmem
    rw [hnodup, and_iff_left hmem]
  constructor
  · intro hmaps
    refine ⟨hroot.mp ?_, fun distance htwo hle => ?_⟩
    · have hright := hmaps 0 (by omega) version rfl
      rwa [← listed, hlisted 0 (by omega) version rfl, if_pos rfl] at hright
    · obtain ⟨level, rfl⟩ : ∃ level, distance = level + 1 := ⟨distance - 1, by omega⟩
      rw [← length_levelBelow_iff hforest version, ← levelEntries_right_iff hforest]
      intro id hid
      have hright := hmaps level (by omega) id hid
      rwa [← listed, hlisted level (by omega) id hid, if_neg (by omega)] at hright
  · rintro ⟨hfirst, hlater⟩ distance hless id hid
    rw [← listed, hlisted distance hless id hid]
    cases distance with
    | zero =>
      obtain rfl : id = version := hid
      rw [if_pos rfl]
      exact hroot.mpr hfirst
    | succ distance =>
      rw [if_neg (Nat.succ_ne_zero distance)]
      have hsingle := hlater (distance + 2) (by omega) (by omega)
      rw [← length_levelBelow_iff hforest version, ← levelEntries_right_iff hforest] at hsingle
      exact hsingle id hid

end Trees

def savedHistory (versions : List (ObjectId × ObjectId)) : Database :=
  { structures := Dict.ofList (versions.map fun version =>
      (version.1, { root := ⟨"course", "course"⟩, previousVersion := some version.2 })) }

theorem isForest_of_saved {db : Database} (hnewer : ∀ id struct version,
    db.structures.lookup id = some struct → struct.previousVersion = some version → version < id) :
    IsForest [] db where
  previous_unique := by
    intro id struct other hsto hoth
    have hsaved := hsto.resolve_left (by simp)
    have hsame := hoth.resolve_left (by simp)
    rw [hsaved] at hsame
    rw [some.inj hsame]
  acyclic := by
    apply Acyclic.of_rank id
    rintro version successor ⟨struct, hsto, hprv⟩
    exact hnewer successor struct version (hsto.resolve_left (by simp)) hprv

theorem isForest_savedHistory {versions : List (ObjectId × ObjectId)}
    (hnewer : ∀ version ∈ versions, version.2 < version.1) : IsForest [] (savedHistory versions) := by
  apply isForest_of_saved
  intro id struct version hlook hprv
  obtain ⟨saved, hsaved, heq⟩ := mem_map.mp (Dict.mem_of_lookup_ofList hlook)
  obtain ⟨rfl, rfl⟩ := Prod.mk.inj heq
  obtain rfl := some.inj hprv
  exact hnewer saved hsaved

theorem linearHistory_maps_iff : IsForest [] (savedHistory [(1, 0), (2, 1)]) ∧ (1 : Int) ≤ 2 ∧
    ∃ tree, getCourseSuccessors [] (savedHistory [(1, 0), (2, 1)]) 0 2 = some tree ∧
      (MapsSuccessors [] (savedHistory [(1, 0), (2, 1)]) tree 0 2 ↔
        ListedOnce [] (savedHistory [(1, 0), (2, 1)]) 0 2) :=
  have hforest : IsForest [] (savedHistory [(1, 0), (2, 1)]) := isForest_savedHistory (by decide)
  ⟨hforest, by decide, getCourseSuccessors_maps_iff hforest 0 (by decide)⟩

/-- Of two versions derived from the same one, the last is listed twice. -/
theorem branchingHistory_not_mapped : IsForest [] (savedHistory [(1, 0), (2, 1), (3, 1)]) ∧
    ∃ tree, getCourseSuccessors [] (savedHistory [(1, 0), (2, 1), (3, 1)]) 0 2 = some tree ∧
      ¬ MapsSuccessors [] (savedHistory [(1, 0), (2, 1), (3, 1)]) tree 0 2 := by
  refine ⟨isForest_savedHistory (by decide), _, rfl, fun hmaps => ?_⟩
  have hat : AtDistance [] (savedHistory [(1, 0), (2, 1), (3, 1)]) 0 1 1 :=
    ⟨0, rfl, { root := ⟨"course", "course"⟩, previousVersion := some 0 }, .inr rfl, rfl⟩
  exact absurd (hmaps 1 (by decide) 1 hat).1 (by decide)

end EdxPlatform.Split
